import LinuxPrograming.Gateway.Encode

/-!
# What `msg_parse` accepts and what it leaves in the record

`msg_parse` fills the record between its checks.  A message that is rejected behind the
first check has already changed the sensor, or the sensor and the timestamp.  An object
without a numeric `sensorID` passes no check, and is accepted with the record of an earlier
message.
-/

namespace LinuxPrograming
namespace Gateway

open Lib

/-! ## Well-formed readings -/

/-- The value is an object with a numeric `sensorID` that is registered, a string `timestamp`
and a numeric `temperature`. -/
structure Carries (registered : Int → Prop) (root : Option Json) (senID : Int) (ts : Bytes)
    (temp : Rat) : Prop where
  object : ∃ members, root = some (.object members)
  sensor : ∃ valuedouble, Json.getObjectItem root (bytes "sensorID") =
    some (.number senID valuedouble)
  known : registered senID
  timestamp : Json.getObjectItem root (bytes "timestamp") = some (.string ts)
  temperature : ∃ valueint, Json.getObjectItem root (bytes "temperature") =
    some (.number valueint temp)

/-- `t` is `d` rounded to one decimal, away from zero where two decimals are equally near. -/
def NearestTenth (d t : Rat) : Prop :=
  ∃ n : Int, t = n / 10 ∧ |d - t| ≤ 1 / 20 ∧ (|d - t| = 1 / 20 → |d| < |t|)

/-- `msg_parse` returns 0 for the well-formed readings and no other text, and then the record
holds the reading. -/
def AcceptsReadings (registered : Int → Prop) (cJSONParse : Bytes → Option Json)
    (senIDs : Int → Checked Int) (parsed : Msg) (msg : Bytes) : Prop :=
  ∃ ret parsed', msgParse cJSONParse senIDs parsed msg = .ok (ret, parsed') ∧
    (ret = 0 ↔ ∃ senID ts temp, Carries registered (cJSONParse msg) senID ts temp) ∧
    (ret = 0 → ∃ temp,
      Carries registered (cJSONParse msg) parsed'.senID parsed'.ts temp ∧
        NearestTenth temp parsed'.temp)

/-- The value is no object, or an object with a numeric `sensorID`. -/
def NamesSensor (root : Option Json) : Prop :=
  ∀ members, root = some (.object members) → ∃ senID valuedouble,
    Json.getObjectItem root (bytes "sensorID") = some (.number senID valuedouble)

variable {registered : Int → Prop} {root : Option Json}

theorem timestampOf_eq_some {v : Json} {ts : Bytes} :
    timestampOf v = some ts ↔
      Json.getObjectItem (some v) (bytes "timestamp") = some (.string ts) := by
  rw [timestampOf]
  split
  · next s hs => simp [hs]
  · next hno =>
    refine iff_of_false (by simp) fun hs => hno ts hs

theorem temperatureOf_eq_some {v : Json} {temp : Rat} :
    temperatureOf v = some temp ↔
      ∃ i, Json.getObjectItem (some v) (bytes "temperature") = some (.number i temp) := by
  rw [temperatureOf]
  split
  · next i d hs => simp [hs]
  · next hno =>
    refine iff_of_false (by simp) ?_
    rintro ⟨i, hs⟩
    exact hno i temp hs

/-- The cases of `view`, read back. -/
theorem view_sensor_iff {senID : Int} {ts : Option Bytes} {temp : Option Rat} :
    view root = .sensor senID ts temp ↔ ∃ members, root = some (.object members) ∧
      (∃ d, Json.getObjectItem root (bytes "sensorID") = some (.number senID d)) ∧
      timestampOf (.object members) = ts ∧ temperatureOf (.object members) = temp := by
  unfold view
  split
  · next members =>
    split
    · next n d hs =>
      constructor
      · intro h
        obtain ⟨rfl, rfl, rfl⟩ := View.sensor.inj h
        exact ⟨members, rfl, ⟨d, hs⟩, rfl, rfl⟩
      · rintro ⟨members', hroot, ⟨d', hd'⟩, rfl, rfl⟩
        obtain rfl := Json.object.inj (Option.some.inj hroot)
        rw [hs] at hd'
        obtain ⟨rfl, -⟩ := Json.number.inj (Option.some.inj hd')
        rfl
    · next hno =>
      refine iff_of_false (by simp) ?_
      rintro ⟨members', hroot, ⟨d', hd'⟩, -⟩
      exact hno _ _ hd'
  · next hno =>
    refine iff_of_false (by simp) ?_
    rintro ⟨members', hroot, -⟩
    exact hno _ hroot

theorem carries_iff_view {senID : Int} {ts : Bytes} {temp : Rat} :
    Carries registered root senID ts temp ↔
      registered senID ∧ view root = .sensor senID (some ts) (some temp) := by
  rw [view_sensor_iff]
  constructor
  · intro h
    obtain ⟨members, rfl⟩ := h.object
    exact ⟨h.known, members, rfl, h.sensor, timestampOf_eq_some.mpr h.timestamp,
      temperatureOf_eq_some.mpr h.temperature⟩
  · rintro ⟨hreg, members, rfl, hsen, hts, htemp⟩
    exact ⟨⟨members, rfl⟩, hsen, hreg, timestampOf_eq_some.mp hts, temperatureOf_eq_some.mp htemp⟩

theorem namesSensor_iff : NamesSensor root ↔ view root ≠ .unnamed := by
  unfold NamesSensor view
  split
  · next members =>
    split
    · next n d hs => exact iff_of_true (fun _ _ => ⟨n, d, hs⟩) (by simp)
    · next hno =>
      refine iff_of_false (fun h => ?_) (by simp)
      obtain ⟨n, d, hs⟩ := h members rfl
      exact hno n d hs
  · next hno => exact iff_of_true (fun members hroot => absurd hroot (hno members)) (by simp)

section

variable {cJSONParse : Bytes → Option Json} {senIDs : Int → Checked Int} {msg : Bytes}

section

variable {x : Int} {ts : Option Bytes} {temp : Option Rat} (parsed : Msg)

theorem msgParse_unregistered (hview : view (cJSONParse msg) = .sensor x ts temp)
    (hsearch : search senIDs x 0 5 = .ok false) :
    msgParse cJSONParse senIDs parsed msg = .ok (-1, parsed) := by
  rw [msgParse_sensor senIDs parsed hview, hsearch, ok_bind]
  rfl

/-- Without a timestamp the sensor has been stored already. -/
theorem msgParse_no_timestamp (hview : view (cJSONParse msg) = .sensor x none temp)
    (hsearch : search senIDs x 0 5 = .ok true) :
    msgParse cJSONParse senIDs parsed msg = .ok (-1, { parsed with senID := x }) := by
  rw [msgParse_sensor senIDs parsed hview, hsearch, ok_bind]
  rfl

theorem msgParse_long_timestamp {t : Bytes}
    (hview : view (cJSONParse msg) = .sensor x (some t) temp)
    (hsearch : search senIDs x 0 5 = .ok true) (hlen : tsSize ≤ t.length) :
    msgParse cJSONParse senIDs parsed msg = .error .overflow := by
  rw [msgParse_sensor senIDs parsed hview, hsearch, ok_bind, if_pos rfl]
  dsimp only
  rw [strcpy_of_le hlen, error_bind]

theorem msgParse_no_temperature {t : Bytes}
    (hview : view (cJSONParse msg) = .sensor x (some t) none)
    (hsearch : search senIDs x 0 5 = .ok true) (hlen : t.length < tsSize) :
    msgParse cJSONParse senIDs parsed msg = .ok (-1, { parsed with senID := x, ts := t }) := by
  rw [msgParse_sensor senIDs parsed hview, hsearch, ok_bind, if_pos rfl]
  dsimp only
  rw [strcpy_of_lt hlen, ok_bind]
  rfl

theorem msgParse_reading {t : Bytes} {d : Rat}
    (hview : view (cJSONParse msg) = .sensor x (some t) (some d))
    (hsearch : search senIDs x 0 5 = .ok true) (hlen : t.length < tsSize) :
    msgParse cJSONParse senIDs parsed msg = .ok (0, ⟨t, roundTenth d, x⟩) := by
  rw [msgParse_sensor senIDs parsed hview, hsearch, ok_bind, if_pos rfl]
  dsimp only
  rw [strcpy_of_lt hlen, ok_bind]
  rfl

end

/-- With a search that finds exactly the registered IDs, `msg_parse` accepts exactly the
well-formed readings unless the text is an object without a numeric `sensorID`. -/
theorem acceptsReadings_iff
    (hsearch : ∀ x, ∃ found, search senIDs x 0 5 = .ok found ∧ (found = true ↔ registered x))
    (hts : ∀ ts, Json.getObjectItem (cJSONParse msg) (bytes "timestamp") = some (.string ts) →
      ts.length ≤ 63) (parsed : Msg) :
    AcceptsReadings registered cJSONParse senIDs parsed msg ↔ NamesSensor (cJSONParse msg) := by
  have hcarries : ∀ senID ts temp, Carries registered (cJSONParse msg) senID ts temp ↔
      registered senID ∧ view (cJSONParse msg) = .sensor senID (some ts) (some temp) :=
    fun _ _ _ => carries_iff_view
  simp only [AcceptsReadings, namesSensor_iff, hcarries]
  cases hview : view (cJSONParse msg) with
  | other =>
    refine iff_of_true ⟨-1, parsed, msgParse_other senIDs parsed hview, ?_, by simp⟩ (by simp)
    exact iff_of_false (by simp) (by simp)
  | unnamed =>
    refine iff_of_false ?_ (by simp)
    rintro ⟨ret, parsed', hparse, hiff, -⟩
    rw [msgParse_unnamed senIDs parsed hview] at hparse
    obtain ⟨rfl, -⟩ := Prod.mk.inj (Except.ok.inj hparse)
    simpa using hiff.mp rfl
  | sensor x ts temp =>
    refine iff_of_true ?_ (by simp)
    obtain ⟨found, hfound, hreg⟩ := hsearch x
    cases found with
    | false =>
      refine ⟨-1, parsed, msgParse_unregistered parsed hview hfound, ?_, by simp⟩
      have hno : ¬ registered x := hreg.not.mp (by decide)
      refine iff_of_false (by simp) ?_
      rintro ⟨y, t, d, hy, heq⟩
      exact hno ((View.sensor.inj heq).1 ▸ hy)
    | true =>
      cases ts with
      | none =>
        refine ⟨-1, _, msgParse_no_timestamp parsed hview hfound, ?_, by simp⟩
        exact iff_of_false (by simp) (by simp)
      | some t =>
        obtain ⟨members, hroot, -, ht, -⟩ := view_sensor_iff.mp hview
        have hlen := hts t (hroot ▸ timestampOf_eq_some.mp ht)
        have hfits : t.length < tsSize := Nat.lt_succ_of_le hlen
        cases temp with
        | none =>
          refine ⟨-1, _, msgParse_no_temperature parsed hview hfound hfits, ?_, by simp⟩
          exact iff_of_false (by simp) (by simp)
        | some d =>
          have hx : registered x := hreg.mp rfl
          refine ⟨0, _, msgParse_reading parsed hview hfound hfits, ?_, fun _ => ⟨d, ⟨hx, rfl⟩,
            roundTenth_nearest d⟩⟩
          exact iff_of_true rfl ⟨x, t, d, hx, rfl⟩

/-- The array of the IDs 1 to 5. -/
def fiveIDs : Slots := fun k => [1, 2, 3, 4, 5][k]?

theorem fiveIDs_slots : ∀ k, fiveIDs k = [(1 : Int), 2, 3, 4, 5][k]? := fun _ => rfl

/-- The empty object is accepted, with whatever the record held. -/
theorem acceptsReadings_unnamed :
    msgParse (parseOne (bytes "\x7b\x7d") (.object [])) (readPast fiveIDs 0)
        ⟨bytes "2023/11/21 10:00:00", 20, 1⟩ (bytes "\x7b\x7d") =
      .ok (0, ⟨bytes "2023/11/21 10:00:00", 20, 1⟩) ∧
    ¬ AcceptsReadings (· ∈ [1, 2, 3, 4, 5]) (parseOne (bytes "\x7b\x7d") (.object []))
      (readPast fiveIDs 0) ⟨bytes "2023/11/21 10:00:00", 20, 1⟩
      (bytes "\x7b\x7d") := by
  have hparse : msgParse (parseOne (bytes "\x7b\x7d") (.object []))
      (readPast fiveIDs 0) ⟨bytes "2023/11/21 10:00:00", 20, 1⟩
      (bytes "\x7b\x7d") = .ok (0, ⟨bytes "2023/11/21 10:00:00", 20, 1⟩) :=
    msgParse_unnamed _ _ (by rw [parseOne, if_pos rfl]; rfl)
  refine ⟨hparse, ?_⟩
  rintro ⟨ret, parsed', hret, hiff, -⟩
  rw [hparse] at hret
  obtain ⟨rfl, -⟩ := Prod.mk.inj (Except.ok.inj hret)
  obtain ⟨senID, ts, temp, hcarries⟩ := hiff.mp rfl
  obtain ⟨d, hsensor⟩ := hcarries.sensor
  rw [parseOne, if_pos rfl] at hsensor
  cases hsensor

/-- A complete reading of a registered sensor is accepted. -/
theorem acceptsReadings_iff_reading :
    AcceptsReadings (· ∈ [1, 2, 3, 4, 5])
      (parseOne reading₁ (messageJson (bytes "2023/11/21 10:00:00") 1 20.5))
      (readPast fiveIDs 0) ⟨[], 0, 0⟩ reading₁ := by
  refine (acceptsReadings_iff (fun x => ?_) (fun ts hts => ?_) ⟨[], 0, 0⟩).mpr ?_
  · obtain ⟨found, hfound, hiff⟩ := search_increasing fiveIDs_slots (by decide) 0 x
    exact ⟨found, hfound, hiff.trans (or_iff_left (by omega))⟩
  · rw [parseOne, if_pos rfl] at hts
    obtain rfl : bytes "2023/11/21 10:00:00" = ts := Json.string.inj (Option.some.inj hts)
    decide
  · rw [parseOne, if_pos rfl]
    exact fun _ _ => ⟨1, _, rfl⟩

/-! ## The record of a rejected message -/

/-- `msg_parse` returns, and unless it returns 0 the record is what it was. -/
def Untouched (cJSONParse : Bytes → Option Json) (senIDs : Int → Checked Int) (parsed : Msg)
    (msg : Bytes) : Prop :=
  ∃ ret parsed', msgParse cJSONParse senIDs parsed msg = .ok (ret, parsed') ∧
    (ret ≠ 0 → parsed' = parsed)

/-- A message of a registered sensor has a timestamp that fits and a temperature, or what it
has of them is in the record already. -/
def StoresNothingNew (senIDs : Int → Checked Int) (parsed : Msg) : View → Prop
  | .sensor x none _ => search senIDs x 0 5 = .ok true → x = parsed.senID
  | .sensor x (some t) temp => search senIDs x 0 5 = .ok true →
      t.length < tsSize ∧ (temp = none → x = parsed.senID ∧ t = parsed.ts)
  | _ => True

theorem untouched_of_eq {ret : Int} {parsed parsed' : Msg}
    (h : msgParse cJSONParse senIDs parsed msg = .ok (ret, parsed')) (hret : ret ≠ 0) :
    Untouched cJSONParse senIDs parsed msg ↔ parsed' = parsed := by
  constructor
  · rintro ⟨ret', p, hp, hsame⟩
    rw [h] at hp
    obtain ⟨rfl, rfl⟩ := Prod.mk.inj (Except.ok.inj hp)
    exact hsame hret
  · exact fun hsame => ⟨ret, parsed', h, fun _ => hsame⟩

theorem untouched_iff (hsearch : ∀ x, ∃ found, search senIDs x 0 5 = .ok found) (parsed : Msg)
    (msg : Bytes) :
    Untouched cJSONParse senIDs parsed msg ↔
      StoresNothingNew senIDs parsed (view (cJSONParse msg)) := by
  cases hview : view (cJSONParse msg) with
  | other =>
    exact iff_of_true ⟨_, _, msgParse_other senIDs parsed hview, fun _ => rfl⟩ trivial
  | unnamed =>
    exact iff_of_true ⟨_, _, msgParse_unnamed senIDs parsed hview, fun _ => rfl⟩ trivial
  | sensor x ts temp =>
    obtain ⟨found, hfound⟩ := hsearch x
    cases found with
    | false =>
      refine iff_of_true ⟨_, _, msgParse_unregistered parsed hview hfound, fun _ => rfl⟩ ?_
      cases ts with
      | none => exact fun htrue => nomatch hfound.symm.trans htrue
      | some t => exact fun htrue => nomatch hfound.symm.trans htrue
    | true =>
      cases ts with
      | none =>
        rw [untouched_of_eq (msgParse_no_timestamp parsed hview hfound) (by decide),
          StoresNothingNew, imp_iff_right hfound]
        refine ⟨fun hsame => congrArg Msg.senID hsame, fun hx => ?_⟩
        rw [hx]
      | some t =>
        rw [StoresNothingNew, imp_iff_right hfound]
        by_cases hlen : t.length < tsSize
        · rw [and_iff_right hlen]
          cases temp with
          | none =>
            rw [untouched_of_eq (msgParse_no_temperature parsed hview hfound hlen) (by decide),
              imp_iff_right rfl]
            refine ⟨fun hsame => ⟨congrArg Msg.senID hsame, congrArg Msg.ts hsame⟩, ?_⟩
            rintro ⟨hx, ht⟩
            rw [hx, ht]
          | some d =>
            refine iff_of_true ?_ (by simp)
            exact ⟨_, _, msgParse_reading parsed hview hfound hlen, fun hret => absurd rfl hret⟩
        · refine iff_of_false ?_ fun hfits => hlen hfits.1
          rintro ⟨ret, parsed', hparse, -⟩
          rw [msgParse_long_timestamp parsed hview hfound (Nat.le_of_not_lt hlen)] at hparse
          cases hparse

/-- The record over a sequence of messages. -/
def recordNext (cJSONParse : Bytes → Option Json) (senIDs : Int → Checked Int) (parsed : Msg)
    (msg : Bytes) : Option Msg :=
  match msgParse cJSONParse senIDs parsed msg with
  | .ok (_, parsed') => some parsed'
  | .error _ => none

/-- The record is that of one message, or as it was before the first one. -/
def Unmixed (cJSONParse : Bytes → Option Json) (parsed : Msg) (msgs : List Bytes) (t : Msg) :
    Prop :=
  t = parsed ∨ ∃ msg ∈ msgs, ∃ senID ts temp,
    view (cJSONParse msg) = .sensor senID (some ts) (some temp) ∧
      t = ⟨ts, roundTenth temp, senID⟩

theorem recordNext_unmixed (hsearch : ∀ x, ∃ found, search senIDs x 0 5 = .ok found)
    {parsed t : Msg} (hmeets : StoresNothingNew senIDs parsed (view (cJSONParse msg)))
    (hnext : recordNext cJSONParse senIDs parsed msg = some t) :
    Unmixed cJSONParse parsed [msg] t := by
  obtain ⟨ret, parsed', hparse, hsame⟩ := (untouched_iff hsearch parsed msg).mpr hmeets
  rw [recordNext, hparse] at hnext
  obtain rfl := Option.some.inj hnext
  by_cases hret : ret = 0
  · subst hret
    cases hview : view (cJSONParse msg) with
    | other =>
      rw [msgParse_other senIDs parsed hview] at hparse
      exact absurd (Prod.mk.inj (Except.ok.inj hparse)).1 (by decide)
    | unnamed =>
      rw [msgParse_unnamed senIDs parsed hview] at hparse
      exact Or.inl (Prod.mk.inj (Except.ok.inj hparse)).2.symm
    | sensor x ts temp =>
      obtain ⟨found, hfound⟩ := hsearch x
      obtain ⟨-, t, q, rfl, -, rfl, rfl⟩ :=
        (msgParse_sensor_eq_ok_zero hview hfound parsed').mp hparse
      exact Or.inr ⟨msg, List.mem_singleton_self msg, x, t, q, hview, rfl⟩
  · exact Or.inl (hsame hret)

/-- Which messages leave the record untouched unless they are accepted, and that over any
sequence of such messages the record never holds fields of two of them. -/
theorem record_untouched {senIDs : Slots} {a₀ a₁ a₂ a₃ a₄ : Int}
    (hslots : ∀ k, senIDs k = [a₀, a₁, a₂, a₃, a₄][k]?) (after : Int)
    (cJSONParse : Bytes → Option Json) :
    (∀ parsed msg, Untouched cJSONParse (readPast senIDs after) parsed msg ↔
      StoresNothingNew (readPast senIDs after) parsed (view (cJSONParse msg))) ∧
    ∀ parsed msgs t,
      Meets (recordNext cJSONParse (readPast senIDs after))
        (fun p msg => StoresNothingNew (readPast senIDs after) p (view (cJSONParse msg)))
        parsed msgs →
      run (recordNext cJSONParse (readPast senIDs after)) parsed msgs = some t →
        Unmixed cJSONParse parsed msgs t := by
  have hsearch : ∀ x, ∃ found, search (readPast senIDs after) x 0 5 = .ok found := by
    intro x
    obtain ⟨found, hfound, -⟩ := search_full hslots after x
    exact ⟨found, hfound⟩
  refine ⟨untouched_iff hsearch, fun parsed msgs t hmeets hrun => ?_⟩
  induction msgs generalizing parsed with
  | nil => exact Or.inl (Option.some.inj hrun).symm
  | cons msg msgs ih =>
    obtain ⟨u, hu, hrest⟩ := run_cons_eq_some.mp hrun
    rcases ih u (hmeets.2 u hu) hrest with rfl | ⟨m, hm, hreading⟩
    · rcases recordNext_unmixed hsearch hmeets.1 hu with hsame | ⟨m, hm, hreading⟩
      · exact Or.inl hsame
      · exact Or.inr ⟨m, List.mem_singleton.mp hm ▸ List.mem_cons_self, hreading⟩
    · exact Or.inr ⟨m, List.mem_cons_of_mem msg hm, hreading⟩

end

/-- An object with a sensor and nothing else. -/
def sensorOnly : Bytes := bytes "\x7b\"sensorID\":2\x7d"

/-- A reading, a message with a sensor only, and an empty object. -/
def parseMixed (msg : Bytes) : Option Json :=
  if msg = sensorOnly then some (.object [(bytes "sensorID", .number 2 2)])
  else if msg = bytes "\x7b\x7d" then some (.object [])
  else some (messageJson (bytes "2023/11/21 10:00:00") 1 20)

/-- The message of sensor 2 is rejected, but the record of sensor 1 now names sensor 2, and
the empty object has it accepted. -/
theorem record_mixed :
    msgParse parseMixed (readPast fiveIDs 0)
        ⟨bytes "2023/11/21 10:00:00", 20, 1⟩ sensorOnly =
      .ok (-1, ⟨bytes "2023/11/21 10:00:00", 20, 2⟩) ∧
    msgParse parseMixed (readPast fiveIDs 0)
        ⟨bytes "2023/11/21 10:00:00", 20, 2⟩ (bytes "\x7b\x7d") =
      .ok (0, ⟨bytes "2023/11/21 10:00:00", 20, 2⟩) ∧
    ¬ Untouched parseMixed (readPast fiveIDs 0)
      ⟨bytes "2023/11/21 10:00:00", 20, 1⟩ sensorOnly := by
  have hview : view (parseMixed sensorOnly) = .sensor 2 none none := by
    rw [parseMixed, if_pos rfl]
    rfl
  have hunnamed : view (parseMixed (bytes "\x7b\x7d")) = .unnamed := by
    rw [parseMixed, if_neg (by decide), if_pos rfl]
    rfl
  have hfound : search (readPast fiveIDs 0) 2 0 5 = .ok true :=
    search_registered fiveIDs_slots (by decide) 0 (by decide)
  have hreject := msgParse_no_timestamp ⟨bytes "2023/11/21 10:00:00", 20, 1⟩ hview hfound
  refine ⟨hreject, msgParse_unnamed _ _ hunnamed, fun huntouched => ?_⟩
  have hsame := (untouched_of_eq hreject (by decide)).mp huntouched
  exact absurd (congrArg Msg.senID hsame) (by decide)

/-- A complete reading followed by an empty object. -/
theorem record_untouched_two :
    Unmixed parseMixed ⟨[], 0, 0⟩ [reading₁, bytes "\x7b\x7d"]
      ⟨bytes "2023/11/21 10:00:00", roundTenth 20, 1⟩ := by
  have hview : view (parseMixed reading₁) =
      .sensor 1 (some (bytes "2023/11/21 10:00:00")) (some 20) := by
    rw [parseMixed, if_neg (by decide), if_neg (by decide)]
    rfl
  have hunnamed : view (parseMixed (bytes "\x7b\x7d")) = .unnamed := by
    rw [parseMixed, if_neg (by decide), if_pos rfl]
    rfl
  have hfound : search (readPast fiveIDs 0) 1 0 5 = .ok true :=
    search_registered fiveIDs_slots (by decide) 0 (by decide)
  have hfirst : recordNext parseMixed (readPast fiveIDs 0) ⟨[], 0, 0⟩ reading₁ =
      some ⟨bytes "2023/11/21 10:00:00", roundTenth 20, 1⟩ := by
    rw [recordNext, msgParse_reading ⟨[], 0, 0⟩ hview hfound (by decide)]
  refine (record_untouched fiveIDs_slots 0 parseMixed).2 ⟨[], 0, 0⟩ _ _ ⟨?_, fun u _ => ⟨?_,
    fun _ _ => trivial⟩⟩ (run_cons_eq_some.mpr ⟨_, hfirst, ?_⟩)
  · dsimp only
    rw [hview]
    exact fun _ => ⟨by decide, fun hnone => nomatch hnone⟩
  · dsimp only
    rw [hunnamed]
    trivial
  · rw [run_singleton, recordNext, msgParse_unnamed _ _ hunnamed]

end Gateway
end LinuxPrograming
