import LinuxPrograming.Gateway.DataMgr

/-!
# The reports of `data_mgr`

From its fifth reading on, a sensor has a mean to report.  `data_mgr` marks "no mean yet" by
the value -1 and takes every mean up to 0 for that mark.
-/

namespace LinuxPrograming
namespace Gateway

open Lib

def Msg.reading (r : Msg) : Reading := (r.senID, r.temp)

/-- The loop of `data_mgr` over a sequence of readings that `msg_parse` accepted: for each one
the line written to the pipe, if one is. -/
def reportAll (w : Windows) : List Msg → Checked (Windows × List (Option Bytes))
  | [] => pure (w, [])
  | r :: rs => do
    let (w, tempAvg) ← accept w r.senID r.temp
    let line ← report r tempAvg
    let (w, lines) ← reportAll w rs
    pure (w, line :: lines)

/-- The class of a mean. -/
def recordFormat (mean : Rat) : Bytes :=
  if 26 ≤ mean then sensorHot else if mean ≤ 24 then sensorCold else sensorTemp

/-- The record of a reading that completes a mean. -/
def record (r : Msg) (mean : Rat) : Bytes :=
  vsprintf (recordFormat mean ++ bytes "\n") [.str r.ts, .int r.senID, .double mean]

/-- The record due for `r` when `xs` are the temperatures of its sensor up to it. -/
def dueRecord (r : Msg) (xs : List Rat) : Option Bytes :=
  if xs.length < 5 then none else some (record r (meanOfLastFive xs))

/-- Every reading makes `data_mgr` write the record due for it and nothing else. -/
def Reported (rs : List Msg) : Prop :=
  ∃ w out, reportAll Windows.init rs = .ok (w, out) ∧ out.length = rs.length ∧
    ∀ n r, rs[n]? = some r →
      out[n]? = some (dueRecord r (ofSensor r.senID ((rs.take (n + 1)).map Msg.reading)))

/-- A mean that is due is positive, and its record fits `msg` of `write_to_pipe`. -/
def Reportable (r : Msg) (xs : List Rat) : Prop :=
  5 ≤ xs.length → 0 < meanOfLastFive xs ∧ (record r (meanOfLastFive xs)).length < osMsgSize

theorem report_eq {r : Msg} {mean : Rat} (hpos : 0 < mean) :
    report r mean = (do
      let line ← strcpy osMsgSize (record r mean)
      pure (some line)) := by
  rw [report, if_neg (not_le.mpr hpos), record, recordFormat]
  split
  · rfl
  · split
    · rfl
    · rfl

theorem report_eq_due_iff (r : Msg) (xs : List Rat) :
    report r (meanOfLastFive xs) = .ok (dueRecord r xs) ↔ Reportable r xs := by
  rw [dueRecord, Reportable]
  by_cases hlen : xs.length < 5
  · rw [if_pos hlen, meanOfLastFive_of_lt hlen]
    exact iff_of_true (by rw [report, if_pos (by decide)]; rfl) fun hle =>
      absurd hlen (Nat.not_lt.mpr hle)
  · rw [if_neg hlen, imp_iff_right (Nat.le_of_not_lt hlen)]
    by_cases hpos : 0 < meanOfLastFive xs
    · rw [report_eq hpos, and_iff_right hpos]
      by_cases hfit : (record r (meanOfLastFive xs)).length < osMsgSize
      · rw [strcpy_of_lt hfit, ok_bind]
        exact iff_of_true rfl hfit
      · rw [strcpy_of_le (Nat.le_of_not_lt hfit), error_bind]
        exact iff_of_false (by simp) hfit
    · rw [report, if_pos (not_lt.mp hpos)]
      exact iff_of_false (by simp) fun h => hpos h.1

theorem forall_getElem?_cons {α : Type} {a : α} {l : List α} {P : Nat → α → Prop} :
    (∀ n b, (a :: l)[n]? = some b → P n b) ↔ P 0 a ∧ ∀ n b, l[n]? = some b → P (n + 1) b := by
  constructor
  · exact fun h => ⟨h 0 a rfl, fun n b hb => h (n + 1) b hb⟩
  · rintro ⟨h0, hrest⟩ n b hb
    cases n with
    | zero => exact Option.some.inj hb ▸ h0
    | succ n => exact hrest n b hb

/-- From any windows: the records written are those that `f` says exactly when each single
report is. -/
theorem reportAll_iff {w : Windows} {before : List Reading} (h : w.Rep before)
    (f : Msg → List Rat → Option Bytes) {rs : List Msg}
    (hrs : ∀ r ∈ rs, 1 ≤ r.senID ∧ r.senID ≤ 5) :
    (∃ w' out, reportAll w rs = .ok (w', out) ∧ out.length = rs.length ∧
      ∀ n r, rs[n]? = some r → out[n]? =
        some (f r (ofSensor r.senID (before ++ (rs.take (n + 1)).map Msg.reading)))) ↔
    ∀ n r, rs[n]? = some r →
      report r (meanOfLastFive (ofSensor r.senID (before ++ (rs.take (n + 1)).map Msg.reading))) =
        .ok (f r (ofSensor r.senID (before ++ (rs.take (n + 1)).map Msg.reading))) := by
  induction rs generalizing w before with
  | nil => exact iff_of_true ⟨w, [], rfl, rfl, by simp⟩ (by simp)
  | cons r rs ih =>
    obtain ⟨h1, h5⟩ := hrs r List.mem_cons_self
    obtain ⟨w₁, hacc, hrep⟩ := accept_spec h h1 h5 r.temp
    change w₁.Rep (before ++ [r.reading]) at hrep
    have htail := ih hrep fun r' hr' => hrs r' (List.mem_cons_of_mem r hr')
    have hself : ofSensor r.senID (before ++ [r.reading]) = ofSensor r.senID before ++ [r.temp] :=
      ofSensor_append_self r.senID before r.temp
    have hshift : ∀ n, before ++ ((r :: rs).take (n + 1 + 1)).map Msg.reading =
        before ++ [r.reading] ++ (rs.take (n + 1)).map Msg.reading := by
      intro n
      rw [List.take_succ_cons, List.map_cons, List.append_assoc]
      rfl
    have hrun : reportAll w (r :: rs) = (do
        let line ← report r (meanOfLastFive (ofSensor r.senID before ++ [r.temp]))
        let (w, lines) ← reportAll w₁ rs
        pure (w, line :: lines)) := by
      rw [reportAll, hacc, ok_bind]
    simp only [forall_getElem?_cons, hshift]
    rw [List.take_succ_cons, List.take_zero, List.map_singleton, hself, hrun, ← htail]
    constructor
    · rintro ⟨w', out, hout, hlen, hline, hlines⟩
      obtain ⟨line, hreport, hrest⟩ := bind_eq_ok.mp hout
      obtain ⟨⟨v, lines⟩, hv, hpair⟩ := bind_eq_ok.mp hrest
      obtain ⟨rfl, rfl⟩ := Prod.mk.inj (Except.ok.inj hpair)
      rw [hreport, Option.some.inj hline]
      exact ⟨rfl, v, lines, hv, Nat.succ.inj hlen, hlines⟩
    · rintro ⟨hline, w', out, hout, hlen, hlines⟩
      rw [hline, ok_bind, hout, ok_bind]
      exact ⟨w', _, rfl, congrArg Nat.succ hlen, rfl, hlines⟩

/-- Every reading of a sensor from its fifth one on is reported, once and in its class,
exactly when all the means that are due are positive and their records fit. -/
theorem reported_iff {rs : List Msg} (hrs : ∀ r ∈ rs, 1 ≤ r.senID ∧ r.senID ≤ 5) :
    Reported rs ↔ ∀ n r, rs[n]? = some r →
      Reportable r (ofSensor r.senID ((rs.take (n + 1)).map Msg.reading)) := by
  refine (reportAll_iff Windows.init_rep dueRecord hrs).trans ?_
  refine forall_congr' fun n => forall_congr' fun r => imp_congr_right fun _ => ?_
  exact report_eq_due_iff r _

/-- Five readings of one sensor. -/
def fiveReadings (temp : Rat) : List Msg :=
  List.replicate 5 ⟨bytes "2023/11/21 10:00:00", temp, 1⟩

/-- Five readings of 0 degrees are due a report of cold and get none. -/
theorem reported_freezing :
    ((reportAll Windows.init (fiveReadings 0)).toOption.map Prod.snd =
      some (List.replicate 5 none)) ∧
    dueRecord ⟨bytes "2023/11/21 10:00:00", 0, 1⟩ [0, 0, 0, 0, 0] =
      some (bytes ("2023/11/21 10:00:00 [WARNING]: The sensor node with ID '1' reports it's " ++
        "cold (avg temperature = <0.0>).\n")) ∧
    ¬ Reported (fiveReadings 0) := by
  refine ⟨by decide +kernel, by decide +kernel, fun hreported => ?_⟩
  have hdue := (reportAll_iff Windows.init_rep dueRecord (by decide)).mp hreported 4
    ⟨bytes "2023/11/21 10:00:00", 0, 1⟩ rfl
  have hmean := ((report_eq_due_iff _ _).mp hdue (by decide)).1
  exact absurd hmean (by decide +kernel)

/-- Five readings of 20 degrees. -/
theorem reported_cold : Reported (fiveReadings 20) := by
  refine (reported_iff (by decide)).mpr ?_
  have hall : ∀ n < 5, Reportable ⟨bytes "2023/11/21 10:00:00", 20, 1⟩
      (ofSensor 1 (((fiveReadings 20).take (n + 1)).map Msg.reading)) := by
    unfold Reportable
    decide +kernel
  intro n r hr
  have hn : n < 5 := (List.getElem?_eq_some_iff.mp hr).1
  obtain rfl : r = ⟨bytes "2023/11/21 10:00:00", 20, 1⟩ :=
    List.eq_of_mem_replicate (List.mem_of_getElem? hr)
  exact hall n hn

section

variable {cJSONParse : Bytes → Option Json} {senIDs : Int → Checked Int}

/-- The loop of `data_mgr` over a sequence of messages. -/
def handleAll (cJSONParse : Bytes → Option Json) (senIDs : Int → Checked Int) (s : DataMgr) :
    List Bytes → Checked (DataMgr × List (Option Bytes))
  | [] => pure (s, [])
  | msg :: msgs => do
    let (s, line) ← handle cJSONParse senIDs s msg
    let (s, lines) ← handleAll cJSONParse senIDs s msgs
    pure (s, line :: lines)

/-- Over accepted messages the loop reports what it does over their readings. -/
theorem handleAll_accepted {msgs : List Bytes} {rs : List Msg}
    (h : List.Forall₂ (fun msg r => ∀ parsed,
      msgParse cJSONParse senIDs parsed msg = .ok (0, r)) msgs rs) (s : DataMgr) :
    (fun p => (p.1.windows, p.2)) <$> handleAll cJSONParse senIDs s msgs =
      reportAll s.windows rs := by
  induction h generalizing s with
  | nil => rfl
  | @cons msg r msgs rs hhead _ ih =>
    rw [handleAll, handle_of_accepted (hhead s.parsed), reportAll]
    rcases accept s.windows r.senID r.temp with e | ⟨w, tempAvg⟩
    · rfl
    · rcases hline : report r tempAvg with e | line
      · rw [ok_bind, ok_bind]
        dsimp only
        rw [hline]
        rfl
      · rw [ok_bind, ok_bind]
        dsimp only
        rw [hline, ok_bind, ok_bind, ← ih ⟨r, w⟩]
        rw [pure_eq_ok, ok_bind]
        dsimp only
        rcases handleAll cJSONParse senIDs ⟨r, w⟩ msgs with e | ⟨t, lines⟩
        · rfl
        · rfl

end

end Gateway
end LinuxPrograming
