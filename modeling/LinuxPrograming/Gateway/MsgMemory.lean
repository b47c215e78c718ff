import LinuxPrograming.Gateway.Msg
import LinuxPrograming.Gateway.RoomMemory
import LinuxPrograming.Lib.DoubleArith

/-!
# `msg_parse` in memory

`msg_parse` on the `cJSON` structures that the parser built, with what it frees, and with the
temperature as the `double` that it computes.  `msgParse` tells what it does from the values alone.
-/

namespace LinuxPrograming
namespace Gateway

open Lib Cjson

/-! ## The function -/

/-- `msg_t` as it is in memory. -/
structure MsgIn where
  ts : Bytes
  temp : Double
  senID : Int

/-- `strcpy(ts, valuestring)`, where `valuestring` may be `NULL`. -/
def copyString (size : Nat) : Option Bytes → Checked Bytes
  | none => throw .null
  | some s => strcpy size s

/-- `msg_parse` from the lookup of `temperature` on. -/
def msgTemperatureIn (h : Heap Node) (msgRoot : Option Nat) (parsed : MsgIn) :
    Checked (Heap Node × Int × MsgIn) := do
  let temp ← Cjson.getObjectItem h msgRoot (bytes "temperature") false
  let isNumber ← isType h temp cJSONNumber
  if isNumber then do
    let node ← load h temp
    let h ← cJSONDelete h msgRoot
    pure (h, 0, { parsed with temp := node.data.valuedouble.tenth })
  else do
    let h ← cJSONDelete h temp
    pure (h, -1, parsed)

/-- `msg_parse` from the lookup of `timestamp` on. -/
def msgTimestampIn (h : Heap Node) (msgRoot : Option Nat) (parsed : MsgIn) :
    Checked (Heap Node × Int × MsgIn) := do
  let ts ← Cjson.getObjectItem h msgRoot (bytes "timestamp") false
  let isString ← isType h ts cJSONString
  if isString then do
    let node ← load h ts
    let copy ← copyString tsSize node.data.valuestring
    msgTemperatureIn h msgRoot { parsed with ts := copy }
  else do
    let h ← cJSONDelete h ts
    pure (h, -1, parsed)

/-- `msg_parse(&parsed, msg, senIDs)` on what `cJSON_Parse` returned. -/
def msgParseIn (h : Heap Node) (msgRoot : Option Nat) (senIDs : Int → Checked Int)
    (parsed : MsgIn) : Checked (Heap Node × Int × MsgIn) := do
  let isObject ← isType h msgRoot cJSONObject
  if isObject then do
    let senID ← Cjson.getObjectItem h msgRoot (bytes "sensorID") false
    let isNumber ← isType h senID cJSONNumber
    if isNumber then do
      let node ← load h senID
      let found ← search senIDs node.data.valueint 0 5
      if found then msgTimestampIn h msgRoot { parsed with senID := node.data.valueint }
      else pure (h, -1, parsed)
    else do
      let h ← cJSONDelete h msgRoot
      pure (h, 0, parsed)
  else pure (h, -1, parsed)

/-- The record as `msgParse` sees it. -/
def MsgIn.values (parsed : MsgIn) : Msg := ⟨parsed.ts, toRat parsed.temp, parsed.senID⟩

/-! ## Looking a member up -/

theorem item_valuedouble (t : Tree) : t.item.valuedouble = t.data.valuedouble := by
  cases t
  rfl

theorem item_valuestring (t : Tree) : t.item.valuestring = t.data.valuestring := by
  cases t
  rfl

/-- What `cJSON_GetObjectItem` finds in the memory, and among the values. -/
inductive Lookup (h : Heap Node) (t : Tree) (v : Value) (name : Bytes) :
    Option Nat → Option Value → Prop
  | missing (hmember : memberNamed name v = none) : Lookup h t v name none none
  | found {m : Tree} {w : Value} {p q : Option Nat} {n : Bytes} (hmem : m ∈ t.child)
    (hitem : m.item = Item.ofValue (some n) w)
    (hload : load h (some m.addr) = .ok ⟨p, q, first m.child none, m.data⟩)
    (hmember : memberNamed name v = some w) :
    Lookup h t v name (some m.addr) (some w)

variable {h : Heap Node} {rest : Multiset (Nat × Node)} {t : Tree} {v : Value} {name : Bytes}
  {item : Option Nat} {w : Option Value} {d : Double}

theorem exists_lookup {s : Option Bytes} (ht : t.item = Item.ofValue s v)
    (hh : h.Holds (t.cells none none + rest)) (name : Bytes) :
    ∃ item w, Cjson.getObjectItem h (some t.addr) name false = .ok item ∧
      Lookup h t v name item w := by
  have hroot := load_of_get (holds_root hh).get
  have hchild : h.Holds (chain none t.child none +
      ({(t.addr, ⟨none, none, first t.child none, t.data⟩)} + rest)) := by
    refine (holds_root hh).congr ?_
    abel
  rcases missing_or_found ht name with hmissing | ⟨pre, m, post, w, hfound⟩
  · exact ⟨none, none, getObjectItem_missing hroot rfl hchild hmissing, .missing hmissing.2⟩
  · obtain ⟨n, hm⟩ := hfound.item
    have hmem : m ∈ t.child := by
      rw [hfound.child]
      exact List.mem_append_right pre List.mem_cons_self
    obtain ⟨p, q, hload⟩ := load_mem (spine_of_chain hchild) hmem
    exact ⟨_, _, getObjectItem_found hroot rfl hchild hfound, .found hmem hm hload hfound.member⟩

namespace Lookup

theorem member (hl : Lookup h t v name item w) : memberNamed name v = w := by
  cases hl with
  | missing hmember => exact hmember
  | found _ _ _ hmember => exact hmember

theorem value (hl : Lookup h t v name item w) :
    Json.getObjectItem (some (valueJson v)) name = w.map valueJson := by
  rw [getObjectItem_valueJson, hl.member]

theorem isType (hl : Lookup h t v name item w) (type : Nat) :
    Gateway.isType h item type = .ok (w.elim false fun w => kind w == type) := by
  cases hl with
  | missing _ => rfl
  | found _ hitem hload _ => exact isType_of_load hload rfl hitem type

/-- A member that is freed leaves the others, and the object, in memory. -/
theorem delete (hl : Lookup h t v name item w) (hh : h.Holds (t.cells none none + rest)) :
    ∃ h' kept, cJSONDelete h item = .ok h' ∧ kept ≠ 0 ∧ h'.Holds (kept + rest) := by
  cases hl with
  | missing _ => exact ⟨h, _, cJSONDelete_null h, cells_ne_zero t none none, hh⟩
  | found hmem _ _ _ =>
    obtain ⟨pre, post, hchild⟩ := List.append_of_mem hmem
    exact cJSONDelete_member hh hchild

theorem number (hl : Lookup h t v name item (some (.number d))) :
    ∃ node, load h item = .ok node ∧ node.data.valueint = (saturate d).getD 0 ∧
      node.data.valuedouble = d := by
  cases hl with
  | found _ hitem hload _ =>
    refine ⟨_, hload, ?_, ?_⟩
    · rw [← item_valueint, hitem]
      rfl
    · rw [← item_valuedouble, hitem]
      rfl

theorem string {s : Bytes} (hl : Lookup h t v name item (some (.string s))) :
    ∃ node, load h item = .ok node ∧ node.data.valuestring = some s := by
  cases hl with
  | found _ hitem hload _ =>
    refine ⟨_, hload, ?_⟩
    rw [← item_valuestring, hitem]
    rfl

/-- Either a number is found or both tests for one fail. -/
theorem number_or (hl : Lookup h t v name item w) :
    (∃ d, w = some (.number d)) ∨ Gateway.isType h item cJSONNumber = .ok false ∧
      ∀ i q, Json.getObjectItem (some (valueJson v)) name ≠ some (.number i q) := by
  rw [hl.isType, hl.value]
  cases w with
  | none => exact Or.inr ⟨rfl, fun _ _ heq => by cases heq⟩
  | some w =>
    cases w with
    | number d => exact Or.inl ⟨d, rfl⟩
    | bool b => cases b <;> exact Or.inr ⟨rfl, fun _ _ heq => by cases heq⟩
    | _ => exact Or.inr ⟨rfl, fun _ _ heq => by cases heq⟩

/-- Either a string is found or both tests for one fail. -/
theorem string_or (hl : Lookup h t v name item w) :
    (∃ s, w = some (.string s)) ∨ Gateway.isType h item cJSONString = .ok false ∧
      ∀ s, Json.getObjectItem (some (valueJson v)) name ≠ some (.string s) := by
  rw [hl.isType, hl.value]
  cases w with
  | none => exact Or.inr ⟨rfl, fun _ heq => by cases heq⟩
  | some w =>
    cases w with
    | string s => exact Or.inl ⟨s, rfl⟩
    | bool b => cases b <;> exact Or.inr ⟨rfl, fun _ heq => by cases heq⟩
    | _ => exact Or.inr ⟨rfl, fun _ heq => by cases heq⟩

end Lookup

/-! ## What the function leaves -/

/-- `temp` is `d` rounded to tenths by way of `double`. -/
structure Rounded (d temp : Double) : Prop where
  eq : temp = d.tenth
  near : ∀ neg m, d = .finite neg m → m.val < 2 ^ 40 →
    ∃ t, temp = .finite neg t ∧ |t.val - m.val| ≤ 1 / 20 + max m.val 1 / 2 ^ 51
  again : ∀ neg m, d = .finite neg m → m.val < 2 ^ 40 → temp.tenth = temp

theorem rounded_tenth (d : Double) : Rounded d d.tenth := by
  refine ⟨rfl, ?_, ?_⟩
  · rintro neg m rfl hlt
    exact Double.tenth_near neg (lt_trans hlt (by norm_num))
  · rintro neg m rfl hlt
    exact Double.tenth_tenth neg hlt

/-- The number that the message `v` has under a name. -/
def numberNamed (name : String) (v : Value) : Option Double :=
  match memberNamed (bytes name) v with
  | some (.number d) => some d
  | _ => none

theorem Lookup.numberNamed {name : String}
    (hl : Lookup h t v (bytes name) item (some (.number d))) : numberNamed name v = some d := by
  rw [Gateway.numberNamed, hl.member]

theorem numberNamed_eq_none {name : String}
    (hnone : ∀ i q, Json.getObjectItem (some (valueJson v)) (bytes name) ≠ some (.number i q)) :
    numberNamed name v = none := by
  rw [numberNamed]
  split
  · next d hd =>
    refine absurd ?_ (hnone ((saturate d).getD 0) (toRat d))
    rw [getObjectItem_valueJson, hd]
    rfl
  · rfl

/-- What `msg_parse` makes of a record's temperature, by the code that it returns: the `double` in
the record and the number that `msgParse` has there. -/
inductive TempEnds (v : Value) (before : Double) : Int → Double → Rat → Prop
  | failed : TempEnds v before (-1) before (toRat before)
  | unnamed (hsensor : numberNamed "sensorID" v = none) :
    TempEnds v before 0 before (toRat before)
  | written {senID d temp : Double} (hsensor : numberNamed "sensorID" v = some senID)
    (htemp : numberNamed "temperature" v = some d) (hrounded : Rounded d temp) :
    TempEnds v before 0 temp (roundTenth (toRat d))

/-- With a sensor and a temperature in the message, 0 means that the temperature was written. -/
theorem TempEnds.eq_tenth {before senID temp : Double} {q : Rat}
    (hends : TempEnds v before 0 temp q) (hsensor : numberNamed "sensorID" v = some senID)
    (htemp : numberNamed "temperature" v = some d) : temp = d.tenth := by
  cases hends with
  | unnamed hnone => cases hnone.symm.trans hsensor
  | written _ hd hrounded =>
    obtain rfl := Option.some.inj (hd.symm.trans htemp)
    exact hrounded.eq

/-- `msg_parse` in memory ends as `msgParse` does.  All that the parser built is freed when it
returns 0, and something is left when it returns -1. -/
def MsgEnds (rest : Multiset (Nat × Node)) (v : Value) (before : Double)
    (result : Checked (Heap Node × Int × MsgIn)) : Checked (Int × Msg) → Prop
  | .error f => result = .error f
  | .ok (code, msg) => ∃ h temp kept, result = .ok (h, code, ⟨msg.ts, temp, msg.senID⟩) ∧
    TempEnds v before code temp msg.temp ∧ (code = 0 ↔ kept = 0) ∧ h.Holds (kept + rest)

theorem msgEnds_failed {h' : Heap Node} {kept : Multiset (Nat × Node)} (hkept : kept ≠ 0)
    (hh' : h'.Holds (kept + rest)) (v : Value) (parsed : MsgIn) :
    MsgEnds rest v parsed.temp (.ok (h', -1, parsed)) (.ok (-1, parsed.values)) :=
  ⟨h', parsed.temp, kept, rfl, .failed, iff_of_false (by decide) hkept, hh'⟩

theorem msgTemperatureIn_refines (ht : t.item = Item.ofValue none v)
    (hh : h.Holds (t.cells none none + rest)) {senID : Double}
    (hsensor : numberNamed "sensorID" v = some senID) (parsed : MsgIn) :
    MsgEnds rest v parsed.temp (msgTemperatureIn h (some t.addr) parsed)
      (match temperatureOf (valueJson v) with
        | none => pure (-1, parsed.values)
        | some temp => pure (0, ⟨parsed.ts, roundTenth temp, parsed.senID⟩)) := by
  obtain ⟨item, w, hget, hl⟩ := exists_lookup ht hh (bytes "temperature")
  rw [msgTemperatureIn, hget, ok_bind, temperatureOf]
  rcases hl.number_or with ⟨d, rfl⟩ | ⟨hno, hnone⟩
  · obtain ⟨node, hload, -, hdouble⟩ := hl.number
    obtain ⟨h', hdelete, hh'⟩ := cJSONDelete_tree hh
    rw [hl.isType, ok_bind, hl.value]
    refine ⟨h', d.tenth, 0, ?_, .written hsensor hl.numberNamed (rounded_tenth d),
      iff_of_true rfl rfl, ?_⟩
    · show (load h item >>= _) = _
      rw [hload, ok_bind, hdelete, ok_bind, hdouble]
      rfl
    · rw [zero_add]
      exact hh'
  · obtain ⟨h', kept, hdelete, hkept, hh'⟩ := hl.delete hh
    rw [hno, ok_bind, if_neg (by decide), hdelete, ok_bind]
    split
    · exact msgEnds_failed hkept hh' v parsed
    · next q heq =>
      split at heq
      · next i q' hnumber => exact absurd hnumber (hnone i q')
      · cases heq

theorem msgTimestampIn_refines (ht : t.item = Item.ofValue none v)
    (hh : h.Holds (t.cells none none + rest)) {senID : Double}
    (hsensor : numberNamed "sensorID" v = some senID) (parsed : MsgIn) :
    MsgEnds rest v parsed.temp (msgTimestampIn h (some t.addr) parsed)
      (match timestampOf (valueJson v) with
        | none => pure (-1, parsed.values)
        | some ts => do
          let ts ← strcpy tsSize ts
          match temperatureOf (valueJson v) with
          | none => pure (-1, ⟨ts, toRat parsed.temp, parsed.senID⟩)
          | some temp => pure (0, ⟨ts, roundTenth temp, parsed.senID⟩)) := by
  obtain ⟨item, w, hget, hl⟩ := exists_lookup ht hh (bytes "timestamp")
  rw [msgTimestampIn, hget, ok_bind, timestampOf]
  rcases hl.string_or with ⟨s, rfl⟩ | ⟨hno, hnone⟩
  · obtain ⟨node, hload, hstring⟩ := hl.string
    rw [hl.isType, ok_bind, hl.value]
    show MsgEnds rest v _ (load h item >>= _) (strcpy tsSize s >>= _)
    rw [hload, ok_bind, hstring]
    show MsgEnds rest v _ (strcpy tsSize s >>= _) (strcpy tsSize s >>= _)
    cases strcpy tsSize s with
    | error f => rfl
    | ok ts => exact msgTemperatureIn_refines ht hh hsensor { parsed with ts := ts }
  · obtain ⟨h', kept, hdelete, hkept, hh'⟩ := hl.delete hh
    rw [hno, ok_bind, if_neg (by decide), hdelete, ok_bind]
    split
    · exact msgEnds_failed hkept hh' v parsed
    · next q heq =>
      split at heq
      · next s hs => exact absurd hs (hnone s)
      · cases heq

/-- `msg_parse` in memory does what `msgParse` says of the values: it fails on the same messages and
writes the same sensor and timestamp.  For the temperature it writes what `double` arithmetic makes
of the number in the message, when it names a sensor and 0 is returned, and nothing otherwise. -/
theorem msgParseIn_refines (ht : t.item = Item.ofValue none v)
    (hh : h.Holds (t.cells none none + rest)) (senIDs : Int → Checked Int) (parsed : MsgIn)
    (msg : Bytes) :
    MsgEnds rest v parsed.temp (msgParseIn h (some t.addr) senIDs parsed)
      (msgParse (fun _ => some (valueJson v)) senIDs parsed.values msg) := by
  have hroot := load_of_get (holds_root hh).get
  have hcells := cells_ne_zero t none none
  rw [msgParseIn, isType_of_load hroot rfl ht, ok_bind]
  cases v with
  | object ms =>
    obtain ⟨item, w, hget, hl⟩ := exists_lookup ht hh (bytes "sensorID")
    rw [if_pos (by rfl), hget, ok_bind]
    rcases hl.number_or with ⟨d, rfl⟩ | ⟨hno, hnone⟩
    · obtain ⟨node, hload, hint, -⟩ := hl.number
      have hview : view (some (valueJson (.object ms))) =
          .sensor ((saturate d).getD 0) (timestampOf (valueJson (.object ms)))
            (temperatureOf (valueJson (.object ms))) := by
        have hvalue := hl.value
        change Json.getObjectItem (some (.object (membersJson ms))) (bytes "sensorID") =
          some (.number ((saturate d).getD 0) (toRat d)) at hvalue
        show view (some (.object (membersJson ms))) = _
        rw [view, hvalue]
        rfl
      rw [msgParse_sensor senIDs parsed.values hview, hl.isType, ok_bind]
      show MsgEnds rest _ _ (load h item >>= _) _
      rw [hload, ok_bind, hint]
      cases search senIDs ((saturate d).getD 0) 0 5 with
      | error f => rfl
      | ok found =>
        rw [ok_bind, ok_bind]
        cases found with
        | false => exact msgEnds_failed hcells hh _ parsed
        | true =>
          exact msgTimestampIn_refines ht hh hl.numberNamed
            { parsed with senID := (saturate d).getD 0 }
    · have hview : view (some (valueJson (.object ms))) = .unnamed := by
        show view (some (.object (membersJson ms))) = _
        rw [view]
        split
        · next i q heq => exact absurd heq (hnone i q)
        · rfl
      obtain ⟨h', hdelete, hh'⟩ := cJSONDelete_tree hh
      rw [msgParse_unnamed senIDs parsed.values hview, hno, ok_bind, if_neg (by decide), hdelete,
        ok_bind]
      refine ⟨h', parsed.temp, 0, rfl, .unnamed (numberNamed_eq_none hnone),
        iff_of_true rfl rfl, ?_⟩
      rw [zero_add]
      exact hh'
  | bool b =>
    cases b <;>
    · rw [msgParse_other senIDs parsed.values rfl]
      exact msgEnds_failed hcells hh _ parsed
  | _ =>
    rw [msgParse_other senIDs parsed.values rfl]
    exact msgEnds_failed hcells hh _ parsed

/-- The `double` 1. -/
def one : Double := .finite false
  ⟨1, by norm_num, ⟨1, 0, by norm_num, by norm_num, by norm_num⟩, Double.lt_beyond (by norm_num)⟩

/-- The `double` 20.25. -/
def twentyQuarter : Double := .finite false
  ⟨81 / 4, by norm_num, ⟨81, -2, by norm_num, by norm_num, by norm_num⟩,
    Double.lt_beyond (by norm_num)⟩

/-- A reading of sensor 1. -/
def readingMessage : Value := .object [(bytes "timestamp", .string (bytes "now")),
  (bytes "sensorID", .number one), (bytes "temperature", .number twentyQuarter)]

def messageData : Data := ⟨cJSONObject, none, 0, zero, none⟩

def readingTree : Tree :=
  .mk 0 messageData rfl
    [.mk 1 ⟨cJSONString, some (bytes "now"), 0, zero, some (bytes "timestamp")⟩ rfl [],
      .mk 2 ⟨cJSONNumber, none, (saturate one).getD 0, one, some (bytes "sensorID")⟩ rfl [],
      .mk 3 ⟨cJSONNumber, none, (saturate twentyQuarter).getD 0, twentyQuarter,
        some (bytes "temperature")⟩ rfl []]

def readingHeap : Heap Node :=
  ⟨[(0, ⟨none, none, some 1, messageData⟩),
    (1, ⟨some 2, none, none, ⟨cJSONString, some (bytes "now"), 0, zero, some (bytes "timestamp")⟩⟩),
    (2, ⟨some 3, some 1, none,
      ⟨cJSONNumber, none, (saturate one).getD 0, one, some (bytes "sensorID")⟩⟩),
    (3, ⟨none, some 2, none, ⟨cJSONNumber, none, (saturate twentyQuarter).getD 0, twentyQuarter,
      some (bytes "temperature")⟩⟩)]⟩

theorem msgParseIn_refines_reading : ∃ h,
    msgParseIn readingHeap (some 0) (fun i => .ok (i + 1)) ⟨[], zero, 0⟩ =
      .ok (h, 0, ⟨bytes "now", twentyQuarter.tenth, 1⟩) ∧ h.Holds 0 := by
  have hone : (saturate one).getD 0 = 1 := by decide +kernel
  have hfound : search (fun i => .ok (i + 1) : Int → Checked Int) 1 0 5 = .ok true := by
    rw [search_five]
    rfl
  have hview : view (some (valueJson readingMessage)) =
      .sensor ((saturate one).getD 0) (some (bytes "now")) (some (toRat twentyQuarter)) := rfl
  have hparse : msgParse (fun _ => some (valueJson readingMessage)) (fun i => .ok (i + 1))
      (MsgIn.values ⟨[], zero, 0⟩) [] =
        .ok (0, ⟨bytes "now", roundTenth (toRat twentyQuarter), 1⟩) := by
    rw [msgParse_sensor _ _ (by exact hview), hone, hfound]
    rfl
  have hh : readingHeap.Holds (readingTree.cells none none + 0) :=
    Heap.holds_mk (show [0, 1, 2, 3].Nodup by decide)
  have hends := msgParseIn_refines (v := readingMessage) (by rfl) hh (fun i => .ok (i + 1))
    ⟨[], zero, 0⟩ []
  rw [hparse] at hends
  obtain ⟨h, temp, kept, hok, htemp, hkept, hempty⟩ := hends
  obtain rfl : kept = 0 := hkept.mp rfl
  have hsensor : numberNamed "sensorID" readingMessage = some one := rfl
  have hnumber : numberNamed "temperature" readingMessage = some twentyQuarter := rfl
  obtain rfl := htemp.eq_tenth hsensor hnumber
  exact ⟨h, hok, hempty⟩

end Gateway
end LinuxPrograming
