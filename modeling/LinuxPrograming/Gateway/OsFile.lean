import LinuxPrograming.Gateway.JsonStrip
import LinuxPrograming.Gateway.Json

/-!
# `get_file_content` and `json_fread`

`fp` and `content` have no initialiser, and every exit of `get_file_content` goes through the
label `end`, which closes `fp` and returns `content`.  What the calls return is an input, and
so is what the two locals and the block from `malloc` hold before they are assigned.  In
`json_fread` a stray pointer that is closed or parsed is a fault.
-/

namespace LinuxPrograming
namespace Gateway

open Lib

/-- A stream that `fopen` returned, or the value of a local that was never assigned. -/
inductive Stream where
  | opened
  | stray
  deriving DecidableEq, Repr

/-- What `content` points to.  Nothing is known about what a stray pointer points to. -/
inductive Content where
  | null
  | stray
  | block (m : Bytes)
  deriving DecidableEq, Repr

/-- The outcomes of one call of `get_file_content`.  `fread` stores no more than it was asked
for. -/
structure FileCalls where
  /-- `fp` holds something other than NULL before it is assigned. -/
  strayFp : Bool
  /-- `content` before it is assigned. -/
  content0 : Content
  fopen : Bool
  ftellStart : Int
  fseekEnd : Int
  ftellEnd : Int
  fseekStart : Int
  /-- The bytes of the block from `malloc`. -/
  garbage : Nat → UInt8
  /-- The bytes that `fread` stores. -/
  data : Bytes
  feof : Bool
  fread_le : data.length ≤ ftellEnd.toNat

def getFpSize (o : FileCalls) : Int :=
  if o.ftellStart < 0 then -1
  else if o.fseekEnd < 0 then -1
  else if o.ftellEnd < 0 then -1
  else if o.fseekStart < 0 then -1
  else o.ftellEnd

/-- What is returned, and the stream that `fclose` was called with. -/
structure Loaded where
  content : Content
  closed : Option Stream
  deriving DecidableEq, Repr

/-- The label `end`. -/
def finish (fp : Option Stream) (content : Content) : Loaded := ⟨content, fp⟩

/-- The block with the bytes read and the terminator behind the expected size. -/
def terminated (garbage : Nat → UInt8) (size : Nat) (data : Bytes) : Bytes :=
  patch (overwrite ((List.range (size + 1)).map garbage) data) size [0]

/-- `get_file_content`.  When `malloc` gives no block, `merror_exit` ends the process. -/
def getFileContent (o : FileCalls) (path : Option Bytes) (maxSize : Int) : Loaded :=
  if path = none then finish (if o.strayFp then some .stray else none) o.content0
  else if o.fopen = false then finish none o.content0
  else
    let size := getFpSize o
    if size < 0 then finish (some .opened) o.content0
    else if size > maxSize then finish (some .opened) o.content0
    else if o.data.length ≠ size.toNat ∧ o.feof = false then finish (some .opened) .null
    else finish (some .opened) (.block (terminated o.garbage size.toNat o.data))

/-- `JSON_MAX_FSIZE`. -/
def jsonMaxFsize : Int := 536870912

/-- `json_fread` with `parse` for `cJSON_ParseWithOpts`, which reads a C string. -/
def jsonFread (parse : Bytes → Option Json) (o : FileCalls) (path : Option Bytes) (retry : Bool) :
    Checked (Option Json) := do
  let loaded := getFileContent o path jsonMaxFsize
  if loaded.closed = some .stray then throw .unset
  match loaded.content with
  | .null => pure none
  | .stray => throw .unset
  | .block buffer =>
    match parse (← stringAt buffer 0) with
    | some item => pure (some item)
    | none =>
      if retry then
        let buffer ← jsonStrip buffer
        pure (parse (← stringAt buffer 0))
      else pure none

/-! ## What a load should be -/

/-- The call of `fread` is reached. -/
def FileCalls.Reaches (o : FileCalls) (path : Option Bytes) (maxSize : Int) : Prop :=
  path ≠ none ∧ o.fopen = true ∧ 0 ≤ getFpSize o ∧ getFpSize o ≤ maxSize

/-- The file was opened, sized at no more than `maxSize` and read, to its end if that came
early. -/
def FileCalls.Good (o : FileCalls) (path : Option Bytes) (maxSize : Int) : Prop :=
  o.Reaches path maxSize ∧ (o.data.length = (getFpSize o).toNat ∨ o.feof = true)

/-- The string is the bytes read, and the stream is closed when there is one. -/
structure FileCalls.Exact (o : FileCalls) (path : Option Bytes) (maxSize : Int) : Prop where
  failed : ¬ o.Good path maxSize → (getFileContent o path maxSize).content = .null
  loaded : o.Good path maxSize →
    ∃ r, (getFileContent o path maxSize).content = .block (o.data ++ 0 :: r)
  closed : (getFileContent o path maxSize).closed =
    if path ≠ none ∧ o.fopen = true then some .opened else none

/-- The locals hold NULL where they are used unassigned, and the block holds a NUL behind the
bytes of a file that has become shorter. -/
structure FileCalls.Lucky (o : FileCalls) (path : Option Bytes) (maxSize : Int) : Prop where
  fp : path = none → o.strayFp = false
  content : ¬ o.Reaches path maxSize → o.content0 = .null
  garbage : o.Good path maxSize → o.data.length < (getFpSize o).toNat →
    o.garbage o.data.length = 0

section

variable {o : FileCalls} {path : Option Bytes} {maxSize : Int}

theorem getFileContent_of_not_reaches (h : ¬ o.Reaches path maxSize) :
    (getFileContent o path maxSize).content = o.content0 := by
  rw [getFileContent]
  split
  · rfl
  · next hpath =>
    split
    · rfl
    · next hopen =>
      simp only
      split
      · rfl
      · next hsize =>
        split
        · rfl
        · next hmax =>
          exact absurd ⟨hpath, Bool.eq_true_of_not_eq_false hopen, Int.not_lt.mp hsize,
            Int.not_lt.mp hmax⟩ h

theorem getFileContent_of_reaches (h : o.Reaches path maxSize) :
    (getFileContent o path maxSize).content =
      if o.data.length = (getFpSize o).toNat ∨ o.feof = true then
        .block (terminated o.garbage (getFpSize o).toNat o.data) else .null := by
  obtain ⟨hpath, hopen, hsize, hmax⟩ := h
  rw [getFileContent, if_neg hpath, if_neg (by rw [hopen]; decide)]
  simp only
  rw [if_neg (Int.not_lt.mpr hsize), if_neg (Int.not_lt.mpr hmax)]
  by_cases hread : o.data.length = (getFpSize o).toNat ∨ o.feof = true
  · rw [if_pos hread, if_neg]
    · rfl
    · rintro ⟨hlen, hfeof⟩
      rw [hfeof] at hread
      exact hread.elim hlen Bool.false_ne_true
  · obtain ⟨hlen, hfeof⟩ := not_or.mp hread
    rw [if_neg hread, if_pos ⟨hlen, Bool.eq_false_of_not_eq_true hfeof⟩]
    rfl

/-- `fclose` is called with the stream that `fopen` returned, or with what `fp` held. -/
theorem getFileContent_closed : (getFileContent o path maxSize).closed =
    if path = none then (if o.strayFp then some .stray else none)
    else if o.fopen = true then some .opened else none := by
  rw [getFileContent]
  split
  · rfl
  · by_cases hopen : o.fopen = true
    · rw [if_pos hopen, if_neg (by rw [hopen]; decide)]
      simp only
      split
      · rfl
      · split
        · rfl
        · split
          · rfl
          · rfl
    · rw [if_neg hopen, if_pos (Bool.eq_false_of_not_eq_true hopen)]
      rfl

theorem length_data_le (h : 0 ≤ getFpSize o) : o.data.length ≤ (getFpSize o).toNat := by
  have hread := o.fread_le
  have hsize : getFpSize o = o.ftellEnd := by
    simp only [getFpSize] at h ⊢
    split_ifs at h ⊢
    · omega
    · omega
    · omega
    · omega
    · rfl
  rwa [hsize]

/-- The terminator stands behind the expected size, so behind a short text stands what was
there before. -/
theorem terminated_eq_iff {garbage : Nat → UInt8} {size : Nat} {data : Bytes}
    (hle : data.length ≤ size) :
    (∃ r, terminated garbage size data = data ++ 0 :: r) ↔
      (data.length < size → garbage data.length = 0) := by
  have hblock : ((List.range (size + 1)).map garbage).length = size + 1 := by simp
  have hsize : (overwrite ((List.range (size + 1)).map garbage) data).length = size + 1 := by
    rw [length_overwrite (by omega), hblock]
  have hin : size + [(0 : UInt8)].length ≤
      (overwrite ((List.range (size + 1)).map garbage) data).length := by
    rw [hsize, List.length_singleton]
  have hget : (terminated garbage size data)[data.length]? =
      some (if data.length < size then garbage data.length else 0) := by
    rw [terminated, getElem?_patch hin, List.length_singleton]
    by_cases hlt : data.length < size
    · rw [if_neg (by omega), getElem?_overwrite_of_le (Nat.le_refl _), if_pos hlt]
      simp only [List.getElem?_map, List.getElem?_range (show data.length < size + 1 by omega)]
      rfl
    · rw [if_pos (by omega), if_neg hlt, show data.length - size = 0 by omega]
      rfl
  have htake : (terminated garbage size data).take data.length = data := by
    rw [terminated, patch, overwrite, List.append_assoc, List.take_append_of_le_length,
      List.take_take, Nat.min_eq_left hle, List.take_left]
    rw [List.length_take, List.length_append, List.length_drop, hblock]
    omega
  have hsplit := List.take_append_drop data.length (terminated garbage size data)
  rw [htake] at hsplit
  constructor
  · rintro ⟨r, hr⟩ hlt
    rw [hr, List.getElem?_append_right (Nat.le_refl _), Nat.sub_self, if_pos hlt] at hget
    exact (Option.some.inj hget).symm
  · intro hzero
    have hnul : (terminated garbage size data)[data.length]? = some 0 := by
      rw [hget]
      split
      · next hlt => rw [hzero hlt]
      · rfl
    rw [← hsplit, List.getElem?_append_right (Nat.le_refl _), Nat.sub_self] at hnul
    cases hdrop : (terminated garbage size data).drop data.length with
    | nil =>
      rw [hdrop] at hnul
      cases hnul
    | cons x r =>
      rw [hdrop] at hnul
      obtain rfl := Option.some.inj hnul
      exact ⟨r, by rw [← hsplit, hdrop]⟩

end

section

variable {o : FileCalls} {path : Option Bytes} {maxSize : Int}

theorem failed_iff :
    (¬ o.Good path maxSize → (getFileContent o path maxSize).content = .null) ↔
      (¬ o.Reaches path maxSize → o.content0 = .null) := by
  constructor
  · intro h hreach
    rw [← getFileContent_of_not_reaches hreach]
    exact h fun hgood => hreach hgood.1
  · intro h hgood
    by_cases hreach : o.Reaches path maxSize
    · rw [getFileContent_of_reaches hreach, if_neg fun hread => hgood ⟨hreach, hread⟩]
    · rw [getFileContent_of_not_reaches hreach, h hreach]

theorem loaded_iff (hgood : o.Good path maxSize) :
    (∃ r, (getFileContent o path maxSize).content = .block (o.data ++ 0 :: r)) ↔
      (o.data.length < (getFpSize o).toNat → o.garbage o.data.length = 0) := by
  rw [getFileContent_of_reaches hgood.1, if_pos hgood.2,
    ← terminated_eq_iff (length_data_le hgood.1.2.2.1)]
  simp only [Content.block.injEq]

theorem closed_iff :
    (getFileContent o path maxSize).closed =
        (if path ≠ none ∧ o.fopen = true then some .opened else none) ↔
      (path = none → o.strayFp = false) := by
  rw [getFileContent_closed]
  by_cases hpath : path = none
  · simp [hpath]
  · simp [hpath]

theorem closed_ne_stray_iff :
    (getFileContent o path maxSize).closed ≠ some .stray ↔ (path = none → o.strayFp = false) := by
  rw [getFileContent_closed]
  by_cases hpath : path = none
  · simp [hpath]
  · by_cases hopen : o.fopen = true
    · simp [hpath, hopen]
    · simp [hpath, hopen]

theorem FileCalls.exact_iff : o.Exact path maxSize ↔ o.Lucky path maxSize := by
  constructor
  · intro h
    exact ⟨closed_iff.mp h.closed, failed_iff.mp h.failed,
      fun hgood => (loaded_iff hgood).mp (h.loaded hgood)⟩
  · intro h
    exact ⟨failed_iff.mpr h.content, fun hgood => (loaded_iff hgood).mpr (h.garbage hgood),
      closed_iff.mpr h.fp⟩

end

/-- `json_fread` returns NULL whatever the parser does exactly when it closes nothing stray and
has nothing to parse. -/
theorem jsonFread_eq_none_iff {o : FileCalls} {path : Option Bytes} :
    (∀ parse retry, jsonFread parse o path retry = .ok none) ↔
      (getFileContent o path jsonMaxFsize).closed ≠ some .stray ∧
        (getFileContent o path jsonMaxFsize).content = .null := by
  constructor
  · intro h
    have hparse := h (fun _ => some .null) false
    simp only [jsonFread] at hparse
    split at hparse
    · cases hparse
    · next hclosed =>
      refine ⟨hclosed, ?_⟩
      split at hparse
      · next heq => exact heq
      · cases hparse
      · obtain ⟨t, -, hsome⟩ := bind_eq_ok.mp hparse
        cases hsome
  · rintro ⟨hclosed, hnull⟩ parse retry
    simp only [jsonFread]
    rw [if_neg hclosed, hnull]
    rfl

/-- A file that was read is parsed up to its first NUL, and with `retry` once more without its
comments. -/
theorem jsonFread_loaded {o : FileCalls} {path : Option Bytes} (hgood : o.Good path jsonMaxFsize)
    (hlucky : o.Lucky path jsonMaxFsize) (parse : Bytes → Option Json) (retry : Bool) :
    jsonFread parse o path retry =
      .ok ((parse (cStr o.data)).or (if retry then parse (strip (cStr o.data)) else none)) := by
  obtain ⟨r, hr⟩ := (FileCalls.exact_iff.mpr hlucky).loaded hgood
  have hclosed : (getFileContent o path jsonMaxFsize).closed ≠ some .stray :=
    closed_ne_stray_iff.mpr hlucky.fp
  obtain ⟨j, hj⟩ := exists_cStr_append o.data r
  have hstr := zero_not_mem_cStr o.data
  have htext := stringAt_append (a := []) (r := j) (i := 0) rfl hstr
  rw [List.nil_append] at htext
  simp only [jsonFread]
  rw [if_neg hclosed, hr]
  simp only
  rw [hj, htext, ok_bind]
  cases parse (cStr o.data) with
  | some item => rfl
  | none =>
    cases retry with
    | false => rfl
    | true =>
      obtain ⟨k, hk⟩ := jsonStrip_eq (j := j) hstr
      have hstr' : 0 ∉ strip (cStr o.data) := fun h => hstr ((strip_sublist _).subset h)
      have hagain := stringAt_append (a := []) (r := k) (i := 0) rfl hstr'
      simp only [List.nil_append, if_true] at hagain ⊢
      rw [hk, ok_bind, hagain, ok_bind]
      rfl

theorem getFileContent_exact_iff (o : FileCalls) (path : Option Bytes) (maxSize : Int) :
    (o.Exact path maxSize ↔ o.Lucky path maxSize) ∧
      ((¬ o.Good path jsonMaxFsize → ∀ parse retry, jsonFread parse o path retry = .ok none) ↔
        (path = none → o.strayFp = false) ∧
          (¬ o.Reaches path jsonMaxFsize → o.content0 = .null)) := by
  refine ⟨FileCalls.exact_iff, ?_⟩
  rw [jsonFread_eq_none_iff, closed_ne_stray_iff, ← failed_iff]
  constructor
  · intro h
    refine ⟨fun hpath => ?_, fun hgood => (h hgood).2⟩
    exact (h fun hgood => hgood.1.1 hpath).1 hpath
  · rintro ⟨hfp, hcontent⟩ hgood
    exact ⟨hfp, hcontent hgood⟩

/-- The configuration file is missing and `content` holds a stray pointer. -/
def missingFile : FileCalls where
  strayFp := false
  content0 := .stray
  fopen := false
  ftellStart := 0
  fseekEnd := 0
  ftellEnd := 0
  fseekStart := 0
  garbage := fun _ => 0
  data := []
  feof := false
  fread_le := Nat.le_refl 0

theorem getFileContent_missing :
    ¬ missingFile.Good (some (bytes "room.json")) jsonMaxFsize ∧
      (getFileContent missingFile (some (bytes "room.json")) jsonMaxFsize).content ≠ .null ∧
      ∀ parse, jsonFread parse missingFile (some (bytes "room.json")) false ≠ .ok none := by
  refine ⟨?_, by decide, fun parse h => ?_⟩
  · intro h
    exact Bool.false_ne_true h.1.2.1
  · cases h

end Gateway
end LinuxPrograming
