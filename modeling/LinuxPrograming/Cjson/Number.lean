import LinuxPrograming.Cjson.StringLiteral

/-!
# Numbers

`parse_number` and `print_number` of cJSON, in the C locale.  A number is printed with 15 digits
when these read back as the same number, else with 17.
-/

namespace LinuxPrograming
namespace Cjson

open Lib Gateway

/-- The loop of `parse_number` that copies at most `k` bytes. -/
def copyNumber : Nat → Bytes → Bytes
  | 0, _ => []
  | _ + 1, [] => []
  | k + 1, c :: t => if isNumeral c then c :: copyNumber k t else []

/-- `parse_number`. -/
def parseNumber (content : Bytes) (item : Item) (b : ParseBuffer) : Checked (Parsed Item) :=
  let numberCString := copyNumber 63 (content.drop b.offset)
  match Double.strtod numberCString with
  | none => pure (.fail b)
  | some (number, n) =>
    match saturate number with
    | none => throw .unset
    | some valueint =>
      pure (.ok { item with valuedouble := number, valueint, type := cJSONNumber } (b.advance n))

/-- What `sscanf` reads is the number again. -/
def readsBack (text : Bytes) (d : Double) : Bool :=
  match Double.strtod text with
  | none => false
  | some (test, _) => test.eq d

/-- What `print_number` puts into `number_buffer`. -/
def numberText (d : Double) : Bytes :=
  match d with
  | .finite neg mag =>
    if readsBack (mag.text 15 neg) d then mag.text 15 neg else mag.text 17 neg
  | _ => bytes "null"

/-! ## Reading -/

theorem copyNumber_subset {k : Nat} {t : Bytes} {c : UInt8} (h : c ∈ copyNumber k t) :
    isNumeral c = true := by
  induction k generalizing t with
  | zero => cases h
  | succ k ih =>
    cases t with
    | nil => cases h
    | cons d t =>
      rw [copyNumber] at h
      split at h
      · next hd =>
        rcases List.mem_cons.mp h with rfl | h
        · exact hd
        · exact ih h
      · cases h

theorem copyNumber_isPrefix (k : Nat) (t : Bytes) : copyNumber k t <+: t := by
  induction k generalizing t with
  | zero => exact List.nil_prefix
  | succ k ih =>
    cases t with
    | nil => exact List.nil_prefix
    | cons d t =>
      rw [copyNumber]
      split
      · exact List.cons_prefix_cons.mpr ⟨rfl, ih t⟩
      · exact List.nil_prefix

theorem copyNumber_append {a t : Bytes} (ha : ∀ c ∈ a, isNumeral c = true) {k : Nat}
    (hlen : a.length ≤ k) (ht : ∀ c u, t = c :: u → isNumeral c = false) :
    copyNumber k (a ++ t) = a := by
  induction a generalizing k with
  | nil =>
    cases t with
    | nil => cases k <;> rfl
    | cons c t =>
      cases k with
      | zero => rfl
      | succ k =>
        rw [List.nil_append, copyNumber, ht c t rfl]
        rfl
  | cons c a ih =>
    cases k with
    | zero => exact absurd hlen (Nat.not_succ_le_zero _)
    | succ k =>
      rw [List.cons_append, copyNumber, if_pos (ha c List.mem_cons_self),
        ih (fun d hd => ha d (List.mem_cons_of_mem c hd)) (Nat.le_of_succ_le_succ hlen)]

/-- `parse_number` reads no more than the number, and so does not pass the NUL. -/
theorem exists_parseNumber (content : Bytes) (item : Item) (b : ParseBuffer) :
    ∃ r, parseNumber content item b = .ok r ∧
      match r with
      | .fail b' => b' = b
      | .ok item' b' => ∃ d i n, d ≠ .nan ∧ saturate d = some i ∧ 0 < n ∧ b' = b.advance n ∧
          item' = { item with valuedouble := d, valueint := i, type := cJSONNumber } ∧
          ∃ c, content[b.offset + n - 1]? = some c ∧ isNumeral c = true := by
  rw [parseNumber]
  cases hstrtod : Double.strtod (copyNumber 63 (content.drop b.offset)) with
  | none => exact ⟨_, rfl, rfl⟩
  | some p =>
    obtain ⟨d, n⟩ := p
    obtain ⟨hnan, hpos, hle⟩ := Double.strtod_spec hstrtod
    obtain ⟨i, hi⟩ := exists_saturate hnan
    dsimp only
    rw [hi]
    refine ⟨_, rfl, d, i, n, hnan, hi, hpos, rfl, rfl, ?_⟩
    have hlast : n - 1 < (copyNumber 63 (content.drop b.offset)).length := by omega
    refine ⟨(copyNumber 63 (content.drop b.offset))[n - 1], ?_,
      copyNumber_subset (List.getElem_mem hlast)⟩
    have hget := List.prefix_iff_getElem?.mp (copyNumber_isPrefix 63 (content.drop b.offset))
      (n - 1) hlast
    rw [List.getElem?_drop] at hget
    rw [← hget]
    congr 1
    omega

/-! ## Printing -/

/-- What `print_number` writes reads back as the number. -/
theorem strtod_numberText (neg : Bool) (mag : Magnitude) :
    Double.strtod (numberText (.finite neg mag)) =
      some (.finite neg mag, (numberText (.finite neg mag)).length) := by
  obtain ⟨digits, exp10, hread, -⟩ := Double.exists_strtod_text (p := 15) (by decide) neg mag
  rw [numberText]
  split
  · next hback =>
    rw [readsBack, hread] at hback
    rw [hread, Double.ofDecimal_of_eq hback]
  · exact Double.strtod_text neg mag

/-- The text fits `number_buffer` with its NUL. -/
theorem length_numberText_le (d : Double) : (numberText d).length ≤ 24 := by
  cases d with
  | finite neg mag =>
    have h15 := mag.length_text_le neg (p := 15) (by decide)
    have h17 := mag.length_text_le neg (p := 17) (by decide)
    rw [numberText]
    split
    · omega
    · exact h17
  | inf neg => exact Nat.le_of_ble_eq_true rfl
  | nan => decide

theorem isNumeral_numberText {neg : Bool} {mag : Magnitude} {c : UInt8}
    (hc : c ∈ numberText (.finite neg mag)) : isNumeral c = true := by
  rw [numberText] at hc
  split at hc
  · exact isNumeral_formatG hc
  · exact isNumeral_formatG hc

/-- A printed number is parsed as the same `double`, down to the sign of zero, whatever text
follows that could not belong to it. -/
theorem parseNumber_numberText (neg : Bool) (mag : Magnitude) (item : Item) {b : ParseBuffer}
    {content r : Bytes}
    (hcontent : content.drop b.offset = numberText (.finite neg mag) ++ r)
    (hr : ∀ c u, r = c :: u → isNumeral c = false) :
    parseNumber content item b =
      .ok (.ok { item with
          valuedouble := .finite neg mag, valueint := (saturate (.finite neg mag)).getD 0,
          type := cJSONNumber } (b.advance (numberText (.finite neg mag)).length)) := by
  have hlen := length_numberText_le (.finite neg mag)
  have hcopy := copyNumber_append (a := numberText (.finite neg mag))
    (fun c hc => isNumeral_numberText hc) (k := 63) (by omega) hr
  obtain ⟨i, hi⟩ := exists_saturate (d := .finite neg mag) (fun h => by cases h)
  rw [parseNumber, hcontent, hcopy, strtod_numberText]
  dsimp only
  rw [hi]
  rfl

end Cjson
end LinuxPrograming
