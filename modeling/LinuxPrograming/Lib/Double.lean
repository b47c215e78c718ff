import LinuxPrograming.Lib.Decimal

/-!
# `double`

Numbers of 53 binary digits, as `strtod` reads them and `printf` prints them.  Seventeen decimal
digits are enough to tell them apart (`strtod_text`).
-/

namespace LinuxPrograming
namespace Lib

/-- The first power of two beyond every finite `double`. -/
def beyondDouble : Rat := (2 ^ 1024 : Nat)

/-- The absolute value of a finite `double`. -/
structure Magnitude where
  val : Rat
  nonneg : 0 ≤ val
  hasDigits : HasDigits 2 53 (-1074) val
  lt : val < beyondDouble
  deriving DecidableEq

inductive Double where
  | finite (neg : Bool) (mag : Magnitude)
  | inf (neg : Bool)
  | nan
  deriving DecidableEq

namespace Magnitude

/-- `%.{p}g` of a number with this absolute value. -/
def text (p : Nat) (neg : Bool) (m : Magnitude) : Bytes := formatG p neg m.val

theorem ext_val {m n : Magnitude} (h : m.val = n.val) : m = n := by
  obtain ⟨_, _, _, _⟩ := m
  obtain ⟨_, _, _, _⟩ := n
  obtain rfl : _ = _ := h
  rfl

/-- The places of the digits of a `double`. -/
theorem log_bounds {m : Magnitude} (h : 0 < m.val) :
    -324 ≤ Int.log 10 m.val ∧ Int.log 10 m.val < 309 := by
  obtain ⟨k, e, hval, -, he⟩ := m.hasDigits
  have hk : 1 ≤ k := by
    by_contra h0
    obtain rfl : k = 0 := by omega
    rw [hval] at h
    simp at h
  have hlow : ((2 : Nat) : Rat) ^ (-1074 : Int) ≤ m.val := by
    have hpos : (0 : Rat) < ((2 : Nat) : Rat) ^ e := zpow_pos (by norm_num) e
    calc ((2 : Nat) : Rat) ^ (-1074 : Int) ≤ ((2 : Nat) : Rat) ^ e :=
          zpow_le_zpow_right₀ (by norm_num) he
      _ ≤ k * ((2 : Nat) : Rat) ^ e :=
          le_mul_of_one_le_left hpos.le (by exact_mod_cast hk)
      _ = m.val := hval.symm
  constructor
  · apply (Int.zpow_le_iff_le_log (b := 10) (by decide) h).mp
    refine le_trans ?_ hlow
    have hten : 2 ^ 1074 ≤ 10 ^ 324 := by decide +kernel
    rw [zpow_neg, zpow_neg]
    apply inv_anti₀
    · exact zpow_pos (by norm_num) _
    · exact_mod_cast hten
  · apply (Int.lt_zpow_iff_log_lt (b := 10) (by decide) h).mp
    refine lt_trans m.lt ?_
    have hten : 2 ^ 1024 < 10 ^ 309 := by decide +kernel
    rw [beyondDouble]
    exact_mod_cast hten

theorem length_text_le (neg : Bool) (m : Magnitude) {p : Nat} (hp : 0 < p) :
    (m.text p neg).length ≤ p + 7 := by
  have hsign : (signText neg).length ≤ 1 := by
    cases neg <;> decide
  rw [text, formatG, List.length_append]
  by_cases h0 : m.val = 0
  · rw [if_pos h0, List.length_singleton]
    omega
  · have hpos : 0 < m.val := lt_of_le_of_ne m.nonneg (Ne.symm h0)
    obtain ⟨hlow, hhigh⟩ := m.log_bounds hpos
    obtain ⟨hdlow, hdhigh, -⟩ := significand_spec hp hpos
    have hsucc : p - 1 + 1 = p := by omega
    have hlen := length_natText hdlow (by rw [hsucc]; exact hdhigh)
    have hplace : (significand p m.val).2.natAbs < 1000 := by
      rw [significand, lastPlace]
      split
      · show (Int.log 10 m.val - ((p - 1 : Nat) : Int) + p).natAbs < 1000
        omega
      · show (Int.log 10 m.val - ((p - 1 : Nat) : Int) + (p - 1 : Nat)).natAbs < 1000
        omega
    have hne : natText (significand p m.val).1 ≠ [] := by
      rw [ne_eq, ← List.length_eq_zero_iff]
      omega
    have hlayout := length_layoutG_le hne hplace
    rw [if_neg h0]
    omega

end Magnitude

namespace Double

theorem decimal_nonneg (digits : Nat) (exp10 : Int) :
    0 ≤ (digits : Rat) * (10 : Nat) ^ exp10 := by
  positivity

/-- The `double` nearest to a number with a sign. -/
def ofRat (neg : Bool) (q : Rat) (hq : 0 ≤ q) : Double :=
  if h : nearest 2 53 (-1074) q < beyondDouble then
    finite neg
      ⟨nearest 2 53 (-1074) q, nearest_nonneg hq, hasDigits_nearest (by decide) (by decide) hq, h⟩
  else inf neg

/-- The `double` nearest to a decimal number. -/
def ofDecimal (neg : Bool) (digits : Nat) (exp10 : Int) : Double :=
  ofRat neg ((digits : Rat) * (10 : Nat) ^ exp10) (decimal_nonneg digits exp10)

/-- `strtod` on the decimal number at the start of a text: the number and its length.  Blanks in
front, hexadecimal numbers and the names of infinity and NaN are not read. -/
def strtod (s : Bytes) : Option (Double × Nat) :=
  (scanDecimal s).map fun d => (ofDecimal d.neg d.digits d.exp10, d.len)

/-- `==`. -/
def eq : Double → Double → Bool
  | finite n a, finite m b => a.val == b.val && (n == m || a.val == 0)
  | inf n, inf m => n == m
  | _, _ => false

theorem ofDecimal_of_nearest {neg : Bool} {digits : Nat} {exp10 : Int} {m : Magnitude}
    (h : nearest 2 53 (-1074) ((digits : Rat) * (10 : Nat) ^ exp10) = m.val) :
    ofDecimal neg digits exp10 = finite neg m := by
  rw [ofDecimal, ofRat, dif_pos (by rw [h]; exact m.lt)]
  congr 1
  exact Magnitude.ext_val h

theorem ofDecimal_ne_nan (neg : Bool) (digits : Nat) (exp10 : Int) :
    ofDecimal neg digits exp10 ≠ nan := by
  intro h
  rw [ofDecimal, ofRat] at h
  split at h
  · cases h
  · cases h

/-- Numbers of one sign that compare equal are the same. -/
theorem ofDecimal_of_eq {neg : Bool} {digits : Nat} {exp10 : Int} {m : Magnitude}
    (h : (ofDecimal neg digits exp10).eq (finite neg m) = true) :
    ofDecimal neg digits exp10 = finite neg m := by
  rw [ofDecimal, ofRat] at h ⊢
  split at h
  · next hlt =>
    rw [dif_pos hlt]
    rw [eq, Bool.and_eq_true] at h
    congr 1
    exact Magnitude.ext_val (eq_of_beq h.1)
  · cases h

theorem strtod_spec {s : Bytes} {d : Double} {n : Nat} (h : strtod s = some (d, n)) :
    d ≠ nan ∧ 0 < n ∧ n ≤ s.length := by
  obtain ⟨e, hscan, hpair⟩ := Option.map_eq_some_iff.mp h
  obtain ⟨rfl, rfl⟩ := Prod.mk.inj hpair
  exact ⟨ofDecimal_ne_nan _ _ _, scanDecimal_len hscan⟩

/-- The whole of what `printf` prints is read back. -/
theorem exists_strtod_text {p : Nat} (hp : 0 < p) (neg : Bool) (m : Magnitude) :
    ∃ digits exp10,
      strtod (m.text p neg) = some (ofDecimal neg digits exp10, (m.text p neg).length) ∧
      (digits : Rat) * (10 : Nat) ^ exp10 =
        if m.val = 0 then 0 else roundAt 10 (lastPlace 10 p m.val) m.val := by
  by_cases h0 : m.val = 0
  · refine ⟨0, 0, ?_, ?_⟩
    · rw [strtod, Magnitude.text, formatG, if_pos h0]
      cases neg <;> rfl
    · rw [if_pos h0, Nat.cast_zero, zero_mul]
  · have hpos : 0 < m.val := lt_of_le_of_ne m.nonneg (Ne.symm h0)
    obtain ⟨d, hscan, hneg, hlen, hval⟩ := scanDecimal_formatG neg hp hpos
    refine ⟨d.digits, d.exp10, ?_, ?_⟩
    · rw [strtod, Magnitude.text, hscan, Option.map_some, hneg, hlen]
    · rw [if_neg h0, hval]

/-- Seventeen digits tell the `double`s apart. -/
theorem strtod_text (neg : Bool) (m : Magnitude) :
    strtod (m.text 17 neg) = some (finite neg m, (m.text 17 neg).length) := by
  obtain ⟨digits, exp10, hread, hval⟩ := exists_strtod_text (p := 17) (by decide) neg m
  rw [hread, ofDecimal_of_nearest]
  rw [hval]
  split
  · next h0 => rw [nearest_zero, h0]
  · next h0 =>
    have hpos : 0 < m.val := lt_of_le_of_ne m.nonneg (Ne.symm h0)
    exact nearest_roundAt (by decide) (by decide) (by decide) (by decide) hpos m.hasDigits

example : strtod (bytes "1e400") = some (inf false, 5) := by decide +kernel

end Double

end Lib
end LinuxPrograming
