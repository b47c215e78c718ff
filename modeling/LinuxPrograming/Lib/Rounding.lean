import LinuxPrograming.Lib.Printf
import Mathlib.Algebra.Order.Field.Power
import Mathlib.Data.Int.Log
import Mathlib.Tactic.FieldSimp
import Mathlib.Tactic.GCongr
import Mathlib.Tactic.Linarith
import Mathlib.Tactic.Positivity

/-!
# Rounding to a number of digits

`roundAt b e q` is the multiple of `b ^ e` nearest to `q`.  With `e` the place of the last of
`p` digits of `q` in base `b` this is the number of `p` digits nearest to `q`.  The result this
module exists for is `nearest_roundAt`: a number of `p` digits in base `b` that is rounded to
`n` digits in base `c` and back is the number it was, when `b ^ p < c ^ (n - 1)`.
-/

namespace LinuxPrograming
namespace Lib

/-! ## The nearest integer -/

theorem abs_roundHalfEven_sub_le (q : Rat) : |(roundHalfEven q : Rat) - q| ≤ 1 / 2 := by
  have hle := Rat.floor_le q
  have hlt := Rat.lt_floor_add_one q
  push_cast at hlt
  rw [roundHalfEven, abs_le]
  split_ifs <;> push_cast <;> constructor <;> linarith

theorem roundHalfEven_of_near {q : Rat} {n : Int} (h : |q - n| < 1 / 2) : roundHalfEven q = n := by
  have hnear := abs_roundHalfEven_sub_le q
  rw [abs_lt] at h
  rw [abs_le] at hnear
  have hlt : (roundHalfEven q : Rat) < (n + 1 : Int) := by push_cast; linarith
  have hgt : ((n - 1 : Int) : Rat) < roundHalfEven q := by push_cast; linarith
  rw [Int.cast_lt] at hlt hgt
  omega

theorem roundHalfEven_intCast (n : Int) : roundHalfEven n = n := by
  apply roundHalfEven_of_near
  rw [sub_self, abs_zero]
  norm_num

theorem roundHalfEven_nonneg {q : Rat} (h : 0 ≤ q) : 0 ≤ roundHalfEven q := by
  have hnear := (abs_le.mp (abs_roundHalfEven_sub_le q)).1
  have hgt : ((-1 : Int) : Rat) < roundHalfEven q := by push_cast; linarith
  rw [Int.cast_lt] at hgt
  omega

/-- Rounding to the nearest integer does not pass an integer bound. -/
theorem roundHalfEven_le {q : Rat} {n : Int} (h : q ≤ n) : roundHalfEven q ≤ n := by
  have hnear := (abs_le.mp (abs_roundHalfEven_sub_le q)).2
  have hlt : (roundHalfEven q : Rat) < (n + 1 : Int) := by push_cast; linarith
  rw [Int.cast_lt] at hlt
  omega

theorem le_roundHalfEven {q : Rat} {n : Int} (h : n ≤ q) : n ≤ roundHalfEven q := by
  have hnear := (abs_le.mp (abs_roundHalfEven_sub_le q)).1
  have hgt : ((n - 1 : Int) : Rat) < roundHalfEven q := by push_cast; linarith
  rw [Int.cast_lt] at hgt
  omega

/-! ## The nearest multiple of a power -/

/-- The multiple of `b ^ e` nearest to `q`. -/
def roundAt (b : Nat) (e : Int) (q : Rat) : Rat := roundHalfEven (q / (b : Rat) ^ e) * (b : Rat) ^ e

/-- The place of the last of `p` digits. -/
def lastPlace (b p : Nat) (q : Rat) : Int := Int.log b q - (p - 1 : Nat)

/-- The number of `p` digits nearest to `q`, with no digit behind the place `emin`. -/
def nearest (b p : Nat) (emin : Int) (q : Rat) : Rat := roundAt b (max (lastPlace b p q) emin) q

/-- `q` has `p` digits, and none behind the place `emin`. -/
def HasDigits (b p : Nat) (emin : Int) (q : Rat) : Prop :=
  ∃ (m : Nat) (e : Int), q = m * (b : Rat) ^ e ∧ m < b ^ p ∧ emin ≤ e

section

variable {b p : Nat} {emin e k : Int} {q x y : Rat}

theorem log_eq_iff (hb : 1 < b) (hq : 0 < q) :
    Int.log b q = k ↔ (b : Rat) ^ k ≤ q ∧ q < (b : Rat) ^ (k + 1) := by
  rw [Int.zpow_le_iff_le_log hb hq, Int.lt_zpow_iff_log_lt hb hq]
  omega

theorem abs_roundAt_sub_le (hb : 0 < b) (e : Int) (q : Rat) :
    |roundAt b e q - q| ≤ (b : Rat) ^ e / 2 := by
  have hpos : (0 : Rat) < (b : Rat) ^ e := zpow_pos (by exact_mod_cast hb) e
  have hnear := abs_roundHalfEven_sub_le (q / (b : Rat) ^ e)
  have hscale : roundAt b e q - q =
      (roundHalfEven (q / (b : Rat) ^ e) - q / (b : Rat) ^ e) * (b : Rat) ^ e := by
    rw [roundAt, sub_mul, div_mul_cancel₀ q hpos.ne']
  rw [hscale, abs_mul, abs_of_pos hpos]
  calc |(roundHalfEven (q / (b : Rat) ^ e) : Rat) - q / (b : Rat) ^ e| * (b : Rat) ^ e
      ≤ 1 / 2 * (b : Rat) ^ e := mul_le_mul_of_nonneg_right hnear hpos.le
    _ = (b : Rat) ^ e / 2 := by ring

/-- A multiple of `b ^ e` is found from anywhere near it. -/
theorem roundAt_of_near (hb : 0 < b) {m : Int} (hx : x = m * (b : Rat) ^ e)
    (hnear : |y - x| < (b : Rat) ^ e / 2) : roundAt b e y = x := by
  have hpos : (0 : Rat) < (b : Rat) ^ e := zpow_pos (by exact_mod_cast hb) e
  have hdiff : y / (b : Rat) ^ e - m = (y - x) / (b : Rat) ^ e := by
    rw [hx]
    field_simp
  have hround : roundHalfEven (y / (b : Rat) ^ e) = m := by
    apply roundHalfEven_of_near
    rw [hdiff, abs_div, abs_of_pos hpos, div_lt_iff₀ hpos]
    linarith
  rw [roundAt, hround, hx]

/-- A multiple of a power is one of every lower power. -/
theorem exists_multiple {m : Int} {f : Int} (hb : 0 < b) (hx : x = m * (b : Rat) ^ f)
    (he : e ≤ f) : ∃ n : Int, x = n * (b : Rat) ^ e := by
  have hne : (b : Rat) ≠ 0 := by exact_mod_cast hb.ne'
  refine ⟨m * (b : Int) ^ (f - e).toNat, ?_⟩
  have hexp : ((f - e).toNat : Int) + e = f := by omega
  rw [hx, Int.cast_mul, Int.cast_pow, Int.cast_natCast, mul_assoc, ← zpow_natCast,
    ← zpow_add₀ hne, hexp]

/-- Where the digits of a number end it is an integer. -/
theorem HasDigits.exists_multiple (hb : 1 < b) (hq : 0 < q) (h : HasDigits b p emin q) :
    ∃ n : Int, q = n * (b : Rat) ^ max (lastPlace b p q) emin := by
  obtain ⟨m, f, hqm, hlt, hmin⟩ := h
  have hb0 : (0 : Rat) < b := by exact_mod_cast Nat.zero_lt_of_lt hb
  have hp : 0 < p := by
    by_contra h0
    obtain rfl : p = 0 := by omega
    have hm : m = 0 := by simpa using hlt
    rw [hqm, hm] at hq
    simp at hq
  have hupper : q < (b : Rat) ^ ((p : Int) + f) := by
    rw [hqm, zpow_add₀ hb0.ne', zpow_natCast]
    have hcast : (m : Rat) < (b : Rat) ^ p := by exact_mod_cast hlt
    exact mul_lt_mul_of_pos_right hcast (zpow_pos hb0 f)
  have hlog := (Int.lt_zpow_iff_log_lt hb hq).mp hupper
  refine Lib.exists_multiple (m := m) (Nat.zero_lt_of_lt hb) (by exact_mod_cast hqm) ?_
  rw [lastPlace]
  omega

/-- The nearest number of `p` digits to something close enough to a number of `p` digits. -/
theorem nearest_of_close (hb : 1 < b) (hp : 0 < p) (hx : 0 < x) (hdigits : HasDigits b p emin x)
    (hclose : |y - x| * (2 * (b : Rat) ^ p) < x) : nearest b p emin y = x := by
  have hb0 : (0 : Rat) < b := by exact_mod_cast Nat.zero_lt_of_lt hb
  have hb1 : (1 : Rat) ≤ b := by exact_mod_cast hb.le
  have hb2 : (2 : Rat) ≤ b := by exact_mod_cast hb
  obtain ⟨n, hn⟩ := hdigits.exists_multiple hb hx
  obtain ⟨hlow, hhigh⟩ := (log_eq_iff hb hx).mp rfl
  have hlast : lastPlace b p x = Int.log b x - (p - 1 : Nat) := rfl
  rw [hlast] at hn
  -- `k` is the place of the first digit of `x`, and `e` that of the last.
  generalize Int.log b x = k at hn hlow hhigh hlast
  generalize he : max (k - ((p - 1 : Nat) : Int)) emin = e at hn
  have hepos : (0 : Rat) < (b : Rat) ^ e := zpow_pos hb0 e
  have hn1 : 1 ≤ n := by
    by_contra hlt
    have hcast : (n : Rat) ≤ 0 := by exact_mod_cast (by omega : n ≤ 0)
    have hneg := mul_nonpos_of_nonpos_of_nonneg hcast hepos.le
    linarith
  have hek : e ≤ k := by
    have hle : (b : Rat) ^ e ≤ x := by
      rw [hn]
      exact le_mul_of_one_le_left hepos.le (by exact_mod_cast hn1)
    have hlt : (b : Rat) ^ e < (b : Rat) ^ (k + 1) := lt_of_le_of_lt hle hhigh
    have hlt' := (zpow_lt_zpow_iff_right₀ (by exact_mod_cast hb : (1 : Rat) < b)).mp hlt
    omega
  have hbound : ∀ j : Int, x ≤ (b : Rat) ^ j → |y - x| < (b : Rat) ^ (j - p) / 2 := by
    intro j hj
    have hpow : (0 : Rat) < (b : Rat) ^ p := pow_pos hb0 p
    have hsplit : (b : Rat) ^ (j - p) * (b : Rat) ^ p = (b : Rat) ^ j := by
      rw [← zpow_natCast, ← zpow_add₀ hb0.ne', sub_add_cancel]
    have hlt : |y - x| * 2 * (b : Rat) ^ p < (b : Rat) ^ (j - p) * (b : Rat) ^ p := by
      rw [hsplit]
      linarith
    have := lt_of_mul_lt_mul_right hlt hpow.le
    linarith
  have hnear : |y - x| < (b : Rat) ^ e / 2 := by
    have hmono : (b : Rat) ^ (k + 1 - p) ≤ (b : Rat) ^ e := zpow_le_zpow_right₀ hb1 (by omega)
    have := hbound (k + 1) hhigh.le
    linarith
  obtain ⟨hylow, hyhigh⟩ := abs_lt.mp hnear
  -- Numbers with their last digit at `e` that differ do so by `b ^ e`.
  have hgap : ∀ m m' : Int, (m : Rat) * (b : Rat) ^ e < m' * (b : Rat) ^ e →
      (m : Rat) * (b : Rat) ^ e + (b : Rat) ^ e ≤ m' * (b : Rat) ^ e := by
    intro m m' h
    have hlt : m < m' := by exact_mod_cast lt_of_mul_lt_mul_right h hepos.le
    have hle : ((m + 1 : Int) : Rat) ≤ m' := by exact_mod_cast hlt
    have := mul_le_mul_of_nonneg_right hle hepos.le
    push_cast at this
    linarith
  have hpower : ∀ j : Int, e ≤ j → ∃ m : Int, (b : Rat) ^ j = m * (b : Rat) ^ e := by
    intro j hj
    exact Lib.exists_multiple (m := 1) (Nat.zero_lt_of_lt hb) (by rw [Int.cast_one, one_mul]) hj
  have hy1 : y < (b : Rat) ^ (k + 1) := by
    obtain ⟨m, hm⟩ := hpower (k + 1) (by omega)
    have := hgap n m (by rw [← hn, ← hm]; exact hhigh)
    rw [← hn, ← hm] at this
    linarith
  by_cases hyk : (b : Rat) ^ k ≤ y
  · have hlog : Int.log b y = k :=
      (log_eq_iff hb (lt_of_lt_of_le (zpow_pos hb0 k) hyk)).mpr ⟨hyk, hy1⟩
    rw [nearest, lastPlace, hlog, he]
    exact roundAt_of_near (Nat.zero_lt_of_lt hb) hn hnear
  · -- Only a power of `b` has numbers below it that are so close and have one digit less.
    have hxk : x = (b : Rat) ^ k := by
      obtain ⟨m, hm⟩ := hpower k hek
      by_contra hne
      have hlt : (b : Rat) ^ k < x := lt_of_le_of_ne hlow (Ne.symm hne)
      have := hgap m n (by rw [← hn, ← hm]; exact hlt)
      rw [← hn, ← hm] at this
      linarith
    have hnear' := hbound k hxk.le
    have hprev : (b : Rat) ^ (k - 1) * b = (b : Rat) ^ k := by
      rw [← zpow_add_one₀ hb0.ne', sub_add_cancel]
    have hprev' : (0 : Rat) < (b : Rat) ^ (k - 1) := zpow_pos hb0 _
    have hylow' : (b : Rat) ^ (k - 1) ≤ y := by
      have hmono : (b : Rat) ^ (k - p) ≤ (b : Rat) ^ (k - 1) := zpow_le_zpow_right₀ hb1 (by omega)
      have hdouble : (b : Rat) ^ (k - 1) * 2 ≤ (b : Rat) ^ (k - 1) * b :=
        mul_le_mul_of_nonneg_left hb2 hprev'.le
      have := (abs_lt.mp hnear').1
      linarith
    have hlog : Int.log b y = k - 1 := by
      refine (log_eq_iff hb (lt_of_lt_of_le hprev' hylow')).mpr ⟨hylow', ?_⟩
      rw [sub_add_cancel]
      exact lt_of_not_ge hyk
    rw [nearest, lastPlace, hlog]
    have hplace : max (k - 1 - ((p - 1 : Nat) : Int)) emin ≤ k := by omega
    obtain ⟨m, hm⟩ := Lib.exists_multiple (m := 1) (x := x) (Nat.zero_lt_of_lt hb)
      (by rw [Int.cast_one, one_mul]; exact hxk) hplace
    refine roundAt_of_near (Nat.zero_lt_of_lt hb) hm ?_
    have hmono : (b : Rat) ^ (k - p) ≤ (b : Rat) ^ max (k - 1 - ((p - 1 : Nat) : Int)) emin :=
      zpow_le_zpow_right₀ hb1 (by omega)
    linarith

/-- Rounding to enough digits of another base and back changes nothing. -/
theorem nearest_roundAt {c n : Nat} (hb : 1 < b) (hp : 0 < p) (hc : 1 < c)
    (hbc : b ^ p < c ^ (n - 1)) (hx : 0 < x) (hdigits : HasDigits b p emin x) :
    nearest b p emin (roundAt c (lastPlace c n x) x) = x := by
  apply nearest_of_close hb hp hx hdigits
  have hc0 : (0 : Rat) < c := by exact_mod_cast Nat.zero_lt_of_lt hc
  have hround := abs_roundAt_sub_le (Nat.zero_lt_of_lt hc) (lastPlace c n x) x
  have hlow := ((log_eq_iff hc hx).mp rfl).1
  have hsplit : (c : Rat) ^ lastPlace c n x * (c : Rat) ^ (n - 1) = (c : Rat) ^ Int.log c x := by
    rw [← zpow_natCast, ← zpow_add₀ hc0.ne', lastPlace, sub_add_cancel]
  have hpow : (0 : Rat) < (c : Rat) ^ (n - 1) := pow_pos hc0 _
  have hle : |roundAt c (lastPlace c n x) x - x| * (2 * (c : Rat) ^ (n - 1)) ≤ x := by
    calc |roundAt c (lastPlace c n x) x - x| * (2 * (c : Rat) ^ (n - 1))
        ≤ (c : Rat) ^ lastPlace c n x / 2 * (2 * (c : Rat) ^ (n - 1)) :=
          mul_le_mul_of_nonneg_right hround (by positivity)
      _ = (c : Rat) ^ Int.log c x := by rw [← hsplit]; ring
      _ ≤ x := hlow
  by_cases hzero : |roundAt c (lastPlace c n x) x - x| = 0
  · rw [hzero, zero_mul]
    exact hx
  · have hpos := lt_of_le_of_ne (abs_nonneg _) (Ne.symm hzero)
    have hcast : (b : Rat) ^ p < (c : Rat) ^ (n - 1) := by exact_mod_cast hbc
    exact lt_of_lt_of_le (mul_lt_mul_of_pos_left (by linarith) hpos) hle

theorem nearest_zero (b p : Nat) (emin : Int) : nearest b p emin 0 = 0 := by
  have hzero : roundHalfEven 0 = 0 := by simpa using roundHalfEven_intCast 0
  rw [nearest, roundAt, zero_div, hzero, Int.cast_zero, zero_mul]

theorem nearest_nonneg (hq : 0 ≤ q) : 0 ≤ nearest b p emin q := by
  rw [nearest, roundAt]
  have hpow : (0 : Rat) ≤ (b : Rat) ^ max (lastPlace b p q) emin :=
    zpow_nonneg (Nat.cast_nonneg b) _
  have hround := roundHalfEven_nonneg (div_nonneg hq hpow)
  exact mul_nonneg (by exact_mod_cast hround) hpow

/-- What is rounded to `p` digits has `p` digits. -/
theorem hasDigits_nearest (hb : 1 < b) (hp : 0 < p) (hq : 0 ≤ q) :
    HasDigits b p emin (nearest b p emin q) := by
  rcases hq.eq_or_lt with rfl | hpos
  · refine ⟨0, emin, ?_, Nat.pow_pos (Nat.zero_lt_of_lt hb), le_refl _⟩
    rw [nearest_zero, Nat.cast_zero, zero_mul]
  · have hb0 : (0 : Rat) < b := by exact_mod_cast Nat.zero_lt_of_lt hb
    have hb1 : (1 : Rat) ≤ b := by exact_mod_cast hb.le
    have hhigh := ((log_eq_iff hb hpos).mp rfl).2
    rw [nearest, roundAt, lastPlace]
    generalize Int.log b q = k at hhigh
    generalize he : max (k - ((p - 1 : Nat) : Int)) emin = e
    have hepos : (0 : Rat) < (b : Rat) ^ e := zpow_pos hb0 e
    have hdiv : q / (b : Rat) ^ e ≤ ((b ^ p : Nat) : Int) := by
      have hsplit : (b : Rat) ^ p * (b : Rat) ^ e = (b : Rat) ^ ((p : Int) + e) := by
        rw [zpow_add₀ hb0.ne', zpow_natCast]
      have hmono : (b : Rat) ^ (k + 1) ≤ (b : Rat) ^ ((p : Int) + e) :=
        zpow_le_zpow_right₀ hb1 (by omega)
      rw [div_le_iff₀ hepos]
      push_cast
      rw [hsplit]
      linarith
    have hle := roundHalfEven_le hdiv
    have hnonneg := roundHalfEven_nonneg (div_nonneg hpos.le hepos.le)
    generalize roundHalfEven (q / (b : Rat) ^ e) = m at hle hnonneg
    obtain ⟨m, rfl⟩ := Int.eq_ofNat_of_zero_le hnonneg
    rcases Nat.lt_or_ge m (b ^ p) with hlt | hge
    · exact ⟨m, e, by push_cast; rfl, hlt, by omega⟩
    · obtain rfl : m = b ^ p := Nat.le_antisymm (by exact_mod_cast hle) hge
      refine ⟨b ^ (p - 1), e + 1, ?_, Nat.pow_lt_pow_right hb (by omega), by omega⟩
      have hexp : p - 1 + 1 = p := by omega
      rw [zpow_add_one₀ hb0.ne']
      push_cast
      rw [← hexp, pow_succ, Nat.add_sub_cancel]
      ring

end

end Lib
end LinuxPrograming
