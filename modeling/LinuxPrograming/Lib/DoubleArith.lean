import LinuxPrograming.Lib.Double

/-!
# Arithmetic on `double`

Products and quotients with small integers and `round`, each rounded to the nearest `double`.  The
result this module exists for is `tenth_tenth`: rounding to tenths by way of `double` leaves alone
what was rounded before.
-/

namespace LinuxPrograming
namespace Lib

section

variable {b p : Nat} {emin : Int} {q : Rat}

/-- The error of rounding to `p` digits. -/
theorem abs_nearest_sub_le (hb : 1 < b) (hq : 0 < q) {bound : Rat} (hle : q ≤ bound)
    (hmin : (b : Rat) ^ (emin + (p - 1 : Nat)) ≤ bound) :
    |nearest b p emin q - q| ≤ bound / (2 * (b : Rat) ^ (p - 1)) := by
  have hb0 : (0 : Rat) < b := by exact_mod_cast Nat.zero_lt_of_lt hb
  have hpow : (0 : Rat) < (b : Rat) ^ (p - 1) := pow_pos hb0 _
  have hplace : (b : Rat) ^ max (lastPlace b p q) emin * (b : Rat) ^ (p - 1) ≤ bound := by
    rw [← zpow_natCast, ← zpow_add₀ hb0.ne', lastPlace]
    rcases le_total emin (Int.log b q - (p - 1 : Nat)) with h | h
    · rw [max_eq_left h, sub_add_cancel]
      exact le_trans (Int.zpow_log_le_self hb hq) hle
    · rw [max_eq_right h]
      exact hmin
  have herror := abs_roundAt_sub_le (Nat.zero_lt_of_lt hb) (max (lastPlace b p q) emin) q
  rw [nearest]
  refine le_trans herror ?_
  rw [div_le_div_iff₀ (by norm_num) (by positivity)]
  linarith

/-- A number of `p` digits is the nearest one to itself. -/
theorem nearest_self (hb : 1 < b) (hq : 0 ≤ q) (hdigits : HasDigits b p emin q) :
    nearest b p emin q = q := by
  rcases hq.eq_or_lt with rfl | hpos
  · exact nearest_zero b p emin
  · obtain ⟨n, hn⟩ := hdigits.exists_multiple hb hpos
    have hb0 : (0 : Rat) < b := by exact_mod_cast Nat.zero_lt_of_lt hb
    refine roundAt_of_near (Nat.zero_lt_of_lt hb) hn ?_
    rw [sub_self, abs_zero]
    have hpow : (0 : Rat) < (b : Rat) ^ max (lastPlace b p q) emin := zpow_pos hb0 _
    linarith

end

namespace Double

/-- `d * k` for an integer constant that is not zero. -/
def times (k : Nat) : Double → Double
  | finite neg m => ofRat neg (m.val * k) (mul_nonneg m.nonneg (Nat.cast_nonneg k))
  | d => d

/-- `d / k` for an integer constant that is not zero. -/
def dividedBy (k : Nat) : Double → Double
  | finite neg m => ofRat neg (m.val / k) (div_nonneg m.nonneg (Nat.cast_nonneg k))
  | d => d

theorem floor_add_half_nonneg (m : Magnitude) : (0 : Rat) ≤ ⌊m.val + 1 / 2⌋ := by
  have hfloor : 0 ≤ ⌊m.val + 1 / 2⌋ := Int.floor_nonneg.mpr (by linarith [m.nonneg])
  exact_mod_cast hfloor

/-- `round(d)`. -/
def round : Double → Double
  | finite neg m => ofRat neg ⌊m.val + 1 / 2⌋ (floor_add_half_nonneg m)
  | d => d

/-- `round(d * 10) / 10`. -/
def tenth (d : Double) : Double := dividedBy 10 (round (times 10 d))

theorem ofRat_of_lt (neg : Bool) {q : Rat} (hq : 0 ≤ q)
    (h : nearest 2 53 (-1074) q < beyondDouble) :
    ∃ m, ofRat neg q hq = finite neg m ∧ m.val = nearest 2 53 (-1074) q := by
  rw [ofRat, dif_pos h]
  exact ⟨_, rfl, rfl⟩

/-- The error of rounding to a `double`. -/
theorem abs_nearest_double_sub_le {q : Rat} (hq : 0 ≤ q) :
    |nearest 2 53 (-1074) q - q| ≤ max q 1 / 2 ^ 53 := by
  rcases hq.eq_or_lt with rfl | hpos
  · rw [nearest_zero, sub_zero, abs_zero]
    positivity
  · have hmin : ((2 : Nat) : Rat) ^ ((-1074 : Int) + (53 - 1 : Nat)) ≤ max q 1 := by
      refine le_trans ?_ (le_max_right q 1)
      exact zpow_le_one_of_nonpos₀ (by norm_num) (by norm_num)
    have herror := abs_nearest_sub_le (b := 2) (p := 53) (by decide) hpos (le_max_left q 1) hmin
    refine le_trans herror (le_of_eq ?_)
    norm_num

theorem lt_beyond {q : Rat} (hlt : q < 2 ^ 61) : q < beyondDouble := by
  refine lt_trans hlt ?_
  rw [beyondDouble, Nat.cast_pow]
  exact pow_lt_pow_right₀ (by norm_num) (by decide)

theorem nearest_lt_beyond {q : Rat} (hq : 0 ≤ q) (hlt : q < 2 ^ 60) :
    nearest 2 53 (-1074) q < beyondDouble := by
  have herror := (abs_le.mp (abs_nearest_double_sub_le hq)).2
  have hmax : max q 1 < 2 ^ 60 := max_lt hlt (by norm_num)
  have hsmall : max q 1 / 2 ^ 53 < 2 ^ 60 / 2 ^ 53 :=
    div_lt_div_of_pos_right hmax (by positivity)
  refine lt_beyond ?_
  norm_num at hsmall hlt ⊢
  linarith

/-- A small integer is a `double`. -/
theorem nearest_natCast {n : Nat} (h : n < 2 ^ 53) : nearest 2 53 (-1074) n = n := by
  refine nearest_self (by decide) (Nat.cast_nonneg n) ⟨n, 0, ?_, h, by decide⟩
  rw [zpow_zero, mul_one]

/-! ## Tenths -/

theorem cast_ten : ((10 : Nat) : Rat) = 10 := by norm_num

/-- `round(d * 10) / 10` is the `double` nearest to `n / 10`, for the integer `n` nearest to the
`double` that `d * 10` is. -/
theorem exists_tenth (neg : Bool) {m : Magnitude} (hlt : m.val < 2 ^ 44) :
    ∃ (n : Nat) (x : Rat), |x - m.val * 10| ≤ max (m.val * 10) 1 / 2 ^ 53 ∧
      (n : Int) = ⌊x + 1 / 2⌋ ∧ (n : Rat) < 2 ^ 49 ∧
      ∃ t, tenth (finite neg m) = finite neg t ∧
        t.val = nearest 2 53 (-1074) ((n : Rat) / 10) := by
  have hnonneg : 0 ≤ m.val * (10 : Nat) := mul_nonneg m.nonneg (Nat.cast_nonneg 10)
  have hten : m.val * (10 : Nat) < 2 ^ 48 := by
    have hroom : (2 : Rat) ^ 44 * 10 < 2 ^ 48 := by norm_num
    rw [cast_ten]
    linarith only [hlt, hroom]
  obtain ⟨x, hx, hxval⟩ := ofRat_of_lt neg hnonneg
    (nearest_lt_beyond hnonneg (lt_trans hten (by norm_num)))
  have herror := abs_nearest_double_sub_le hnonneg
  rw [← hxval] at herror
  have hfloor : 0 ≤ ⌊x.val + 1 / 2⌋ := Int.floor_nonneg.mpr (by linarith [x.nonneg])
  obtain ⟨n, hn⟩ := Int.eq_ofNat_of_zero_le hfloor
  have hcast : ((⌊x.val + 1 / 2⌋ : Int) : Rat) = n := by
    rw [hn]
    rfl
  have hsmall : (n : Rat) < 2 ^ 49 := by
    have hle := Int.floor_le (x.val + 1 / 2)
    have hmax : max (m.val * (10 : Nat)) 1 / 2 ^ 53 < 1 := by
      rw [div_lt_one (by positivity)]
      exact max_lt (lt_trans hten (by norm_num)) (by norm_num)
    have hroom : (2 : Rat) ^ 48 + 2 < 2 ^ 49 := by norm_num
    rw [hcast] at hle
    have hnear : x.val - m.val * (10 : Nat) < 1 := lt_of_le_of_lt (abs_le.mp herror).2 hmax
    have hx49 : x.val + 1 / 2 < 2 ^ 49 := by linarith only [hten, hnear, hroom]
    exact lt_of_le_of_lt hle hx49
  have hn49 : n < 2 ^ 49 := by exact_mod_cast hsmall
  obtain ⟨y, hy, hyval⟩ := ofRat_of_lt neg (Nat.cast_nonneg n)
    (nearest_lt_beyond (Nat.cast_nonneg n) (lt_trans hsmall (by norm_num)))
  rw [nearest_natCast (by omega)] at hyval
  have hquotient : y.val / (10 : Nat) < 2 ^ 60 := by
    have hroom : (2 : Rat) ^ 49 < 2 ^ 60 * 10 := by norm_num
    rw [hyval, cast_ten, div_lt_iff₀ (by norm_num)]
    exact lt_trans hsmall hroom
  have hpos : 0 ≤ y.val / (10 : Nat) := div_nonneg y.nonneg (Nat.cast_nonneg 10)
  obtain ⟨t, ht, htval⟩ := ofRat_of_lt neg hpos (nearest_lt_beyond hpos hquotient)
  have hround : round (finite neg x) = finite neg y := by
    rw [round, ← hy]
    congr 1
  rw [cast_ten] at herror
  refine ⟨n, x.val, herror, hn.symm, hsmall, t, ?_, ?_⟩
  · rw [tenth, show times 10 (finite neg m) = finite neg x from hx, hround]
    exact ht
  · rw [htval, hyval, cast_ten]

/-- The integer that `x` is rounded to is at most a half away. -/
theorem abs_floor_add_half_sub_le {n : Nat} {x : Rat} (hn : (n : Int) = ⌊x + 1 / 2⌋) :
    |(n : Rat) - x| ≤ 1 / 2 := by
  have hle := Int.floor_le (x + 1 / 2)
  have hlt := Int.lt_floor_add_one (x + 1 / 2)
  rw [← hn, Int.cast_natCast] at hle hlt
  rw [abs_le]
  constructor <;> linarith

/-- How far rounding to tenths moves a `double`. -/
theorem tenth_near (neg : Bool) {m : Magnitude} (hlt : m.val < 2 ^ 44) :
    ∃ t, tenth (finite neg m) = finite neg t ∧
      |t.val - m.val| ≤ 1 / 20 + max m.val 1 / 2 ^ 51 := by
  obtain ⟨n, x, hx, hn, -, t, ht, htval⟩ := exists_tenth neg hlt
  refine ⟨t, ht, ?_⟩
  have hhalf := abs_le.mp (abs_floor_add_half_sub_le hn)
  have hpos : 0 ≤ (n : Rat) / 10 := div_nonneg (Nat.cast_nonneg n) (by norm_num)
  have herror := abs_le.mp (abs_nearest_double_sub_le hpos)
  rw [← htval] at herror
  have hx' := abs_le.mp hx
  obtain ⟨M, hM⟩ : ∃ M, M = max m.val 1 := ⟨_, rfl⟩
  have hm : m.val ≤ M := hM ▸ le_max_left _ _
  have hone : 1 ≤ M := hM ▸ le_max_right _ _
  have hmax : max (m.val * 10) 1 ≤ M * 10 := max_le (by linarith) (by linarith)
  have hmax₁ : max (m.val * 10) 1 / 2 ^ 53 ≤ M * 10 / 2 ^ 53 :=
    div_le_div_of_nonneg_right hmax (by positivity)
  have htenfold : M * 10 / 2 ^ 53 ≤ M / 2 := by
    rw [div_le_iff₀ (by positivity)]
    linarith
  have hn10 : (n : Rat) / 10 ≤ M * 2 := by
    rw [div_le_iff₀ (by norm_num)]
    linarith
  have hmax₂ : max ((n : Rat) / 10) 1 / 2 ^ 53 ≤ M * 2 / 2 ^ 53 :=
    div_le_div_of_nonneg_right (max_le hn10 (by linarith)) (by positivity)
  rw [← hM, abs_le]
  constructor <;> linarith

/-- What was rounded to tenths before is left alone. -/
theorem tenth_tenth (neg : Bool) {m : Magnitude} (hlt : m.val < 2 ^ 40) :
    tenth (tenth (finite neg m)) = tenth (finite neg m) := by
  obtain ⟨n, x, hx, hn, -, t, ht, htval⟩ := exists_tenth neg (lt_trans hlt (by norm_num))
  have hhalf := abs_le.mp (abs_floor_add_half_sub_le hn)
  have hpos : 0 ≤ (n : Rat) / 10 := div_nonneg (Nat.cast_nonneg n) (by norm_num)
  have herror := abs_le.mp (abs_nearest_double_sub_le hpos)
  rw [← htval] at herror
  have hx' := (abs_le.mp hx).2
  have hmax : max (m.val * 10) 1 / 2 ^ 53 ≤ 1 := by
    rw [div_le_one (by positivity)]
    exact max_le (by linarith) (by norm_num)
  have hn44 : (n : Rat) / 10 ≤ 2 ^ 41 := by
    rw [div_le_iff₀ (by norm_num)]
    linarith
  have hclose : max ((n : Rat) / 10) 1 / 2 ^ 53 ≤ 2 ^ 41 / 2 ^ 53 :=
    div_le_div_of_nonneg_right (max_le hn44 (by norm_num)) (by positivity)
  obtain ⟨n', x', hagain, hn', -, t', ht', htval'⟩ := exists_tenth neg (m := t) (by linarith)
  have hagain' := abs_le.mp hagain
  have hten : max (t.val * 10) 1 / 2 ^ 53 ≤ 2 ^ 45 / 2 ^ 53 :=
    div_le_div_of_nonneg_right (max_le (by linarith) (by norm_num)) (by positivity)
  have hsame : n' = n := by
    have hfloor : ⌊x' + 1 / 2⌋ = (n : Int) := by
      rw [Int.floor_eq_iff, Int.cast_natCast]
      constructor <;> linarith
    exact_mod_cast hn'.trans hfloor
  rw [ht, ht']
  congr 1
  apply Magnitude.ext_val
  rw [htval', htval, hsame]

end Double

end Lib
end LinuxPrograming
