import LinuxPrograming.Lib.Rounding
import Mathlib.Data.List.DropRight
import Mathlib.Data.Nat.Digits.Lemmas

/-!
# Decimal numbers as text

`%g` of `printf` for numbers that are not negative, and the decimal numbers that `strtod` reads.
What `%g` prints is read back as the number it was rounded to.
-/

namespace LinuxPrograming
namespace Lib

/-! ## Digits -/

/-- `isdigit`. -/
def isDigit (c : UInt8) : Bool := 48 ≤ c ∧ c ≤ 57

/-- The number that a string of digits stands for. -/
def digitsVal (ds : Bytes) : Nat := ds.foldl (fun n c => 10 * n + (c.toNat - 48)) 0

def digitChar (d : Nat) : UInt8 := UInt8.ofNat (48 + d)

/-- The digits of `n`, none for 0. -/
def natText (n : Nat) : Bytes := ((Nat.digits 10 n).map digitChar).reverse

theorem toNat_digitChar {d : Nat} (hd : d < 10) : (digitChar d).toNat = 48 + d := by
  rw [digitChar, UInt8.toNat_ofNat']
  omega

theorem isDigit_digitChar {d : Nat} (hd : d < 10) : isDigit (digitChar d) = true := by
  have hnat := toNat_digitChar hd
  simp only [isDigit, UInt8.le_iff_toNat_le, decide_eq_true_eq, hnat]
  constructor
  · show 48 ≤ 48 + d
    omega
  · show 48 + d ≤ 57
    omega

theorem digitsVal_concat (ds : Bytes) (c : UInt8) :
    digitsVal (ds ++ [c]) = 10 * digitsVal ds + (c.toNat - 48) := by
  rw [digitsVal, digitsVal, List.foldl_append, List.foldl_cons, List.foldl_nil]

theorem digitsVal_append (ds es : Bytes) :
    digitsVal (ds ++ es) = digitsVal ds * 10 ^ es.length + digitsVal es := by
  induction es using List.reverseRecOn with
  | nil => simp [digitsVal]
  | append_singleton es c ih =>
    rw [← List.append_assoc, digitsVal_concat, digitsVal_concat, ih, List.length_append,
      List.length_singleton, pow_succ]
    ring

theorem digitsVal_natText (n : Nat) : digitsVal (natText n) = n := by
  induction n using Nat.strong_induction_on with
  | _ n ih =>
    rcases Nat.eq_zero_or_pos n with rfl | hpos
    · rfl
    · have hrest := ih (n / 10) (Nat.div_lt_self hpos (by decide))
      have htext : natText n = natText (n / 10) ++ [digitChar (n % 10)] := by
        rw [natText, natText, Nat.digits_def' (by decide) hpos, List.map_cons,
          List.reverse_cons]
      rw [htext, digitsVal_concat, hrest, toNat_digitChar (Nat.mod_lt _ (by decide))]
      omega

theorem isDigit_natText {n : Nat} {c : UInt8} (hc : c ∈ natText n) : isDigit c = true := by
  rw [natText, List.mem_reverse, List.mem_map] at hc
  obtain ⟨d, hd, rfl⟩ := hc
  exact isDigit_digitChar (Nat.digits_lt_base (by decide) hd)

theorem length_natText {n k : Nat} (hlow : 10 ^ k ≤ n) (hhigh : n < 10 ^ (k + 1)) :
    (natText n).length = k + 1 := by
  rw [natText, List.length_reverse, List.length_map]
  apply Nat.le_antisymm
  · exact (Nat.digits_length_le_iff (by decide) n).mpr hhigh
  · exact (Nat.lt_digits_length_iff (by decide) n).mpr hlow

/-- A text of digits without the zeros at its end. -/
def stripZeros (ds : Bytes) : Bytes := ds.rdropWhile fun c => c = 48

theorem digitsVal_stripZeros (ds : Bytes) :
    digitsVal ds = digitsVal (stripZeros ds) * 10 ^ (ds.length - (stripZeros ds).length) ∧
      (stripZeros ds).length ≤ ds.length := by
  induction ds using List.reverseRecOn with
  | nil => exact ⟨rfl, Nat.le_refl _⟩
  | append_singleton ds c ih =>
    obtain ⟨hval, hlen⟩ := ih
    by_cases hc : c = 48
    · have hstrip : stripZeros (ds ++ [c]) = stripZeros ds := by
        rw [stripZeros, List.rdropWhile_concat_pos _ _ _ (by simpa using hc), stripZeros]
      have hsub : (ds ++ [c]).length - (stripZeros ds).length =
          ds.length - (stripZeros ds).length + 1 := by
        rw [List.length_append, List.length_singleton]
        omega
      rw [hstrip, hsub, digitsVal_concat, hval, hc, pow_succ, List.length_append]
      refine ⟨?_, by omega⟩
      show 10 * _ + 0 = _
      ring
    · have hstrip : stripZeros (ds ++ [c]) = ds ++ [c] := by
        rw [stripZeros, List.rdropWhile_concat_neg _ _ _ (by simpa using hc)]
      rw [hstrip, Nat.sub_self, pow_zero, Nat.mul_one]
      exact ⟨rfl, Nat.le_refl _⟩

theorem mem_of_mem_stripZeros {ds : Bytes} {c : UInt8} (h : c ∈ stripZeros ds) : c ∈ ds :=
  (List.rdropWhile_prefix _ _).subset h

/-! ## Reading -/

/-- A number as `strtod` finds it: its value is `digits * 10 ^ exp10`, and it takes `len` bytes. -/
structure Scanned where
  neg : Bool
  digits : Nat
  exp10 : Int
  len : Nat

def scanSign : Bytes → Bool × Bytes
  | 45 :: t => (true, t)
  | 43 :: t => (false, t)
  | t => (false, t)

/-- The digits behind a point. -/
def scanFraction : Bytes → Bytes × Bytes
  | 46 :: t => (t.takeWhile isDigit, t.dropWhile isDigit)
  | t => ([], t)

/-- The exponent.  An `e` that no digit follows is not part of the number. -/
def scanExponent : Bytes → Int × Bytes
  | [] => (0, [])
  | c :: t =>
    if c = 101 ∨ c = 69 then
      let (neg, u) := scanSign t
      let ds := u.takeWhile isDigit
      if ds = [] then (0, c :: t)
      else (if neg then -(digitsVal ds : Int) else digitsVal ds, u.dropWhile isDigit)
    else (0, c :: t)

/-- The longest decimal number at the start of a text. -/
def scanDecimal (s : Bytes) : Option Scanned :=
  let (neg, t) := scanSign s
  let whole := t.takeWhile isDigit
  let (fraction, u) := scanFraction (t.dropWhile isDigit)
  if whole = [] ∧ fraction = [] then none
  else
    let (exp10, v) := scanExponent u
    some ⟨neg, digitsVal (whole ++ fraction), exp10 - fraction.length, s.length - v.length⟩

/-! ## Printing -/

def signText (neg : Bool) : Bytes := if neg then [45] else []

/-- The point and the digits behind it, when there are any. -/
def pointText (fraction : Bytes) : Bytes := if fraction = [] then [] else 46 :: fraction

/-- The exponent has two digits at least. -/
def exponentText (x : Int) : Bytes :=
  [101, if x < 0 then 45 else 43] ++ (if x.natAbs < 10 then [48, digitChar x.natAbs]
    else natText x.natAbs)

/-- The first `p` digits of a positive number, rounded, and the place of the first. -/
def significand (p : Nat) (q : Rat) : Nat × Int :=
  let e := lastPlace 10 p q
  let n := (roundHalfEven (q / (10 : Nat) ^ e)).toNat
  if n = 10 ^ p then (10 ^ (p - 1), e + p) else (n, e + (p - 1 : Nat))

/-- The layout of `%g` for the digits `ds`, of which the first has the place `x`. -/
def layoutG (ds : Bytes) (x : Int) : Bytes :=
  if -4 ≤ x ∧ x < ds.length then
    if 0 ≤ x then ds.take (x.toNat + 1) ++ pointText (stripZeros (ds.drop (x.toNat + 1)))
    else [48] ++ pointText (stripZeros (List.replicate (-x - 1).toNat 48 ++ ds))
  else ds.take 1 ++ pointText (stripZeros (ds.drop 1)) ++ exponentText x

/-- `%.{p}g`. -/
def formatG (p : Nat) (neg : Bool) (q : Rat) : Bytes :=
  signText neg ++
    if q = 0 then [48] else layoutG (natText (significand p q).1) (significand p q).2

example : formatG 15 true (203 / 10) = bytes "-20.3" := by decide +kernel

example : formatG 17 false (1 / 3 * (1 / 10 ^ 5)) = bytes "3.3333333333333333e-06" := by
  decide +kernel

/-! ## Reading what was printed -/

/-- `t` does not start with a digit. -/
def Stops (t : Bytes) : Prop := ∀ c u, t = c :: u → isDigit c = false

section

variable {ds t : Bytes}

theorem takeWhile_digits (hds : ∀ c ∈ ds, isDigit c = true) (ht : Stops t) :
    (ds ++ t).takeWhile isDigit = ds ∧ (ds ++ t).dropWhile isDigit = t := by
  rw [List.takeWhile_append_of_pos hds, List.dropWhile_append_of_pos hds]
  cases t with
  | nil => exact ⟨List.append_nil ds, rfl⟩
  | cons c t =>
    have hc := ht c t rfl
    rw [List.takeWhile_cons_of_neg (by simp [hc]), List.dropWhile_cons_of_neg (by simp [hc])]
    exact ⟨List.append_nil ds, rfl⟩

theorem scanSign_digits (neg : Bool) (hds : ∀ c ∈ ds, isDigit c = true) (hne : ds ≠ []) :
    scanSign (signText neg ++ ds ++ t) = (neg, ds ++ t) := by
  cases neg with
  | true => rfl
  | false =>
    cases ds with
    | nil => exact absurd rfl hne
    | cons c ds =>
      have hc := hds c List.mem_cons_self
      show scanSign (c :: (ds ++ t)) = (false, c :: (ds ++ t))
      unfold scanSign
      split
      · next heq =>
        cases heq
        exact absurd hc (by decide)
      · next heq =>
        cases heq
        exact absurd hc (by decide)
      · rfl

theorem scanFraction_point (hds : ∀ c ∈ ds, isDigit c = true) (ht : Stops t)
    (hpoint : ∀ u, t ≠ 46 :: u) : scanFraction (pointText ds ++ t) = (ds, t) := by
  unfold pointText
  split
  · next hnil =>
    rw [hnil, List.nil_append]
    unfold scanFraction
    split
    · next u => exact absurd rfl (hpoint u)
    · rfl
  · show ((ds ++ t).takeWhile isDigit, (ds ++ t).dropWhile isDigit) = (ds, t)
    rw [(takeWhile_digits hds ht).1, (takeWhile_digits hds ht).2]

theorem scanExponent_exponentText (x : Int) : scanExponent (exponentText x) = (x, []) := by
  have hdigits : ∃ ds, exponentText x = [101, if x < 0 then 45 else 43] ++ ds ∧ ds ≠ [] ∧
      (∀ c ∈ ds, isDigit c = true) ∧ digitsVal ds = x.natAbs := by
    by_cases hx : x.natAbs < 10
    · refine ⟨[48, digitChar x.natAbs], ?_, by simp, ?_, ?_⟩
      · rw [exponentText, if_pos hx]
      · intro c hc
        simp only [List.mem_cons, List.not_mem_nil, or_false] at hc
        rcases hc with rfl | rfl
        · rfl
        · exact isDigit_digitChar hx
      · show 10 * 0 + ((digitChar x.natAbs).toNat - 48) = x.natAbs
        rw [toNat_digitChar hx]
        omega
    · refine ⟨natText x.natAbs, ?_, ?_, fun c hc => isDigit_natText hc, digitsVal_natText _⟩
      · rw [exponentText, if_neg hx]
      · intro hnil
        have hval := digitsVal_natText x.natAbs
        rw [hnil] at hval
        change 0 = x.natAbs at hval
        omega
  obtain ⟨ds, htext, hne, hds, hval⟩ := hdigits
  have hstop : Stops [] := by
    intro c u h
    cases h
  have htake := takeWhile_digits hds hstop
  rw [List.append_nil] at htake
  have hsign : scanSign ((if x < 0 then 45 else 43) :: ds) = (decide (x < 0), ds) := by
    by_cases hx : x < 0
    · rw [if_pos hx, decide_eq_true hx]
      rfl
    · rw [if_neg hx, decide_eq_false hx]
      rfl
  show scanExponent (exponentText x) = (x, [])
  rw [htext, List.cons_append, List.singleton_append, scanExponent, if_pos (Or.inl rfl), hsign]
  dsimp only
  rw [htake.1, htake.2, if_neg hne, hval]
  by_cases hx : x < 0
  · rw [decide_eq_true hx, if_pos rfl]
    congr 1
    omega
  · rw [decide_eq_false hx, if_neg Bool.false_ne_true]
    congr 1
    omega

/-- A number in the layout that `%g` uses. -/
theorem scanDecimal_layout (neg : Bool) (whole expText : Bytes) {fraction : Bytes} {x : Int}
    (hwhole : ∀ c ∈ whole, isDigit c = true) (hne : whole ≠ [])
    (hfraction : ∀ c ∈ fraction, isDigit c = true) (hstop : Stops expText)
    (hpoint : ∀ u, expText ≠ 46 :: u) (hexp : scanExponent expText = (x, [])) :
    scanDecimal (signText neg ++ whole ++ pointText fraction ++ expText) =
      some ⟨neg, digitsVal (whole ++ fraction), x - fraction.length,
        (signText neg ++ whole ++ pointText fraction ++ expText).length⟩ := by
  have hstop' : Stops (pointText fraction ++ expText) := by
    unfold pointText
    split
    · exact hstop
    · intro c u h
      cases h
      rfl
  have htake := takeWhile_digits hwhole hstop'
  have hsign := scanSign_digits (t := pointText fraction ++ expText) neg hwhole hne
  have hscan := scanFraction_point hfraction hstop hpoint
  rw [← List.append_assoc] at hsign
  rw [scanDecimal, hsign]
  dsimp only
  rw [htake.1, htake.2, hscan]
  dsimp only
  rw [if_neg (fun h => hne h.1), hexp]
  rfl

end

theorem length_scanSign_le (s : Bytes) : (scanSign s).2.length ≤ s.length := by
  unfold scanSign
  split
  · exact Nat.le_succ _
  · exact Nat.le_succ _
  · exact Nat.le_refl _

theorem length_scanFraction (s : Bytes) :
    (scanFraction s).1.length + (scanFraction s).2.length ≤ s.length := by
  unfold scanFraction
  split
  · next t =>
    have hlen := congrArg List.length (List.takeWhile_append_dropWhile (p := isDigit) (l := t))
    rw [List.length_append] at hlen
    show (t.takeWhile isDigit).length + (t.dropWhile isDigit).length ≤ t.length + 1
    omega
  · exact Nat.le_of_eq (Nat.zero_add _)

theorem length_scanExponent_le (s : Bytes) : (scanExponent s).2.length ≤ s.length := by
  cases s with
  | nil => exact Nat.le_refl _
  | cons c t =>
    rw [scanExponent]
    split
    · split
      next neg u hsign =>
      have hu := length_scanSign_le t
      rw [hsign] at hu
      have hdrop := (List.dropWhile_suffix isDigit (l := u)).length_le
      dsimp only at hu ⊢
      split
      · exact Nat.le_refl _
      · rw [List.length_cons]
        show (u.dropWhile isDigit).length ≤ _
        omega
    · exact Nat.le_refl _

/-- A number takes one byte of the text at least. -/
theorem scanDecimal_len {s : Bytes} {d : Scanned} (h : scanDecimal s = some d) :
    0 < d.len ∧ d.len ≤ s.length := by
  rw [scanDecimal] at h
  have hsign := length_scanSign_le s
  generalize scanSign s = sign at h hsign
  obtain ⟨neg, t⟩ := sign
  have hwhole := congrArg List.length (List.takeWhile_append_dropWhile (p := isDigit) (l := t))
  rw [List.length_append] at hwhole
  have hfraction := length_scanFraction (t.dropWhile isDigit)
  dsimp only at h hsign
  generalize scanFraction (t.dropWhile isDigit) = fraction at h hfraction
  obtain ⟨fraction, u⟩ := fraction
  have hexp := length_scanExponent_le u
  dsimp only at h hfraction
  split at h
  · cases h
  · next hne =>
    generalize scanExponent u = exponent at h hexp
    obtain ⟨exp10, v⟩ := exponent
    dsimp only at h hexp
    obtain rfl := Option.some.inj h
    have hdigits : 0 < (t.takeWhile isDigit).length ∨ 0 < fraction.length := by
      by_contra hzero
      apply hne
      exact ⟨List.length_eq_zero_iff.mp (by omega), List.length_eq_zero_iff.mp (by omega)⟩
    show 0 < s.length - v.length ∧ s.length - v.length ≤ s.length
    omega

/-- Zeros in front do not count. -/
theorem digitsVal_zeros (k : Nat) (ds : Bytes) :
    digitsVal ([48] ++ (List.replicate k 48 ++ ds)) = digitsVal ds := by
  have hzero : digitsVal ([48] ++ List.replicate k 48) = 0 := by
    induction k with
    | zero => rfl
    | succ k ih =>
      rw [List.replicate_succ', ← List.append_assoc, digitsVal_concat, ih]
      rfl
  rw [← List.append_assoc, digitsVal_append, hzero, Nat.zero_mul, Nat.zero_add]

/-- Zeros at the end of a fraction do not count. -/
theorem digitsVal_fraction (whole fraction : Bytes) (y : Int) :
    (digitsVal (whole ++ stripZeros fraction) : Rat) *
        (10 : Nat) ^ (y - (stripZeros fraction).length) =
      digitsVal (whole ++ fraction) * (10 : Nat) ^ (y - fraction.length) := by
  obtain ⟨hval, hlen⟩ := digitsVal_stripZeros fraction
  have hscale : digitsVal (whole ++ fraction) =
      digitsVal (whole ++ stripZeros fraction) *
        10 ^ (fraction.length - (stripZeros fraction).length) := by
    rw [digitsVal_append, digitsVal_append, add_mul, ← hval, mul_assoc, ← pow_add,
      Nat.add_sub_cancel' hlen]
  have hten : ((10 : Nat) : Rat) ≠ 0 := by norm_num
  have hexp : y - ((stripZeros fraction).length : Int) =
      ((fraction.length - (stripZeros fraction).length : Nat) : Int) + (y - fraction.length) := by
    omega
  rw [hscale, hexp, zpow_add₀ hten, zpow_natCast]
  push_cast
  ring

section

variable {p : Nat} {q : Rat}

theorem significand_spec (hp : 0 < p) (hq : 0 < q) :
    10 ^ (p - 1) ≤ (significand p q).1 ∧ (significand p q).1 < 10 ^ p ∧
      ((significand p q).1 : Rat) * (10 : Nat) ^ ((significand p q).2 - (p - 1 : Nat)) =
        roundAt 10 (lastPlace 10 p q) q := by
  have hten : ((10 : Nat) : Rat) ≠ 0 := by norm_num
  obtain ⟨hlow, hhigh⟩ := (log_eq_iff (b := 10) (by decide) hq).mp rfl
  have hlog : Int.log 10 q = lastPlace 10 p q + (p - 1 : Nat) := by
    rw [lastPlace]
    omega
  rw [hlog] at hlow hhigh
  rw [significand, roundAt]
  generalize lastPlace 10 p q = e at hlow hhigh
  have hepos : (0 : Rat) < ((10 : Nat) : Rat) ^ e := zpow_pos (by norm_num) e
  have hle : (((10 ^ (p - 1) : Nat) : Int) : Rat) ≤ q / (10 : Nat) ^ e := by
    rw [le_div_iff₀ hepos, Int.cast_natCast, Nat.cast_pow, ← zpow_natCast, ← zpow_add₀ hten,
      add_comm]
    exact hlow
  have hge : q / (10 : Nat) ^ e ≤ (((10 ^ p : Nat) : Int) : Rat) := by
    have hexp : (p : Int) + e = e + (p - 1 : Nat) + 1 := by omega
    rw [div_le_iff₀ hepos, Int.cast_natCast, Nat.cast_pow, ← zpow_natCast, ← zpow_add₀ hten, hexp]
    exact hhigh.le
  have hlow' := le_roundHalfEven hle
  have hhigh' := roundHalfEven_le hge
  generalize roundHalfEven (q / (10 : Nat) ^ e) = m at hlow' hhigh'
  obtain ⟨n, rfl⟩ := Int.eq_ofNat_of_zero_le (Int.le_trans (Int.natCast_nonneg _) hlow')
  have hlow : 10 ^ (p - 1) ≤ n := by exact_mod_cast hlow'
  have hhigh : n ≤ 10 ^ p := by exact_mod_cast hhigh'
  rw [Int.toNat_natCast, Int.cast_natCast]
  by_cases hn : n = 10 ^ p
  · have hsucc : 10 ^ p = 10 ^ (p - 1) * 10 := by rw [← pow_succ, Nat.sub_add_cancel hp]
    have hexp : e + (p : Int) - (p - 1 : Nat) = e + 1 := by omega
    rw [if_pos hn]
    show 10 ^ (p - 1) ≤ 10 ^ (p - 1) ∧ 10 ^ (p - 1) < 10 ^ p ∧
      ((10 ^ (p - 1) : Nat) : Rat) * (10 : Nat) ^ (e + (p : Int) - (p - 1 : Nat)) = _
    refine ⟨Nat.le_refl _, Nat.pow_lt_pow_right (by decide) (by omega), ?_⟩
    rw [hexp, zpow_add_one₀ hten, hn, hsucc]
    push_cast
    ring
  · rw [if_neg hn]
    refine ⟨hlow, Nat.lt_of_le_of_ne hhigh hn, ?_⟩
    show (n : Rat) * (10 : Nat) ^ (e + ((p - 1 : Nat) : Int) - (p - 1 : Nat)) = _
    rw [add_sub_cancel_right]

theorem scanDecimal_layoutG (neg : Bool) {ds : Bytes} (hdigits : ∀ c ∈ ds, isDigit c = true)
    (hne : ds ≠ []) (x : Int) :
    ∃ d, scanDecimal (signText neg ++ layoutG ds x) = some d ∧ d.neg = neg ∧
      d.len = (signText neg ++ layoutG ds x).length ∧
      (d.digits : Rat) * (10 : Nat) ^ d.exp10 =
        digitsVal ds * (10 : Nat) ^ (x - (ds.length - 1 : Nat)) := by
  have hpos : 0 < ds.length := List.length_pos_iff.mpr hne
  have htake : ∀ {k : Nat}, 0 < k → ds.take k ≠ [] := by
    intro k hk hnil
    rcases List.take_eq_nil_iff.mp hnil with h | h
    · omega
    · exact hne h
  have hfront : ∀ k, ∀ c ∈ ds.take k, isDigit c = true :=
    fun k c hc => hdigits c (List.mem_of_mem_take hc)
  have hback : ∀ k, ∀ c ∈ stripZeros (ds.drop k), isDigit c = true :=
    fun k c hc => hdigits c (List.mem_of_mem_drop (mem_of_mem_stripZeros hc))
  have hstop : Stops [] := by
    intro c u h
    cases h
  have hnopoint : ∀ u : Bytes, [] ≠ 46 :: u := by
    intro u h
    cases h
  rw [layoutG]
  by_cases hfixed : -4 ≤ x ∧ x < ds.length
  · rw [if_pos hfixed]
    by_cases hx : 0 ≤ x
    · rw [if_pos hx]
      have hscan := scanDecimal_layout neg (ds.take (x.toNat + 1)) [] (hfront (x.toNat + 1))
        (htake (Nat.succ_pos _)) (hback (x.toNat + 1)) hstop hnopoint (x := 0) rfl
      rw [List.append_nil, List.append_assoc] at hscan
      refine ⟨_, hscan, rfl, rfl, ?_⟩
      have hexp : (0 : Int) - ((ds.drop (x.toNat + 1)).length : Int) =
          x - (ds.length - 1 : Nat) := by
        rw [List.length_drop]
        omega
      show (digitsVal _ : Rat) * _ = _
      rw [digitsVal_fraction, List.take_append_drop, hexp]
    · rw [if_neg hx]
      have hrest : ∀ c ∈ stripZeros (List.replicate (-x - 1).toNat 48 ++ ds),
          isDigit c = true := by
        intro c hc
        rcases List.mem_append.mp (mem_of_mem_stripZeros hc) with hc | hc
        · rw [List.eq_of_mem_replicate hc]
          rfl
        · exact hdigits c hc
      have hscan := scanDecimal_layout neg [48] []
        (fun c hc => by rw [List.mem_singleton.mp hc]; rfl) (by simp) hrest hstop hnopoint
        (x := 0) rfl
      rw [List.append_nil, List.append_assoc] at hscan
      refine ⟨_, hscan, rfl, rfl, ?_⟩
      have hexp : (0 : Int) - ((List.replicate (-x - 1).toNat (48 : UInt8) ++ ds).length : Int) =
          x - (ds.length - 1 : Nat) := by
        rw [List.length_append, List.length_replicate]
        omega
      show (digitsVal _ : Rat) * _ = _
      rw [digitsVal_fraction, digitsVal_zeros, hexp]
  · rw [if_neg hfixed]
    have hscan := scanDecimal_layout neg (ds.take 1) (exponentText x) (hfront 1)
      (htake Nat.zero_lt_one) (hback 1) (by intro c u h; cases h; rfl) (by intro u h; cases h)
      (scanExponent_exponentText x)
    rw [List.append_assoc, List.append_assoc, ← List.append_assoc (ds.take 1)] at hscan
    refine ⟨_, hscan, rfl, rfl, ?_⟩
    have hexp : x - ((ds.drop 1).length : Int) = x - (ds.length - 1 : Nat) := by
      rw [List.length_drop]
    show (digitsVal _ : Rat) * _ = _
    rw [digitsVal_fraction, List.take_append_drop, hexp]

/-- `%g` prints the number of `p` digits nearest to `q`, and so it is read back. -/
theorem scanDecimal_formatG (neg : Bool) (hp : 0 < p) (hq : 0 < q) :
    ∃ d, scanDecimal (formatG p neg q) = some d ∧ d.neg = neg ∧
      d.len = (formatG p neg q).length ∧
      (d.digits : Rat) * (10 : Nat) ^ d.exp10 = roundAt 10 (lastPlace 10 p q) q := by
  obtain ⟨hlow, hhigh, hval⟩ := significand_spec hp hq
  have hsucc : p - 1 + 1 = p := by omega
  have hlen : (natText (significand p q).1).length = p := by
    have := length_natText hlow (by rw [hsucc]; exact hhigh)
    omega
  have hne : natText (significand p q).1 ≠ [] := by
    rw [ne_eq, ← List.length_eq_zero_iff]
    omega
  have hscan := scanDecimal_layoutG neg (fun c hc => isDigit_natText hc) hne (significand p q).2
  rw [hlen, digitsVal_natText, hval] at hscan
  rw [formatG, if_neg hq.ne']
  exact hscan

end

/-! ## The characters of a number -/

/-- The characters of decimal numbers. -/
def isNumeral (c : UInt8) : Bool :=
  isDigit c || c == 43 || c == 45 || c == 101 || c == 69 || c == 46

theorem isNumeral_of_isDigit {c : UInt8} (h : isDigit c = true) : isNumeral c = true := by
  simp [isNumeral, h]

theorem isNumeral_exponentText {x : Int} {c : UInt8} (hc : c ∈ exponentText x) :
    isNumeral c = true := by
  have hsign : isNumeral (if x < 0 then 45 else 43) = true := by
    split <;> rfl
  rw [exponentText] at hc
  rcases List.mem_append.mp hc with hc | hc
  · simp only [List.mem_cons, List.not_mem_nil, or_false] at hc
    rcases hc with rfl | rfl
    · rfl
    · exact hsign
  · split at hc
    · next hx =>
      simp only [List.mem_cons, List.not_mem_nil, or_false] at hc
      rcases hc with rfl | rfl
      · rfl
      · exact isNumeral_of_isDigit (isDigit_digitChar hx)
    · exact isNumeral_of_isDigit (isDigit_natText hc)

theorem isNumeral_pointText {ds : Bytes} (hds : ∀ c ∈ ds, isNumeral c = true) {c : UInt8}
    (hc : c ∈ pointText ds) : isNumeral c = true := by
  rw [pointText] at hc
  split at hc
  · cases hc
  · rcases List.mem_cons.mp hc with rfl | hc
    · rfl
    · exact hds c hc

theorem isNumeral_layoutG {ds : Bytes} (hds : ∀ c ∈ ds, isNumeral c = true) {x : Int} {c : UInt8}
    (hc : c ∈ layoutG ds x) : isNumeral c = true := by
  rw [layoutG] at hc
  split at hc
  · split at hc
    · rcases List.mem_append.mp hc with hc | hc
      · exact hds c (List.mem_of_mem_take hc)
      · exact isNumeral_pointText
          (fun d hd => hds d (List.mem_of_mem_drop (mem_of_mem_stripZeros hd))) hc
    · rcases List.mem_append.mp hc with hc | hc
      · rw [List.mem_singleton.mp hc]
        rfl
      · refine isNumeral_pointText (fun d hd => ?_) hc
        rcases List.mem_append.mp (mem_of_mem_stripZeros hd) with hd | hd
        · rw [List.eq_of_mem_replicate hd]
          rfl
        · exact hds d hd
  · rcases List.mem_append.mp hc with hc | hc
    · rcases List.mem_append.mp hc with hc | hc
      · exact hds c (List.mem_of_mem_take hc)
      · exact isNumeral_pointText
          (fun d hd => hds d (List.mem_of_mem_drop (mem_of_mem_stripZeros hd))) hc
    · exact isNumeral_exponentText hc

theorem isNumeral_formatG {p : Nat} {neg : Bool} {q : Rat} {c : UInt8}
    (hc : c ∈ formatG p neg q) : isNumeral c = true := by
  rw [formatG] at hc
  rcases List.mem_append.mp hc with hc | hc
  · cases neg with
    | true =>
      rw [List.mem_singleton.mp hc]
      rfl
    | false => cases hc
  · split at hc
    · rw [List.mem_singleton.mp hc]
      rfl
    · exact isNumeral_layoutG (fun d hd => isNumeral_of_isDigit (isDigit_natText hd)) hc

theorem length_pointText_le (ds : Bytes) : (pointText ds).length ≤ ds.length + 1 := by
  rw [pointText]
  split
  · exact Nat.zero_le _
  · exact Nat.le_refl _

theorem length_exponentText_le {x : Int} (hx : x.natAbs < 1000) : (exponentText x).length ≤ 5 := by
  rw [exponentText, List.length_append]
  by_cases hten : x.natAbs < 10
  · rw [if_pos hten]
    show 2 + 2 ≤ 5
    omega
  · have hlen : (natText x.natAbs).length ≤ 3 := by
      rw [natText, List.length_reverse, List.length_map]
      exact (Nat.digits_length_le_iff (by decide) _).mpr hx
    rw [if_neg hten]
    show 2 + _ ≤ 5
    omega

theorem length_layoutG_le {ds : Bytes} (hne : ds ≠ []) {x : Int} (hx : x.natAbs < 1000) :
    (layoutG ds x).length ≤ ds.length + 6 := by
  have hpos : 0 < ds.length := List.length_pos_iff.mpr hne
  have hback := fun k => length_pointText_le (stripZeros (ds.drop k))
  have hstrip := fun k => (digitsVal_stripZeros (ds.drop k)).2
  rw [layoutG]
  by_cases hfixed : -4 ≤ x ∧ x < ds.length
  · rw [if_pos hfixed]
    by_cases h0 : 0 ≤ x
    · have h1 := hback (x.toNat + 1)
      have h2 := hstrip (x.toNat + 1)
      rw [if_pos h0, List.length_append, List.length_take]
      rw [List.length_drop] at h2
      omega
    · have h1 := length_pointText_le (stripZeros (List.replicate (-x - 1).toNat 48 ++ ds))
      have h2 := (digitsVal_stripZeros (List.replicate (-x - 1).toNat 48 ++ ds)).2
      rw [if_neg h0, List.length_append, List.length_singleton]
      rw [List.length_append, List.length_replicate] at h2
      omega
  · have h1 := hback 1
    have h2 := hstrip 1
    have h3 := length_exponentText_le hx
    rw [if_neg hfixed, List.length_append, List.length_append, List.length_take]
    rw [List.length_drop] at h2
    omega

/-- A number starts with a digit, or with a sign and a digit. -/
theorem formatG_head {p : Nat} (neg : Bool) {q : Rat} (hq : q ≠ 0 → 0 < p ∧ 0 < q) :
    ∃ c t, formatG p neg q = c :: t ∧ (c = 45 ∨ isDigit c = true) := by
  cases neg with
  | true => exact ⟨45, _, rfl, Or.inl rfl⟩
  | false =>
    by_cases h0 : q = 0
    · exact ⟨48, [], by rw [formatG, if_pos h0]; rfl, Or.inr rfl⟩
    · obtain ⟨hp, hpos⟩ := hq h0
      have hlow := (significand_spec hp hpos).1
      have hval := digitsVal_natText (significand p q).1
      have hdigit := fun c (hc : c ∈ natText (significand p q).1) => isDigit_natText hc
      rw [formatG, if_neg h0]
      cases hds : natText (significand p q).1 with
      | nil =>
        rw [hds] at hval
        have := Nat.pos_of_neZero (10 ^ (p - 1))
        change 0 = _ at hval
        omega
      | cons c ds =>
        rw [hds] at hdigit
        have hc := hdigit c List.mem_cons_self
        show ∃ c' t, layoutG (c :: ds) _ = c' :: t ∧ _
        rw [layoutG]
        split
        · split
          · exact ⟨c, _, rfl, Or.inr hc⟩
          · exact ⟨48, _, rfl, Or.inr rfl⟩
        · exact ⟨c, _, rfl, Or.inr hc⟩

end Lib
end LinuxPrograming
