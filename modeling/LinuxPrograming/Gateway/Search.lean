import LinuxPrograming.Gateway.Gen
import LinuxPrograming.Lib.CInt
import LinuxPrograming.Lib.Cells

/-!
# Binary search in a sorted array

`searchInt` is `search` with the sums of `int` as they are in C.  `left + right` is computed
before it is halved, and in a long array it can leave the range of `int` although the two ends
of the first window do not add up to so much.
-/

namespace LinuxPrograming
namespace Gateway

open Lib

/-- `search(arr, x, left, right)`.  A read outside the array and a sum outside the range of
`int` have no result. -/
def searchInt (arr : Int → Option Int) (x left right : Int) : Option Bool :=
  if left ≤ right then
    if FitsInt (left + right) then do
      let mid := (left + right).tdiv 2
      let v ← arr mid
      if v = x then some true
      else if v < x then
        if FitsInt (mid + 1) then searchInt arr x (mid + 1) right else none
      else
        if FitsInt (mid - 1) then searchInt arr x left (mid - 1) else none
    else none
  else some false
termination_by (right + 1 - left).toNat
decreasing_by
  all_goals
    have h := le_tdiv_two (by assumption : left ≤ right)
    omega

section

variable {arr : Int → Option Int} {x left right : Int}

theorem searchInt_empty (h : right < left) : searchInt arr x left right = some false := by
  rw [searchInt, if_neg (by omega)]

theorem searchInt_overflow (h : left ≤ right) (hsum : ¬ FitsInt (left + right)) :
    searchInt arr x left right = none := by
  rw [searchInt, if_pos h, if_neg hsum]

/-- One round of the loop in a window whose ends can be added. -/
theorem searchInt_step (hleft : 0 ≤ left) (h : left ≤ right) (hsum : left + right ≤ maxInt)
    {v : Int} (hv : arr ((left + right) / 2) = some v) :
    searchInt arr x left right =
      if v = x then some true
      else if v < x then searchInt arr x ((left + right) / 2 + 1) right
      else searchInt arr x left ((left + right) / 2 - 1) := by
  have hfits : FitsInt (left + right) := fitsInt_of_bounds (by omega) hsum
  have hmid : (left + right).tdiv 2 = (left + right) / 2 :=
    Int.tdiv_eq_ediv_of_nonneg (by omega)
  rw [maxInt] at hsum
  have hup : FitsInt ((left + right) / 2 + 1) := by
    rw [FitsInt, maxInt]
    omega
  have hdown : FitsInt ((left + right) / 2 - 1) := by
    rw [FitsInt, maxInt]
    omega
  rw [searchInt, if_pos h, if_pos hfits]
  simp only [hmid, hv, Option.bind_eq_bind, Option.bind_some, if_pos hup, if_pos hdown]

/-- A result is the one that `search` gives with unbounded sums. -/
theorem search_of_searchInt {found : Bool} (h : searchInt arr x left right = some found) :
    search arr x left right = some found := by
  induction hn : (right + 1 - left).toNat using Nat.strong_induction_on
    generalizing left right with
  | _ n ih =>
    by_cases hle : left ≤ right
    · have hmid := le_tdiv_two hle
      rw [searchInt, if_pos hle] at h
      rw [search_step arr hle]
      split at h
      · dsimp only at h
        cases hv : arr ((left + right).tdiv 2) with
        | none =>
          rw [hv] at h
          cases h
        | some v =>
          rw [hv] at h
          show (if v = x then some true
            else if v < x then search arr x ((left + right).tdiv 2 + 1) right
            else search arr x left ((left + right).tdiv 2 - 1)) = some found
          simp only [Option.bind_eq_bind, Option.bind_some] at h
          split at h
          · next heq => rw [if_pos heq, h]
          · next hne =>
            rw [if_neg hne]
            split at h
            · next hlt =>
              rw [if_pos hlt]
              split at h
              · exact ih _ (by omega) h rfl
              · cases h
            · next hge =>
              rw [if_neg hge]
              split at h
              · exact ih _ (by omega) h rfl
              · cases h
      · cases h
    · rw [searchInt_empty (by omega)] at h
      rw [search_empty arr (by omega)]
      exact h

end

/-! ## The window -/

/-- The cells from `left` to `right` can be read and are in order. -/
structure SortedOn (arr : Int → Option Int) (left right : Int) : Prop where
  read : ∀ i, left ≤ i → i ≤ right → ∃ v, arr i = some v
  le : ∀ i j v w, left ≤ i → i ≤ j → j ≤ right → arr i = some v → arr j = some w → v ≤ w

/-- `x` stands between `left` and `right`. -/
def Occurs (arr : Int → Option Int) (x left right : Int) : Prop :=
  ∃ i, left ≤ i ∧ i ≤ right ∧ arr i = some x

section

variable {arr : Int → Option Int} {x v left right mid : Int} (h : SortedOn arr left right)

include h in
theorem SortedOn.sub {left' right' : Int} (hleft : left ≤ left') (hright : right' ≤ right) :
    SortedOn arr left' right' where
  read i hi hi' := h.read i (by omega) (by omega)
  le i j v w hi hij hj hv hw := h.le i j v w (by omega) hij (by omega) hv hw

variable (hleft : left ≤ mid) (hright : mid ≤ right) (hv : arr mid = some v)
include h hleft hright hv

/-- The move to the right keeps `x` in the window. -/
theorem SortedOn.occurs_above (hlt : v < x) :
    Occurs arr x left right ↔ Occurs arr x (mid + 1) right := by
  constructor
  · intro hx
    obtain ⟨i, hi, hi', hget⟩ := hx
    refine ⟨i, ?_, hi', hget⟩
    by_contra hout
    have hle := h.le i mid x v hi (by omega) hright hget hv
    omega
  · intro hx
    obtain ⟨i, hi, hi', hget⟩ := hx
    exact ⟨i, by omega, hi', hget⟩

/-- The move to the left keeps `x` in the window. -/
theorem SortedOn.occurs_below (hlt : x < v) :
    Occurs arr x left right ↔ Occurs arr x left (mid - 1) := by
  constructor
  · intro hx
    obtain ⟨i, hi, hi', hget⟩ := hx
    refine ⟨i, hi, ?_, hget⟩
    by_contra hout
    have hle := h.le mid i v x hleft (by omega) hi' hv hget
    omega
  · intro hx
    obtain ⟨i, hi, hi', hget⟩ := hx
    exact ⟨i, hi, by omega, hget⟩

end

section

variable {arr : Int → Option Int} {left right : Int}

/-- With unbounded sums the search is right. -/
theorem search_sorted (h : SortedOn arr left right) (x : Int) :
    ∃ found, search arr x left right = some found ∧
      (found = true ↔ Occurs arr x left right) := by
  induction hn : (right + 1 - left).toNat using Nat.strong_induction_on
    generalizing left right with
  | _ n ih =>
    by_cases hle : left ≤ right
    · obtain ⟨hmid, hmid'⟩ := le_tdiv_two hle
      obtain ⟨v, hv⟩ := h.read _ hmid hmid'
      have hstep : search arr x left right =
          if v = x then some true
          else if v < x then search arr x ((left + right).tdiv 2 + 1) right
          else search arr x left ((left + right).tdiv 2 - 1) := by
        rw [search_step arr hle, hv]
        rfl
      rw [hstep]
      rcases Int.lt_trichotomy v x with hlt | heq | hgt
      · rw [if_neg (by omega), if_pos hlt, h.occurs_above hmid hmid' hv hlt]
        exact ih _ (by omega) (h.sub (by omega) (Int.le_refl _)) rfl
      · rw [if_pos heq]
        exact ⟨true, rfl, iff_of_true rfl ⟨_, hmid, hmid', heq ▸ hv⟩⟩
      · rw [if_neg (by omega), if_neg (by omega), h.occurs_below hmid hmid' hv hgt]
        exact ih _ (by omega) (h.sub (Int.le_refl _) (by omega)) rfl
    · refine ⟨false, search_empty arr (by omega), iff_of_false Bool.false_ne_true ?_⟩
      intro hx
      obtain ⟨i, hi, hi', -⟩ := hx
      omega

/-- In the lower half of the range of `int` no sum leaves the range. -/
theorem searchInt_low (hleft : 0 ≤ left) (hright : 2 * right ≤ maxInt)
    (h : SortedOn arr left right) (x : Int) : ∃ found, searchInt arr x left right = some found := by
  induction hn : (right + 1 - left).toNat using Nat.strong_induction_on
    generalizing left right with
  | _ n ih =>
    by_cases hle : left ≤ right
    · have hmid : left ≤ (left + right) / 2 ∧ (left + right) / 2 ≤ right := by omega
      obtain ⟨v, hv⟩ := h.read _ hmid.1 hmid.2
      rw [searchInt_step hleft hle (by omega) hv]
      split
      · exact ⟨true, rfl⟩
      · split
        · exact ih _ (by omega) (by omega) hright (h.sub (by omega) (Int.le_refl _)) rfl
        · exact ih _ (by omega) hleft (by omega) (h.sub (Int.le_refl _) (by omega)) rfl
    · exact ⟨false, searchInt_empty (by omega)⟩

end

/-! ## The last probe -/

/-- `n` halved until it is less than `c`. -/
def halveBelow (c n : Nat) : Nat :=
  if c ≤ n ∧ 0 < n then halveBelow c (n / 2) else n

/-- A move to the right halves the length of the window.  This is the last cell that such moves
probe before the ends of the window add up to more than `INT_MAX`. -/
def lastProbe (left right : Int) : Int :=
  right - halveBelow (2 * right + 1 - maxInt).toNat (right + 1 - left).toNat

theorem halveBelow_le (c n : Nat) : halveBelow c n ≤ n := by
  induction n using Nat.strong_induction_on with
  | _ n ih =>
    rw [halveBelow]
    split
    · have hhalf := ih (n / 2) (by omega)
      omega
    · exact Nat.le_refl n

section

variable {arr : Int → Option Int} {left right : Int}

theorem lastProbe_step (hle : left ≤ right) (hsum : left + right ≤ maxInt) :
    lastProbe left right = lastProbe ((left + right) / 2 + 1) right := by
  have hhalf : (right + 1 - left).toNat / 2 = (right + 1 - ((left + right) / 2 + 1)).toNat := by
    omega
  rw [lastProbe, halveBelow, if_pos (by omega), hhalf, lastProbe]

theorem lastProbe_of_overflow (hle : left ≤ right)
    (hsum : maxInt < (left + right) / 2 + 1 + right) :
    lastProbe ((left + right) / 2 + 1) right = (left + right) / 2 := by
  rw [lastProbe, halveBelow, if_neg (by omega)]
  omega

theorem lastProbe_bounds (hle : left ≤ right) (hsum : left + right ≤ maxInt) :
    (left + right) / 2 ≤ lastProbe left right ∧ lastProbe left right ≤ right := by
  have hlength := halveBelow_le (2 * right + 1 - maxInt).toNat
    (right + 1 - ((left + right) / 2 + 1)).toNat
  rw [lastProbe_step hle hsum, lastProbe]
  omega

/-- In a window that reaches into the upper half of the range of `int` the search comes to an
end exactly when it turns to the left, or finds `x`, in time. -/
theorem searchInt_high (hleft : 0 ≤ left) (hle : left ≤ right) (hsum : left + right ≤ maxInt)
    (hright : maxInt < 2 * right) (h : SortedOn arr left right) (x : Int) :
    (∃ found, searchInt arr x left right = some found) ↔
      ∀ w, arr (lastProbe left right) = some w → x ≤ w := by
  induction hn : (right + 1 - left).toNat using Nat.strong_induction_on generalizing left with
  | _ n ih =>
    have hmid : left ≤ (left + right) / 2 ∧ (left + right) / 2 < right := by omega
    obtain ⟨v, hv⟩ := h.read _ hmid.1 (by omega)
    obtain ⟨hprobe, hprobe'⟩ := lastProbe_bounds hle hsum
    rw [searchInt_step hleft hle hsum hv]
    rcases Int.lt_trichotomy v x with hlt | heq | hgt
    · rw [if_neg (by omega), if_pos hlt, lastProbe_step hle hsum]
      by_cases hsum' : (left + right) / 2 + 1 + right ≤ maxInt
      · exact ih _ (by omega) (by omega) (by omega) hsum'
          (h.sub (by omega) (Int.le_refl _)) rfl
      · rw [searchInt_overflow (by omega) (fun hfits => hsum' hfits.2),
          lastProbe_of_overflow hle (by omega)]
        refine iff_of_false ?_ ?_
        · intro hsome
          obtain ⟨found, hfound⟩ := hsome
          cases hfound
        · intro hw
          have hxv := hw v hv
          omega
    · rw [if_pos heq]
      refine iff_of_true ⟨true, rfl⟩ ?_
      intro w hw
      rw [← heq]
      exact h.le _ _ v w hmid.1 hprobe hprobe' hv hw
    · rw [if_neg (by omega), if_neg (by omega)]
      refine iff_of_true ?_ ?_
      · rw [maxInt] at hsum
        exact searchInt_low hleft (by rw [maxInt]; omega)
          (h.sub (Int.le_refl _) (by omega)) x
      · intro w hw
        have hvw := h.le _ _ v w hmid.1 hprobe hprobe' hv hw
        omega

end

/-- The search ends without a fault and tells whether `x` stands in the window.  A read outside
the window would be a fault. -/
def Finds {left right : Int} (arr : Cells Int left right) (x : Int) : Prop :=
  searchInt arr.read x left right = some (decide (x ∈ arr.window))

theorem sortedOn_of_window {left right : Int} {arr : Cells Int left right}
    (hsorted : arr.window.Pairwise (· ≤ ·)) : SortedOn arr.read left right where
  read _ := arr.exists_read
  le _ _ _ _ _ hij _ := Cells.le_of_read hsorted hij

theorem mem_window_iff_occurs {left right : Int} {arr : Cells Int left right} {x : Int} :
    x ∈ arr.window ↔ Occurs arr.read x left right := by
  rw [Cells.mem_window_iff]
  constructor
  · intro h
    obtain ⟨i, hi⟩ := h
    obtain ⟨hlo, hle⟩ := Cells.bounds_of_read hi
    exact ⟨i, hlo, hle, hi⟩
  · intro h
    obtain ⟨i, -, -, hi⟩ := h
    exact ⟨i, hi⟩

/-- A search that ends without a fault is right. -/
theorem finds_iff_exists {left right : Int} {arr : Cells Int left right}
    (hsorted : arr.window.Pairwise (· ≤ ·)) {x : Int} :
    Finds arr x ↔ ∃ found, searchInt arr.read x left right = some found := by
  constructor
  · intro h
    exact ⟨_, h⟩
  · intro h
    obtain ⟨found, hfound⟩ := h
    obtain ⟨found', hsearch, hiff⟩ := search_sorted (sortedOn_of_window hsorted) x
    obtain rfl := Option.some.inj ((search_of_searchInt hfound).symm.trans hsearch)
    rw [Finds, hfound, Option.some_inj, Bool.eq_iff_iff, hiff, decide_eq_true_iff,
      mem_window_iff_occurs]

theorem search_finds_iff {left right : Int} {arr : Cells Int left right}
    (hsorted : arr.window.Pairwise (· ≤ ·)) (hsum : left + right ≤ maxInt) (x : Int) :
    Finds arr x ↔
      2 * right ≤ maxInt ∨ ∀ w, arr.read (lastProbe left right) = some w → x ≤ w := by
  have hleft := arr.lo_nonneg
  have hwindow := sortedOn_of_window hsorted
  rw [finds_iff_exists hsorted]
  by_cases hright : 2 * right ≤ maxInt
  · exact iff_of_true (searchInt_low hleft hright hwindow x) (.inl hright)
  · rw [searchInt_high hleft (by omega) hsum (by omega) hwindow x, or_iff_right hright]

/-- The numbers 1, 3 and 3. -/
def oneThrees : Cells Int 0 2 := ⟨[1, 3, 3], by decide, by decide⟩

theorem search_finds_three : Finds oneThrees 3 :=
  (search_finds_iff (by decide) (by decide) 3).mpr (.inl (by decide))

/-- Zeros from 0 up to three quarters of `INT_MAX`. -/
def zeroCells : Cells Int 0 1610612735 :=
  ⟨List.replicate 1610612736 0, Int.le_refl 0, by rw [List.length_replicate]; decide⟩

theorem zeroCells_read {i : Int} (h : 0 ≤ i) (hle : i ≤ 1610612735) :
    zeroCells.read i = some 0 := by
  rw [Cells.read_of_bounds zeroCells h hle, zeroCells, List.getElem?_replicate, if_pos (by omega)]

/-- The second window is 805306368 to 1610612735. -/
theorem search_overflow : zeroCells.window.Pairwise (· ≤ ·) ∧ (0 : Int) + 1610612735 ≤ maxInt ∧
    searchInt zeroCells.read 1 0 1610612735 = none ∧ ¬ Finds zeroCells 1 := by
  have hnone : searchInt zeroCells.read 1 0 1610612735 = none := by
    have hmid : zeroCells.read ((0 + 1610612735) / 2) = some 0 :=
      zeroCells_read (by decide) (by decide)
    rw [searchInt_step (by decide) (by decide) (by decide) hmid, if_neg (by decide),
      if_pos (by decide)]
    exact searchInt_overflow (by decide) (by decide)
  refine ⟨?_, by decide, hnone, ?_⟩
  · rw [Cells.window, zeroCells, List.drop_replicate, List.take_replicate, List.pairwise_replicate]
    exact .inr (Int.le_refl 0)
  · intro h
    rw [Finds, hnone] at h
    cases h

end Gateway
end LinuxPrograming
