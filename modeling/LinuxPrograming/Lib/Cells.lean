import Mathlib.Data.List.GetD
import Mathlib.Tactic.Common

/-!
# Arrays with a window

An array together with the indices `lo` to `hi` at which it may be accessed.  A read or a
write at any other index has no result, so that a run which has one stays within the window.
-/

namespace LinuxPrograming
namespace Lib

/-- An array that may be accessed at the indices `lo` to `hi`. -/
structure Cells (α : Type*) (lo hi : Int) where
  val : List α
  lo_nonneg : 0 ≤ lo
  hi_lt : hi < val.length

namespace Cells

variable {α : Type*} {lo hi : Int}

def read (c : Cells α lo hi) (i : Int) : Option α :=
  if lo ≤ i ∧ i ≤ hi then c.val[i.toNat]? else none

/-- The array with `v` at place `i`. -/
def set (c : Cells α lo hi) (i : Int) (v : α) : Cells α lo hi :=
  ⟨c.val.set i.toNat v, c.lo_nonneg, by rw [List.length_set]; exact c.hi_lt⟩

def write (c : Cells α lo hi) (i : Int) (v : α) : Option (Cells α lo hi) :=
  if lo ≤ i ∧ i ≤ hi then some (c.set i v) else none

/-- What stands in the window. -/
def window (c : Cells α lo hi) : List α := (c.val.drop lo.toNat).take (hi + 1 - lo).toNat

/-! ## Reading -/

section

variable {c : Cells α lo hi} {i j : Int} {v w : α}

theorem read_of_bounds (c : Cells α lo hi) (h : lo ≤ i) (hle : i ≤ hi) :
    c.read i = c.val[i.toNat]? := if_pos ⟨h, hle⟩

theorem bounds_of_read (h : c.read i = some v) : lo ≤ i ∧ i ≤ hi := by
  by_contra hout
  rw [read, if_neg hout] at h
  cases h

/-- Every cell of the window can be read. -/
theorem exists_read (c : Cells α lo hi) (h : lo ≤ i) (hle : i ≤ hi) :
    ∃ v, c.read i = some v := by
  have hlo := c.lo_nonneg
  have hhi := c.hi_lt
  have hlt : i.toNat < c.val.length := by omega
  exact ⟨c.val[i.toNat], by rw [read_of_bounds c h hle, List.getElem?_eq_getElem hlt]⟩

theorem read_eq_window (c : Cells α lo hi) (h : lo ≤ i) (hle : i ≤ hi) :
    c.read i = c.window[(i - lo).toNat]? := by
  have hlo := c.lo_nonneg
  have hlt : (i - lo).toNat < (hi + 1 - lo).toNat := by omega
  have hidx : lo.toNat + (i - lo).toNat = i.toNat := by omega
  rw [read_of_bounds c h hle, window, List.getElem?_take_of_lt hlt, List.getElem?_drop, hidx]

theorem length_window (c : Cells α lo hi) : c.window.length = (hi + 1 - lo).toNat := by
  have hlo := c.lo_nonneg
  have hhi := c.hi_lt
  rw [window, List.length_take, List.length_drop]
  omega

theorem mem_window_iff : v ∈ c.window ↔ ∃ i, c.read i = some v := by
  constructor
  · intro h
    obtain ⟨k, hk, hget⟩ := List.getElem_of_mem h
    rw [length_window] at hk
    refine ⟨lo + k, ?_⟩
    have hidx : (lo + k - lo).toNat = k := by omega
    rw [read_eq_window c (by omega) (by omega), hidx, ← hget, List.getElem?_eq_getElem]
  · intro h
    obtain ⟨i, hi⟩ := h
    obtain ⟨hlo, hle⟩ := bounds_of_read hi
    rw [read_eq_window c hlo hle] at hi
    exact List.mem_of_getElem? hi

/-- In a sorted window a later cell holds no less. -/
theorem le_of_read {c : Cells Int lo hi} {v w : Int} (hsorted : c.window.Pairwise (· ≤ ·))
    (hij : i ≤ j) (hi : c.read i = some v) (hj : c.read j = some w) : v ≤ w := by
  obtain ⟨hlo, hle⟩ := bounds_of_read hi
  obtain ⟨hlo', hle'⟩ := bounds_of_read hj
  rw [read_eq_window c hlo hle] at hi
  rw [read_eq_window c hlo' hle'] at hj
  obtain ⟨hilt, rfl⟩ := List.getElem?_eq_some_iff.mp hi
  obtain ⟨hjlt, rfl⟩ := List.getElem?_eq_some_iff.mp hj
  by_cases heq : i = j
  · subst heq
    exact Int.le_refl _
  · exact List.pairwise_iff_getElem.mp hsorted _ _ hilt hjlt (by omega)

end

/-! ## The cell behind a prefix -/

section

variable {c : Cells α lo hi} {a b : List α} {v : α} {i : Int}

theorem read_append (hval : c.val = a ++ v :: b) (hidx : i = a.length) (hlo : lo ≤ i)
    (hhi : i ≤ hi) : c.read i = some v := by
  have hnat : i.toNat = a.length := by omega
  rw [read_of_bounds c hlo hhi, hval, hnat, List.getElem?_append_right (Nat.le_refl _),
    Nat.sub_self, List.getElem?_cons_zero]

theorem write_append (hval : c.val = a ++ v :: b) (hidx : i = a.length) (hlo : lo ≤ i)
    (hhi : i ≤ hi) (w : α) : ∃ c', c.write i w = some c' ∧ c'.val = a ++ w :: b := by
  have hnat : i.toNat = a.length := by omega
  refine ⟨c.set i w, if_pos ⟨hlo, hhi⟩, ?_⟩
  show c.val.set i.toNat w = a ++ w :: b
  rw [hval, hnat, List.set_append_right _ _ (Nat.le_refl _), Nat.sub_self, List.set_cons_zero]

end

/-! ## The window and what is around it -/

section

variable {c : Cells α lo hi} {a b w : List α}

theorem val_eq_window (c : Cells α lo hi) (h : lo ≤ hi + 1) :
    c.val = c.val.take lo.toNat ++ c.window ++ c.val.drop (hi + 1).toNat := by
  have hlo := c.lo_nonneg
  have hend : lo.toNat + (hi + 1 - lo).toNat = (hi + 1).toNat := by omega
  rw [window, List.append_assoc, ← hend, ← List.drop_drop, List.take_append_drop,
    List.take_append_drop]

theorem window_of_val (hval : c.val = a ++ w ++ b) (ha : lo = a.length)
    (hw : hi + 1 - lo = w.length) : c.window = w := by
  have hidx : lo.toNat = a.length := by omega
  have hlen : (hi + 1 - lo).toNat = w.length := by omega
  rw [window, hval, hidx, hlen, List.append_assoc, List.drop_left, List.take_left]

/-- Arrays that differ in the window only agree outside it. -/
theorem getElem?_outside {c' : Cells α lo hi} {w' : List α} (hval : c.val = a ++ w ++ b)
    (hval' : c'.val = a ++ w' ++ b) (ha : lo = a.length) (hw : hi + 1 - lo = w.length)
    (hlen : w'.length = w.length) {i : Nat} (hi : i < lo ∨ hi < i) : c'.val[i]? = c.val[i]? := by
  rw [hval, hval', List.append_assoc, List.append_assoc]
  by_cases hlow : i < a.length
  · rw [List.getElem?_append_left hlow, List.getElem?_append_left hlow]
  · rw [List.getElem?_append_right (by omega), List.getElem?_append_right (by omega),
      List.getElem?_append_right (by omega), List.getElem?_append_right (by omega), hlen]

end

end Cells

end Lib
end LinuxPrograming
