import Mathlib.Data.List.Basic
import Mathlib.Tactic.Common

/-!
# A heap of records, and paths through it

A heap is a finite table from addresses to records.  `Path link p as q` says that
following `link` from the pointer `p` visits the addresses `as` in order and arrives at
the pointer `q`.  A pointer is an `Option Nat`, with `none` for NULL.
-/

namespace LinuxPrograming
namespace Lib

/-- The live allocations, each with its contents. -/
structure Heap (β : Type*) where
  cells : List (Nat × β)

namespace Heap

variable {β : Type*}

def empty : Heap β := ⟨[]⟩

def get (h : Heap β) (a : Nat) : Option β := h.cells.lookup a

/-- Release the allocation at `a`. -/
def free (h : Heap β) (a : Nat) : Heap β := ⟨h.cells.filter fun c => c.1 ≠ a⟩

/-- Write the record at `a`. -/
def set (h : Heap β) (a : Nat) (b : β) : Heap β := ⟨(a, b) :: (h.free a).cells⟩

@[simp] theorem get_empty (a : Nat) : (empty : Heap β).get a = none := rfl

theorem lookup_filter_self (cells : List (Nat × β)) (a : Nat) :
    (cells.filter fun c => c.1 ≠ a).lookup a = none := by
  induction cells with
  | nil => rfl
  | cons c cells ih =>
    rw [List.filter_cons]
    split
    · next h =>
      have hne : (a == c.1) = false := beq_false_of_ne (Ne.symm (of_decide_eq_true h))
      rw [List.lookup_cons, hne]
      exact ih
    · exact ih

theorem lookup_filter_of_ne (cells : List (Nat × β)) {a b : Nat} (hab : b ≠ a) :
    (cells.filter fun c => c.1 ≠ a).lookup b = cells.lookup b := by
  induction cells with
  | nil => rfl
  | cons c cells ih =>
    rw [List.filter_cons, List.lookup_cons]
    split
    · rw [List.lookup_cons, ih]
    · next h =>
      have hca : c.1 = a := by simpa using h
      have hne : (b == c.1) = false := beq_false_of_ne (hca ▸ hab)
      rw [ih, hne]

@[simp] theorem get_free_self (h : Heap β) (a : Nat) : (h.free a).get a = none :=
  lookup_filter_self h.cells a

theorem get_free_of_ne (h : Heap β) {a b : Nat} (hab : b ≠ a) : (h.free a).get b = h.get b :=
  lookup_filter_of_ne h.cells hab

@[simp] theorem get_set_self (h : Heap β) (a : Nat) (b : β) : (h.set a b).get a = some b := by
  simp [get, set]

theorem get_set_of_ne (h : Heap β) {a a' : Nat} (haa : a' ≠ a) (b : β) :
    (h.set a b).get a' = h.get a' := by
  have hne : (a' == a) = false := by simpa using haa
  rw [get, set, List.lookup_cons, hne]
  exact get_free_of_ne h haa

/-- Only the last write of an allocation counts. -/
theorem set_set (h : Heap β) (a : Nat) (b c : β) : (h.set a b).set a c = h.set a c := by
  have hfree : (h.set a b).free a = h.free a := by
    show Heap.mk (((a, b) :: (h.free a).cells).filter fun c => c.1 ≠ a) = h.free a
    rw [List.filter_cons_of_neg (by simp), free, List.filter_filter]
    simp
  rw [set, hfree, set]

theorem get_set_ne_none_iff (h : Heap β) {a a' : Nat} {b : β} (ha : h.get a ≠ none) :
    (h.set a b).get a' ≠ none ↔ h.get a' ≠ none := by
  by_cases haa : a' = a
  · rw [haa, get_set_self]
    exact iff_of_true (by simp) ha
  · rw [get_set_of_ne h haa]

theorem get_of_get_free {h : Heap β} {a a' : Nat} (hget : (h.free a).get a' ≠ none) :
    h.get a' ≠ none := by
  by_cases haa : a' = a
  · rw [haa, get_free_self] at hget
    exact absurd rfl hget
  · rwa [get_free_of_ne h haa] at hget

theorem length_free_lt {h : Heap β} {a : Nat} {b : β} (hget : h.get a = some b) :
    (h.free a).cells.length < h.cells.length := by
  have hmem : ∃ c ∈ h.cells, c.1 = a := by
    by_contra hno
    have hkeep : h.cells.filter (fun c => c.1 ≠ a) = h.cells :=
      List.filter_eq_self.mpr fun c hc => by
        have := fun e => hno ⟨c, hc, e⟩
        simpa using this
    have hnone : h.get a = none := by
      rw [get, ← hkeep]
      exact lookup_filter_self h.cells a
    rw [hnone] at hget
    exact absurd hget (by simp)
  obtain ⟨c, hc, rfl⟩ := hmem
  exact List.length_filter_lt_length_iff_exists.mpr ⟨c, hc, by simp⟩

end Heap

/-! ## Paths -/

/-- From the pointer `p`, `link` visits the addresses of the list and arrives at `q`.  The
value `none` of `link` stands for an address that is not allocated. -/
def Path (link : Nat → Option (Option Nat)) : Option Nat → List Nat → Option Nat → Prop
  | p, [], q => p = q
  | p, a :: as, q => p = some a ∧ ∃ r, link a = some r ∧ Path link r as q

variable {link link' : Nat → Option (Option Nat)} {p q : Option Nat} {as bs : List Nat}

theorem path_append : Path link p (as ++ bs) q ↔ ∃ r, Path link p as r ∧ Path link r bs q := by
  induction as generalizing p with
  | nil => simp [Path]
  | cons a as ih =>
    simp only [List.cons_append, Path, ih]
    constructor
    · rintro ⟨hp, r, hr, s, has, hbs⟩
      exact ⟨s, ⟨hp, r, hr, has⟩, hbs⟩
    · rintro ⟨s, ⟨hp, r, hr, has⟩, hbs⟩
      exact ⟨hp, r, hr, s, has, hbs⟩

theorem path_congr (h : ∀ a ∈ as, link' a = link a) (hp : Path link p as q) :
    Path link' p as q := by
  induction as generalizing p with
  | nil => exact hp
  | cons a as ih =>
    obtain ⟨hpa, r, hr, hrest⟩ := hp
    exact ⟨hpa, r, (h a List.mem_cons_self).trans hr,
      ih (fun b hb => h b (List.mem_cons_of_mem a hb)) hrest⟩

theorem path_singleton {a : Nat} : Path link p [a] q ↔ p = some a ∧ link a = some q := by
  simp [Path]

theorem path_null_iff (hp : Path link p as none) : p = none ↔ as = [] := by
  cases as with
  | nil => exact iff_of_true hp rfl
  | cons a as => exact iff_of_false (by rw [hp.1]; simp) (List.cons_ne_nil a as)

end Lib
end LinuxPrograming
