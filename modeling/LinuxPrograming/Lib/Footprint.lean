import LinuxPrograming.Lib.Heap
import Mathlib.Algebra.Order.Group.Multiset
import Mathlib.Data.List.Perm.Subperm
import Mathlib.Tactic.Abel

/-!
# What a heap holds

A heap holds the cells that are its live allocations, each once.  A structure in the heap is a part
of the sum of the cells, and what else is in the sum is left alone by the functions that work on the
structure.
-/

namespace LinuxPrograming
namespace Lib

variable {β : Type*} {h : Heap β} {cells cells' : Multiset (Nat × β)} {a : Nat} {b : β}

/-- The live allocations are `cells`. -/
structure Heap.Holds (h : Heap β) (cells : Multiset (Nat × β)) : Prop where
  nodup : (cells.map Prod.fst).Nodup
  get_iff : ∀ a b, h.get a = some b ↔ (a, b) ∈ cells

namespace Heap.Holds

theorem congr (hh : h.Holds cells) (heq : cells = cells') : h.Holds cells' := heq ▸ hh

theorem get_of_mem (hh : h.Holds cells) (hmem : (a, b) ∈ cells) : h.get a = some b :=
  (hh.get_iff a b).mpr hmem

theorem not_mem (hh : h.Holds ({(a, b)} + cells)) (b' : β) : (a, b') ∉ cells := by
  intro hmem
  have hnodup := hh.nodup
  rw [Multiset.map_add, Multiset.map_singleton, Multiset.singleton_add,
    Multiset.nodup_cons] at hnodup
  exact hnodup.1 (Multiset.mem_map.mpr ⟨(a, b'), hmem, rfl⟩)

theorem get (hh : h.Holds ({(a, b)} + cells)) : h.get a = some b :=
  hh.get_of_mem (Multiset.mem_add.mpr (Or.inl (Multiset.mem_singleton_self _)))

/-- Two allocations that are there at the same time have different addresses. -/
theorem ne {a' : Nat} {b' : β} (hh : h.Holds ({(a, b)} + ({(a', b')} + cells))) : a ≠ a' := by
  rintro rfl
  exact hh.not_mem b' (Multiset.mem_add.mpr (Or.inl (Multiset.mem_singleton_self _)))

theorem mem_iff (hh : h.Holds ({(a, b)} + cells)) {x : Nat} (hxa : x ≠ a) (y : β) :
    h.get x = some y ↔ (x, y) ∈ cells := by
  rw [hh.get_iff, Multiset.singleton_add, Multiset.mem_cons, Prod.mk.injEq]
  simp only [hxa, false_and, false_or]

/-- A write replaces the cell. -/
theorem set (hh : h.Holds ({(a, b)} + cells)) (b' : β) :
    (h.set a b').Holds ({(a, b')} + cells) := by
  refine ⟨?_, fun x y => ?_⟩
  · have hnodup := hh.nodup
    rw [Multiset.map_add, Multiset.map_singleton] at hnodup ⊢
    exact hnodup
  · rw [Multiset.singleton_add, Multiset.mem_cons, Prod.mk.injEq]
    by_cases hxa : x = a
    · rw [hxa, get_set_self, Option.some.injEq]
      constructor
      · intro hb
        exact Or.inl ⟨rfl, hb.symm⟩
      · rintro (⟨-, hb⟩ | hmem)
        · exact hb.symm
        · exact absurd hmem (hh.not_mem y)
    · rw [get_set_of_ne h hxa, hh.mem_iff hxa]
      simp only [hxa, false_and, false_or]

/-- `free` takes the cell away. -/
theorem free (hh : h.Holds ({(a, b)} + cells)) : (h.free a).Holds cells := by
  refine ⟨?_, fun x y => ?_⟩
  · have hnodup := hh.nodup
    rw [Multiset.map_add, Multiset.map_singleton, Multiset.singleton_add,
      Multiset.nodup_cons] at hnodup
    exact hnodup.2
  · by_cases hxa : x = a
    · rw [hxa, get_free_self]
      exact iff_of_false (by simp) (hh.not_mem y)
    · rw [get_free_of_ne h hxa, hh.mem_iff hxa]

/-- What was freed is not there when other cells are freed. -/
theorem get_none {h' : Heap β} (hh : h.Holds (cells + cells')) (hh' : h'.Holds cells')
    (hget : h.get a = none) : h'.get a = none := by
  cases hget' : h'.get a with
  | none => rfl
  | some b =>
    have hmem := (hh'.get_iff a b).mp hget'
    rw [hh.get_of_mem (Multiset.mem_add.mpr (Or.inr hmem))] at hget
    cases hget

/-- What was freed is not there. -/
theorem get_eq_none {h' : Heap β} (hh : h.Holds ({(a, b)} + (cells + cells')))
    (hh' : h'.Holds cells') : h'.get a = none := by
  cases hget' : h'.get a with
  | none => rfl
  | some b' =>
    have hmem := (hh'.get_iff a b').mp hget'
    exact absurd (Multiset.mem_add.mpr (Or.inr hmem)) (hh.not_mem b')

theorem card_le (hh : h.Holds cells) : cells.card ≤ h.cells.length := by
  obtain ⟨l, rfl⟩ := Quot.exists_rep cells
  have hnodup : (l.map Prod.fst).Nodup := hh.nodup
  have hsubset : l.map Prod.fst ⊆ h.cells.map Prod.fst := by
    intro x hx
    obtain ⟨⟨a, b⟩, hmem, rfl⟩ := List.mem_map.mp hx
    have hget := hh.get_of_mem (Multiset.mem_coe.mpr hmem)
    rw [Heap.get, List.lookup_eq_some_iff] at hget
    obtain ⟨l₁, l₂, hsplit, -⟩ := hget
    rw [hsplit]
    simp
  have hle := (List.subperm_of_subset hnodup hsubset).length_le
  rwa [List.length_map, List.length_map] at hle

end Heap.Holds

/-- A heap that consists of the cells. -/
theorem Heap.holds_mk {cells : List (Nat × β)} (hnodup : (cells.map Prod.fst).Nodup) :
    (Heap.mk cells).Holds (cells : Multiset (Nat × β)) := by
  refine ⟨hnodup, fun a b => ?_⟩
  rw [Heap.get, Multiset.mem_coe]
  induction cells with
  | nil => simp
  | cons c cells ih =>
    obtain ⟨hnot, hnodup'⟩ := List.nodup_cons.mp hnodup
    rw [List.mem_cons]
    by_cases hac : a = c.1
    · have hhit : (c :: cells).lookup a = some c.2 := by
        rw [List.lookup_cons, hac, beq_self_eq_true]
      rw [hhit]
      constructor
      · rintro hb
        exact Or.inl (Prod.ext hac (Option.some.inj hb).symm)
      · rintro (rfl | hmem)
        · rfl
        · exact absurd (hac ▸ List.mem_map.mpr ⟨(a, b), hmem, rfl⟩) hnot
    · have hmiss : (c :: cells).lookup a = cells.lookup a := by
        rw [List.lookup_cons, beq_false_of_ne hac]
      rw [hmiss]
      refine (ih hnodup').trans ?_
      constructor
      · exact Or.inr
      · rintro (hcell | hmem)
        · exact absurd (congrArg Prod.fst hcell) hac
        · exact hmem

end Lib
end LinuxPrograming
