import Mathlib.Data.List.Basic
import Mathlib.Tactic.Common

/-!
# Bounded first-in first-out queues
-/

namespace LinuxPrograming
namespace Lib

/-- A queue that never holds more than `cap` values, oldest first. -/
structure BoundedQueue (α : Type*) where
  items : List α
  cap : Nat
  length_le : items.length ≤ cap

namespace BoundedQueue

variable {α : Type*}

def empty (cap : Nat) : BoundedQueue α := ⟨[], cap, Nat.zero_le cap⟩

def IsFull (q : BoundedQueue α) : Prop := q.items.length = q.cap

instance (q : BoundedQueue α) : Decidable q.IsFull := inferInstanceAs (Decidable (_ = _))

/-- Append a value, unless the queue is full. -/
def push (q : BoundedQueue α) (a : α) : BoundedQueue α :=
  if h : q.IsFull then q
  else ⟨q.items ++ [a], q.cap, by
    have hlen := q.length_le
    have hne : q.items.length ≠ q.cap := h
    rw [List.length_append, List.length_singleton]
    omega⟩

/-- Drop the oldest value. -/
def pop (q : BoundedQueue α) : BoundedQueue α :=
  ⟨q.items.tail, q.cap, Nat.le_trans (by simp) q.length_le⟩

def clear (q : BoundedQueue α) : BoundedQueue α := empty q.cap

theorem pop_of_nil {q : BoundedQueue α} (h : q.items = []) : q.pop = q := by
  obtain ⟨items, cap, hlen⟩ := q
  obtain rfl : items = [] := h
  rfl

/-- The queue of the images. -/
def map {β : Type*} (f : α → β) (q : BoundedQueue α) : BoundedQueue β :=
  ⟨q.items.map f, q.cap, by rw [List.length_map]; exact q.length_le⟩

theorem push_items {q : BoundedQueue α} (h : ¬ q.IsFull) (a : α) :
    (q.push a).items = q.items ++ [a] := by
  rw [push, dif_neg h]

@[simp] theorem push_cap (q : BoundedQueue α) (a : α) : (q.push a).cap = q.cap := by
  rw [push]
  split <;> rfl

@[simp] theorem pop_items (q : BoundedQueue α) : q.pop.items = q.items.tail := rfl

@[simp] theorem pop_cap (q : BoundedQueue α) : q.pop.cap = q.cap := rfl

@[simp] theorem clear_cap (q : BoundedQueue α) : q.clear.cap = q.cap := rfl

theorem map_items {β : Type*} (f : α → β) (q : BoundedQueue α) :
    (q.map f).items = q.items.map f := rfl

theorem isFull_map {β : Type*} (f : α → β) (q : BoundedQueue α) : (q.map f).IsFull ↔ q.IsFull := by
  rw [IsFull, IsFull, map, List.length_map]

theorem map_push {β : Type*} (f : α → β) (q : BoundedQueue α) (a : α) :
    (q.push a).map f = (q.map f).push (f a) := by
  by_cases hfull : q.IsFull
  · rw [push, push, dif_pos hfull, dif_pos ((isFull_map f q).mpr hfull)]
  · rw [push, push, dif_neg hfull, dif_neg ((isFull_map f q).not.mpr hfull)]
    simp [map]

theorem map_pop {β : Type*} (f : α → β) (q : BoundedQueue α) : q.pop.map f = (q.map f).pop := by
  simp [map, pop]

end BoundedQueue

end Lib
end LinuxPrograming
