import LinuxPrograming.Lib.Bytes

/-!
# Memory accesses that C leaves undefined

The models of the gateway run in `Checked`.  An access outside an array, a copy
that does not fit, or the use of a freed node ends the run with a fault, since
nothing can be said about what the program does after it.
-/

namespace LinuxPrograming
namespace Gateway

open Lib

inductive Fault where
  /-- A NULL pointer is dereferenced. -/
  | null
  /-- A node is used after it was freed. -/
  | freed
  /-- A slot outside the five-int allocation is written. -/
  | wild
  /-- A slot that was never written, or lies outside the allocation, is read. -/
  | unset
  /-- A string read from `buf` does not end inside it. -/
  | unterminated
  /-- A string does not fit its destination together with its NUL. -/
  | overflow
  /-- An index of `val` or `check` is out of range. -/
  | index
  deriving DecidableEq, Repr

abbrev Checked := Except Fault

section

variable {α β : Type}

@[simp] theorem pure_eq_ok (a : α) : (pure a : Checked α) = .ok a := rfl

@[simp] theorem throw_eq_error (e : Fault) : (throw e : Checked α) = .error e := rfl

@[simp] theorem ok_bind (a : α) (f : α → Checked β) :
    ((Except.ok a : Checked α) >>= f) = f a := rfl

@[simp] theorem error_bind (e : Fault) (f : α → Checked β) :
    ((Except.error e : Checked α) >>= f) = .error e := rfl

theorem exists_bind_ok {a : Checked α} {f : α → Checked β} :
    (∃ b, a >>= f = .ok b) ↔ ∃ x, a = .ok x ∧ ∃ b, f x = .ok b := by
  cases a with
  | error e => simp
  | ok x => simp

theorem bind_eq_ok {a : Checked α} {f : α → Checked β} {b : β} :
    a >>= f = .ok b ↔ ∃ x, a = .ok x ∧ f x = .ok b := by
  cases a with
  | error e => simp
  | ok x => simp

end

/-- Store a C string with its NUL in an array of `cap` chars, as `strcpy` and
`vsprintf` do. -/
def strcpy (cap : Nat) (src : Bytes) : Checked Bytes :=
  if src.length < cap then pure src else throw .overflow

theorem strcpy_of_lt {cap : Nat} {src : Bytes} (h : src.length < cap) :
    strcpy cap src = .ok src := if_pos h

theorem strcpy_of_le {cap : Nat} {src : Bytes} (h : cap ≤ src.length) :
    strcpy cap src = .error .overflow := if_neg (Nat.not_lt.mpr h)

end Gateway
end LinuxPrograming
