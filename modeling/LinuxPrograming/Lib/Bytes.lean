import Mathlib.Data.List.TakeWhile
import Mathlib.Tactic.Common

/-!
# Bytes and C strings

A stretch of memory is a list of bytes, lowest address first.  The C string that
starts there is the part before the first NUL.  When the list holds no NUL the
string does not end inside it, and `cStr` is the whole list.
-/

namespace LinuxPrograming
namespace Lib

abbrev Bytes := List UInt8

/-- The bytes of an ASCII literal, without the NUL a C compiler appends. -/
def bytes (s : String) : Bytes := s.toList.map fun c => c.toUInt8

/-- The C string at the start of `m`. -/
def cStr (m : Bytes) : Bytes := m.takeWhile (· != 0)

/-- Store `bs` at the start of `buf`.  What lies behind keeps its old bytes. -/
def overwrite (buf bs : Bytes) : Bytes := bs ++ buf.drop bs.length

/-- Store `bs` in `m` from place `i` on. -/
def patch (m : Bytes) (i : Nat) (bs : Bytes) : Bytes := m.take i ++ bs ++ m.drop (i + bs.length)

@[simp] theorem cStr_nil : cStr [] = [] := rfl

theorem cStr_cons (b : UInt8) (m : Bytes) :
    cStr (b :: m) = if b = 0 then [] else b :: cStr m := by
  unfold cStr
  by_cases hb : b = 0 <;> simp [hb]

theorem cStr_append {a : Bytes} (ha : 0 ∉ a) (b : Bytes) : cStr (a ++ b) = a ++ cStr b := by
  induction a with
  | nil => rfl
  | cons x a ih =>
    have hx : x ≠ 0 := fun h => ha (h ▸ List.mem_cons_self)
    rw [List.cons_append, cStr_cons, if_neg hx, ih (fun h => ha (List.mem_cons_of_mem x h))]
    rfl

theorem cStr_eq_self {m : Bytes} (hm : 0 ∉ m) : cStr m = m := by
  have h := cStr_append hm []
  rwa [List.append_nil, cStr_nil, List.append_nil] at h

theorem zero_not_mem_cStr (m : Bytes) : 0 ∉ cStr m := by
  intro h
  have h0 := List.mem_takeWhile_imp h
  cases h0

/-- In front of a NUL stands a string, with its own NUL behind it. -/
theorem exists_cStr_append (a b : Bytes) : ∃ j, a ++ 0 :: b = cStr a ++ 0 :: j := by
  induction a with
  | nil => exact ⟨b, rfl⟩
  | cons x a ih =>
    rw [cStr_cons]
    by_cases hx : x = 0
    · exact ⟨a ++ 0 :: b, by rw [if_pos hx, hx]; rfl⟩
    · obtain ⟨j, hj⟩ := ih
      exact ⟨j, by rw [if_neg hx, List.cons_append, hj]; rfl⟩

theorem cStr_append_of_mem {a : Bytes} (ha : 0 ∈ a) (b : Bytes) : cStr (a ++ b) = cStr a := by
  induction a with
  | nil => exact absurd ha List.not_mem_nil
  | cons x a ih =>
    rw [List.cons_append, cStr_cons, cStr_cons]
    by_cases hx : x = 0
    · rw [if_pos hx, if_pos hx]
    · have h0 : (0 : UInt8) ∈ a := (List.mem_cons.mp ha).resolve_left (fun h => hx h.symm)
      rw [if_neg hx, if_neg hx, ih h0]

/-- A string ends inside `m` exactly when `m` holds a NUL. -/
theorem length_cStr_lt_iff {m : Bytes} : (cStr m).length < m.length ↔ 0 ∈ m := by
  constructor
  · intro h
    by_contra h0
    rw [cStr_eq_self h0] at h
    exact Nat.lt_irrefl _ h
  · intro h
    induction m with
    | nil => exact absurd h List.not_mem_nil
    | cons x m ih =>
      rw [cStr_cons]
      by_cases hx : x = 0
      · rw [if_pos hx]
        exact Nat.succ_pos _
      · rw [if_neg hx]
        have h0 : (0 : UInt8) ∈ m := (List.mem_cons.mp h).resolve_left (fun h => hx h.symm)
        exact Nat.succ_lt_succ (ih h0)

theorem cStr_eq_nil_iff {m : Bytes} : cStr m = [] ↔ ∀ b, m[0]? = some b → b = 0 := by
  cases m with
  | nil => simp
  | cons x m =>
    rw [cStr_cons]
    by_cases hx : x = 0 <;> simp [hx]

theorem length_overwrite {buf bs : Bytes} (h : bs.length ≤ buf.length) :
    (overwrite buf bs).length = buf.length := by
  rw [overwrite, List.length_append, List.length_drop]
  omega

theorem getElem?_overwrite_of_lt {buf bs : Bytes} {i : Nat} (h : i < bs.length) :
    (overwrite buf bs)[i]? = bs[i]? :=
  List.getElem?_append_left h

theorem getElem?_overwrite_of_le {buf bs : Bytes} {i : Nat} (h : bs.length ≤ i) :
    (overwrite buf bs)[i]? = buf[i]? := by
  rw [overwrite, List.getElem?_append_right h, List.getElem?_drop]
  congr 1
  omega

theorem patch_zero (m bs : Bytes) : patch m 0 bs = overwrite m bs := by
  rw [patch, overwrite, List.take_zero, List.nil_append, Nat.zero_add]

theorem length_patch {m bs : Bytes} {i : Nat} (h : i + bs.length ≤ m.length) :
    (patch m i bs).length = m.length := by
  rw [patch, List.length_append, List.length_append, List.length_take, List.length_drop]
  omega

/-- A store changes the bytes it stores and no other. -/
theorem getElem?_patch {m bs : Bytes} {i : Nat} (h : i + bs.length ≤ m.length) (j : Nat) :
    (patch m i bs)[j]? = if i ≤ j ∧ j < i + bs.length then bs[j - i]? else m[j]? := by
  have htake : (m.take i).length = i := by
    rw [List.length_take]
    omega
  rw [patch, List.append_assoc]
  by_cases hlow : j < i
  · rw [List.getElem?_append_left (by omega), List.getElem?_take_of_lt hlow, if_neg (by omega)]
  · rw [List.getElem?_append_right (by omega), htake]
    by_cases hhigh : j < i + bs.length
    · rw [List.getElem?_append_left (by omega), if_pos ⟨by omega, hhigh⟩]
    · rw [List.getElem?_append_right (by omega), List.getElem?_drop, if_neg (by omega)]
      congr 1
      omega

end Lib
end LinuxPrograming
