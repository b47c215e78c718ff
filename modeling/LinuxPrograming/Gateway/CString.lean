import LinuxPrograming.Gateway.Memory
import LinuxPrograming.Lib.Text

/-!
# The string functions of the C library

They work on places in one buffer.  Reading a string that does not end in the buffer, or
storing behind its end, is a fault.
-/

namespace LinuxPrograming
namespace Gateway

open Lib

/-- The string at place `i`. -/
def stringAt (m : Bytes) (i : Nat) : Checked Bytes :=
  if 0 ∈ m.drop i then pure (cStr (m.drop i)) else throw .unterminated

def strlen (m : Bytes) (i : Nat) : Checked Nat := do
  let s ← stringAt m i
  pure s.length

/-- `strchr(s, c)` for a `c` that is not NUL. -/
def strchr (m : Bytes) (i : Nat) (c : UInt8) : Checked (Option Nat) := do
  let s ← stringAt m i
  pure ((find [c] s).map (i + ·))

def strspn (m : Bytes) (i : Nat) (accept : Bytes) : Checked Nat := do
  let s ← stringAt m i
  pure (s.takeWhile (· ∈ accept)).length

/-- `strncmp(s, lit, strlen(lit)) == 0`. -/
def startsWith (m : Bytes) (i : Nat) (lit : Bytes) : Checked Bool := do
  let s ← stringAt m i
  pure (decide (lit <+: s))

def strstr (m : Bytes) (i : Nat) (pat : Bytes) : Checked (Option Nat) := do
  let s ← stringAt m i
  pure ((find pat s).map (i + ·))

/-- Store `bs` from place `i` on. -/
def store (m : Bytes) (i : Nat) (bs : Bytes) : Checked Bytes :=
  if i + bs.length ≤ m.length then pure (patch m i bs) else throw .overflow

/-- `memmove(dst, src, n)`: the bytes are read before any is stored. -/
def memmove (m : Bytes) (dst src n : Nat) : Checked Bytes :=
  if src + n ≤ m.length then store m dst ((m.drop src).take n) else throw .unset

section

variable {a t r : Bytes} {i : Nat} (ha : a.length = i) (ht : 0 ∉ t)
include ha ht

theorem stringAt_append : stringAt (a ++ (t ++ 0 :: r)) i = .ok t := by
  rw [stringAt, List.drop_left' ha, if_pos (List.mem_append_right t List.mem_cons_self),
    cStr_append ht, cStr_cons, if_pos rfl, List.append_nil]
  rfl

theorem strlen_append : strlen (a ++ (t ++ 0 :: r)) i = .ok t.length := by
  rw [strlen, stringAt_append ha ht, ok_bind]
  rfl

theorem strchr_append (c : UInt8) :
    strchr (a ++ (t ++ 0 :: r)) i c = .ok ((find [c] t).map (i + ·)) := by
  rw [strchr, stringAt_append ha ht, ok_bind]
  rfl

theorem strspn_append (accept : Bytes) :
    strspn (a ++ (t ++ 0 :: r)) i accept = .ok (t.takeWhile (· ∈ accept)).length := by
  rw [strspn, stringAt_append ha ht, ok_bind]
  rfl

theorem startsWith_append (lit : Bytes) :
    startsWith (a ++ (t ++ 0 :: r)) i lit = .ok (decide (lit <+: t)) := by
  rw [startsWith, stringAt_append ha ht, ok_bind]
  rfl

theorem strstr_append (pat : Bytes) :
    strstr (a ++ (t ++ 0 :: r)) i pat = .ok ((find pat t).map (i + ·)) := by
  rw [strstr, stringAt_append ha ht, ok_bind]
  rfl

end

/-- A store over bytes of the same number. -/
theorem store_append {a b c x : Bytes} {i : Nat} (ha : a.length = i)
    (hb : b.length = x.length) : store (a ++ (b ++ c)) i x = .ok (a ++ (x ++ c)) := by
  rw [store, if_pos (by rw [List.length_append, List.length_append]; omega), patch,
    List.take_left' ha, ← hb, List.append_assoc]
  subst ha
  rw [← List.drop_drop, List.drop_left, List.drop_left]
  rfl

/-- Text moved down over what stands before it, with its NUL. -/
theorem memmove_append {a b t r : Bytes} {dst src n : Nat} (ha : a.length = dst)
    (hb : (a ++ b).length = src) (hn : t.length + 1 = n) :
    ∃ r', memmove (a ++ (b ++ (t ++ 0 :: r))) dst src n = .ok (a ++ (t ++ 0 :: r')) ∧
      (t ++ 0 :: r').length = (b ++ (t ++ 0 :: r)).length := by
  have hsrc : (a ++ (b ++ (t ++ 0 :: r))).drop src = t ++ 0 :: r := by
    rw [← List.append_assoc, List.drop_left' hb]
  have htake : (t ++ 0 :: r).take n = t ++ [0] := by
    rw [List.append_cons, List.take_left' (by rw [List.length_append]; exact hn)]
  have hlen : (t ++ [0]).length = n := by rw [List.length_append]; exact hn
  have hle : n ≤ (b ++ (t ++ 0 :: r)).length := by
    simp only [List.length_append, List.length_cons]
    omega
  have hsplit : b ++ (t ++ 0 :: r) =
      (b ++ (t ++ 0 :: r)).take n ++ (b ++ (t ++ 0 :: r)).drop n :=
    (List.take_append_drop n _).symm
  refine ⟨(b ++ (t ++ 0 :: r)).drop n, ?_, ?_⟩
  · have hin : src + n ≤ (a ++ (b ++ (t ++ 0 :: r))).length := by
      simp only [List.length_append, List.length_cons] at hb ⊢
      omega
    rw [memmove, if_pos hin, hsrc, htake, hsplit,
      store_append ha (by rw [List.length_take_of_le hle, hlen]), ← hsplit, List.append_assoc]
    rfl
  · rw [List.append_cons, List.length_append, hlen, List.length_drop]
    omega

end Gateway
end LinuxPrograming
