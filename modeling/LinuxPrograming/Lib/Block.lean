import LinuxPrograming.Lib.Bytes

/-!
# A stream of blocks of one size

A reader that always asks for `n` bytes of a stream that was written in blocks of `n`
bytes gets the blocks back.
-/

namespace LinuxPrograming
namespace Lib

/-- A list of exactly `n` elements. -/
abbrev Block (α : Type*) (n : Nat) := { b : List α // b.length = n }

namespace Block

variable {α : Type*} {n : Nat}

/-- The blocks one after the other. -/
def stream (bs : List (Block α n)) : List α := (bs.map (·.1)).flatten

theorem stream_cons (b : Block α n) (bs : List (Block α n)) :
    stream (b :: bs) = b.1 ++ stream bs := rfl

theorem stream_append (bs cs : List (Block α n)) :
    stream (bs ++ cs) = stream bs ++ stream cs := by
  rw [stream, List.map_append, List.flatten_append]
  rfl

theorem stream_singleton (b : Block α n) : stream [b] = b.1 := List.append_nil b.1

theorem stream_eq_nil_iff (hn : 0 < n) {bs : List (Block α n)} : stream bs = [] ↔ bs = [] := by
  constructor
  · intro h
    cases bs with
    | nil => rfl
    | cons b bs =>
      have hb : b.1 = [] := (List.append_eq_nil_iff.mp (stream_cons b bs ▸ h)).1
      have hlen : b.1.length = n := b.2
      rw [hb] at hlen
      exact absurd hlen (Nat.ne_of_lt hn)
  · intro h
    rw [h]
    rfl

theorem take_stream_cons (b : Block α n) (bs : List (Block α n)) :
    (stream (b :: bs)).take n = b.1 := by
  rw [stream_cons]
  exact List.take_left' b.2

theorem drop_stream_cons (b : Block α n) (bs : List (Block α n)) :
    (stream (b :: bs)).drop n = stream bs := by
  rw [stream_cons]
  exact List.drop_left' b.2

end Block

/-- Store at most `n` bytes at the start of an array of `n` bytes. -/
def Block.store {n : Nat} (b : Block UInt8 n) (bs : Bytes) (h : bs.length ≤ n) : Block UInt8 n :=
  ⟨overwrite b.1 bs, by rw [length_overwrite (by rw [b.2]; exact h), b.2]⟩

/-- A whole block replaces what the array held. -/
theorem Block.store_full {n : Nat} (b c : Block UInt8 n) :
    b.store c.1 (Nat.le_of_eq c.2) = c := by
  apply Subtype.ext
  show c.1 ++ b.1.drop c.1.length = c.1
  rw [List.drop_of_length_le (by rw [b.2, c.2]), List.append_nil]

end Lib
end LinuxPrograming
