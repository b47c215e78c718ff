import LinuxPrograming.Lib.Bytes
import Mathlib.Algebra.Order.Ring.Rat
import Mathlib.Data.Rat.Floor

/-!
# Formatted output

`vsprintf` with the conversions `%s`, `%d` and `%.1lf`.
-/

namespace LinuxPrograming
namespace Lib

/-- An argument of a formatted print. -/
inductive Arg where
  | str (s : Bytes)
  | int (n : Int)
  | double (q : Rat)

/-- `%d`. -/
def decimal (n : Int) : Bytes := bytes (toString n)

/-- The nearest integer, and the even one of two that are equally near. -/
def roundHalfEven (q : Rat) : Int :=
  let rest := q - q.floor
  if rest < 1 / 2 then q.floor
  else if 1 / 2 < rest then q.floor + 1
  else if q.floor % 2 = 0 then q.floor
  else q.floor + 1

/-- `%.1lf`. -/
def fixed1 (q : Rat) : Bytes :=
  let tenths := roundHalfEven (|q| * 10)
  (if q < 0 then bytes "-" else []) ++ decimal (tenths / 10) ++ bytes "." ++ decimal (tenths % 10)

/-- The characters a format produces, without the NUL behind them. -/
def vsprintf : Bytes → List Arg → Bytes
  | [], _ => []
  | 37 :: 115 :: fmt, .str s :: args => s ++ vsprintf fmt args
  | 37 :: 100 :: fmt, .int n :: args => decimal n ++ vsprintf fmt args
  | 37 :: 46 :: 49 :: 108 :: 102 :: fmt, .double q :: args => fixed1 q ++ vsprintf fmt args
  | c :: fmt, args => c :: vsprintf fmt args

section

variable (fmt : Bytes) (args : List Arg)

theorem vsprintf_str (s : Bytes) :
    vsprintf (bytes "%s" ++ fmt) (.str s :: args) = s ++ vsprintf fmt args := rfl

theorem vsprintf_int (n : Int) :
    vsprintf (bytes "%d" ++ fmt) (.int n :: args) = decimal n ++ vsprintf fmt args := rfl

theorem vsprintf_double (q : Rat) :
    vsprintf (bytes "%.1lf" ++ fmt) (.double q :: args) = fixed1 q ++ vsprintf fmt args := rfl

theorem vsprintf_text {text : Bytes} (h : 37 ∉ text) :
    vsprintf (text ++ fmt) args = text ++ vsprintf fmt args := by
  induction text with
  | nil => rfl
  | cons c text ih =>
    have hc : c ≠ 37 := fun heq => h (heq ▸ List.mem_cons_self)
    rw [List.cons_append, vsprintf, ih fun hmem => h (List.mem_cons_of_mem c hmem)]
    · rfl
    all_goals
      intros
      contradiction

end

/-- A number of `k` digits has one character more at most. -/
theorem length_decimal_le {n : Int} {k : Nat} (hk : 0 < k) (h : n.natAbs < 10 ^ k) :
    (decimal n).length ≤ k + 1 := by
  have hdigits : ∀ m : Nat, m < 10 ^ k → m.repr.toList.length ≤ k := by
    intro m hm
    rw [Nat.toList_repr]
    exact (Nat.length_toDigits_le_iff (by decide) hk).mpr hm
  rw [decimal, bytes, List.length_map, Int.toString_eq_repr, Int.repr_eq_if]
  split
  · exact Nat.le_succ_of_le (hdigits _ (by omega))
  · rw [String.toList_append, List.length_append, Nat.add_comm]
    exact Nat.add_le_add_right (hdigits _ (by omega)) 1

example : vsprintf (bytes "%s: '%d' <%.1lf>") [.str (bytes "t"), .int (-3), .double (5 / 4)] =
    bytes "t: '-3' <1.2>" := by decide +kernel

end Lib
end LinuxPrograming
