import LinuxPrograming.Gateway.Memory
import Mathlib.Algebra.Ring.Nat

/-!
# `\u` literals

`parse_hex4` and `utf16_literal_to_utf8` of cJSON.  A literal gives the UTF-16 code of a
character, in one unit or two, and stands for the UTF-8 code of the character.  Four bytes that
are not all digits give the unit 0, so they stand for NUL.  Reading behind the end of the text
is a fault.
-/

namespace LinuxPrograming
namespace Cjson

open Lib Gateway

def hexDigit (c : UInt8) : Option Nat :=
  if 48 ≤ c ∧ c ≤ 57 then some (c.toNat - 48)
  else if 65 ≤ c ∧ c ≤ 70 then some (10 + c.toNat - 65)
  else if 97 ≤ c ∧ c ≤ 102 then some (10 + c.toNat - 97)
  else none

/-- The loop of `parse_hex4` with `k` digits to go. -/
def hexLoop : Nat → Nat → Bytes → Checked Nat
  | 0, h, _ => pure h
  | _ + 1, _, [] => throw .unterminated
  | k + 1, h, c :: input =>
    match hexDigit c with
    | some d => hexLoop k (if k = 0 then h + d else (h + d) <<< 4) input
    | none => pure 0

def parseHex4 (input : Bytes) : Checked Nat := hexLoop 4 0 input

/-- The loop that encodes the `k` bytes behind the first, from the last on.  It returns what is
left of the code point. -/
def continuation : Nat → Nat → Bytes → Nat × Bytes
  | 0, codepoint, out => (codepoint, out)
  | k + 1, codepoint, out =>
    continuation k (codepoint >>> 6) (UInt8.ofNat ((codepoint ||| 0x80) &&& 0xBF) :: out)

/-- A sequence of `k + 1` bytes. -/
def encodeSequence (k firstByteMark codepoint : Nat) : Bytes :=
  let (rest, out) := continuation k codepoint []
  UInt8.ofNat ((rest ||| firstByteMark) &&& 0xFF) :: out

def encodeUtf8 (codepoint : Nat) : Option Bytes :=
  if codepoint < 0x80 then some [UInt8.ofNat (codepoint &&& 0x7F)]
  else if codepoint < 0x800 then some (encodeSequence 1 0xC0 codepoint)
  else if codepoint < 0x10000 then some (encodeSequence 2 0xE0 codepoint)
  else if codepoint ≤ 0x10FFFF then some (encodeSequence 3 0xF0 codepoint)
  else none

/-- What is encoded, with the length of the literal. -/
def encodeLiteral (sequenceLength codepoint : Nat) : Option (Nat × Bytes) :=
  (encodeUtf8 codepoint).map (sequenceLength, ·)

def byteAt (input : Bytes) (i : Nat) : Checked UInt8 :=
  match input[i]? with
  | some c => pure c
  | none => throw .unterminated

/-- `utf16_literal_to_utf8` with `left` bytes up to `input_end`: the length of the literal and
the bytes that it writes, or `none` when it fails. -/
def utf16LiteralToUtf8 (input : Bytes) (left : Nat) : Checked (Option (Nat × Bytes)) :=
  if left < 6 then pure none
  else do
    let firstCode ← parseHex4 (input.drop 2)
    if 0xDC00 ≤ firstCode ∧ firstCode ≤ 0xDFFF then pure none
    else if 0xD800 ≤ firstCode ∧ firstCode ≤ 0xDBFF then
      if left - 6 < 6 then pure none
      else
        let c0 ← byteAt input 6
        let c1 ← byteAt input 7
        if c0 ≠ 92 ∨ c1 ≠ 117 then pure none
        else
          let secondCode ← parseHex4 (input.drop 8)
          if secondCode < 0xDC00 ∨ 0xDFFF < secondCode then pure none
          else pure (encodeLiteral 12
            (0x10000 + (((firstCode &&& 0x3FF) <<< 10) ||| (secondCode &&& 0x3FF))))
    else pure (encodeLiteral 6 firstCode)

/-! ## Hexadecimal digits -/

theorem hexDigit_lt {c : UInt8} {d : Nat} (h : hexDigit c = some d) : d < 16 := by
  simp only [hexDigit, UInt8.le_iff_toNat_le] at h
  have h48 : (48 : UInt8).toNat = 48 := rfl
  have h57 : (57 : UInt8).toNat = 57 := rfl
  have h65 : (65 : UInt8).toNat = 65 := rfl
  have h70 : (70 : UInt8).toNat = 70 := rfl
  have h97 : (97 : UInt8).toNat = 97 := rfl
  have h102 : (102 : UInt8).toNat = 102 := rfl
  split at h
  · obtain rfl := Option.some.inj h
    omega
  · split at h
    · obtain rfl := Option.some.inj h
      omega
    · split at h
      · obtain rfl := Option.some.inj h
        omega
      · cases h

/-- A text that is long enough is read without a fault. -/
theorem exists_hexLoop {k : Nat} {input : Bytes} (h : Nat) (hlen : k ≤ input.length) :
    ∃ n, hexLoop k h input = .ok n := by
  induction k generalizing h input with
  | zero => exact ⟨h, rfl⟩
  | succ k ih =>
    cases input with
    | nil => exact absurd hlen (Nat.not_succ_le_zero k)
    | cons c input =>
      rw [hexLoop]
      cases hexDigit c with
      | some d => exact ih _ (Nat.le_of_succ_le_succ hlen)
      | none => exact ⟨0, rfl⟩

/-- `v` is the value of the digits read so far. -/
theorem hexLoop_lt {k v n : Nat} {input : Bytes}
    (h : hexLoop (k + 1) (16 * v) input = .ok n) : n < 16 ^ (k + 1) * (v + 1) := by
  induction k generalizing v input with
  | zero =>
    cases input with
    | nil => cases h
    | cons c input =>
      rw [hexLoop] at h
      cases hc : hexDigit c with
      | some d =>
        have hd := hexDigit_lt hc
        rw [hc] at h
        obtain rfl : 16 * v + d = n := Except.ok.inj h
        omega
      | none =>
        rw [hc] at h
        obtain rfl : 0 = n := Except.ok.inj h
        omega
  | succ k ih =>
    cases input with
    | nil => cases h
    | cons c input =>
      rw [hexLoop] at h
      cases hc : hexDigit c with
      | some d =>
        have hd := hexDigit_lt hc
        have hshift : (16 * v + d) <<< 4 = 16 * (16 * v + d) := by
          rw [Nat.shiftLeft_eq]
          omega
        rw [hc] at h
        dsimp only at h
        rw [if_neg (Nat.succ_ne_zero k), hshift] at h
        calc n < 16 ^ (k + 1) * (16 * v + d + 1) := ih h
          _ ≤ 16 ^ (k + 1) * (16 * (v + 1)) := Nat.mul_le_mul_left _ (by omega)
          _ = 16 ^ (k + 1 + 1) * (v + 1) := by rw [← Nat.mul_assoc, ← Nat.pow_succ]
      | none =>
        rw [hc] at h
        obtain rfl : 0 = n := Except.ok.inj h
        exact Nat.mul_pos (Nat.pow_pos (by decide)) (Nat.succ_pos v)

/-- The value of a hexadecimal digit is its place among the digits. -/
def digitValue (c : UInt8) : Option Nat :=
  ((bytes "0123456789abcdef").idxOf? c).or ((bytes "0123456789ABCDEF").idxOf? c)

theorem hexDigit_eq_digitValue (c : UInt8) : hexDigit c = digitValue c := by
  have hall : ∀ n < 256, hexDigit (UInt8.ofNat n) = digitValue (UInt8.ofNat n) := by
    decide +kernel
  simpa using hall c.toNat c.toNat_lt

/-- The unit that the first four bytes of a text give. -/
inductive HexUnit (t : Bytes) : Nat → Prop where
  /-- Four digits give their value to base 16. -/
  | digits (ds : List Nat) (hlen : ds.length = 4)
    (hds : (t.take 4).map digitValue = ds.map some) :
    HexUnit t (ds.foldl (fun n d => 16 * n + d) 0)
  /-- Bytes that are not all digits give 0. -/
  | other (i : Nat) (c : UInt8) (hi : i < 4) (hc : t[i]? = some c)
    (hdigit : digitValue c = none) : HexUnit t 0

theorem hexLoop_digits {k v : Nat} {t : Bytes} {ds : List Nat} (hlen : ds.length = k + 1)
    (hds : (t.take (k + 1)).map digitValue = ds.map some) :
    hexLoop (k + 1) (16 * v) t = .ok (ds.foldl (fun n d => 16 * n + d) v) := by
  induction k generalizing v t ds with
  | zero =>
    obtain ⟨d, rfl⟩ := List.length_eq_one_iff.mp hlen
    cases t with
    | nil => cases hds
    | cons c t =>
      have hc : digitValue c = some d := (List.cons.inj hds).1
      rw [hexLoop, hexDigit_eq_digitValue, hc]
      rfl
  | succ k ih =>
    obtain ⟨d, ds, rfl⟩ := List.exists_cons_of_length_eq_add_one hlen
    cases t with
    | nil => cases hds
    | cons c t =>
      obtain ⟨hc, hrest⟩ := List.cons.inj hds
      have hshift : (16 * v + d) <<< 4 = 16 * (16 * v + d) := by
        rw [Nat.shiftLeft_eq]
        omega
      rw [hexLoop, hexDigit_eq_digitValue, show digitValue c = some d from hc]
      dsimp only
      rw [if_neg (Nat.succ_ne_zero k), hshift]
      exact ih (Nat.succ.inj hlen) hrest

theorem hexLoop_other {k i : Nat} {t : Bytes} {c : UInt8} (hi : i < k) (hc : t[i]? = some c)
    (hdigit : digitValue c = none) (h : Nat) : hexLoop k h t = .ok 0 := by
  induction k generalizing h t i with
  | zero => exact absurd hi (Nat.not_lt_zero i)
  | succ k ih =>
    cases t with
    | nil => cases hc
    | cons b t =>
      rw [hexLoop, hexDigit_eq_digitValue]
      cases hb : digitValue b with
      | none => rfl
      | some d =>
        cases i with
        | zero =>
          obtain rfl := Option.some.inj hc
          cases hb.symm.trans hdigit
        | succ i => exact ih (Nat.lt_of_succ_lt_succ hi) hc _

/-- A text that is read starts with digits, or with a byte among the first that is none. -/
theorem digits_or_other_of_hexLoop {k h u : Nat} {t : Bytes} (hloop : hexLoop k h t = .ok u) :
    (∃ ds : List Nat, ds.length = k ∧ (t.take k).map digitValue = ds.map some) ∨
      ∃ i c, i < k ∧ t[i]? = some c ∧ digitValue c = none := by
  induction k generalizing h t with
  | zero => exact Or.inl ⟨[], rfl, rfl⟩
  | succ k ih =>
    cases t with
    | nil => cases hloop
    | cons c t =>
      rw [hexLoop, hexDigit_eq_digitValue] at hloop
      cases hc : digitValue c with
      | none => exact Or.inr ⟨0, c, Nat.succ_pos k, rfl, hc⟩
      | some d =>
        rw [hc] at hloop
        rcases ih hloop with ⟨ds, hlen, hds⟩ | ⟨i, b, hi, hb, hdigit⟩
        · refine Or.inl ⟨d :: ds, by rw [List.length_cons, hlen], ?_⟩
          rw [List.take_succ_cons, List.map_cons, List.map_cons, hc, hds]
        · exact Or.inr ⟨i + 1, b, Nat.succ_lt_succ hi, hb, hdigit⟩

theorem parseHex4_iff {input : Bytes} {u : Nat} :
    parseHex4 input = .ok u ↔ HexUnit input u := by
  constructor
  · intro h
    rcases digits_or_other_of_hexLoop h with ⟨ds, hlen, hds⟩ | ⟨i, c, hi, hc, hdigit⟩
    · obtain rfl := Except.ok.inj ((hexLoop_digits (v := 0) hlen hds).symm.trans h)
      exact .digits ds hlen hds
    · obtain rfl := Except.ok.inj ((hexLoop_other hi hc hdigit 0).symm.trans h)
      exact .other i c hi hc hdigit
  · intro h
    cases h with
    | digits ds hlen hds => exact hexLoop_digits (v := 0) hlen hds
    | other i c hi hc hdigit => exact hexLoop_other hi hc hdigit 0

theorem exists_parseHex4 (input : Bytes) (hlen : 4 ≤ input.length) :
    ∃ n, parseHex4 input = .ok n := exists_hexLoop 0 hlen

theorem parseHex4_lt {n : Nat} {input : Bytes} (h : parseHex4 input = .ok n) : n < 65536 :=
  hexLoop_lt (k := 3) (v := 0) h

/-! ## UTF-8 -/

/-- A byte behind the first. -/
theorem ofNat_continuation (n : Nat) :
    UInt8.ofNat ((n ||| 0x80) &&& 0xBF) = UInt8.ofNat (n % 64 + 0x80) := by
  have hlow : ∀ m < 2 ^ 8, (m ||| 0x80) &&& 0xBF = m % 64 + 0x80 := by decide +kernel
  have hmod : ((n ||| 0x80) &&& 0xBF) % 2 ^ 8 = (n % 2 ^ 8 ||| 0x80) &&& 0xBF := by
    rw [Nat.and_mod_two_pow, Nat.or_mod_two_pow]
  have hlt := hlow (n % 2 ^ 8) (Nat.mod_lt n (by decide))
  apply UInt8.toNat_inj.mp
  rw [UInt8.toNat_ofNat', UInt8.toNat_ofNat', hmod, hlt]
  omega

theorem encodeSequence_one (n : Nat) (h : n < 0x800) :
    encodeSequence 1 0xC0 n = [UInt8.ofNat (n / 64 % 32 + 0xC0), UInt8.ofNat (n % 64 + 0x80)] := by
  have hfirst : ∀ m < 32, (m ||| 0xC0) &&& 0xFF = m % 32 + 0xC0 := by decide +kernel
  show [UInt8.ofNat ((n >>> 6 ||| 0xC0) &&& 0xFF), UInt8.ofNat ((n ||| 0x80) &&& 0xBF)] = _
  rw [ofNat_continuation, Nat.shiftRight_eq_div_pow, hfirst _ (by omega)]

theorem encodeSequence_two (n : Nat) (h : n < 0x10000) :
    encodeSequence 2 0xE0 n = [UInt8.ofNat (n / 4096 % 16 + 0xE0),
      UInt8.ofNat (n / 64 % 64 + 0x80), UInt8.ofNat (n % 64 + 0x80)] := by
  have hfirst : ∀ m < 16, (m ||| 0xE0) &&& 0xFF = m % 16 + 0xE0 := by decide +kernel
  show [UInt8.ofNat ((n >>> 6 >>> 6 ||| 0xE0) &&& 0xFF),
    UInt8.ofNat ((n >>> 6 ||| 0x80) &&& 0xBF), UInt8.ofNat ((n ||| 0x80) &&& 0xBF)] = _
  rw [ofNat_continuation, ofNat_continuation, Nat.shiftRight_eq_div_pow,
    Nat.shiftRight_eq_div_pow, Nat.div_div_eq_div_mul, hfirst _ (by omega)]

theorem encodeSequence_three (n : Nat) (h : n ≤ 0x10FFFF) :
    encodeSequence 3 0xF0 n = [UInt8.ofNat (n / 262144 % 8 + 0xF0),
      UInt8.ofNat (n / 4096 % 64 + 0x80), UInt8.ofNat (n / 64 % 64 + 0x80),
      UInt8.ofNat (n % 64 + 0x80)] := by
  have hfirst : ∀ m < 8, (m ||| 0xF0) &&& 0xFF = m % 8 + 0xF0 := by decide +kernel
  show [UInt8.ofNat ((n >>> 6 >>> 6 >>> 6 ||| 0xF0) &&& 0xFF),
    UInt8.ofNat ((n >>> 6 >>> 6 ||| 0x80) &&& 0xBF), UInt8.ofNat ((n >>> 6 ||| 0x80) &&& 0xBF),
    UInt8.ofNat ((n ||| 0x80) &&& 0xBF)] = _
  rw [ofNat_continuation, ofNat_continuation, ofNat_continuation, Nat.shiftRight_eq_div_pow,
    Nat.shiftRight_eq_div_pow, Nat.shiftRight_eq_div_pow, Nat.div_div_eq_div_mul n (2 ^ 6) (2 ^ 6),
    Nat.div_div_eq_div_mul, hfirst _ (by omega)]

theorem encodeUtf8_char (ch : Char) :
    encodeUtf8 ch.toNat = some (String.utf8EncodeChar ch) := by
  have hval : ch.val.toNat = ch.toNat := rfl
  have hmax : ch.toNat ≤ 0x10FFFF := by
    rcases ch.valid with h | ⟨-, h⟩ <;> omega
  rw [encodeUtf8, String.utf8EncodeChar, hval]
  by_cases h1 : ch.toNat < 0x80
  · have hand : ch.toNat &&& 0x7F = ch.toNat := by
      rw [show 0x7F = 2 ^ 7 - 1 from rfl, Nat.and_two_pow_sub_one_eq_mod]
      omega
    rw [if_pos h1, if_pos (Nat.le_of_lt_succ h1), hand]
  · have h1' : ¬ ch.toNat ≤ 0x7F := fun h => h1 (Nat.lt_succ_of_le h)
    rw [if_neg h1, if_neg h1']
    by_cases h2 : ch.toNat < 0x800
    · rw [if_pos h2, if_pos (Nat.le_of_lt_succ h2), encodeSequence_one _ h2]
    · have h2' : ¬ ch.toNat ≤ 0x7FF := fun h => h2 (Nat.lt_succ_of_le h)
      rw [if_neg h2, if_neg h2']
      by_cases h3 : ch.toNat < 0x10000
      · rw [if_pos h3, if_pos (Nat.le_of_lt_succ h3), encodeSequence_two _ h3]
      · have h3' : ¬ ch.toNat ≤ 0xFFFF := fun h => h3 (Nat.lt_succ_of_le h)
        rw [if_neg h3, if_neg h3', if_pos hmax, encodeSequence_three _ hmax]

/-! ## Literals -/

/-- The UTF-16 code of a character. -/
def utf16Units (ch : Char) : List Nat :=
  if ch.toNat < 0x10000 then [ch.toNat]
  else [0xD800 + (ch.toNat - 0x10000) / 1024, 0xDC00 + (ch.toNat - 0x10000) % 1024]

theorem utf16Units_length_pos (ch : Char) : 0 < (utf16Units ch).length := by
  rw [utf16Units]
  split <;> simp

theorem byteAt_eq_ok {input : Bytes} {i : Nat} {c : UInt8} :
    byteAt input i = .ok c ↔ input[i]? = some c := by
  rw [byteAt]
  split
  · next b hb =>
    rw [hb]
    exact ⟨fun h => congrArg some (Except.ok.inj h),
      fun h => congrArg Except.ok (Option.some.inj h)⟩
  · next hnone =>
    rw [hnone]
    exact ⟨fun h => (by cases h), fun h => (by cases h)⟩

/-- The text holds literals with the values `units`.  That the first is one, the caller has
seen. -/
def Literals (input : Bytes) (units : List Nat) : Prop :=
  ∀ i u, units[i]? = some u → HexUnit (input.drop (6 * i + 2)) u ∧
    (0 < i → input[6 * i]? = some 92 ∧ input[6 * i + 1]? = some 117)

theorem literals_one {input : Bytes} {u : Nat} :
    Literals input [u] ↔ parseHex4 (input.drop 2) = .ok u := by
  rw [parseHex4_iff]
  constructor
  · intro h
    exact (h 0 u rfl).1
  · intro h i v hv
    cases i with
    | zero =>
      obtain rfl := Option.some.inj hv
      exact ⟨h, fun hpos => absurd hpos (Nat.lt_irrefl 0)⟩
    | succ i => cases hv

theorem literals_two {input : Bytes} {u v : Nat} :
    Literals input [u, v] ↔ parseHex4 (input.drop 2) = .ok u ∧ byteAt input 6 = .ok 92 ∧
      byteAt input 7 = .ok 117 ∧ parseHex4 (input.drop 8) = .ok v := by
  rw [parseHex4_iff, parseHex4_iff, byteAt_eq_ok, byteAt_eq_ok]
  constructor
  · intro h
    obtain ⟨hv, hmark⟩ := h 1 v rfl
    exact ⟨(h 0 u rfl).1, (hmark Nat.zero_lt_one).1, (hmark Nat.zero_lt_one).2, hv⟩
  · rintro ⟨hu, h6, h7, hv⟩ i w hw
    match i with
    | 0 =>
      obtain rfl := Option.some.inj hw
      exact ⟨hu, fun hpos => absurd hpos (Nat.lt_irrefl 0)⟩
    | 1 =>
      obtain rfl := Option.some.inj hw
      exact ⟨hv, fun _ => ⟨h6, h7⟩⟩
    | i + 2 => cases hw

theorem toNat_ofNat_of_valid {n : Nat} (h : n.isValidChar) : (Char.ofNat n).toNat = n := by
  rw [Char.ofNat, dif_pos h]
  rfl

/-- The code point of a surrogate pair. -/
theorem pair_eq (a b : Nat) :
    ((a &&& 0x3FF) <<< 10) ||| (b &&& 0x3FF) = a % 1024 * 1024 + b % 1024 := by
  have hand : ∀ n : Nat, n &&& 0x3FF = n % 1024 := fun n =>
    Nat.and_two_pow_sub_one_eq_mod n 10
  rw [hand, hand, ← Nat.shiftLeft_add_eq_or_of_lt (Nat.mod_lt b (by decide)),
    Nat.shiftLeft_eq]

theorem encodeLiteral_char (n : Nat) (ch : Char) :
    encodeLiteral n ch.toNat = some (n, String.utf8EncodeChar ch) := by
  rw [encodeLiteral, encodeUtf8_char]
  rfl

theorem char_toNat_bounds (ch : Char) :
    ch.toNat ≤ 0x10FFFF ∧ ¬ (0xD800 ≤ ch.toNat ∧ ch.toNat ≤ 0xDFFF) := by
  have hval : ch.val.toNat = ch.toNat := rfl
  rcases ch.valid with h | ⟨hlow, h⟩
  · omega
  · omega

/-- One unit that is no surrogate is the code of a character. -/
theorem exists_char_of_unit {u : Nat} (hlt : u < 0x10000)
    (hsurrogate : ¬ (0xD800 ≤ u ∧ u ≤ 0xDFFF)) :
    ∃ ch : Char, ch.toNat = u ∧ utf16Units ch = [u] := by
  have hvalid : u.isValidChar := by
    unfold Nat.isValidChar
    omega
  have hch := toNat_ofNat_of_valid hvalid
  refine ⟨Char.ofNat u, hch, ?_⟩
  rw [utf16Units, hch, if_pos hlt]

/-- A pair of surrogates is the code of a character. -/
theorem exists_char_of_pair {u v : Nat} (hu : 0xD800 ≤ u ∧ u ≤ 0xDBFF)
    (hv : 0xDC00 ≤ v ∧ v ≤ 0xDFFF) :
    ∃ ch : Char, ch.toNat = 0x10000 + (((u &&& 0x3FF) <<< 10) ||| (v &&& 0x3FF)) ∧
      utf16Units ch = [u, v] := by
  rw [pair_eq]
  generalize hn : 0x10000 + (u % 1024 * 1024 + v % 1024) = n
  have hvalid : n.isValidChar := by
    unfold Nat.isValidChar
    omega
  have hch := toNat_ofNat_of_valid hvalid
  have hup : 0xD800 + (n - 0x10000) / 1024 = u := by omega
  have hdown : 0xDC00 + (n - 0x10000) % 1024 = v := by omega
  refine ⟨Char.ofNat n, hch, ?_⟩
  rw [utf16Units, hch, if_neg (by omega), hup, hdown]

section

variable {input out : Bytes} {left n : Nat}

/-- The units of a literal that is read are the code of a character. -/
theorem literals_of_utf16LiteralToUtf8 (h : utf16LiteralToUtf8 input left = .ok (some (n, out))) :
    ∃ ch : Char, Literals input (utf16Units ch) ∧ n = 6 * (utf16Units ch).length ∧ n ≤ left ∧
      out = String.utf8EncodeChar ch := by
  rw [utf16LiteralToUtf8] at h
  split at h
  · cases h
  next hleft =>
  obtain ⟨first, hfirst, h⟩ := bind_eq_ok.mp h
  have hlt := parseHex4_lt hfirst
  split at h
  · cases h
  next hlow =>
  split at h
  · next hhigh =>
    split at h
    · cases h
    next hroom =>
    obtain ⟨c0, hc0, h⟩ := bind_eq_ok.mp h
    obtain ⟨c1, hc1, h⟩ := bind_eq_ok.mp h
    split at h
    · cases h
    next hmark =>
    obtain ⟨h92, h117⟩ : c0 = 92 ∧ c1 = 117 := by
      simpa only [not_or, ne_eq, Decidable.not_not] using hmark
    obtain ⟨second, hsecond, h⟩ := bind_eq_ok.mp h
    split at h
    · cases h
    next hrange =>
    obtain ⟨ch, hch, hunits⟩ := exists_char_of_pair (v := second) hhigh (by omega)
    rw [← hch, encodeLiteral_char] at h
    obtain ⟨rfl, rfl⟩ := Prod.mk.inj (Option.some.inj (Except.ok.inj h))
    refine ⟨ch, ?_, by rw [hunits]; rfl, by omega, rfl⟩
    rw [hunits]
    exact literals_two.mpr ⟨hfirst, h92 ▸ hc0, h117 ▸ hc1, hsecond⟩
  · next hhigh =>
    obtain ⟨ch, hch, hunits⟩ := exists_char_of_unit hlt (by omega)
    rw [← hch, encodeLiteral_char] at h
    obtain ⟨rfl, rfl⟩ := Prod.mk.inj (Option.some.inj (Except.ok.inj h))
    refine ⟨ch, ?_, by rw [hunits]; rfl, Nat.le_of_not_lt hleft, rfl⟩
    rw [hunits]
    exact literals_one.mpr hfirst

theorem utf16LiteralToUtf8_of_literals (left : Nat) {ch : Char}
    (hlit : Literals input (utf16Units ch)) (hle : 6 * (utf16Units ch).length ≤ left) :
    utf16LiteralToUtf8 input left =
      .ok (some (6 * (utf16Units ch).length, String.utf8EncodeChar ch)) := by
  obtain ⟨hmax, hsurrogate⟩ := char_toNat_bounds ch
  rw [utf16Units] at hlit hle ⊢
  by_cases hone : ch.toNat < 0x10000
  · rw [if_pos hone] at hlit hle ⊢
    change 6 ≤ left at hle
    rw [utf16LiteralToUtf8, if_neg (by omega), literals_one.mp hlit, ok_bind,
      if_neg (by omega), if_neg (by omega), encodeLiteral_char]
    rfl
  · rw [if_neg hone] at hlit hle ⊢
    change 12 ≤ left at hle
    obtain ⟨hfirst, hc0, hc1, hsecond⟩ := literals_two.mp hlit
    have hpair : 0x10000 + ((0xD800 + (ch.toNat - 0x10000) / 1024) % 1024 * 1024 +
        (0xDC00 + (ch.toNat - 0x10000) % 1024) % 1024) = ch.toNat := by
      omega
    rw [utf16LiteralToUtf8, if_neg (by omega), hfirst, ok_bind, if_neg (by omega),
      if_pos (by omega), if_neg (by omega), hc0, ok_bind, hc1, ok_bind, if_neg (by decide),
      hsecond, ok_bind, if_neg (by omega), pair_eq, hpair, encodeLiteral_char]
    rfl

/-- A literal is read exactly when its units are the UTF-16 code of a character, NUL included,
and then the UTF-8 code of this character is written. -/
theorem utf16LiteralToUtf8_iff :
    utf16LiteralToUtf8 input left = .ok (some (n, out)) ↔
      ∃ ch : Char, Literals input (utf16Units ch) ∧ n = 6 * (utf16Units ch).length ∧ n ≤ left ∧
        out = String.utf8EncodeChar ch := by
  constructor
  · exact literals_of_utf16LiteralToUtf8
  · rintro ⟨ch, hlit, rfl, hle, rfl⟩
    exact utf16LiteralToUtf8_of_literals left hlit hle

/-- A literal whose bytes are no digits is read as the NUL that `\u0000` gives. -/
example : utf16LiteralToUtf8 (bytes "\\uZZZZ") 6 = .ok (some (6, [0])) ∧
    utf16LiteralToUtf8 (bytes "\\u0000") 6 = .ok (some (6, [0])) := by decide +kernel

/-- A literal is at least twice as long as the bytes that it stands for. -/
theorem length_utf8EncodeChar_le (ch : Char) :
    (String.utf8EncodeChar ch).length ≤ 3 * (utf16Units ch).length := by
  have hval : ch.val.toNat = ch.toNat := rfl
  rw [utf16Units, String.utf8EncodeChar, hval]
  by_cases hone : ch.toNat < 0x10000
  · rw [if_pos hone, if_pos (Nat.le_of_lt_succ hone)]
    split
    · simp
    · split <;> simp
  · rw [if_neg hone, if_neg (fun h => hone (Nat.lt_succ_of_le h))]
    split
    · simp
    · split <;> simp

theorem length_of_utf16LiteralToUtf8
    (h : utf16LiteralToUtf8 input left = .ok (some (n, out))) :
    6 ≤ n ∧ n ≤ left ∧ 2 * out.length ≤ n := by
  obtain ⟨ch, -, rfl, hle, rfl⟩ := literals_of_utf16LiteralToUtf8 h
  have hlen := length_utf8EncodeChar_le ch
  have hpos := utf16Units_length_pos ch
  omega

end

/-- Nothing is read behind `input_end`. -/
theorem exists_utf16LiteralToUtf8 (input : Bytes) (left : Nat) (hle : left ≤ input.length) :
    ∃ r, utf16LiteralToUtf8 input left = .ok r := by
  rw [utf16LiteralToUtf8]
  split
  · exact ⟨none, rfl⟩
  · obtain ⟨first, hfirst⟩ := exists_parseHex4 (input.drop 2)
      (by rw [List.length_drop]; omega)
    rw [hfirst, ok_bind]
    split
    · exact ⟨none, rfl⟩
    · split
      · split
        · exact ⟨none, rfl⟩
        · obtain ⟨second, hsecond⟩ := exists_parseHex4 (input.drop 8)
            (by rw [List.length_drop]; omega)
          rw [byteAt, byteAt, List.getElem?_eq_getElem (by omega),
            List.getElem?_eq_getElem (by omega)]
          dsimp only [pure_eq_ok, ok_bind]
          rw [hsecond]
          split
          · exact ⟨none, rfl⟩
          · dsimp only [ok_bind]
            split
            · exact ⟨none, rfl⟩
            · exact ⟨_, rfl⟩
      · exact ⟨_, rfl⟩

end Cjson
end LinuxPrograming
