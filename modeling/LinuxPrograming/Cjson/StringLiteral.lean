import LinuxPrograming.Cjson.Item
import LinuxPrograming.Cjson.Literal

/-!
# String literals

`parse_string` of cJSON.  It looks for the closing quote, asks for a block, and writes the string
into it.  A store behind the end of the block is a fault.
-/

namespace LinuxPrograming
namespace Cjson

open Lib Gateway

/-! ## The buffer -/

/-- What changes while a text is parsed: the offset, how often memory was asked for, and how many
blocks are held. -/
structure ParseBuffer where
  offset : Nat
  asked : Nat
  live : Int

/-- What a parsing function returns. -/
inductive Parsed (α : Type) where
  | fail (buffer : ParseBuffer)
  | ok (a : α) (buffer : ParseBuffer)

namespace ParseBuffer

/-- `hooks.allocate`, which succeeds for the requests that `grants` names. -/
def allocate (grants : Nat → Bool) (b : ParseBuffer) : Bool × ParseBuffer :=
  if grants b.asked then (true, { b with asked := b.asked + 1, live := b.live + 1 })
  else (false, { b with asked := b.asked + 1 })

def advance (b : ParseBuffer) (n : Nat) : ParseBuffer := { b with offset := b.offset + n }

/-- Give `n` blocks back. -/
def release (b : ParseBuffer) (n : Nat) : ParseBuffer := { b with live := b.live - n }

end ParseBuffer

/-! ## The closing quote -/

/-- The first loop of `parse_string`, on the text behind the opening quote: how many bytes stand
in front of the closing quote, and how many escape sequences were skipped. -/
def findQuote : Bytes → Option (Nat × Nat)
  | [] => none
  | c :: t =>
    if c = 34 then some (0, 0)
    else if c = 92 then
      match t with
      | [] => none
      | _ :: u => (findQuote u).map fun p => (p.1 + 2, p.2 + 1)
    else (findQuote t).map fun p => (p.1 + 1, p.2)

/-! ## The contents -/

/-- The escape sequences of two characters. -/
def shortEscape (e : UInt8) : Option UInt8 :=
  if e = 98 then some 8
  else if e = 102 then some 12
  else if e = 110 then some 10
  else if e = 114 then some 13
  else if e = 116 then some 9
  else if e = 34 ∨ e = 92 ∨ e = 47 then some e
  else none

/-- Store `bs` behind `out` in a block of `cap` bytes. -/
def append (cap : Nat) (out bs : Bytes) : Checked Bytes :=
  if out.length + bs.length ≤ cap then pure (out ++ bs) else throw .overflow

/-- The second loop of `parse_string`, with `left` bytes up to the closing quote.  It returns
what was written in front of the NUL, or how many bytes were left when it failed.  Every round
passes one byte at least, so that there are at most `fuel` rounds. -/
def unescape (cap : Nat) : Nat → Nat → Bytes → Bytes → Checked (Except Nat Bytes)
  | _, 0, _, out => do
    let _ ← append cap out [0]
    pure (.ok out)
  | 0, _ + 1, _, _ => throw .index
  | fuel + 1, left + 1, input, out => do
    let c ← byteAt input 0
    if c ≠ 92 then
      let out ← append cap out [c]
      unescape cap fuel left (input.drop 1) out
    else
      let e ← byteAt input 1
      match shortEscape e with
      | some b =>
        let out ← append cap out [b]
        unescape cap fuel (left + 1 - 2) (input.drop 2) out
      | none =>
        if e = 117 then
          let literal ← utf16LiteralToUtf8 input (left + 1)
          match literal with
          | none => pure (.error (left + 1))
          | some (n, bs) =>
            let out ← append cap out bs
            unescape cap fuel (left + 1 - n) (input.drop n) out
        else pure (.error (left + 1))

/-- `parse_string`. -/
def parseString (grants : Nat → Bool) (content : Bytes) (item : Item) (b : ParseBuffer) :
    Checked (Parsed Item) := do
  let quote ← byteAt content b.offset
  if quote ≠ 34 then pure (.fail (b.advance 1))
  else
    let input := content.drop (b.offset + 1)
    match findQuote input with
    | none => pure (.fail (b.advance 1))
    | some (n, skipped) =>
      match b.allocate grants with
      | (false, b) => pure (.fail (b.advance 1))
      | (true, b) =>
        let allocationLength := n + 1 - skipped
        let out ← unescape (allocationLength + 1) n n input []
        match out with
        | .error left => pure (.fail ((b.release 1).advance (1 + n - left)))
        | .ok out =>
          pure (.ok { item with type := cJSONString, valuestring := some (cStr out) }
            (b.advance (1 + n + 1)))

/-! ## The block is large enough -/

/-- Where the first loop met escape sequences.  The second loop may meet others, since a
`\\u` makes it pass over the bytes behind. -/
def Sparse (mask : List Bool) : Prop :=
  ∀ i, mask[i]? = some true → mask[i + 1]? ≠ some true

theorem Sparse.drop {mask : List Bool} (h : Sparse mask) (n : Nat) : Sparse (mask.drop n) := by
  intro i hi
  rw [List.getElem?_drop] at hi ⊢
  exact h (n + i) hi

theorem Sparse.take {mask : List Bool} (h : Sparse mask) (n : Nat) : Sparse (mask.take n) := by
  intro i hi hnext
  rw [List.getElem?_take] at hi hnext
  split at hi
  · split at hnext
    · exact h i hi hnext
    · cases hnext
  · cases hi

theorem Sparse.count_le : {mask : List Bool} → Sparse mask →
    2 * mask.count true ≤ mask.length + 1
  | [], _ => Nat.zero_le _
  | false :: mask, h => by
    have hrest := Sparse.count_le (h.drop 1)
    rw [List.count_cons_of_ne (by decide), List.length_cons]
    change 2 * mask.count true ≤ mask.length + 1 at hrest
    omega
  | [true], _ => Nat.le_refl 2
  | true :: true :: _, h => absurd rfl (h 0 rfl)
  | true :: false :: mask, h => by
    have hrest := Sparse.count_le (h.drop 2)
    rw [List.count_cons_self, List.count_cons_of_ne (by decide), List.length_cons,
      List.length_cons]
    change 2 * mask.count true ≤ mask.length + 1 at hrest
    omega

theorem findQuote_mask {t : Bytes} {n k : Nat} (h : findQuote t = some (n, k)) :
    t[n]? = some 34 ∧ ∃ mask : List Bool, mask.length = n ∧ mask.count true = k ∧ Sparse mask ∧
      ∀ i : Nat, mask[i]? = some true → t[i]? = some 92 := by
  fun_induction findQuote t generalizing n k with
  | case1 => cases h
  | case2 t =>
    obtain ⟨rfl, rfl⟩ := Prod.mk.inj (Option.some.inj h)
    refine ⟨rfl, [], rfl, rfl, ?_, ?_⟩
    · intro i hi
      cases hi
    · intro i hi
      cases hi
  | case3 => cases h
  | case4 e u _ ih =>
    obtain ⟨⟨n', k'⟩, hrest, hpair⟩ := Option.map_eq_some_iff.mp h
    obtain ⟨rfl, rfl⟩ := Prod.mk.inj hpair
    obtain ⟨hquote, mask, hlen, hcount, hsparse, hmask⟩ := ih hrest
    refine ⟨hquote, true :: false :: mask, ?_, ?_, ?_, ?_⟩
    · rw [List.length_cons, List.length_cons, hlen]
    · rw [List.count_cons_self, List.count_cons_of_ne (by decide), hcount]
    · intro i hi
      match i with
      | 0 => exact fun h => by cases h
      | 1 => cases hi
      | i + 2 => exact hsparse i hi
    · intro i hi
      match i with
      | 0 => rfl
      | 1 => cases hi
      | i + 2 => exact hmask i hi
  | case5 c t _ _ ih =>
    obtain ⟨⟨n', k'⟩, hrest, hpair⟩ := Option.map_eq_some_iff.mp h
    obtain ⟨rfl, rfl⟩ := Prod.mk.inj hpair
    obtain ⟨hquote, mask, hlen, hcount, hsparse, hmask⟩ := ih hrest
    refine ⟨hquote, false :: mask, ?_, ?_, ?_, ?_⟩
    · rw [List.length_cons, hlen]
    · rw [List.count_cons_of_ne (by decide), hcount]
    · intro i hi
      match i with
      | 0 => cases hi
      | i + 1 => exact hsparse i hi
    · intro i hi
      match i with
      | 0 => cases hi
      | i + 1 => exact hmask i hi

/-- There is room for what the bytes under `mask` may stand for, and for the NUL.  A sequence
that takes the closing quote with it is the last. -/
def Room (cap : Nat) (mask : List Bool) (out : Bytes) : Prop :=
  out.length + mask.length + 2 ≤ mask.count true + cap ∨ mask = [] ∧ out.length + 1 ≤ cap

theorem Room.append {cap a : Nat} {mask : List Bool} {out bs : Bytes} (h : Room cap mask out)
    (hne : mask ≠ []) (ha : a ≤ mask.length + 1)
    (hbs : bs.length + (mask.take a).count true ≤ a) :
    append cap out bs = .ok (out ++ bs) ∧ Room cap (mask.drop a) (out ++ bs) := by
  have hroom := h.resolve_right (fun hnil => hne hnil.1)
  have hsplit : mask.count true = (mask.take a).count true + (mask.drop a).count true := by
    rw [← List.count_append, List.take_append_drop]
  have hdrop : (mask.drop a).length = mask.length - a := List.length_drop
  have hle : (mask.drop a).count true ≤ (mask.drop a).length := List.count_le_length
  constructor
  · exact if_pos (by omega)
  · rw [Room, List.length_append, hdrop]
    by_cases hlast : mask.length < a
    · right
      exact ⟨List.drop_of_length_le (by omega), by omega⟩
    · left
      omega

theorem exists_byteAt (input : Bytes) (i : Nat) (h : i < input.length) :
    ∃ c, byteAt input i = .ok c ∧ input[i]? = some c := by
  refine ⟨input[i], ?_, List.getElem?_eq_getElem h⟩
  rw [byteAt, List.getElem?_eq_getElem h]
  rfl

theorem unescape_zero {cap : Nat} {out : Bytes} (h : out.length + 1 ≤ cap) (fuel : Nat)
    (input : Bytes) : unescape cap fuel 0 input out = .ok (.ok out) := by
  have happend : append cap out [0] = .ok (out ++ [0]) := if_pos h
  rw [unescape, happend]
  rfl

theorem Room.unescape_zero {cap : Nat} {out : Bytes} {mask : List Bool} (h : Room cap mask out)
    (hlen : mask.length = 0) (fuel : Nat) (input : Bytes) :
    ∃ r, unescape cap fuel 0 input out = .ok r ∧ ∀ l, r = .error l → l ≤ 0 := by
  obtain rfl : mask = [] := List.length_eq_zero_iff.mp hlen
  have hle : out.length + 1 ≤ cap := by
    rcases h with h | h
    · simp only [List.length_nil, List.count_nil] at h
      omega
    · exact h.2
  refine ⟨_, Cjson.unescape_zero hle fuel input, fun l h => ?_⟩
  cases h

/-- Nothing is read outside the text or stored outside the block. -/
theorem exists_unescape {cap : Nat} (fuel left : Nat) (input : Bytes) {out : Bytes}
    {mask : List Bool}
    (hfuel : left ≤ fuel) (hlen : mask.length = left) (hsparse : Sparse mask)
    (hmask : ∀ i : Nat, mask[i]? = some true → input[i]? = some 92)
    (hleft : 0 < left → left < input.length) (hroom : Room cap mask out) :
    ∃ r, unescape cap fuel left input out = .ok r ∧ ∀ l, r = .error l → l ≤ left := by
  induction fuel generalizing left input out mask with
  | zero =>
    obtain rfl : left = 0 := Nat.le_zero.mp hfuel
    exact hroom.unescape_zero hlen 0 input
  | succ fuel ih =>
    cases left with
    | zero => exact hroom.unescape_zero hlen (fuel + 1) input
    | succ left =>
      have hin := hleft (Nat.succ_pos left)
      have hne : mask ≠ [] := by
        intro hnil
        rw [hnil] at hlen
        cases hlen
      -- The rest of the loop, behind a sequence of `a` bytes that stands for `bs`.
      have hnext : ∀ {a : Nat} {bs : Bytes}, 0 < a → a ≤ left + 2 →
          bs.length + (mask.take a).count true ≤ a →
          ∃ r, (append cap out bs >>= fun out =>
            unescape cap fuel (left + 1 - a) (input.drop a) out) = .ok r ∧
            ∀ l, r = .error l → l ≤ left + 1 := by
        intro a bs hpos ha hbs
        obtain ⟨happend, hroom'⟩ := hroom.append hne (by omega) hbs
        obtain ⟨r, hr, hl⟩ := ih (left + 1 - a) (input.drop a) (by omega)
          (by rw [List.length_drop, hlen]) (hsparse.drop a)
          (fun i hi => by
            rw [List.getElem?_drop] at hi ⊢
            exact hmask (a + i) hi)
          (by rw [List.length_drop]; omega) hroom'
        refine ⟨r, ?_, fun l h => ?_⟩
        · rw [happend, ok_bind, hr]
        · have := hl l h
          omega
      obtain ⟨c, hc, hget⟩ := exists_byteAt input 0 (by omega)
      obtain ⟨e, he, -⟩ := exists_byteAt input 1 (by omega)
      rw [unescape, hc, ok_bind]
      by_cases h92 : c = 92
      · rw [if_neg (not_not_intro h92), he, ok_bind]
        cases hshort : shortEscape e with
        | some b =>
          have hcount := (hsparse.take 2).count_le
          rw [List.length_take] at hcount
          refine hnext (by omega) (by omega) ?_
          rw [List.length_singleton]
          omega
        | none =>
          by_cases hu : e = 117
          · obtain ⟨literal, hliteral⟩ := exists_utf16LiteralToUtf8 input (left + 1)
              (by omega)
            dsimp only
            rw [if_pos hu, hliteral, ok_bind]
            match literal, hliteral with
            | none, _ =>
              refine ⟨_, rfl, fun l h => ?_⟩
              exact Nat.le_of_eq (Except.error.inj h).symm
            | some (n, bs), hliteral =>
              obtain ⟨hn, hnleft, hbs⟩ := length_of_utf16LiteralToUtf8 hliteral
              have hcount := (hsparse.take n).count_le
              rw [List.length_take] at hcount
              exact hnext (by omega) (by omega) (by omega)
          · dsimp only
            rw [if_neg hu]
            refine ⟨_, rfl, fun l h => ?_⟩
            exact Nat.le_of_eq (Except.error.inj h).symm
      · rw [if_pos h92]
        refine hnext (a := 1) (by omega) (by omega) ?_
        have hcount : (mask.take 1).count true = 0 := by
          match mask, hmask with
          | [], _ => rfl
          | false :: _, _ => rfl
          | true :: _, hmask =>
            have h := hmask 0 rfl
            rw [hget] at h
            exact absurd (Option.some.inj h) h92
        rw [hcount]
        exact Nat.le_refl 1

/-- `parse_string` stays within the text and within the block that it asked for.  Where it fails
it holds no more blocks than before. -/
theorem exists_parseString (grants : Nat → Bool) (content : Bytes) (item : Item) {b : ParseBuffer}
    (hoffset : b.offset < content.length) :
    ∃ r, parseString grants content item b = .ok r ∧
      match r with
      | .fail b' => b'.live = b.live ∧ b'.offset ≤ content.length
      | .ok item' b' => b'.live = b.live + 1 ∧ b.offset < b'.offset ∧
          b'.offset ≤ content.length ∧ content[b'.offset - 1]? = some 34 ∧ ∃ s, 0 ∉ s ∧
          item' = { item with type := cJSONString, valuestring := some s } := by
  obtain ⟨quote, hquote, -⟩ := exists_byteAt content b.offset hoffset
  rw [parseString, hquote, ok_bind]
  by_cases h34 : quote = 34
  · rw [if_neg (not_not_intro h34)]
    dsimp only
    cases hfind : findQuote (content.drop (b.offset + 1)) with
    | none => exact ⟨_, rfl, rfl, hoffset⟩
    | some p =>
      obtain ⟨n, skipped⟩ := p
      obtain ⟨hquote, mask, hlen, hcount, hsparse, hmask⟩ := findQuote_mask hfind
      have hle : mask.count true ≤ mask.length := List.count_le_length
      obtain ⟨hin, -⟩ := List.getElem?_eq_some_iff.mp hquote
      rw [List.getElem?_drop] at hquote
      have hlen' : (content.drop (b.offset + 1)).length = content.length - (b.offset + 1) :=
        List.length_drop
      obtain ⟨out, hout, hleft⟩ := @exists_unescape (n + 1 - skipped + 1) n n _ [] mask
        (Nat.le_refl n) hlen hsparse hmask (fun _ => hin) (Or.inl (by rw [List.length_nil]; omega))
      rw [ParseBuffer.allocate]
      by_cases hgrant : grants b.asked = true
      · rw [if_pos hgrant]
        dsimp only
        rw [hout, ok_bind]
        cases out with
        | error left =>
          have hleft := hleft left rfl
          refine ⟨_, rfl, ?_, ?_⟩
          · show b.live + 1 - (1 : Nat) = b.live
            omega
          · show b.offset + (1 + n - left) ≤ content.length
            omega
        | ok out =>
          refine ⟨_, rfl, rfl, ?_, ?_, ?_, cStr out, zero_not_mem_cStr out, rfl⟩
          · show b.offset < b.offset + (1 + n + 1)
            omega
          · show b.offset + (1 + n + 1) ≤ content.length
            omega
          · show content[b.offset + (1 + n + 1) - 1]? = some 34
            rw [← hquote]
            congr 1
            omega
      · rw [if_neg hgrant]
        exact ⟨_, rfl, rfl, hoffset⟩
  · rw [if_pos h34]
    exact ⟨_, rfl, rfl, hoffset⟩

/-! ## What literals stand for -/

/-- Literals that give the units `us`. -/
inductive UnitText : List Nat → Bytes → Prop where
  | nil : UnitText [] []
  | cons {u : Nat} {us : List Nat} {ds t : Bytes} (hlen : ds.length = 4)
    (hdigits : ∀ d ∈ ds, hexDigit d ≠ none) (hval : parseHex4 ds = .ok u)
    (hrest : UnitText us t) : UnitText (u :: us) (92 :: 117 :: (ds ++ t))

/-- The text between the quotes of a literal, and the bytes that it stands for. -/
inductive StringText : Bytes → Bytes → Prop where
  | nil : StringText [] []
  | byte {c : UInt8} {t bs : Bytes} (hquote : c ≠ 34) (hslash : c ≠ 92)
    (hrest : StringText t bs) : StringText (c :: t) (c :: bs)
  | escape {e b : UInt8} {t bs : Bytes} (he : shortEscape e = some b)
    (hrest : StringText t bs) : StringText (92 :: e :: t) (b :: bs)
  | literal {ch : Char} {u t bs : Bytes} (hu : UnitText (utf16Units ch) u)
    (hrest : StringText t bs) : StringText (u ++ t) (String.utf8EncodeChar ch ++ bs)

theorem hexLoop_append {k h : Nat} {ds : Bytes} (hlen : ds.length = k) (t : Bytes) :
    hexLoop k h (ds ++ t) = hexLoop k h ds := by
  induction ds generalizing k h with
  | nil =>
    subst hlen
    rfl
  | cons d ds ih =>
    subst hlen
    rw [List.cons_append, List.length_cons, hexLoop, hexLoop]
    cases hexDigit d with
    | some v => exact ih rfl
    | none => rfl

theorem UnitText.length {us : List Nat} {u : Bytes} (h : UnitText us u) :
    u.length = 6 * us.length := by
  induction h with
  | nil => rfl
  | cons hlen _ _ _ ih =>
    rw [List.length_cons, List.length_cons, List.length_append, hlen, ih, List.length_cons]
    omega

theorem byteAt_append {a : Bytes} {k : Nat} (ha : a.length = k) (t : Bytes) (n : Nat) :
    byteAt (a ++ t) (k + n) = byteAt t n := by
  rw [byteAt, byteAt, List.getElem?_append_right (by omega), ha, Nat.add_sub_cancel_left]

theorem UnitText.get {us : List Nat} {u : Bytes} (h : UnitText us u) (t : Bytes) {i v : Nat}
    (hi : us[i]? = some v) : parseHex4 ((u ++ t).drop (6 * i + 2)) = .ok v ∧
      byteAt (u ++ t) (6 * i) = .ok 92 ∧ byteAt (u ++ t) (6 * i + 1) = .ok 117 := by
  induction h generalizing i with
  | nil => cases hi
  | @cons w ws ds rest hlen hdigits hval hrest ih =>
    cases i with
    | zero =>
      obtain rfl := Option.some.inj hi
      refine ⟨?_, rfl, rfl⟩
      show parseHex4 (ds ++ rest ++ t) = .ok w
      rw [List.append_assoc, parseHex4, hexLoop_append hlen]
      exact hval
    | succ i =>
      obtain ⟨hhex, h92, h117⟩ := ih hi
      have hsplit : 92 :: 117 :: (ds ++ rest) ++ t = (92 :: 117 :: ds) ++ (rest ++ t) := by
        simp only [List.cons_append, List.append_assoc]
      have hsix : (92 :: 117 :: ds).length = 6 := by
        rw [List.length_cons, List.length_cons, hlen]
      have hi0 : 6 * (i + 1) = 6 + 6 * i := by omega
      rw [hsplit, hi0, Nat.add_assoc, Nat.add_assoc, byteAt_append hsix, byteAt_append hsix,
        ← List.drop_drop, List.drop_left' hsix]
      exact ⟨hhex, h92, h117⟩

theorem UnitText.literals {us : List Nat} {u : Bytes} (h : UnitText us u) (t : Bytes) :
    Literals (u ++ t) us := by
  intro i v hi
  obtain ⟨hhex, h92, h117⟩ := h.get t hi
  exact ⟨parseHex4_iff.mp hhex, fun _ => ⟨byteAt_eq_ok.mp h92, byteAt_eq_ok.mp h117⟩⟩

theorem findQuote_quote (t : Bytes) : findQuote (34 :: t) = some (0, 0) := by
  rw [findQuote.eq_def]
  rfl

theorem findQuote_byte {c : UInt8} (hquote : c ≠ 34) (hslash : c ≠ 92) (t : Bytes) :
    findQuote (c :: t) = (findQuote t).map fun p => (p.1 + 1, p.2) := by
  rw [findQuote.eq_def]
  dsimp only
  rw [if_neg hquote, if_neg hslash]

theorem findQuote_escape (e : UInt8) (t : Bytes) :
    findQuote (92 :: e :: t) = (findQuote t).map fun p => (p.1 + 2, p.2 + 1) := by
  rw [findQuote.eq_def]
  rfl

theorem findQuote_bytes {a : Bytes} (ha : ∀ c ∈ a, c ≠ 34 ∧ c ≠ 92) (t : Bytes) :
    findQuote (a ++ t) = (findQuote t).map fun p => (p.1 + a.length, p.2) := by
  induction a with
  | nil =>
    exact Option.map_id'.symm
  | cons c a ih =>
    obtain ⟨hquote, hslash⟩ := ha c List.mem_cons_self
    rw [List.cons_append, findQuote_byte hquote hslash,
      ih fun d hd => ha d (List.mem_cons_of_mem c hd), Option.map_map]
    rfl

theorem ne_of_hexDigit {d : UInt8} (h : hexDigit d ≠ none) : d ≠ 34 ∧ d ≠ 92 := by
  constructor
  · rintro rfl
    exact h rfl
  · rintro rfl
    exact h rfl

theorem UnitText.findQuote {us : List Nat} {u : Bytes} (h : UnitText us u) (t : Bytes) :
    findQuote (u ++ t) =
      (findQuote t).map fun p => (p.1 + u.length, p.2 + us.length) := by
  induction h with
  | nil => exact Option.map_id'.symm
  | @cons w ws ds rest hlen hdigits hval hrest ih =>
    have hds := findQuote_bytes (fun d hd => ne_of_hexDigit (hdigits d hd)) (rest ++ t)
    have hsplit : 92 :: 117 :: (ds ++ rest) ++ t = 92 :: 117 :: (ds ++ (rest ++ t)) := by
      rw [← List.append_assoc]
      rfl
    rw [hsplit, findQuote_escape, hds, ih, Option.map_map, Option.map_map]
    congr 1
    funext p
    simp only [Function.comp_apply, List.length_cons, List.length_append]
    congr 1
    omega

/-- The first loop comes to the quote behind the text, and has room for what it stands for. -/
theorem StringText.findQuote {t bs : Bytes} (h : StringText t bs) (r : Bytes) :
    ∃ k, findQuote (t ++ 34 :: r) = some (t.length, k) ∧ bs.length + k ≤ t.length := by
  induction h with
  | nil => exact ⟨0, findQuote_quote r, Nat.le_refl 0⟩
  | byte hquote hslash _ ih =>
    obtain ⟨k, hk, hle⟩ := ih
    refine ⟨k, ?_, ?_⟩
    · rw [List.cons_append, findQuote_byte hquote hslash, hk]
      rfl
    · rw [List.length_cons, List.length_cons]
      omega
  | escape _ _ ih =>
    obtain ⟨k, hk, hle⟩ := ih
    refine ⟨k + 1, ?_, ?_⟩
    · rw [List.cons_append, List.cons_append, findQuote_escape, hk]
      rfl
    · simp only [List.length_cons]
      omega
  | @literal ch u t bs hu _ ih =>
    obtain ⟨k, hk, hle⟩ := ih
    have hlen := length_utf8EncodeChar_le ch
    have hulen := hu.length
    refine ⟨k + (utf16Units ch).length, ?_, ?_⟩
    · rw [List.append_assoc, hu.findQuote, hk, List.length_append, Nat.add_comm u.length]
      rfl
    · rw [List.length_append, List.length_append]
      omega

theorem StringText.unescape {t bs : Bytes} (h : StringText t bs) {cap fuel : Nat} (out : Bytes)
    (hfuel : t.length ≤ fuel) (hcap : out.length + bs.length + 1 ≤ cap) (r : Bytes) :
    unescape cap fuel t.length (t ++ r) out = .ok (.ok (out ++ bs)) := by
  induction h generalizing fuel out with
  | nil =>
    rw [List.append_nil]
    exact unescape_zero (by rw [List.length_nil] at hcap; omega) fuel _
  | @byte c t bs hquote hslash _ ih =>
    cases fuel with
    | zero => exact absurd hfuel (Nat.not_succ_le_zero _)
    | succ fuel =>
      rw [List.length_cons] at hfuel hcap
      have happend : append cap out [c] = .ok (out ++ [c]) :=
        if_pos (by rw [List.length_singleton]; omega)
      have hrest := ih (out ++ [c]) (Nat.le_of_succ_le_succ hfuel)
        (by rw [List.length_append, List.length_singleton]; omega)
      rw [List.length_cons, Cjson.unescape, List.cons_append]
      show (if c ≠ 92 then _ else _) = _
      rw [if_pos hslash, happend, ok_bind]
      show Cjson.unescape cap fuel t.length (t ++ r) (out ++ [c]) = _
      rw [hrest, List.append_assoc]
      rfl
  | @escape e b t bs he _ ih =>
    cases fuel with
    | zero => exact absurd hfuel (Nat.not_succ_le_zero _)
    | succ fuel =>
      rw [List.length_cons] at hfuel hcap
      rw [List.length_cons] at hfuel
      have happend : append cap out [b] = .ok (out ++ [b]) :=
        if_pos (by rw [List.length_singleton]; omega)
      have hrest := ih (out ++ [b]) (Nat.le_of_succ_le (Nat.le_of_succ_le_succ hfuel))
        (by rw [List.length_append, List.length_singleton]; omega)
      rw [List.length_cons, Cjson.unescape, List.cons_append, List.cons_append]
      show (match shortEscape e with
        | some b => _
        | none => _) = _
      rw [he]
      dsimp only
      rw [happend, ok_bind]
      show Cjson.unescape cap fuel t.length (t ++ r) (out ++ [b]) = _
      rw [hrest, List.append_assoc]
      rfl
  | @literal ch u t bs hu _ ih =>
    have hlen := hu.length
    have hpos := utf16Units_length_pos ch
    have hout := length_utf8EncodeChar_le ch
    obtain ⟨unit, hunit⟩ : ∃ unit, (utf16Units ch)[0]? = some unit :=
      ⟨_, List.getElem?_eq_getElem hpos⟩
    obtain ⟨-, h92, h117⟩ := hu.get (t ++ r) hunit
    have hliteral := utf16LiteralToUtf8_of_literals (u ++ t).length
      (hu.literals (t ++ r)) (by rw [List.length_append]; omega)
    rw [List.length_append] at hfuel hcap
    obtain ⟨left, hleft⟩ : ∃ left, (u ++ t).length = left + 1 :=
      ⟨u.length + t.length - 1, by rw [List.length_append]; omega⟩
    rw [List.append_assoc]
    cases fuel with
    | zero => omega
    | succ fuel =>
      have happend : append cap out (String.utf8EncodeChar ch) =
          .ok (out ++ String.utf8EncodeChar ch) := if_pos (by omega)
      have hrest := @ih fuel (out ++ String.utf8EncodeChar ch) (by omega)
        (by rw [List.length_append]; omega)
      have hskip : left + 1 - 6 * (utf16Units ch).length = t.length := by
        rw [← hleft, List.length_append, hlen]
        omega
      rw [hleft] at hliteral ⊢
      rw [Cjson.unescape, h92, ok_bind, if_neg (by decide), h117, ok_bind]
      show (if (117 : UInt8) = 117 then _ else _) = _
      rw [if_pos rfl, hliteral, ok_bind]
      dsimp only
      rw [happend, ok_bind, hskip, List.drop_left' hlen, hrest, List.append_assoc]

/-- A string literal is read as what it stands for. -/
theorem StringText.parseString {t bs : Bytes} (h : StringText t bs) {grants : Nat → Bool}
    (item : Item) {b : ParseBuffer} (hgrant : grants b.asked = true) {content r : Bytes}
    (hcontent : content.drop b.offset = 34 :: (t ++ 34 :: r)) :
    parseString grants content item b =
      .ok (.ok { item with type := cJSONString, valuestring := some (cStr bs) }
        ⟨b.offset + (t.length + 2), b.asked + 1, b.live + 1⟩) := by
  obtain ⟨k, hfind, hle⟩ := h.findQuote r
  have hquote : byteAt content b.offset = .ok 34 := by
    have h0 := congrArg (fun l => l[0]?) hcontent
    rw [List.getElem?_drop, Nat.add_zero] at h0
    rw [byteAt, h0]
    rfl
  have hinput : content.drop (b.offset + 1) = t ++ 34 :: r := by
    rw [← List.drop_drop, hcontent]
    rfl
  have hout := @StringText.unescape _ _ h (t.length + 1 - k + 1) _ [] (Nat.le_refl _)
    (by rw [List.length_nil]; omega) (34 :: r)
  rw [Cjson.parseString, hquote, ok_bind, if_neg (by decide)]
  dsimp only
  rw [hinput, hfind, ParseBuffer.allocate, if_pos hgrant]
  dsimp only
  rw [hout]
  dsimp only [ok_bind, pure_eq_ok, ParseBuffer.advance, List.nil_append]
  congr 3
  omega

end Cjson
end LinuxPrograming
