import LinuxPrograming.Cjson.Parse
import LinuxPrograming.Cjson.Print

/-!
# Printing and parsing

What `cJSON_Print` and `cJSON_PrintUnformatted` print, `cJSON_Parse` reads back, except that a
number which is not finite comes back as `null` (`Value.printed`).
-/

namespace LinuxPrograming
namespace Cjson

open Lib Gateway

/-! ## Strings -/

/-- Control characters are printed as `\u` literals. -/
theorem unitText_control {c : UInt8} (hc : c < 32) :
    UnitText (utf16Units (Char.ofNat c.toNat))
        [92, 117, 48, 48, hexChar (c.toNat / 16), hexChar (c.toNat % 16)] ∧
      String.utf8EncodeChar (Char.ofNat c.toNat) = [c] := by
  have hhex : ∀ n < 32, parseHex4 [48, 48, hexChar (n / 16), hexChar (n % 16)] = .ok n := by
    decide
  have hdigit : ∀ n < 16, hexDigit (hexChar n) ≠ none := by decide
  have hlt : c.toNat < 32 := hc
  have hch : (Char.ofNat c.toNat).toNat = c.toNat :=
    toNat_ofNat_of_valid (by unfold Nat.isValidChar; omega)
  constructor
  · rw [utf16Units, hch, if_pos (by omega)]
    have hdigits : ∀ d ∈ [48, 48, hexChar (c.toNat / 16), hexChar (c.toNat % 16)],
        hexDigit d ≠ none := by
      intro d hd
      simp only [List.mem_cons, List.not_mem_nil, or_false] at hd
      rcases hd with rfl | rfl | rfl | rfl
      · decide
      · decide
      · exact hdigit _ (by omega)
      · exact hdigit _ (by omega)
    exact UnitText.cons rfl hdigits (hhex c.toNat hlt) UnitText.nil
  · have hval : (Char.ofNat c.toNat).val.toNat = c.toNat := hch
    rw [String.utf8EncodeChar, hval, if_pos (by omega), UInt8.ofNat_toNat]

/-- One character, as it is printed. -/
theorem stringText_escape {c : UInt8} {t bs : Bytes} (h : StringText t bs) :
    StringText (escapeText c ++ t) (c :: bs) := by
  rw [escapeText]
  by_cases hplain : 31 < c ∧ c ≠ 34 ∧ c ≠ 92
  · rw [if_pos hplain]
    exact StringText.byte hplain.2.1 hplain.2.2 h
  rw [if_neg hplain, escapeTail]
  by_cases h92 : c = 92
  · rw [if_pos h92, h92]
    exact StringText.escape rfl h
  rw [if_neg h92]
  by_cases h34 : c = 34
  · rw [if_pos h34, h34]
    exact StringText.escape rfl h
  rw [if_neg h34]
  by_cases h8 : c = 8
  · rw [if_pos h8, h8]
    exact StringText.escape rfl h
  rw [if_neg h8]
  by_cases h12 : c = 12
  · rw [if_pos h12, h12]
    exact StringText.escape rfl h
  rw [if_neg h12]
  by_cases h10 : c = 10
  · rw [if_pos h10, h10]
    exact StringText.escape rfl h
  rw [if_neg h10]
  by_cases h13 : c = 13
  · rw [if_pos h13, h13]
    exact StringText.escape rfl h
  rw [if_neg h13]
  by_cases h9 : c = 9
  · rw [if_pos h9, h9]
    exact StringText.escape rfl h
  rw [if_neg h9]
  have hcontrol : c < 32 := by
    have hle : ¬ 31 < c := fun hlt => hplain ⟨hlt, h34, h92⟩
    rw [UInt8.lt_iff_toNat_lt] at hle ⊢
    change ¬ 31 < c.toNat at hle
    show c.toNat < 32
    omega
  obtain ⟨hunit, hutf8⟩ := unitText_control hcontrol
  have hliteral := StringText.literal hunit h
  rw [hutf8] at hliteral
  exact hliteral

/-- A printed string stands for itself. -/
theorem stringText_escaped (s : Bytes) : StringText (s.flatMap escapeText) s := by
  induction s with
  | nil => exact StringText.nil
  | cons c s ih => exact stringText_escape ih

/-! ## What is read back -/

mutual

/-- The value that is read back.  There is no text for a number that is not finite. -/
def Value.printed : Value → Value
  | .null => .null
  | .bool b => .bool b
  | .number (.finite neg mag) => .number (.finite neg mag)
  | .number _ => .null
  | .string s => .string s
  | .array items => .array (Value.printedList items)
  | .object members => .object (Value.printedMembers members)

def Value.printedList : List Value → List Value
  | [] => []
  | v :: vs => v.printed :: Value.printedList vs

def Value.printedMembers : List (Bytes × Value) → List (Bytes × Value)
  | [] => []
  | (name, v) :: members => (name, v.printed) :: Value.printedMembers members

end

/-- What may follow a value: nothing that could belong to a number. -/
def NoNumeral (r : Bytes) : Prop := ∀ c u, r = c :: u → isNumeral c = false

/-- All requests for memory are met. -/
def always : Nat → Bool := fun _ => true

/-- `parse` reads the text `t` of a value as `item'`. -/
structure Reads (content : Bytes) (parse : Parser) (item : Item) (t : Bytes) (item' : Item) :
    Prop where
  head : ∃ c u, t = c :: u ∧ isBlank c = false ∧ c ∉ [93, 125, 0xEF]
  reads : ∀ (b : ParseBuffer) (r : Bytes), content.drop b.offset = t ++ r → NoNumeral r →
    ∃ b', parse item b = .ok (.ok item' b') ∧ b'.offset = b.offset + t.length

/-- `element` reads the text `t` of an element. -/
structure ReadsElement (content : Bytes) (closing : UInt8)
    (element : Item → ParseBuffer → Checked (Item × Parsed Unit)) (t : Bytes) (item : Item) :
    Prop where
  head : ∃ c u, t = c :: u ∧ isBlank c = false ∧ c ≠ closing
  reads : ∀ (b : ParseBuffer) (r : Bytes), content.drop b.offset = t ++ r → NoNumeral r →
    ∃ b', element Item.new b = .ok (item, .ok () b') ∧ b'.offset = b.offset + t.length

/-- The text of at least one element, from the first up to the closing bracket. -/
inductive ItemsText (content : Bytes) (closing : UInt8)
    (element : Item → ParseBuffer → Checked (Item × Parsed Unit)) : Bytes → List Item → Prop where
  | last {t f : Bytes} {item : Item} (hitem : ReadsElement content closing element t item)
    (hf : ∀ c ∈ f, isBlank c = true) :
    ItemsText content closing element (t ++ (f ++ [closing])) [item]
  | cons {t w rest : Bytes} {item : Item} {items : List Item}
    (hitem : ReadsElement content closing element t item) (hw : ∀ c ∈ w, isBlank c = true)
    (hrest : ItemsText content closing element rest items) :
    ItemsText content closing element (t ++ 44 :: (w ++ rest)) (item :: items)

section

variable {content : Bytes} {b : ParseBuffer}

theorem drop_advance {t r : Bytes} {i : Nat} (h : content.drop i = t ++ r) :
    content.drop (i + t.length) = r := by
  rw [← List.drop_drop, h, List.drop_left]

theorem getElem?_of_drop {c : UInt8} {u : Bytes} {i : Nat} (h : content.drop i = c :: u) :
    content[i]? = some c := by
  have h0 := congrArg (fun l => l[0]?) h
  rwa [List.getElem?_drop, Nat.add_zero] at h0

theorem lt_of_drop {c : UInt8} {u : Bytes} {i : Nat} (h : content.drop i = c :: u) :
    i < content.length := by
  by_contra hle
  rw [List.drop_eq_nil_of_le (Nat.le_of_not_lt hle)] at h
  cases h

theorem bufferSkipWhitespace_blanks {w u : Bytes} {c : UInt8}
    (h : content.drop b.offset = w ++ c :: u) (hw : ∀ d ∈ w, isBlank d = true)
    (hc : isBlank c = false) : bufferSkipWhitespace content b = b.advance w.length := by
  have hlt := lt_of_drop (drop_advance h)
  have htake : (content.drop b.offset).takeWhile isBlank = w := by
    rw [h, List.takeWhile_append_of_pos hw, List.takeWhile_cons_of_neg (by rw [hc]; decide),
      List.append_nil]
  rw [bufferSkipWhitespace, htake, if_neg (Nat.ne_of_lt hlt), ParseBuffer.advance]

theorem readsWord_self {word r : Bytes} (h : content.drop b.offset = word ++ r)
    (hlt : b.offset < content.length) : readsWord content b word = true := by
  have hlen := congrArg List.length h
  rw [List.length_drop, List.length_append] at hlen
  rw [readsWord, decide_eq_true_eq]
  constructor
  · omega
  · rw [h]
    exact List.prefix_append word r

theorem readsWord_other {c d : UInt8} {word u : Bytes} (h : content.drop b.offset = c :: u)
    (hc : c ≠ d) : readsWord content b (d :: word) = false := by
  rw [readsWord, decide_eq_false_iff_not, h]
  rintro ⟨-, hprefix⟩
  exact hc (List.cons_prefix_cons.mp hprefix).1.symm

/-- What is no word is told apart by its first byte. -/
theorem parseValueAt_head {grants : Nat → Bool} {value : Option Parser} {item : Item} {c : UInt8}
    {u : Bytes} (h : content.drop b.offset = c :: u) (hc : c ≠ 110 ∧ c ≠ 102 ∧ c ≠ 116) :
    parseValueAt grants content value item b =
      if c = 34 then parseString grants content item b
      else if c = 45 ∨ isDigit c then parseNumber content item b
      else if c = 91 then parseArray grants content value item b
      else if c = 123 then parseObject grants content value item b
      else pure (.fail b) := by
  have hnull : ¬ readsWord content b (bytes "null") = true := by
    rw [Bool.not_eq_true]
    exact readsWord_other h hc.1
  have hfalse : ¬ readsWord content b (bytes "false") = true := by
    rw [Bool.not_eq_true]
    exact readsWord_other h hc.2.1
  have htrue : ¬ readsWord content b (bytes "true") = true := by
    rw [Bool.not_eq_true]
    exact readsWord_other h hc.2.2
  rw [parseValueAt, if_neg hnull, if_neg hfalse, if_neg htrue, getElem?_of_drop h]

theorem isNumeral_of_isBlank {c : UInt8} (h : isBlank c = true) : isNumeral c = false := by
  have hall : ∀ n < 256, isBlank (UInt8.ofNat n) = true → isNumeral (UInt8.ofNat n) = false := by
    decide +kernel
  have hc := hall c.toNat c.toNat_lt
  rw [UInt8.ofNat_toNat] at hc
  exact hc h

theorem noNumeral_cons {c : UInt8} (hc : isNumeral c = false) (r : Bytes) :
    NoNumeral (c :: r) := by
  intro d u h
  rw [← (List.cons.inj h).1]
  exact hc

theorem noNumeral_blanks {w : Bytes} (hw : ∀ c ∈ w, isBlank c = true) {c : UInt8}
    (hc : isNumeral c = false) (r : Bytes) : NoNumeral (w ++ c :: r) := by
  cases w with
  | nil => exact noNumeral_cons hc r
  | cons d w => exact noNumeral_cons (isNumeral_of_isBlank (hw d List.mem_cons_self)) _

end

/-! ## Arrays and objects -/

section

variable {content : Bytes} {closing : UInt8}
  {element : Item → ParseBuffer → Checked (Item × Parsed Unit)}

theorem ItemsText.head {t : Bytes} {items : List Item}
    (h : ItemsText content closing element t items) :
    ∃ c u, t = c :: u ∧ isBlank c = false ∧ c ≠ closing := by
  cases h with
  | last hitem _ =>
    obtain ⟨c, u, rfl, hc⟩ := hitem.head
    exact ⟨c, _, rfl, hc⟩
  | cons hitem _ _ =>
    obtain ⟨c, u, rfl, hc⟩ := hitem.head
    exact ⟨c, _, rfl, hc⟩

theorem ItemsText.length_le {t : Bytes} {items : List Item}
    (h : ItemsText content closing element t items) : items.length ≤ t.length := by
  induction h with
  | last _ _ =>
    simp only [List.length_append, List.length_cons, List.length_nil]
    omega
  | cons _ _ _ ih =>
    simp only [List.length_append, List.length_cons]
    omega

/-- One round of the loop, up to the byte behind the element. -/
theorem ReadsElement.parseItems {t : Bytes} {item : Item}
    (h : ReadsElement content closing element t item) (fuel : Nat) (head : List Item)
    {w f r : Bytes} {d : UInt8} (hw : ∀ c ∈ w, isBlank c = true) (hf : ∀ c ∈ f, isBlank c = true)
    (hd : isNumeral d = false ∧ isBlank d = false) {b : ParseBuffer}
    (hdrop : content.drop (b.offset + 1) = w ++ (t ++ (f ++ d :: r))) :
    ∃ b', content.drop b'.offset = d :: r ∧
      b'.offset = b.offset + 1 + w.length + t.length + f.length ∧
      parseItems always content closing element (fuel + 1) head b =
        if d = 44 then parseItems always content closing element fuel (head ++ [item]) b'
        else if d = closing then pure (.ok (head ++ [item]) b')
        else pure (.fail (b'.release (Item.blocksList (head ++ [item])))) := by
  obtain ⟨c, u, ht, hc, -⟩ := h.head
  have hskip : bufferSkipWhitespace content ⟨b.offset + 1, b.asked + 1, b.live + 1⟩ =
      ⟨b.offset + 1 + w.length, b.asked + 1, b.live + 1⟩ :=
    bufferSkipWhitespace_blanks (u := u ++ (f ++ d :: r)) (by rw [ht] at hdrop; exact hdrop) hw hc
  have hrest := drop_advance hdrop
  obtain ⟨b', hb', hoffset⟩ := h.reads ⟨b.offset + 1 + w.length, b.asked + 1, b.live + 1⟩ _ hrest
    (noNumeral_blanks hf hd.1 r)
  have hbehind : content.drop b'.offset = f ++ d :: r := by
    rw [hoffset]
    exact drop_advance hrest
  have hskip' := bufferSkipWhitespace_blanks hbehind hf hd.2
  have hd' := getElem?_of_drop (drop_advance hbehind)
  refine ⟨b'.advance f.length, drop_advance hbehind, ?_, ?_⟩
  · show b'.offset + f.length = _
    rw [hoffset]
  · rw [Cjson.parseItems, ParseBuffer.allocate, always, if_pos rfl]
    dsimp only [ParseBuffer.advance] at hskip hskip' hd' ⊢
    rw [hskip, hb', ok_bind]
    dsimp only
    rw [hskip', hd']
    simp only [Option.some.injEq]

/-- The loop reads all elements, and stops at the closing bracket. -/
theorem ItemsText.parseItems {t : Bytes} {items : List Item}
    (h : ItemsText content closing element t items)
    (hclosing : isNumeral closing = false ∧ isBlank closing = false) (h44 : closing ≠ 44)
    {fuel : Nat} (hfuel : items.length ≤ fuel) (head : List Item) {w : Bytes}
    (hw : ∀ c ∈ w, isBlank c = true) {b : ParseBuffer} {r : Bytes}
    (hdrop : content.drop (b.offset + 1) = w ++ (t ++ r)) :
    ∃ b', parseItems always content closing element fuel head b = .ok (.ok (head ++ items) b') ∧
      b'.offset + 1 = b.offset + 1 + w.length + t.length := by
  induction h generalizing fuel head w b with
  | @last t f item hitem hf =>
    cases fuel with
    | zero => exact absurd hfuel (Nat.not_succ_le_zero _)
    | succ fuel =>
      rw [List.append_assoc, List.append_assoc] at hdrop
      obtain ⟨b', -, hoffset, hround⟩ := hitem.parseItems fuel head hw hf hclosing hdrop
      rw [if_neg h44, if_pos rfl] at hround
      refine ⟨b', hround, ?_⟩
      rw [hoffset, List.length_append, List.length_append, List.length_singleton]
      omega
  | @cons t w' rest item items hitem hw' _ ih =>
    cases fuel with
    | zero => exact absurd hfuel (Nat.not_succ_le_zero _)
    | succ fuel =>
      have hnone : ∀ c ∈ ([] : Bytes), isBlank c = true := fun c hc => absurd hc List.not_mem_nil
      rw [List.append_assoc] at hdrop
      obtain ⟨b', hcomma, hoffset, hround⟩ := hitem.parseItems fuel head hw hnone
        (d := 44) (r := w' ++ rest ++ r) ⟨rfl, rfl⟩ hdrop
      rw [if_pos rfl] at hround
      have hbehind : content.drop (b'.offset + 1) = w' ++ (rest ++ r) := by
        rw [← List.append_assoc]
        exact drop_advance (t := [44]) hcomma
      obtain ⟨b'', hrest, hoffset'⟩ := ih (Nat.le_of_succ_le_succ hfuel) (head ++ [item]) hw'
        hbehind
      refine ⟨b'', ?_, ?_⟩
      · rw [hround, hrest, List.append_assoc]
        rfl
      · rw [hoffset', hoffset, List.length_append, List.length_cons, List.length_append,
          List.length_nil]
        omega

/-- An array or an object with elements. -/
theorem ItemsText.parseContents {t : Bytes} {items : List Item}
    (h : ItemsText content closing element t items)
    (hclosing : isNumeral closing = false ∧ isBlank closing = false) (h44 : closing ≠ 44)
    (type : Nat) (item : Item) {c : UInt8} {w : Bytes} (hw : ∀ d ∈ w, isBlank d = true)
    {b : ParseBuffer} {r : Bytes} (hdrop : content.drop b.offset = c :: (w ++ (t ++ r))) :
    ∃ b', parseContents always content closing type element item b =
        .ok (.ok { item with type, child := items } b') ∧
      b'.offset = b.offset + 1 + w.length + t.length := by
  obtain ⟨d, u, ht, hd, hne⟩ := h.head
  have hbehind : content.drop (b.offset + 1) = w ++ (t ++ r) := drop_advance (t := [c]) hdrop
  have hskip := bufferSkipWhitespace_blanks (b := b.advance 1) (c := d) (u := u ++ r)
    (by rw [ht] at hbehind; exact hbehind) hw hd
  have hfirst : content.drop (b.offset + 1 + w.length) = d :: (u ++ r) := by
    rw [drop_advance hbehind, ht]
    rfl
  have hinside : ¬ content.length ≤ ((b.advance 1).advance w.length).offset :=
    Nat.not_le_of_lt (lt_of_drop hfirst)
  have hopen : ¬ content[((b.advance 1).advance w.length).offset]? = some closing := by
    show ¬ content[b.offset + 1 + w.length]? = some closing
    rw [getElem?_of_drop hfirst]
    exact fun heq => hne (Option.some.inj heq)
  have hlen := h.length_le
  have hcontent := congrArg List.length (drop_advance hbehind)
  rw [List.length_drop, List.length_append] at hcontent
  have hfuel : items.length ≤ content.length := by omega
  obtain ⟨b', hitems, hoffset⟩ := h.parseItems hclosing h44 hfuel [] (w := [])
    (fun d hd => absurd hd List.not_mem_nil) (b := ⟨b.offset + w.length, b.asked, b.live⟩) (r := r)
    (by
      show content.drop (b.offset + w.length + 1) = t ++ r
      rw [Nat.add_right_comm, drop_advance hbehind])
  refine ⟨b'.advance 1, ?_, ?_⟩
  · have hback : b.offset + 1 + w.length - 1 = b.offset + w.length := by omega
    rw [Cjson.parseContents, hskip, if_neg hopen, if_neg hinside]
    dsimp only [ParseBuffer.advance]
    rw [hback, hitems]
    rfl
  · show b'.offset + 1 = _
    rw [hoffset, List.length_nil]
    show b.offset + w.length + 1 + 0 + t.length = _
    omega

/-- An array or an object without elements. -/
theorem parseContents_empty (hclosing : isBlank closing = false) (type : Nat) (item : Item)
    {c : UInt8} {w : Bytes} (hw : ∀ d ∈ w, isBlank d = true) {b : ParseBuffer} {r : Bytes}
    (hdrop : content.drop b.offset = c :: (w ++ closing :: r)) :
    parseContents always content closing type element item b =
      .ok (.ok { item with type, child := [] } (b.advance (w.length + 2))) := by
  have hbehind : content.drop (b.offset + 1) = w ++ closing :: r := drop_advance (t := [c]) hdrop
  have hskip := bufferSkipWhitespace_blanks (b := b.advance 1) hbehind hw hclosing
  have hget : content[((b.advance 1).advance w.length).offset]? = some closing :=
    getElem?_of_drop (drop_advance hbehind)
  rw [parseContents, hskip, if_pos hget, pure_eq_ok]
  dsimp only [ParseBuffer.advance]
  congr 3
  omega

end

/-! ## Values -/

section

variable {content : Bytes} {format : Bool} {depth : Nat} {t : Bytes}

theorem exists_parseValue (grants : Nat → Bool) (content : Bytes) (levels : Nat) :
    ∃ value, parseValue grants content levels = parseValueAt grants content value := by
  cases levels with
  | zero => exact ⟨none, rfl⟩
  | succ levels => exact ⟨some (parseValue grants content levels), rfl⟩

theorem Reads.element {value : Parser} {item : Item} (h : Reads content value Item.new t item) :
    ReadsElement content 93 (parseElement value) t item := by
  obtain ⟨c, u, ht, hc, hne⟩ := h.head
  refine ⟨⟨c, u, ht, hc, fun h93 => hne (h93 ▸ List.mem_cons_self)⟩, fun b r hdrop hr => ?_⟩
  obtain ⟨b', hb', hoffset⟩ := h.reads b r hdrop hr
  refine ⟨b', ?_, hoffset⟩
  rw [parseElement, hb']
  rfl

/-- A member of an object. -/
theorem Reads.member {value : Parser} {name : Bytes} (hname : 0 ∉ name) {item : Item}
    (h : Reads content value ⟨cJSONString, none, 0, zero, some name, []⟩ t item) {w : Bytes}
    (hw : ∀ c ∈ w, isBlank c = true) :
    ReadsElement content 125 (parseMember always content value)
      (quoted (some name) ++ 58 :: (w ++ t)) item := by
  have hcStr := cStr_eq_self hname
  refine ⟨⟨34, _, rfl, rfl, by decide⟩, fun b r hdrop hr => ?_⟩
  obtain ⟨c, u, ht, hc, -⟩ := h.head
  have hliteral : content.drop b.offset =
      34 :: (name.flatMap escapeText ++ 34 :: (58 :: (w ++ (t ++ r)))) := by
    rw [hdrop, quoted, hcStr]
    simp only [List.append_assoc, List.cons_append, List.nil_append]
  have hgrant : always b.asked = true := rfl
  have hstring := (stringText_escaped name).parseString Item.new hgrant hliteral
  generalize hb' : (⟨b.offset + ((name.flatMap escapeText).length + 2), b.asked + 1,
    b.live + 1⟩ : ParseBuffer) = b' at hstring
  have hoffset : b'.offset = b.offset + ((name.flatMap escapeText).length + 2) := by rw [← hb']
  have hcolon : content.drop b'.offset = 58 :: (w ++ (t ++ r)) := by
    have hsplit := drop_advance (t := 34 :: (name.flatMap escapeText ++ [34]))
      (r := 58 :: (w ++ (t ++ r))) (by
        rw [hliteral]
        simp only [List.append_assoc, List.cons_append, List.nil_append])
    rw [hoffset, ← hsplit]
    simp only [List.length_cons, List.length_append, List.length_nil]
  have hskip : bufferSkipWhitespace content b' = b' :=
    bufferSkipWhitespace_blanks (w := []) hcolon (fun d hd => absurd hd List.not_mem_nil) rfl
  have hbehind : content.drop (b'.offset + 1) = w ++ (t ++ r) := drop_advance (t := [58]) hcolon
  have hskip' := bufferSkipWhitespace_blanks (b := b'.advance 1) (c := c) (u := u ++ r)
    (by rw [ht] at hbehind; exact hbehind) hw hc
  obtain ⟨b'', hvalue, hoffset'⟩ := h.reads ⟨b'.offset + 1 + w.length, b'.asked, b'.live⟩ r
    (drop_advance hbehind) hr
  refine ⟨b'', ?_, ?_⟩
  · rw [parseMember, hstring, ok_bind]
    dsimp only
    rw [hskip, if_pos (getElem?_of_drop hcolon), hskip', hcStr, parseElement]
    dsimp only [Item.new, ParseBuffer.advance]
    rw [hvalue]
    rfl
  · rw [hoffset', quoted, hcStr]
    simp only [hoffset, List.length_append, List.length_cons, List.length_nil]
    omega

theorem cat_eq_some {u w : Option Bytes} (h : cat u w = some t) :
    ∃ a b, u = some a ∧ w = some b ∧ t = a ++ b := by
  obtain ⟨a, ha, h⟩ := Option.bind_eq_some_iff.mp h
  obtain ⟨b, hb, rfl⟩ := Option.map_eq_some_iff.mp h
  exact ⟨a, b, ha, hb, rfl⟩

theorem isBlank_tabs (format : Bool) (n : Nat) : ∀ c ∈ tabs format n, isBlank c = true := by
  intro c hc
  rw [tabs] at hc
  split at hc
  · rw [List.eq_of_mem_replicate hc]
    rfl
  · exact absurd hc List.not_mem_nil

theorem isBlank_formatted (format : Bool) {d : UInt8} (hd : isBlank d = true) :
    ∀ c ∈ formatted format d, isBlank c = true := by
  intro c hc
  rw [formatted] at hc
  split at hc
  · rw [List.mem_singleton.mp hc]
    exact hd
  · exact absurd hc List.not_mem_nil

theorem reads_null {value : Option Parser} {item : Item} (hitem : Fresh item) :
    Reads content (parseValueAt always content value) item (bytes "null")
      (Item.ofValue item.string .null) := by
  obtain ⟨_, -, heq⟩ := id hitem
  refine ⟨⟨110, _, rfl, rfl, by decide⟩, fun b r hdrop _ => ⟨b.advance 4, ?_, rfl⟩⟩
  have hword := readsWord_self hdrop (lt_of_drop hdrop)
  rw [parseValueAt, if_pos hword, heq]
  rfl

theorem reads_false {value : Option Parser} {item : Item} (hitem : Fresh item) :
    Reads content (parseValueAt always content value) item (bytes "false")
      (Item.ofValue item.string (.bool false)) := by
  obtain ⟨_, -, heq⟩ := id hitem
  refine ⟨⟨102, _, rfl, rfl, by decide⟩, fun b r hdrop _ => ⟨b.advance 5, ?_, rfl⟩⟩
  have hnull : ¬ readsWord content b (bytes "null") = true := by
    rw [Bool.not_eq_true]
    exact readsWord_other hdrop (by decide)
  have hword := readsWord_self hdrop (lt_of_drop hdrop)
  rw [parseValueAt, if_neg hnull, if_pos hword, heq]
  rfl

theorem reads_true {value : Option Parser} {item : Item} (hitem : Fresh item) :
    Reads content (parseValueAt always content value) item (bytes "true")
      (Item.ofValue item.string (.bool true)) := by
  obtain ⟨_, -, heq⟩ := id hitem
  refine ⟨⟨116, _, rfl, rfl, by decide⟩, fun b r hdrop _ => ⟨b.advance 4, ?_, rfl⟩⟩
  have hnull : ¬ readsWord content b (bytes "null") = true := by
    rw [Bool.not_eq_true]
    exact readsWord_other hdrop (by decide)
  have hfalse : ¬ readsWord content b (bytes "false") = true := by
    rw [Bool.not_eq_true]
    exact readsWord_other hdrop (by decide)
  have hword := readsWord_self hdrop (lt_of_drop hdrop)
  rw [parseValueAt, if_neg hnull, if_neg hfalse, if_pos hword, heq]
  rfl

/-- The first byte of a number. -/
theorem numberText_head (neg : Bool) (mag : Magnitude) :
    ∃ c u, numberText (.finite neg mag) = c :: u ∧ (c = 45 ∨ isDigit c = true) := by
  have hpos : mag.val ≠ 0 → 0 < mag.val := fun h => lt_of_le_of_ne mag.nonneg (Ne.symm h)
  rw [numberText]
  split
  · exact formatG_head neg fun h => ⟨by decide, hpos h⟩
  · exact formatG_head neg fun h => ⟨by decide, hpos h⟩

theorem reads_number {value : Option Parser} {item : Item} (hitem : Fresh item) (neg : Bool)
    (mag : Magnitude) :
    Reads content (parseValueAt always content value) item (numberText (.finite neg mag))
      (Item.ofValue item.string (.number (.finite neg mag))) := by
  obtain ⟨_, -, heq⟩ := id hitem
  obtain ⟨c, u, ht, hc⟩ := numberText_head neg mag
  have hall : ∀ n < 256, (UInt8.ofNat n = 45 ∨ isDigit (UInt8.ofNat n) = true) →
      isBlank (UInt8.ofNat n) = false ∧ UInt8.ofNat n ∉ [93, 125, 0xEF] ∧
        UInt8.ofNat n ∉ [34, 102, 110, 116] := by
    decide +kernel
  have hother := hall c.toNat c.toNat_lt
  rw [UInt8.ofNat_toNat] at hother
  obtain ⟨hblank, hfirst, hne⟩ := hother hc
  simp only [List.mem_cons, List.not_mem_nil, or_false, not_or] at hne
  obtain ⟨h34, h102, h110, h116⟩ := hne
  refine ⟨⟨c, u, ht, hblank, hfirst⟩, fun b r hdrop hr =>
    ⟨b.advance (numberText (.finite neg mag)).length, ?_, rfl⟩⟩
  have hnumber := parseNumber_numberText neg mag item hdrop hr
  rw [ht] at hdrop
  rw [parseValueAt_head hdrop ⟨h110, h102, h116⟩, if_neg h34, if_pos hc, hnumber, heq]
  rfl

theorem reads_string {value : Option Parser} {item : Item} (hitem : Fresh item) {s : Bytes}
    (hs : 0 ∉ s) :
    Reads content (parseValueAt always content value) item (quoted (some s))
      (Item.ofValue item.string (.string s)) := by
  have hcStr := cStr_eq_self hs
  obtain ⟨_, -, heq⟩ := id hitem
  refine ⟨⟨34, _, rfl, rfl, by decide⟩, fun b r hdrop _ => ?_⟩
  have hliteral : content.drop b.offset = 34 :: (s.flatMap escapeText ++ 34 :: r) := by
    rw [hdrop, quoted, hcStr]
    simp only [List.append_assoc, List.cons_append, List.nil_append]
  have hgrant : always b.asked = true := rfl
  have hstring := (stringText_escaped s).parseString item hgrant hliteral
  refine ⟨⟨b.offset + ((s.flatMap escapeText).length + 2), b.asked + 1, b.live + 1⟩, ?_, ?_⟩
  · rw [parseValueAt_head hdrop (by decide), if_pos rfl, hstring, hcStr, heq]
    rfl
  · rw [quoted, hcStr]
    simp only [List.length_append, List.length_cons, List.length_nil]

theorem parseValueAt_array {value : Parser} {item : Item} {b : ParseBuffer} {u : Bytes}
    (h : content.drop b.offset = 91 :: u) :
    parseValueAt always content (some value) item b =
      parseContents always content 93 cJSONArray (parseElement value) item b := by
  have hbyte : byteAt content b.offset = .ok 91 := by
    rw [byteAt, getElem?_of_drop h]
    rfl
  rw [parseValueAt_head h (by decide)]
  show parseArray always content (some value) item b = _
  rw [parseArray, hbyte, ok_bind]
  rfl

theorem parseValueAt_object {value : Parser} {item : Item} {b : ParseBuffer} {u : Bytes}
    (h : content.drop b.offset = 123 :: u) :
    parseValueAt always content (some value) item b =
      parseContents always content 125 cJSONObject (parseMember always content value) item b := by
  rw [parseValueAt_head h (by decide)]
  show parseObject always content (some value) item b = _
  rw [parseObject, if_neg (not_not_intro (getElem?_of_drop h))]

theorem reads_array {value : Parser} {item : Item} (hitem : Fresh item) {inner : Bytes}
    {vs : List Value}
    (h : vs = [] ∧ inner = [] ∨
      ItemsText content 93 (parseElement value) (inner ++ [93]) (Item.ofValues vs)) :
    Reads content (parseValueAt always content (some value)) item (91 :: (inner ++ [93]))
      (Item.ofValue item.string (.array vs)) := by
  obtain ⟨_, -, heq⟩ := id hitem
  have hnone : ∀ c ∈ ([] : Bytes), isBlank c = true := fun c hc => absurd hc List.not_mem_nil
  refine ⟨⟨91, _, rfl, rfl, by decide⟩, fun b r hdrop _ => ?_⟩
  rw [parseValueAt_array hdrop]
  rcases h with ⟨rfl, rfl⟩ | h
  · refine ⟨b.advance 2, ?_, rfl⟩
    rw [parseContents_empty rfl cJSONArray item hnone hdrop, heq]
    rfl
  · obtain ⟨b', hb', hoffset⟩ := h.parseContents (r := r) ⟨rfl, rfl⟩ (by decide) cJSONArray item
      hnone hdrop
    refine ⟨b', ?_, ?_⟩
    · rw [hb', heq]
      rfl
    · rw [hoffset, List.length_cons, List.length_nil]
      omega

/-- An object, with blanks in front of the first member or of the closing bracket. -/
theorem reads_object {value : Parser} {item : Item} (hitem : Fresh item) {w inner : Bytes}
    (hw : ∀ c ∈ w, isBlank c = true) {ms : List (Bytes × Value)}
    (h : ms = [] ∧ inner = [125] ∨
      ItemsText content 125 (parseMember always content value) inner (Item.ofMembers ms)) :
    Reads content (parseValueAt always content (some value)) item (123 :: (w ++ inner))
      (Item.ofValue item.string (.object ms)) := by
  obtain ⟨_, -, heq⟩ := id hitem
  refine ⟨⟨123, _, rfl, rfl, by decide⟩, fun b r hdrop _ => ?_⟩
  rw [List.cons_append, List.append_assoc] at hdrop
  rw [parseValueAt_object hdrop]
  rcases h with ⟨rfl, rfl⟩ | h
  · refine ⟨b.advance (w.length + 2), ?_, ?_⟩
    · rw [parseContents_empty rfl cJSONObject item hw hdrop, heq]
      rfl
    · show b.offset + (w.length + 2) = _
      rw [List.length_cons, List.length_append, List.length_singleton]
  · obtain ⟨b', hb', hoffset⟩ := h.parseContents (r := r) ⟨rfl, rfl⟩ (by decide) cJSONObject item
      hw hdrop
    refine ⟨b', ?_, ?_⟩
    · rw [hb', heq]
      rfl
    · rw [hoffset, List.length_cons, List.length_append]
      omega

end

theorem text_array (format : Bool) (depth : Nat) (name : Option Bytes) (vs : List Value) :
    (Item.ofValue name (.array vs)).text format depth =
      cat (some [91]) (cat (Item.textElements format (depth + 1) (Item.ofValues vs)) (some [93])) :=
  rfl

theorem text_object (format : Bool) (depth : Nat) (name : Option Bytes)
    (ms : List (Bytes × Value)) :
    (Item.ofValue name (.object ms)).text format depth =
      cat (some (123 :: formatted format 10))
        (cat (Item.textMembers format (depth + 1) (Item.ofMembers ms))
          (some (tabs format depth ++ [125]))) := rfl

theorem ofValue_string (name : Option Bytes) (v : Value) : (Item.ofValue name v).string = name := by
  cases v with
  | bool b => cases b <;> rfl
  | _ => rfl

theorem blanks_append {v w : Bytes} (hv : ∀ c ∈ v, isBlank c = true)
    (hw : ∀ c ∈ w, isBlank c = true) : ∀ c ∈ v ++ w, isBlank c = true := by
  intro c hc
  rcases List.mem_append.mp hc with hc | hc
  · exact hv c hc
  · exact hw c hc

mutual

/-- The text of a value is read as the value. -/
theorem parseValue_reads (content : Bytes) (format : Bool) : (v : Value) → {levels depth : Nat} →
    {name : Option Bytes} → {t : Bytes} → v.Valid → v.depth ≤ levels →
    (Item.ofValue name v).text format depth = some t → {item : Item} → Fresh item →
    Reads content (parseValue always content levels) item t (Item.ofValue item.string v.printed)
  | .null, levels, _, _, _, _, _, ht, _, hitem => by
    obtain ⟨value, hvalue⟩ := exists_parseValue always content levels
    rw [hvalue, ← Option.some.inj ht]
    exact reads_null hitem
  | .bool false, levels, _, _, _, _, _, ht, _, hitem => by
    obtain ⟨value, hvalue⟩ := exists_parseValue always content levels
    rw [hvalue, ← Option.some.inj ht]
    exact reads_false hitem
  | .bool true, levels, _, _, _, _, _, ht, _, hitem => by
    obtain ⟨value, hvalue⟩ := exists_parseValue always content levels
    rw [hvalue, ← Option.some.inj ht]
    exact reads_true hitem
  | .number d, levels, _, _, _, _, _, ht, _, hitem => by
    obtain ⟨value, hvalue⟩ := exists_parseValue always content levels
    rw [hvalue, ← Option.some.inj ht]
    cases d with
    | finite neg mag => exact reads_number hitem neg mag
    | inf neg => exact reads_null hitem
    | nan => exact reads_null hitem
  | .string s, levels, _, _, _, hvalid, _, ht, _, hitem => by
    obtain ⟨value, hvalue⟩ := exists_parseValue always content levels
    rw [hvalue, ← Option.some.inj ht]
    exact reads_string hitem hvalid
  | .array vs, levels, depth, _, _, hvalid, hdepth, ht, _, hitem => by
    obtain ⟨n, rfl⟩ := Nat.exists_eq_add_of_le hdepth
    rw [text_array] at ht
    obtain ⟨_, rest, hopen, hrest, rfl⟩ := cat_eq_some ht
    obtain ⟨inner, _, hinner, hclose, rfl⟩ := cat_eq_some hrest
    obtain rfl := Option.some.inj hopen
    obtain rfl := Option.some.inj hclose
    have hlevels : Value.depth (.array vs) + n = Value.depthList vs + n + 1 :=
      Nat.add_right_comm _ _ _
    rw [hlevels]
    refine reads_array hitem ?_
    rcases List.eq_nil_or_concat vs with hnil | hne
    · left
      rw [hnil] at hinner ⊢
      exact ⟨rfl, (Option.some.inj hinner).symm⟩
    · right
      refine textElements_reads content format vs ?_ hvalid (Nat.le_add_right _ _) hinner
      obtain ⟨_, _, rfl⟩ := hne
      simp
  | .object ms, levels, depth, _, _, hvalid, hdepth, ht, _, hitem => by
    obtain ⟨n, rfl⟩ := Nat.exists_eq_add_of_le hdepth
    rw [text_object] at ht
    obtain ⟨_, rest, hopen, hrest, rfl⟩ := cat_eq_some ht
    obtain ⟨inner, _, hinner, hclose, rfl⟩ := cat_eq_some hrest
    obtain rfl := Option.some.inj hopen
    obtain rfl := Option.some.inj hclose
    have hlevels : Value.depth (.object ms) + n = Value.depthMembers ms + n + 1 :=
      Nat.add_right_comm _ _ _
    have hline := isBlank_formatted format (d := 10) rfl
    have htabs := isBlank_tabs format depth
    rw [hlevels]
    by_cases hnil : ms = []
    · subst hnil
      obtain rfl := Option.some.inj hinner
      show Reads content (parseValueAt always content
        (some (parseValue always content (Value.depthMembers [] + n)))) _ _ _
      rw [List.nil_append, List.cons_append, ← List.append_assoc]
      exact reads_object hitem (blanks_append hline htabs) (Or.inl ⟨rfl, rfl⟩)
    · obtain ⟨u, hu, htext⟩ := textMembers_reads content format ms hnil hvalid
        (Nat.le_add_right _ n) hinner htabs
      have hread := reads_object hitem
        (blanks_append hline (isBlank_tabs format (depth + 1))) (Or.inr htext)
      rw [hu]
      rwa [List.append_assoc] at hread

theorem textElements_reads (content : Bytes) (format : Bool) : (vs : List Value) → vs ≠ [] →
    {levels depth : Nat} → {t : Bytes} → Value.ValidList vs → Value.depthList vs ≤ levels →
    Item.textElements format depth (Item.ofValues vs) = some t →
    ItemsText content 93 (parseElement (parseValue always content levels)) (t ++ [93])
      (Item.ofValues (Value.printedList vs))
  | [], hne, _, _, _, _, _, _ => absurd rfl hne
  | v :: vs, _, levels, depth, _, hvalid, hdepth, ht => by
    obtain ⟨a, rest, ha, hrest, rfl⟩ := cat_eq_some ht
    obtain ⟨e, b, he, hb, rfl⟩ := cat_eq_some hrest
    obtain ⟨hdepthHead, hdepthTail⟩ := Nat.max_le.mp hdepth
    have hread := (parseValue_reads content format v hvalid.1 hdepthHead ha fresh_new).element
    cases vs with
    | nil =>
      obtain rfl := Option.some.inj he
      obtain rfl := Option.some.inj hb
      show ItemsText _ _ _ (a ++ [] ++ [93]) _
      rw [List.append_assoc]
      exact ItemsText.last hread fun c hc => absurd hc List.not_mem_nil
    | cons w ws =>
      obtain rfl := Option.some.inj he
      have hitems := textElements_reads content format (w :: ws) (List.cons_ne_nil w ws) hvalid.2
        hdepthTail hb
      have htext := ItemsText.cons hread (isBlank_formatted format (d := 32) rfl) hitems
      rw [List.append_assoc]
      simp only [List.append_assoc] at htext ⊢
      exact htext

theorem textMembers_reads (content : Bytes) (format : Bool) : (ms : List (Bytes × Value)) →
    ms ≠ [] → {levels depth : Nat} → {t : Bytes} → Value.ValidMembers ms →
    Value.depthMembers ms ≤ levels →
    Item.textMembers format depth (Item.ofMembers ms) = some t → {f : Bytes} →
    (∀ c ∈ f, isBlank c = true) →
    ∃ u, t ++ (f ++ [125]) = tabs format depth ++ u ∧
      ItemsText content 125 (parseMember always content (parseValue always content levels)) u
        (Item.ofMembers (Value.printedMembers ms))
  | [], hne, _, _, _, _, _, _, _, _ => absurd rfl hne
  | (name, v) :: ms, _, levels, depth, _, hvalid, hdepth, ht, f, hf => by
    obtain ⟨indent, member, hindent, hmember, rfl⟩ := cat_eq_some ht
    obtain ⟨label, behind, hlabel, hbehind, rfl⟩ := cat_eq_some hmember
    obtain ⟨colon, value, hcolon, hvalue, rfl⟩ := cat_eq_some hbehind
    obtain ⟨a, rest, ha, hrest, rfl⟩ := cat_eq_some hvalue
    obtain ⟨e, b, he, hb, rfl⟩ := cat_eq_some hrest
    obtain ⟨hdepthHead, hdepthTail⟩ := Nat.max_le.mp hdepth
    have hfresh : Fresh ⟨cJSONString, none, 0, zero, some name, []⟩ :=
      ⟨cJSONString, Or.inr rfl, rfl⟩
    have hread := (parseValue_reads content format v hvalid.2.1 hdepthHead ha hfresh).member
      hvalid.1 (isBlank_formatted format (d := 9) rfl)
    have hline := isBlank_formatted format (d := 10) rfl
    rw [ofValue_string] at hlabel
    obtain rfl := Option.some.inj hindent
    obtain rfl := Option.some.inj hlabel
    obtain rfl := Option.some.inj hcolon
    obtain rfl := Option.some.inj he
    cases ms with
    | nil =>
      obtain rfl := Option.some.inj hb
      refine ⟨_, ?_, ItemsText.last hread (blanks_append hline hf)⟩
      show _ ++ (_ ++ (_ ++ (a ++ (([] ++ formatted format 10) ++ [])))) ++ _ = _
      simp only [List.append_assoc, List.cons_append, List.nil_append]
    | cons m ms =>
      obtain ⟨u, hu, hitems⟩ := textMembers_reads content format (m :: ms)
        (List.cons_ne_nil m ms) hvalid.2.2 hdepthTail hb hf
      refine ⟨_, ?_, ItemsText.cons hread
        (blanks_append hline (isBlank_tabs format depth)) hitems⟩
      show _ ++ (_ ++ (_ ++ (a ++ (([44] ++ formatted format 10) ++ b)))) ++ _ = _
      simp only [List.append_assoc, List.cons_append, List.nil_append, ← hu]

end

/-! ## The text as a whole -/

mutual

/-- The value that is read back has the same text. -/
theorem text_printed (format : Bool) : (v : Value) → (depth : Nat) → (name : Option Bytes) →
    (Item.ofValue name v.printed).text format depth = (Item.ofValue name v).text format depth
  | .null, _, _ => rfl
  | .bool _, _, _ => rfl
  | .number (.finite _ _), _, _ => rfl
  | .number (.inf _), _, _ => rfl
  | .number .nan, _, _ => rfl
  | .string _, _, _ => rfl
  | .array vs, depth, name => by
    rw [Value.printed, text_array, text_array, textElements_printed]
  | .object ms, depth, name => by
    rw [Value.printed, text_object, text_object, textMembers_printed]

theorem textElements_printed (format : Bool) : (vs : List Value) → (depth : Nat) →
    Item.textElements format depth (Item.ofValues (Value.printedList vs)) =
      Item.textElements format depth (Item.ofValues vs)
  | [], _ => rfl
  | v :: vs, depth => by
    have hend : elementEnd format (Item.ofValues (Value.printedList vs)) =
        elementEnd format (Item.ofValues vs) := by
      cases vs <;> rfl
    show cat ((Item.ofValue none v.printed).text format depth) _ = cat _ _
    rw [text_printed format v, hend, textElements_printed format vs]

theorem textMembers_printed (format : Bool) : (ms : List (Bytes × Value)) → (depth : Nat) →
    Item.textMembers format depth (Item.ofMembers (Value.printedMembers ms)) =
      Item.textMembers format depth (Item.ofMembers ms)
  | [], _ => rfl
  | (name, v) :: ms, depth => by
    have hend : memberEnd format (Item.ofMembers (Value.printedMembers ms)) =
        memberEnd format (Item.ofMembers ms) := by
      cases ms <;> rfl
    show cat _ (cat (some (quoted (Item.ofValue (some name) v.printed).string)) (cat _
      (cat ((Item.ofValue (some name) v.printed).text format depth) _))) = cat _ (cat _ (cat _ _))
    rw [ofValue_string, ofValue_string, text_printed format v, hend, textMembers_printed format ms]

end

theorem cat_some (a b : Bytes) : cat (some a) (some b) = some (a ++ b) := rfl

mutual

/-- The item of a value has a text. -/
theorem exists_text (format : Bool) : (v : Value) → (depth : Nat) → (name : Option Bytes) →
    ∃ t, (Item.ofValue name v).text format depth = some t
  | .null, _, _ => ⟨_, rfl⟩
  | .bool true, _, _ => ⟨_, rfl⟩
  | .bool false, _, _ => ⟨_, rfl⟩
  | .number _, _, _ => ⟨_, rfl⟩
  | .string _, _, _ => ⟨_, rfl⟩
  | .array vs, depth, name => by
    obtain ⟨t, ht⟩ := exists_textElements format vs (depth + 1)
    rw [text_array, ht, cat_some, cat_some]
    exact ⟨_, rfl⟩
  | .object ms, depth, name => by
    obtain ⟨t, ht⟩ := exists_textMembers format ms (depth + 1)
    rw [text_object, ht, cat_some, cat_some]
    exact ⟨_, rfl⟩

theorem exists_textElements (format : Bool) : (vs : List Value) → (depth : Nat) →
    ∃ t, Item.textElements format depth (Item.ofValues vs) = some t
  | [], _ => ⟨[], rfl⟩
  | v :: vs, depth => by
    obtain ⟨t, ht⟩ := exists_text format v depth none
    obtain ⟨u, hu⟩ := exists_textElements format vs depth
    rw [Item.ofValues, Item.textElements, ht, hu, cat_some, cat_some]
    exact ⟨_, rfl⟩

theorem exists_textMembers (format : Bool) : (ms : List (Bytes × Value)) → (depth : Nat) →
    ∃ t, Item.textMembers format depth (Item.ofMembers ms) = some t
  | [], _ => ⟨[], rfl⟩
  | (name, v) :: ms, depth => by
    obtain ⟨t, ht⟩ := exists_text format v depth (some name)
    obtain ⟨u, hu⟩ := exists_textMembers format ms depth
    rw [Item.ofMembers, Item.textMembers, ht, hu]
    simp only [cat_some]
    exact ⟨_, rfl⟩

end

/-- The text of a value is parsed as the value. -/
theorem cJSONParse_text {v : Value} (hvalid : v.Valid) (hdepth : v.depth ≤ nestingLimit)
    {format : Bool} {t : Bytes} (ht : (Item.ofValue none v).text format 0 = some t) :
    cJSONParse (t ++ [0]) = .ok (some (Item.ofValue none v.printed)) := by
  have hnul := Item.noNul_text format _ 0 t ht
  have hreads := parseValue_reads (t ++ [0]) format v hvalid hdepth ht fresh_new
  obtain ⟨c, u, htext, hc, hfirst⟩ := hreads.head
  have hcStr : cStr (t ++ [0]) = t := by
    rw [cStr_append hnul]
    exact List.append_nil t
  have hbom : skipUtf8Bom (t ++ [0]) ⟨0, 1, 0 + 1⟩ = ⟨0, 1, 0 + 1⟩ := by
    refine if_neg ?_
    rintro ⟨-, hprefix⟩
    rw [htext] at hprefix
    have hmark : c = 0xEF := ((List.cons_prefix_cons.mp hprefix).1).symm
    exact hfirst (by rw [hmark]; decide)
  have hskip : bufferSkipWhitespace (t ++ [0]) ⟨0, 1, 0 + 1⟩ = ⟨0, 1, 0 + 1⟩ :=
    bufferSkipWhitespace_blanks (w := []) (c := c) (u := u ++ [0]) (by rw [htext]; rfl)
      (fun d hd => absurd hd List.not_mem_nil) hc
  obtain ⟨b, hb, -⟩ := hreads.reads ⟨0, 1, 0 + 1⟩ [0] rfl (noNumeral_cons rfl [])
  rw [cJSONParse, parseWithOpts, hcStr]
  show (parseValue always (t ++ [0]) nestingLimit Item.new (bufferSkipWhitespace (t ++ [0])
    (skipUtf8Bom (t ++ [0]) ⟨0, 1, 0 + 1⟩)) >>= _) >>= _ = _
  rw [hbom, hskip, hb]
  rfl

/-- `cJSON_Print` and `cJSON_PrintUnformatted` stay inside the memory that they asked for, and hold
one block if they return one and none if they return `NULL`.  That happens only to an item without a
text, to a text that is too long, or when a request for memory is not met, and so to the item of a
value for the last two reasons only.  What they return for a value is parsed as the value, with
`null` for a number that is not finite, and is then printed as the same text. -/
theorem print_parse (m : PrintMode) (item : Item) (asked : Nat) (live : Int) :
    ∃ r, print m item asked live = .ok r ∧
      match r.block with
      | some block => r.live = live + 1 ∧ ∃ text, item.text m.format 0 = some text ∧
          block = text ++ [0] ∧ ∀ v : Value, v.Valid → v.depth ≤ nestingLimit →
            item = Item.ofValue none v →
            cJSONParse block = .ok (some (Item.ofValue none v.printed)) ∧
            (Item.ofValue none v.printed).text m.format 0 = some text
      | none => r.live = live ∧ (∀ text, item.text m.format 0 = some text →
          maxInt.toNat < text.length + 2 ∨ ∃ k, asked ≤ k ∧ k < r.asked ∧ m.grants k = false) ∧
        ∀ v : Value, item = Item.ofValue none v → ∃ text, item.text m.format 0 = some text := by
  obtain ⟨r, hr, hspec⟩ := print_spec m item asked live
  refine ⟨r, hr, ?_⟩
  cases hblock : r.block with
  | none =>
    rw [hblock] at hspec
    refine ⟨hspec.1, hspec.2, ?_⟩
    rintro v rfl
    exact exists_text m.format v 0 none
  | some block =>
    rw [hblock] at hspec
    obtain ⟨hlive, text, htext, rfl⟩ := hspec
    refine ⟨hlive, text, htext, rfl, ?_⟩
    rintro v hvalid hdepth rfl
    exact ⟨cJSONParse_text hvalid hdepth htext, (text_printed _ v _ _).trans htext⟩

end Cjson
end LinuxPrograming
