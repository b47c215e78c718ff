import LinuxPrograming.Cjson.Number

/-!
# The parser

`parse_value`, `parse_array`, `parse_object` and `cJSON_ParseWithOpts` of cJSON.  The parser
reads the text with its NUL, and returns an item for a value (`Sound`).
-/

namespace LinuxPrograming
namespace Cjson

open Lib Gateway

/-- `CJSON_NESTING_LIMIT`. -/
def nestingLimit : Nat := 1000

def isBlank (c : UInt8) : Bool := c ≤ 32

/-- `buffer_skip_whitespace`.  The NUL counts as blank, so that the loop may run to the end. -/
def bufferSkipWhitespace (content : Bytes) (b : ParseBuffer) : ParseBuffer :=
  let offset := b.offset + ((content.drop b.offset).takeWhile isBlank).length
  { b with offset := if offset = content.length then offset - 1 else offset }

/-- `skip_utf8_bom`. -/
def skipUtf8Bom (content : Bytes) (b : ParseBuffer) : ParseBuffer :=
  if b.offset + 4 < content.length ∧ [0xEF, 0xBB, 0xBF] <+: content.drop b.offset then b.advance 3
  else b

/-- A parsing function for an item. -/
abbrev Parser := Item → ParseBuffer → Checked (Parsed Item)

/-- The loop of `parse_array` and `parse_object`, from the byte in front of an element on.
`element` parses one into a new item, and returns the item also when it fails.  Every round
passes a byte, so that there are at most `fuel` rounds. -/
def parseItems (grants : Nat → Bool) (content : Bytes) (closing : UInt8)
    (element : Item → ParseBuffer → Checked (Item × Parsed Unit)) :
    Nat → List Item → ParseBuffer → Checked (Parsed (List Item))
  | 0, _, _ => throw .index
  | fuel + 1, head, b =>
    match b.allocate grants with
    | (false, b) => pure (.fail (b.release (Item.blocksList head)))
    | (true, b) => do
      let (current, parsed) ← element Item.new (bufferSkipWhitespace content (b.advance 1))
      let head := head ++ [current]
      match parsed with
      | .fail b => pure (.fail (b.release (Item.blocksList head)))
      | .ok _ b =>
        let b := bufferSkipWhitespace content b
        if content[b.offset]? = some 44 then
          parseItems grants content closing element fuel head b
        else if content[b.offset]? = some closing then pure (.ok head b)
        else pure (.fail (b.release (Item.blocksList head)))

/-- What `parse_array` and `parse_object` do behind the opening bracket. -/
def parseContents (grants : Nat → Bool) (content : Bytes) (closing : UInt8) (type : Nat)
    (element : Item → ParseBuffer → Checked (Item × Parsed Unit)) : Parser := fun item b => do
  let b := bufferSkipWhitespace content (b.advance 1)
  if content[b.offset]? = some closing then pure (.ok { item with type, child := [] } (b.advance 1))
  else if content.length ≤ b.offset then pure (.fail { b with offset := b.offset - 1 })
  else
    let parsed ← parseItems grants content closing element content.length []
      { b with offset := b.offset - 1 }
    match parsed with
    | .fail b => pure (.fail b)
    | .ok head b => pure (.ok { item with type, child := head } (b.advance 1))

/-- An element of an array. -/
def parseElement (value : Parser) (item : Item) (b : ParseBuffer) :
    Checked (Item × Parsed Unit) := do
  let parsed ← value item b
  match parsed with
  | .fail b => pure (item, .fail b)
  | .ok item b => pure (item, .ok () b)

/-- A member of an object: its name, a colon and its value. -/
def parseMember (grants : Nat → Bool) (content : Bytes) (value : Parser) (item : Item)
    (b : ParseBuffer) : Checked (Item × Parsed Unit) := do
  let parsed ← parseString grants content item b
  match parsed with
  | .fail b => pure (item, .fail b)
  | .ok item b =>
    let b := bufferSkipWhitespace content b
    let item := { item with string := item.valuestring, valuestring := none }
    if content[b.offset]? = some 58 then
      parseElement value item (bufferSkipWhitespace content (b.advance 1))
    else pure (item, .fail b)

/-- `parse_array`.  There is no `value` when the nesting limit is reached. -/
def parseArray (grants : Nat → Bool) (content : Bytes) (value : Option Parser) : Parser :=
  fun item b =>
    match value with
    | none => pure (.fail b)
    | some value => do
      let c ← byteAt content b.offset
      if c ≠ 91 then pure (.fail b)
      else parseContents grants content 93 cJSONArray (parseElement value) item b

/-- `parse_object`. -/
def parseObject (grants : Nat → Bool) (content : Bytes) (value : Option Parser) : Parser :=
  fun item b =>
    match value with
    | none => pure (.fail b)
    | some value =>
      if content[b.offset]? ≠ some 123 then pure (.fail b)
      else parseContents grants content 125 cJSONObject (parseMember grants content value) item b

/-- `can_read` and `strncmp` for a word. -/
def readsWord (content : Bytes) (b : ParseBuffer) (word : Bytes) : Bool :=
  b.offset + word.length ≤ content.length ∧ word <+: content.drop b.offset

/-- `parse_value`, with the parser for what is nested one level deeper. -/
def parseValueAt (grants : Nat → Bool) (content : Bytes) (value : Option Parser) : Parser :=
  fun item b =>
    if readsWord content b (bytes "null") then
      pure (.ok { item with type := cJSONNull } (b.advance 4))
    else if readsWord content b (bytes "false") then
      pure (.ok { item with type := cJSONFalse } (b.advance 5))
    else if readsWord content b (bytes "true") then
      pure (.ok { item with type := cJSONTrue, valueint := 1 } (b.advance 4))
    else match content[b.offset]? with
      | none => pure (.fail b)
      | some c =>
        if c = 34 then parseString grants content item b
        else if c = 45 ∨ isDigit c then parseNumber content item b
        else if c = 91 then parseArray grants content value item b
        else if c = 123 then parseObject grants content value item b
        else pure (.fail b)

/-- `parse_value` where `levels` more levels may be nested. -/
def parseValue (grants : Nat → Bool) (content : Bytes) : Nat → Parser
  | 0 => parseValueAt grants content none
  | levels + 1 => parseValueAt grants content (some (parseValue grants content levels))

/-- What `cJSON_ParseWithOpts` leaves: the item, or `none` for `NULL`; the place that
`return_parse_end` or `cJSON_GetErrorPtr` points to; and the number of blocks held. -/
structure Outcome where
  item : Option Item
  position : Nat
  live : Int

/-- The branch `fail` of `cJSON_ParseWithOpts`. -/
def parseFailed (content : Bytes) (b : ParseBuffer) : Outcome :=
  ⟨none, if b.offset < content.length then b.offset else content.length - 1, b.live⟩

/-- `cJSON_ParseWithOpts` on the C string at the start of `value`. -/
def parseWithOpts (grants : Nat → Bool) (value : Bytes) (requireNullTerminated : Bool)
    (live : Int) : Checked Outcome :=
  let content := cStr value ++ [0]
  match (ParseBuffer.mk 0 0 live).allocate grants with
  | (false, b) => pure (parseFailed content b)
  | (true, b) => do
    let parsed ← parseValue grants content nestingLimit Item.new
      (bufferSkipWhitespace content (skipUtf8Bom content b))
    match parsed with
    | .fail b => pure (parseFailed content (b.release Item.new.blocks))
    | .ok item b =>
      if requireNullTerminated then
        let b := bufferSkipWhitespace content b
        if content[b.offset]? ≠ some 0 then
          pure (parseFailed content (b.release item.blocks))
        else pure ⟨some item, b.offset, b.live⟩
      else pure ⟨some item, b.offset, b.live⟩

/-- `cJSON_Parse` where memory is never short. -/
def cJSONParse (value : Bytes) : Checked (Option Item) := do
  let outcome ← parseWithOpts (fun _ => true) value false 0
  pure outcome.item

/-! ## Blocks -/

theorem Item.blocksList_append (items others : List Item) :
    Item.blocksList (items ++ others) = Item.blocksList items + Item.blocksList others := by
  induction items with
  | nil => exact (Nat.zero_add _).symm
  | cons item items ih =>
    show item.blocks + Item.blocksList (items ++ others) = item.blocks + _ + _
    rw [ih, Nat.add_assoc]

/-- An item that owns all it refers to. -/
theorem Item.blocks_mk (type : Nat) (hreference : type &&& cJSONIsReference = 0)
    (hconst : type &&& cJSONStringIsConst = 0) (valuestring : Option Bytes) (valueint : Int)
    (valuedouble : Double) (string : Option Bytes) (child : List Item) :
    (Item.mk type valuestring valueint valuedouble string child).blocks =
      1 + Item.blocksList child + (valuestring.elim 0 fun _ => 1) + string.elim 0 fun _ => 1 := by
  rw [Item.blocks, if_pos hreference, if_pos hconst]
  omega

/-- An item that a value may be parsed into: new, but for a name. -/
def Fresh (item : Item) : Prop :=
  ∃ type, (type = 0 ∨ type = cJSONString) ∧ item = { Item.new with type, string := item.string }

theorem fresh_new : Fresh Item.new := ⟨0, Or.inl rfl, rfl⟩

theorem Fresh.blocks {item : Item} (h : Fresh item) :
    item.blocks = 1 + item.string.elim 0 fun _ => 1 := by
  obtain ⟨type, rfl | rfl, hitem⟩ := h
  · rw [hitem]
    exact Item.blocks_mk 0 rfl rfl ..
  · rw [hitem]
    exact Item.blocks_mk cJSONString rfl rfl ..

/-! ## Places in the text -/

section

variable {s : Bytes}

theorem lt_of_getElem? {i : Nat} {c : UInt8} (h : (s ++ [0])[i]? = some c) (hc : c ≠ 0) :
    i < s.length := by
  by_contra hle
  rw [List.getElem?_append_right (Nat.le_of_not_lt hle)] at h
  have hzero : i - s.length = 0 := by
    by_contra hpos
    rw [List.getElem?_eq_none (by rw [List.length_singleton]; omega)] at h
    cases h
  rw [hzero] at h
  exact hc (Option.some.inj h).symm

theorem bufferSkipWhitespace_spec {b : ParseBuffer} (h : b.offset ≤ s.length) :
    ∃ n, bufferSkipWhitespace (s ++ [0]) b = b.advance n ∧ (b.advance n).offset ≤ s.length := by
  have hle := (List.takeWhile_prefix isBlank (l := (s ++ [0]).drop b.offset)).length_le
  rw [List.length_drop, List.length_append, List.length_singleton] at hle
  rw [bufferSkipWhitespace, List.length_append, List.length_singleton]
  generalize (((s ++ [0]).drop b.offset).takeWhile isBlank).length = k at hle
  by_cases hend : b.offset + k = s.length + 1
  · refine ⟨k - 1, ?_, ?_⟩
    · rw [if_pos hend, ParseBuffer.advance]
      congr 1
      omega
    · show b.offset + (k - 1) ≤ s.length
      omega
  · refine ⟨k, ?_, ?_⟩
    · rw [if_neg hend, ParseBuffer.advance]
    · show b.offset + k ≤ s.length
      omega

end

/-! ## What a parser does -/

section

variable (s : Bytes)

/-- A parsing function that succeeds has passed a part of the text, and made the item for a value
that is nested at most `levels` deep.  When it fails it holds no more blocks than before. -/
def SoundResult (levels : Nat) (item : Item) (b : ParseBuffer) : Parsed Item → Prop
  | .fail b' => b'.live = b.live ∧ b'.offset ≤ s.length + 1
  | .ok item' b' => b.offset < b'.offset ∧ b'.offset ≤ s.length ∧
      b'.live + item.blocks = b.live + item'.blocks ∧
      ∃ v : Value, v.Valid ∧ v.depth ≤ levels ∧ item' = Item.ofValue item.string v

def Sound (levels : Nat) (parse : Parser) : Prop :=
  ∀ item b, Fresh item → b.offset ≤ s.length →
    ∃ r, parse item b = .ok r ∧ SoundResult s levels item b r

/-- The same for the elements of an array or an object, which start with a new item. -/
def SoundElement (P : Item → Prop) (element : Item → ParseBuffer → Checked (Item × Parsed Unit)) :
    Prop :=
  ∀ b, b.offset ≤ s.length → ∃ item r, element Item.new b = .ok (item, r) ∧
    match r with
    | .fail b' => b'.live + 1 = b.live + item.blocks ∧ b'.offset ≤ s.length + 1
    | .ok _ b' => b.offset < b'.offset ∧ b'.offset ≤ s.length ∧
        b'.live + 1 = b.live + item.blocks ∧ P item

end

section

variable {s : Bytes} {levels : Nat} (grants : Nat → Bool)

theorem parseItems_spec {closing : UInt8} {P : Item → Prop}
    {element : Item → ParseBuffer → Checked (Item × Parsed Unit)}
    (helement : SoundElement s P element) (hclosing : closing ≠ 0) (fuel : Nat)
    (head : List Item) {b : ParseBuffer} (hoffset : b.offset < s.length)
    (hfuel : s.length - b.offset ≤ fuel) :
    ∃ r, parseItems grants (s ++ [0]) closing element fuel head b = .ok r ∧
      match r with
      | .fail b' => b'.live + Item.blocksList head = b.live ∧ b'.offset ≤ s.length + 1
      | .ok items b' => b.offset < b'.offset ∧ b'.offset < s.length ∧
          b'.live + Item.blocksList head = b.live + Item.blocksList items ∧
          ∃ added, items = head ++ added ∧ ∀ item ∈ added, P item := by
  induction fuel generalizing head b with
  | zero => omega
  | succ fuel ih =>
    rw [parseItems, ParseBuffer.allocate]
    by_cases hgrant : grants b.asked = true
    · rw [if_pos hgrant]
      obtain ⟨n, hskip, hn⟩ := bufferSkipWhitespace_spec (s := s)
        (b := ParseBuffer.advance ⟨b.offset, b.asked + 1, b.live + 1⟩ 1) hoffset
      obtain ⟨item, parsed, hitem, hparsed⟩ := helement _ hn
      have hblocks : ∀ items, Item.blocksList (items ++ [item]) =
          Item.blocksList items + item.blocks := by
        intro items
        rw [Item.blocksList_append]
        rfl
      dsimp only
      rw [hskip, hitem, ok_bind]
      cases parsed with
      | fail b' =>
        obtain ⟨hlive, hle⟩ := hparsed
        change b'.live + 1 = b.live + 1 + item.blocks at hlive
        refine ⟨_, rfl, ?_, hle⟩
        show b'.live - Item.blocksList (head ++ [item]) + Item.blocksList head = b.live
        rw [hblocks]
        omega
      | ok _ b' =>
        obtain ⟨hlt, hle, hlive, hP⟩ := hparsed
        change b.offset + 1 + n < b'.offset at hlt
        change b'.live + 1 = b.live + 1 + item.blocks at hlive
        obtain ⟨m, hskip', hm⟩ := bufferSkipWhitespace_spec hle
        dsimp only
        rw [hskip']
        by_cases hcomma : (s ++ [0])[(b'.advance m).offset]? = some 44
        · have hin := lt_of_getElem? hcomma (by decide)
          change b'.offset + m < s.length at hin
          obtain ⟨r, hr, hspec⟩ := ih (head ++ [item]) (b := b'.advance m) hin
            (by
              show s.length - (b'.offset + m) ≤ fuel
              omega)
          rw [if_pos hcomma]
          refine ⟨r, hr, ?_⟩
          rw [hblocks] at hspec
          cases r with
          | fail b'' =>
            obtain ⟨hlive', hle'⟩ := hspec
            change b''.live + _ = b'.live at hlive'
            exact ⟨by omega, hle'⟩
          | ok items b'' =>
            obtain ⟨hlt', hin', hlive', added, hitems, hadded⟩ := hspec
            change b'.offset + m < b''.offset at hlt'
            change b''.live + _ = b'.live + _ at hlive'
            refine ⟨by omega, hin', by omega, item :: added, ?_, ?_⟩
            · rw [hitems, List.append_assoc]
              rfl
            · intro other hother
              rcases List.mem_cons.mp hother with rfl | hother
              · exact hP
              · exact hadded other hother
        · rw [if_neg hcomma]
          by_cases hclose : (s ++ [0])[(b'.advance m).offset]? = some closing
          · have hin := lt_of_getElem? hclose hclosing
            rw [if_pos hclose]
            refine ⟨_, rfl, ?_, hin, ?_, [item], rfl, ?_⟩
            · show b.offset < b'.offset + m
              omega
            · show b'.live + _ = b.live + _
              rw [hblocks]
              omega
            · intro other hother
              rw [List.mem_singleton.mp hother]
              exact hP
          · rw [if_neg hclose]
            refine ⟨_, rfl, ?_, ?_⟩
            · show b'.live - Item.blocksList (head ++ [item]) + _ = b.live
              rw [hblocks]
              omega
            · show b'.offset + m ≤ s.length + 1
              change b'.offset + m ≤ s.length at hm
              omega
    · rw [if_neg hgrant]
      refine ⟨_, rfl, ?_, ?_⟩
      · show b.live - Item.blocksList head + Item.blocksList head = b.live
        omega
      · show b.offset ≤ s.length + 1
        omega

theorem parseContents_spec {closing : UInt8} (type : Nat) {P : Item → Prop}
    {element : Item → ParseBuffer → Checked (Item × Parsed Unit)}
    (helement : SoundElement s P element) (hclosing : closing ≠ 0) (item : Item)
    {b : ParseBuffer} (hoffset : b.offset < s.length) :
    ∃ r, parseContents grants (s ++ [0]) closing type element item b = .ok r ∧
      match r with
      | .fail b' => b'.live = b.live ∧ b'.offset ≤ s.length + 1
      | .ok item' b' => b.offset < b'.offset ∧ b'.offset ≤ s.length ∧
          b'.live = b.live + Item.blocksList item'.child ∧
          ∃ items, item' = { item with type, child := items } ∧ ∀ i ∈ items, P i := by
  obtain ⟨n, hskip, hn⟩ := bufferSkipWhitespace_spec (s := s) (b := b.advance 1) hoffset
  change b.offset + 1 + n ≤ s.length at hn
  rw [parseContents, hskip]
  by_cases hempty : (s ++ [0])[((b.advance 1).advance n).offset]? = some closing
  · have hin := lt_of_getElem? hempty hclosing
    change b.offset + 1 + n < s.length at hin
    rw [if_pos hempty]
    refine ⟨_, rfl, ?_, ?_, ?_, [], rfl, fun i hi => by cases hi⟩
    · show b.offset < b.offset + 1 + n + 1
      omega
    · show b.offset + 1 + n + 1 ≤ s.length
      omega
    · show b.live = b.live + (0 : Nat)
      omega
  · have hlen : ¬ (s ++ [0]).length ≤ ((b.advance 1).advance n).offset := by
      rw [List.length_append, List.length_singleton]
      show ¬ s.length + 1 ≤ b.offset + 1 + n
      omega
    have hback : (⟨b.offset + 1 + n - 1, b.asked, b.live⟩ : ParseBuffer).offset < s.length := by
      show b.offset + 1 + n - 1 < s.length
      omega
    obtain ⟨r, hr, hspec⟩ := parseItems_spec grants helement hclosing
      (s ++ [0]).length [] hback
      (by rw [List.length_append]; exact Nat.le_trans (Nat.sub_le _ _) (Nat.le_add_right _ _))
    rw [if_neg hempty, if_neg hlen]
    change parseItems grants (s ++ [0]) closing element (s ++ [0]).length []
      { (b.advance 1).advance n with offset := b.offset + 1 + n - 1 } = .ok r at hr
    show ∃ r, (parseItems grants (s ++ [0]) closing element (s ++ [0]).length []
      { (b.advance 1).advance n with offset := b.offset + 1 + n - 1 } >>= _) = .ok r ∧ _
    rw [hr, ok_bind]
    cases r with
    | fail b' =>
      obtain ⟨hlive, hle⟩ := hspec
      change b'.live + (0 : Nat) = b.live at hlive
      refine ⟨_, rfl, ?_, hle⟩
      show b'.live = b.live
      omega
    | ok items b' =>
      obtain ⟨hlt, hin, hlive, added, hitems, hadded⟩ := hspec
      change b.offset + 1 + n - 1 < b'.offset at hlt
      change b'.live + (0 : Nat) = b.live + _ at hlive
      refine ⟨_, rfl, ?_, hin, ?_, items, rfl, ?_⟩
      · show b.offset < b'.offset + 1
        omega
      · show b'.live = b.live + Item.blocksList items
        omega
      · rw [hitems]
        exact hadded

/-- The item for a value that may be nested in `levels` levels. -/
def IsElement (levels : Nat) (item : Item) : Prop :=
  ∃ v : Value, v.Valid ∧ v.depth ≤ levels ∧ item = Item.ofValue none v

def IsMember (levels : Nat) (item : Item) : Prop :=
  ∃ (name : Bytes) (v : Value), 0 ∉ name ∧ v.Valid ∧ v.depth ≤ levels ∧
    item = Item.ofValue (some name) v

theorem exists_ofValues {items : List Item} (h : ∀ i ∈ items, IsElement levels i) :
    ∃ vs, Value.ValidList vs ∧ Value.depthList vs ≤ levels ∧ items = Item.ofValues vs := by
  induction items with
  | nil => exact ⟨[], trivial, Nat.zero_le _, rfl⟩
  | cons item items ih =>
    obtain ⟨v, hvalid, hdepth, rfl⟩ := h item List.mem_cons_self
    obtain ⟨vs, hvalids, hdepths, rfl⟩ := ih fun i hi => h i (List.mem_cons_of_mem _ hi)
    exact ⟨v :: vs, ⟨hvalid, hvalids⟩, Nat.max_le.mpr ⟨hdepth, hdepths⟩, rfl⟩

theorem exists_ofMembers {items : List Item} (h : ∀ i ∈ items, IsMember levels i) :
    ∃ ms, Value.ValidMembers ms ∧ Value.depthMembers ms ≤ levels ∧
      items = Item.ofMembers ms := by
  induction items with
  | nil => exact ⟨[], trivial, Nat.zero_le _, rfl⟩
  | cons item items ih =>
    obtain ⟨name, v, hname, hvalid, hdepth, rfl⟩ := h item List.mem_cons_self
    obtain ⟨ms, hvalids, hdepths, rfl⟩ := ih fun i hi => h i (List.mem_cons_of_mem _ hi)
    exact ⟨(name, v) :: ms, ⟨hname, hvalid, hvalids⟩, Nat.max_le.mpr ⟨hdepth, hdepths⟩, rfl⟩

theorem parseElement_sound {value : Parser} (hvalue : Sound s levels value) :
    SoundElement s (IsElement levels) (parseElement value) := by
  intro b hoffset
  obtain ⟨r, hr, hspec⟩ := hvalue Item.new b fresh_new hoffset
  have hnew : Item.new.blocks = 1 := rfl
  rw [parseElement, hr, ok_bind]
  cases r with
  | fail b' =>
    obtain ⟨hlive, hle⟩ := hspec
    refine ⟨_, _, rfl, ?_, hle⟩
    rw [hnew, hlive]
    rfl
  | ok item' b' =>
    obtain ⟨hlt, hle, hlive, v, hvalid, hdepth, hitem⟩ := hspec
    refine ⟨_, _, rfl, hlt, hle, ?_, v, hvalid, hdepth, hitem⟩
    rw [hnew] at hlive
    exact hlive

theorem parseMember_sound {value : Parser} (hvalue : Sound s levels value) :
    SoundElement s (IsMember levels) (parseMember grants (s ++ [0]) value) := by
  intro b hoffset
  have hlen : (s ++ [0]).length = s.length + 1 := by
    rw [List.length_append, List.length_singleton]
  obtain ⟨r, hr, hspec⟩ := exists_parseString grants (s ++ [0]) Item.new (b := b)
    (by omega)
  have hnew : Item.new.blocks = 1 := rfl
  rw [parseMember, hr, ok_bind]
  cases r with
  | fail b' =>
    obtain ⟨hlive, hle⟩ := hspec
    refine ⟨_, _, rfl, ?_, by omega⟩
    rw [hnew, hlive]
    rfl
  | ok named b' =>
    obtain ⟨hlive, hlt, hle, hquote, name, hname, rfl⟩ := hspec
    have hin := lt_of_getElem? hquote (by decide)
    obtain ⟨n, hskip, hn⟩ := bufferSkipWhitespace_spec (s := s) (b := b') (by omega)
    have hfresh : Fresh ⟨cJSONString, none, 0, zero, some name, []⟩ :=
      ⟨cJSONString, Or.inr rfl, rfl⟩
    have hblocks : (Item.mk cJSONString none 0 zero (some name) []).blocks = 2 := hfresh.blocks
    dsimp only
    rw [hskip]
    by_cases hcolon : (s ++ [0])[(b'.advance n).offset]? = some 58
    · have hcolonIn := lt_of_getElem? hcolon (by decide)
      obtain ⟨m, hskip', hm⟩ := bufferSkipWhitespace_spec (s := s)
        (b := (b'.advance n).advance 1) hcolonIn
      obtain ⟨r', hr', hspec'⟩ := hvalue _ _ hfresh hm
      change b'.offset + n < s.length at hcolonIn
      rw [if_pos hcolon, hskip', parseElement]
      change ∃ item r, ((value ⟨cJSONString, none, 0, zero, some name, []⟩
        (((b'.advance n).advance 1).advance m)) >>= _) = .ok (item, r) ∧ _
      rw [hr', ok_bind]
      cases r' with
      | fail b'' =>
        obtain ⟨hlive', hle'⟩ := hspec'
        change b''.live = b'.live at hlive'
        refine ⟨_, _, rfl, ?_, hle'⟩
        change b''.live + 1 = b.live + (Item.mk cJSONString none 0 zero (some name) []).blocks
        rw [hblocks]
        omega
      | ok item' b'' =>
        obtain ⟨hlt', hle', hlive', v, hvalid, hdepth, hitem⟩ := hspec'
        change b'.offset + n + 1 + m < b''.offset at hlt'
        rw [hblocks] at hlive'
        change b''.live + (2 : Nat) = b'.live + item'.blocks at hlive'
        exact ⟨_, _, rfl, by omega, hle', by omega, name, v, hname, hvalid, hdepth, hitem⟩
    · rw [if_neg hcolon]
      refine ⟨_, _, rfl, ?_, ?_⟩
      · change b'.live + 1 = b.live + (Item.mk cJSONString none 0 zero (some name) []).blocks
        rw [hblocks]
        omega
      · show b'.offset + n ≤ s.length + 1
        change b'.offset + n ≤ s.length at hn
        omega

theorem readsWord_spec {b : ParseBuffer} {word : Bytes} {c : UInt8}
    (h : readsWord (s ++ [0]) b (word ++ [c]) = true) (hc : c ≠ 0) :
    b.offset + (word ++ [c]).length ≤ s.length := by
  rw [readsWord, decide_eq_true_eq] at h
  have hget := List.prefix_iff_getElem?.mp h.2 word.length
    (by rw [List.length_append, List.length_singleton]; exact Nat.lt_succ_self _)
  rw [List.getElem?_drop, List.getElem_concat_length rfl] at hget
  have hin := lt_of_getElem? hget hc
  rw [List.length_append, List.length_singleton]
  omega

/-- A word that stands for a value without blocks of its own. -/
theorem word_sound {b : ParseBuffer} {item : Item} (hitem : Fresh item) (word : Bytes) {c : UInt8}
    (hword : readsWord (s ++ [0]) b (word ++ [c]) = true) (hc : c ≠ 0) {n : Nat}
    (hn : (word ++ [c]).length = n) (type : Nat) (hreference : type &&& cJSONIsReference = 0)
    (hconst : type &&& cJSONStringIsConst = 0) (valueint : Int) {v : Value} (hvalid : v.Valid)
    (hdepth : v.depth ≤ levels)
    (hv : Item.ofValue item.string v = { Item.new with type, valueint, string := item.string }) :
    SoundResult s levels item b (.ok { item with type, valueint } (b.advance n)) := by
  have hle := readsWord_spec hword hc
  rw [hn] at hle
  rw [List.length_append, List.length_singleton] at hn
  obtain ⟨_, -, heq⟩ := id hitem
  refine ⟨?_, hle, ?_, v, hvalid, hdepth, ?_⟩
  · show b.offset < b.offset + n
    omega
  · rw [hitem.blocks, Item.blocks_mk type hreference hconst, heq]
    rfl
  · rw [hv, heq]

theorem container_sound (type : Nat) (hreference : type &&& cJSONIsReference = 0)
    (hconst : type &&& cJSONStringIsConst = 0) {item : Item} (hitem : Fresh item)
    {b b' : ParseBuffer} {items : List Item} (hlive : b'.live = b.live + Item.blocksList items) :
    b'.live + item.blocks = b.live + ({ item with type, child := items } : Item).blocks := by
  obtain ⟨_, -, heq⟩ := id hitem
  rw [hitem.blocks, Item.blocks_mk type hreference hconst, hlive, heq]
  simp only [Item.new, Option.elim_none]
  omega

theorem parseArray_sound {value : Option Parser}
    (hvalue : ∀ p, value = some p → ∃ n, levels = n + 1 ∧ Sound s n p) {item : Item}
    (hitem : Fresh item) {b : ParseBuffer} (hin : b.offset < s.length) :
    ∃ r, parseArray grants (s ++ [0]) value item b = .ok r ∧ SoundResult s levels item b r := by
  cases value with
  | none => exact ⟨_, rfl, rfl, by omega⟩
  | some value =>
    obtain ⟨n, hlevels, hsound⟩ := hvalue value rfl
    obtain ⟨c, hc, -⟩ := exists_byteAt (s ++ [0]) b.offset
      (by rw [List.length_append]; omega)
    rw [parseArray, hc, ok_bind]
    by_cases h91 : c = 91
    · obtain ⟨r, hr, hspec⟩ := parseContents_spec grants cJSONArray
        (parseElement_sound hsound) (show (93 : UInt8) ≠ 0 by decide) item hin
      rw [if_neg (not_not_intro h91)]
      refine ⟨r, hr, ?_⟩
      cases r with
      | fail b' => exact hspec
      | ok item' b' =>
        obtain ⟨hlt, hle, hlive, items, rfl, hitems⟩ := hspec
        obtain ⟨vs, hvalid, hdepth, rfl⟩ := exists_ofValues hitems
        refine ⟨hlt, hle, container_sound cJSONArray rfl rfl hitem hlive, .array vs, hvalid, ?_, ?_⟩
        · show Value.depthList vs + 1 ≤ levels
          omega
        · obtain ⟨_, -, heq⟩ := hitem
          rw [heq]
          rfl
    · rw [if_pos h91]
      exact ⟨_, rfl, rfl, by omega⟩

theorem parseObject_sound {value : Option Parser}
    (hvalue : ∀ p, value = some p → ∃ n, levels = n + 1 ∧ Sound s n p) {item : Item}
    (hitem : Fresh item) {b : ParseBuffer} (hin : b.offset < s.length) :
    ∃ r, parseObject grants (s ++ [0]) value item b = .ok r ∧ SoundResult s levels item b r := by
  cases value with
  | none => exact ⟨_, rfl, rfl, by omega⟩
  | some value =>
    obtain ⟨n, hlevels, hsound⟩ := hvalue value rfl
    rw [parseObject]
    by_cases h123 : (s ++ [0])[b.offset]? = some 123
    · obtain ⟨r, hr, hspec⟩ := parseContents_spec grants cJSONObject
        (parseMember_sound grants hsound) (show (125 : UInt8) ≠ 0 by decide) item hin
      rw [if_neg (not_not_intro h123)]
      refine ⟨r, hr, ?_⟩
      cases r with
      | fail b' => exact hspec
      | ok item' b' =>
        obtain ⟨hlt, hle, hlive, items, rfl, hitems⟩ := hspec
        obtain ⟨ms, hvalid, hdepth, rfl⟩ := exists_ofMembers hitems
        refine ⟨hlt, hle, container_sound cJSONObject rfl rfl hitem hlive, .object ms, hvalid, ?_,
          ?_⟩
        · show Value.depthMembers ms + 1 ≤ levels
          omega
        · obtain ⟨_, -, heq⟩ := hitem
          rw [heq]
          rfl
    · rw [if_pos h123]
      exact ⟨_, rfl, rfl, by omega⟩

theorem parseString_sound {item : Item} (hitem : Fresh item) {b : ParseBuffer}
    (hin : b.offset < s.length) :
    ∃ r, parseString grants (s ++ [0]) item b = .ok r ∧ SoundResult s levels item b r := by
  have hlen : (s ++ [0]).length = s.length + 1 := by
    rw [List.length_append, List.length_singleton]
  obtain ⟨r, hr, hspec⟩ := exists_parseString grants (s ++ [0]) item (b := b) (by omega)
  refine ⟨r, hr, ?_⟩
  cases r with
  | fail b' => exact ⟨hspec.1, by omega⟩
  | ok item' b' =>
    obtain ⟨hlive, hlt, hle, hquote, t, ht, rfl⟩ := hspec
    have hend := lt_of_getElem? hquote (by decide)
    obtain ⟨_, -, heq⟩ := id hitem
    refine ⟨hlt, by omega, ?_, .string t, ht, Nat.zero_le _, ?_⟩
    · rw [hitem.blocks, Item.blocks_mk cJSONString rfl rfl, hlive, heq]
      simp only [Item.new, Item.blocksList, Option.elim_some]
      omega
    · rw [heq]
      rfl

theorem isNumeral_ne_zero {c : UInt8} (h : isNumeral c = true) : c ≠ 0 := by
  rintro rfl
  exact absurd h (by decide)

theorem parseNumber_sound {item : Item} (hitem : Fresh item) {b : ParseBuffer}
    (hin : b.offset < s.length) :
    ∃ r, parseNumber (s ++ [0]) item b = .ok r ∧ SoundResult s levels item b r := by
  obtain ⟨r, hr, hspec⟩ := exists_parseNumber (s ++ [0]) item b
  refine ⟨r, hr, ?_⟩
  cases r with
  | fail b' =>
    obtain rfl : b' = b := hspec
    exact ⟨rfl, by omega⟩
  | ok item' b' =>
    obtain ⟨d, i, n, hnan, hi, hpos, rfl, rfl, c, hc, hnumeral⟩ := hspec
    have hend := lt_of_getElem? hc (isNumeral_ne_zero hnumeral)
    obtain ⟨_, -, heq⟩ := id hitem
    refine ⟨?_, ?_, ?_, .number d, hnan, Nat.zero_le _, ?_⟩
    · show b.offset < b.offset + n
      omega
    · show b.offset + n ≤ s.length
      omega
    · rw [hitem.blocks, Item.blocks_mk cJSONNumber rfl rfl, heq]
      rfl
    · rw [Item.ofValue, hi, heq]
      rfl

theorem parseValueAt_sound {value : Option Parser}
    (hvalue : ∀ p, value = some p → ∃ n, levels = n + 1 ∧ Sound s n p) :
    Sound s levels (parseValueAt grants (s ++ [0]) value) := by
  intro item b hitem hoffset
  have hzero : item.valueint = 0 := by
    obtain ⟨_, -, heq⟩ := hitem
    rw [heq]
    rfl
  rw [parseValueAt]
  by_cases hnull : readsWord (s ++ [0]) b (bytes "null") = true
  · rw [if_pos hnull]
    exact ⟨_, rfl, word_sound hitem (bytes "nul") hnull (by decide) rfl cJSONNull rfl rfl
      item.valueint (v := .null) trivial (Nat.zero_le _) (by rw [hzero]; rfl)⟩
  rw [if_neg hnull]
  by_cases hfalse : readsWord (s ++ [0]) b (bytes "false") = true
  · rw [if_pos hfalse]
    exact ⟨_, rfl, word_sound hitem (bytes "fals") hfalse (by decide) rfl cJSONFalse rfl rfl
      item.valueint (v := .bool false) trivial (Nat.zero_le _) (by rw [hzero]; rfl)⟩
  rw [if_neg hfalse]
  by_cases htrue : readsWord (s ++ [0]) b (bytes "true") = true
  · rw [if_pos htrue]
    exact ⟨_, rfl, word_sound hitem (bytes "tru") htrue (by decide) rfl cJSONTrue rfl rfl
      1 (v := .bool true) trivial (Nat.zero_le _) rfl⟩
  rw [if_neg htrue]
  cases hget : (s ++ [0])[b.offset]? with
  | none => exact ⟨_, rfl, rfl, by omega⟩
  | some c =>
    dsimp only
    by_cases h34 : c = 34
    · rw [if_pos h34]
      exact parseString_sound grants hitem (lt_of_getElem? hget (by rw [h34]; decide))
    rw [if_neg h34]
    by_cases hnum : c = 45 ∨ isDigit c = true
    · rw [if_pos hnum]
      refine parseNumber_sound hitem (lt_of_getElem? hget ?_)
      rintro rfl
      exact absurd hnum (by decide)
    rw [if_neg hnum]
    by_cases h91 : c = 91
    · rw [if_pos h91]
      exact parseArray_sound grants hvalue hitem (lt_of_getElem? hget (by rw [h91]; decide))
    rw [if_neg h91]
    by_cases h123 : c = 123
    · rw [if_pos h123]
      exact parseObject_sound grants hvalue hitem (lt_of_getElem? hget (by rw [h123]; decide))
    rw [if_neg h123]
    exact ⟨_, rfl, rfl, by omega⟩

theorem parseValue_sound (levels : Nat) :
    Sound s levels (parseValue grants (s ++ [0]) levels) := by
  induction levels with
  | zero => exact parseValueAt_sound grants fun p hp => by cases hp
  | succ levels ih =>
    refine parseValueAt_sound grants fun p hp => ⟨levels, rfl, ?_⟩
    obtain rfl := Option.some.inj hp
    exact ih

end

theorem skipUtf8Bom_spec {s : Bytes} (b : ParseBuffer) (hoffset : b.offset ≤ s.length) :
    (skipUtf8Bom (s ++ [0]) b).offset ≤ s.length ∧ (skipUtf8Bom (s ++ [0]) b).live = b.live := by
  rw [skipUtf8Bom, List.length_append, List.length_singleton]
  split
  · next h =>
    refine ⟨?_, rfl⟩
    show b.offset + 3 ≤ s.length
    omega
  · exact ⟨hoffset, rfl⟩

theorem parseFailed_position (s : Bytes) (b : ParseBuffer) :
    (parseFailed (s ++ [0]) b).position ≤ s.length := by
  show (if b.offset < (s ++ [0]).length then b.offset else (s ++ [0]).length - 1) ≤ s.length
  rw [List.length_append, List.length_singleton]
  split <;> omega

/-- The parser never leaves the text or a block that it got.  It returns the item for a value, or
`NULL`, whatever the text and wherever memory runs out, and in each case the item accounts for all
the blocks that are still held. -/
theorem parseWithOpts_spec (grants : Nat → Bool) (value : Bytes) (requireNullTerminated : Bool)
    (live : Int) :
    ∃ r, parseWithOpts grants value requireNullTerminated live = .ok r ∧
      r.position ≤ (cStr value).length ∧ r.live = live + (r.item.elim 0 Item.blocks : Nat) ∧
      ∀ item, r.item = some item →
        (∃ v : Value, v.Valid ∧ v.depth ≤ nestingLimit ∧ item = Item.ofValue none v) ∧
        (requireNullTerminated = true → r.position = (cStr value).length) := by
  have hnul := zero_not_mem_cStr value
  rw [parseWithOpts]
  generalize cStr value = s at hnul
  rw [ParseBuffer.allocate]
  by_cases hgrant : grants 0 = true
  · rw [if_pos hgrant]
    obtain ⟨hbom, hbomLive⟩ := skipUtf8Bom_spec (s := s) ⟨0, 1, live + 1⟩ (Nat.zero_le _)
    change _ = live + 1 at hbomLive
    obtain ⟨n, hskip, hn⟩ := bufferSkipWhitespace_spec hbom
    obtain ⟨parsed, hparsed, hspec⟩ := parseValue_sound grants nestingLimit Item.new _ fresh_new hn
    have hnew : Item.new.blocks = 1 := rfl
    rw [← hskip] at hparsed hspec
    dsimp only
    rw [hparsed, ok_bind]
    cases parsed with
    | fail b =>
      obtain ⟨hlive, -⟩ := hspec
      rw [hskip] at hlive
      change b.live = (skipUtf8Bom (s ++ [0]) ⟨0, 1, live + 1⟩).live at hlive
      refine ⟨_, rfl, parseFailed_position s _, ?_, fun item h => by cases h⟩
      show b.live - Item.new.blocks = live + (0 : Nat)
      rw [hnew]
      omega
    | ok item b =>
      obtain ⟨-, hle, hlive, hvalue⟩ := hspec
      rw [hskip, hnew] at hlive
      change b.live + (1 : Nat) =
        (skipUtf8Bom (s ++ [0]) ⟨0, 1, live + 1⟩).live + item.blocks at hlive
      have hheld : b.live = live + item.blocks := by omega
      cases requireNullTerminated with
      | false =>
        refine ⟨_, rfl, hle, hheld, fun item' h => ?_⟩
        obtain rfl := Option.some.inj h
        exact ⟨hvalue, fun h => by cases h⟩
      | true =>
        obtain ⟨m, hskip', hm⟩ := bufferSkipWhitespace_spec hle
        dsimp only
        rw [if_pos rfl, hskip']
        by_cases hend : (s ++ [0])[(b.advance m).offset]? = some 0
        · rw [if_neg (not_not_intro hend)]
          refine ⟨_, rfl, hm, hheld, fun item' h => ?_⟩
          obtain rfl := Option.some.inj h
          refine ⟨hvalue, fun _ => Nat.le_antisymm hm ?_⟩
          by_contra hlt
          rw [List.getElem?_append_left (Nat.lt_of_not_le hlt)] at hend
          exact hnul (List.mem_of_getElem? hend)
        · rw [if_pos hend]
          refine ⟨_, rfl, parseFailed_position s _, ?_, fun item' h => by cases h⟩
          show b.live - item.blocks = live + (0 : Nat)
          omega
  · rw [if_neg hgrant]
    refine ⟨_, rfl, parseFailed_position s _, ?_, fun item h => by cases h⟩
    exact (Int.add_zero live).symm

end Cjson
end LinuxPrograming
