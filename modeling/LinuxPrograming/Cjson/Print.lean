import LinuxPrograming.Cjson.Number
import LinuxPrograming.Cjson.PrintBuffer

/-!
# The printer

`print_value` and what it calls, against the text of an item.  `cJSON_Print` returns this text,
and `cJSON_PrintPreallocated` puts it into the caller's buffer, or they fail for lack of room or
memory.
-/

namespace LinuxPrograming
namespace Cjson

open Lib Gateway

/-! ## The text of an item -/

/-- How many characters more an escape sequence for `c` has. -/
def escapeCharacters (c : UInt8) : Nat :=
  if c = 34 ∨ c = 92 ∨ c = 8 ∨ c = 12 ∨ c = 10 ∨ c = 13 ∨ c = 9 then 1
  else if c < 32 then 5
  else 0

def hexChar (n : Nat) : UInt8 := if n < 10 then UInt8.ofNat (48 + n) else UInt8.ofNat (87 + n)

/-- What stands behind the backslash. -/
def escapeTail (c : UInt8) : Bytes :=
  if c = 92 then [92]
  else if c = 34 then [34]
  else if c = 8 then [98]
  else if c = 12 then [102]
  else if c = 10 then [110]
  else if c = 13 then [114]
  else if c = 9 then [116]
  else [117, 48, 48, hexChar (c.toNat / 16), hexChar (c.toNat % 16)]

def escapeText (c : UInt8) : Bytes :=
  if 31 < c ∧ c ≠ 34 ∧ c ≠ 92 then [c] else 92 :: escapeTail c

/-- A string in quotes. -/
def quoted (string : Option Bytes) : Bytes :=
  match string with
  | none => [34, 34]
  | some s => 34 :: ((cStr s).flatMap escapeText ++ [34])

/-- Tabs in a formatted text. -/
def tabs (format : Bool) (n : Nat) : Bytes := if format then List.replicate n 9 else []

/-- `c` in a formatted text. -/
def formatted (format : Bool) (c : UInt8) : Bytes := if format then [c] else []

/-- Behind an element that is not the last. -/
def elementEnd (format : Bool) (items : List Item) : Bytes :=
  if items.isEmpty then [] else 44 :: formatted format 32

/-- Behind a member. -/
def memberEnd (format : Bool) (items : List Item) : Bytes :=
  (if items.isEmpty then [] else [44]) ++ formatted format 10

mutual

/-- What `print_value` prints, when there is a text for the item. -/
def Item.text (format : Bool) (depth : Nat) : Item → Option Bytes
  | ⟨type, valuestring, _, valuedouble, _, child⟩ =>
    let kind := type &&& 0xFF
    if kind = cJSONNull then some (bytes "null")
    else if kind = cJSONFalse then some (bytes "false")
    else if kind = cJSONTrue then some (bytes "true")
    else if kind = cJSONNumber then some (numberText valuedouble)
    else if kind = cJSONRaw then valuestring.map cStr
    else if kind = cJSONString then some (quoted valuestring)
    else if kind = cJSONArray then
      cat (some [91]) (cat (Item.textElements format (depth + 1) child) (some [93]))
    else if kind = cJSONObject then
      cat (some (123 :: formatted format 10))
        (cat (Item.textMembers format (depth + 1) child) (some (tabs format depth ++ [125])))
    else none

def Item.textElements (format : Bool) (depth : Nat) : List Item → Option Bytes
  | [] => some []
  | item :: items =>
    cat (item.text format depth)
      (cat (some (elementEnd format items)) (Item.textElements format depth items))

def Item.textMembers (format : Bool) (depth : Nat) : List Item → Option Bytes
  | [] => some []
  | item :: items =>
    cat (some (tabs format depth)) (cat (some (quoted item.string))
      (cat (some (58 :: formatted format 9)) (cat (item.text format depth)
        (cat (some (memberEnd format items)) (Item.textMembers format depth items)))))

end

/-! ## Printing -/

/-- The stores of `print_string_ptr`. -/
def putQuoted (outputLength : Nat) (body : Bytes) (p : PrintBuffer) : Checked PrintBuffer := do
  let p ← p.put 0 [34]
  let p ← p.put 1 body
  p.put (outputLength + 1) [34, 0]

/-- `print_string_ptr`. -/
def printStringPtr (m : PrintMode) (input : Option Bytes) : Printer :=
  match input with
  | none => Printer.emit m 3 ([34, 34] ++ [0]) 0
  | some input => fun p => do
    let s := cStr input
    let escape := (s.map escapeCharacters).sum
    let outputLength := s.length + escape
    let (ok, p) ← p.ensure m (outputLength + 3)
    if ok then
      let p ← putQuoted outputLength (if escape = 0 then s else s.flatMap escapeText) p
      pure (true, p)
    else pure (false, p)

/-- `print_number`.  A text that does not fit `number_buffer` is refused. -/
def printNumber (m : PrintMode) (d : Double) : Printer :=
  let text := numberText d
  if 25 < text.length then Printer.failed
  else Printer.emit m (text.length + 1) (text ++ [0]) text.length

/-- The tabs in front of a member. -/
def printIndent (m : PrintMode) : Printer :=
  if m.format then fun p => Printer.emit m p.depth (List.replicate p.depth 9) p.depth p
  else Printer.nothing

/-- What stands behind the last member, in front of the depth. -/
def printClose (m : PrintMode) : Printer := fun p =>
  Printer.emit m (if m.format then p.depth + 1 else 2)
    (tabs m.format (p.depth - 1) ++ [125] ++ [0]) 0 p

mutual

/-- `print_value`, `print_array` and `print_object`. -/
def printValue (m : PrintMode) : Item → Printer
  | ⟨type, valuestring, _, valuedouble, _, child⟩ =>
    let kind := type &&& 0xFF
    if kind = cJSONNull then Printer.emit m 5 (bytes "null" ++ [0]) 0
    else if kind = cJSONFalse then Printer.emit m 6 (bytes "false" ++ [0]) 0
    else if kind = cJSONTrue then Printer.emit m 5 (bytes "true" ++ [0]) 0
    else if kind = cJSONNumber then printNumber m valuedouble
    else if kind = cJSONRaw then
      match valuestring with
      | none => Printer.failed
      | some raw => Printer.emit m ((cStr raw).length + 1) (cStr raw ++ [0]) 0
    else if kind = cJSONString then printStringPtr m valuestring
    else if kind = cJSONArray then
      (Printer.emit m 1 [91] 1).andThen (Printer.deepen.andThen ((printElements m child).andThen
        ((Printer.emit m 2 ([93] ++ [0]) 0).andThen Printer.rise)))
    else if kind = cJSONObject then
      (Printer.emit m (if m.format then 3 else 2) (123 :: formatted m.format 10)
        (if m.format then 2 else 1)).andThen (Printer.deepen.andThen
          ((printMembers m child).andThen ((printClose m).andThen Printer.rise)))
    else Printer.failed

/-- The loop of `print_array`. -/
def printElements (m : PrintMode) : List Item → Printer
  | [] => Printer.nothing
  | item :: items =>
    ((printValue m item).andThen Printer.updated).andThen
      ((if items.isEmpty then Printer.nothing
        else Printer.emit m (if m.format then 3 else 2) (elementEnd m.format items ++ [0])
          (if m.format then 2 else 1)).andThen (printElements m items))

/-- The loop of `print_object`. -/
def printMembers (m : PrintMode) : List Item → Printer
  | [] => Printer.nothing
  | item :: items =>
    (printIndent m).andThen (((printStringPtr m item.string).andThen Printer.updated).andThen
      ((Printer.emit m (if m.format then 2 else 1) (58 :: formatted m.format 9)
        (if m.format then 2 else 1)).andThen
        (((printValue m item).andThen Printer.updated).andThen
          ((Printer.emit m ((memberEnd m.format items).length + 1) (memberEnd m.format items ++ [0])
            (memberEnd m.format items).length).andThen (printMembers m items)))))

end

/-! ## What is printed -/

theorem length_escapeText (c : UInt8) : (escapeText c).length = 1 + escapeCharacters c := by
  have hall : ∀ n < 256, (escapeText (UInt8.ofNat n)).length =
      1 + escapeCharacters (UInt8.ofNat n) := by decide +kernel
  have hc := hall c.toNat c.toNat_lt
  rwa [UInt8.ofNat_toNat] at hc

theorem zero_not_mem_escapeText (c : UInt8) (hc : c ≠ 0) : 0 ∉ escapeText c := by
  have hall : ∀ n < 256, n ≠ 0 → 0 ∉ escapeText (UInt8.ofNat n) := by decide +kernel
  have h := hall c.toNat c.toNat_lt (fun h => hc (UInt8.toNat_inj.mp h))
  rwa [UInt8.ofNat_toNat] at h

theorem length_escaped (s : Bytes) :
    (s.flatMap escapeText).length = s.length + (s.map escapeCharacters).sum := by
  induction s with
  | nil => rfl
  | cons c s ih =>
    rw [List.flatMap_cons, List.length_append, length_escapeText, ih, List.map_cons,
      List.sum_cons, List.length_cons]
    omega

/-- Where no character has to be escaped, the string is copied. -/
theorem escaped_eq_self {s : Bytes} (h : (s.map escapeCharacters).sum = 0) :
    s.flatMap escapeText = s := by
  induction s with
  | nil => rfl
  | cons c s ih =>
    rw [List.map_cons, List.sum_cons] at h
    have hall : ∀ n < 256, escapeCharacters (UInt8.ofNat n) = 0 →
        escapeText (UInt8.ofNat n) = [UInt8.ofNat n] := by decide +kernel
    have hc := hall c.toNat c.toNat_lt
    rw [UInt8.ofNat_toNat] at hc
    rw [List.flatMap_cons, hc (by omega), ih (by omega)]
    rfl

theorem zero_not_mem_quoted (string : Option Bytes) : 0 ∉ quoted string := by
  cases string with
  | none => decide
  | some s =>
    intro h
    simp only [quoted, List.mem_cons, List.mem_append, List.mem_flatMap, List.not_mem_nil,
      or_false] at h
    rcases h with h | ⟨c, hc, h⟩ | h
    · exact absurd h (by decide)
    · refine zero_not_mem_escapeText c ?_ h
      rintro rfl
      exact zero_not_mem_cStr s hc
    · exact absurd h (by decide)

theorem zero_not_mem_numberText (d : Double) : 0 ∉ numberText d := by
  intro h
  cases d with
  | finite neg mag => exact absurd (isNumeral_numberText h) (by decide)
  | inf neg =>
    change 0 ∈ bytes "null" at h
    exact absurd h (by decide)
  | nan => exact absurd h (by decide)

section

variable {m : PrintMode} {d : Nat}

/-- Bytes stored over others of the same number. -/
theorem put_replace (p : PrintBuffer) (x rest bs : Bytes) {y : Bytes} (i : Nat)
    (hi : p.offset + i = x.length) (hbs : bs.length = y.length) :
    ({ p with buffer := some (x ++ (y ++ rest)) } : PrintBuffer).put i bs =
      .ok { p with buffer := some (x ++ (bs ++ rest)) } := by
  rw [PrintBuffer.put]
  dsimp only
  rw [store_append hi.symm hbs.symm]
  rfl

theorem putQuoted_spec {p : PrintBuffer} {t rest : Bytes} (body : Bytes)
    (hbuffer : p.buffer = some (t ++ rest)) (hoffset : p.offset = t.length)
    (hroom : body.length + 3 ≤ rest.length) :
    ∃ rest', (t ++ rest).length = (t ++ ([34] ++ (body ++ [34]) ++ 0 :: rest')).length ∧
      putQuoted body.length body p =
        .ok { p with buffer := some (t ++ ([34] ++ (body ++ [34]) ++ 0 :: rest')) } := by
  obtain ⟨a, b, c, r, rfl, ha, hb, hc⟩ : ∃ a b c r, rest = a ++ (b ++ (c ++ r)) ∧
      a.length = 1 ∧ b.length = body.length ∧ c.length = 2 := by
    refine ⟨rest.take 1, (rest.drop 1).take body.length, ((rest.drop 1).drop body.length).take 2,
      ((rest.drop 1).drop body.length).drop 2, ?_, ?_, ?_, ?_⟩
    · rw [List.take_append_drop, List.take_append_drop, List.take_append_drop]
    · rw [List.length_take]
      omega
    · rw [List.length_take, List.length_drop]
      omega
    · rw [List.length_take, List.length_drop, List.length_drop]
      omega
  have hp : p = { p with buffer := some (t ++ (a ++ (b ++ (c ++ r)))) } := by rw [← hbuffer]
  have hopen := put_replace p t (b ++ (c ++ r)) [34] 0 hoffset ha.symm
  have hbody := put_replace p (t ++ [34]) (c ++ r) body 1
    (by rw [List.length_append, List.length_singleton, hoffset]) hb.symm
  have hclose := put_replace p (t ++ [34] ++ body) r [34, 0] (body.length + 1)
    (by rw [List.length_append, List.length_append, List.length_singleton, hoffset]; omega) hc.symm
  refine ⟨r, ?_, ?_⟩
  · simp only [List.length_append, List.length_cons, List.length_nil]
    omega
  · rw [putQuoted, hp, hopen, ok_bind, ← List.append_assoc t, hbody, ok_bind,
      ← List.append_assoc (t ++ [34]), hclose]
    simp only [List.append_assoc, List.cons_append, List.nil_append]

theorem printStringPtr_prints (input : Option Bytes) :
    Prints m d d (some (quoted input)) (printStringPtr m input) := by
  cases input with
  | none => exact prints_emit rfl (Nat.zero_le _)
  | some input =>
    have hlen := length_escaped (cStr input)
    generalize hs : cStr input = s at hlen
    have hcopy : (if (s.map escapeCharacters).sum = 0 then s else s.flatMap escapeText) =
        s.flatMap escapeText := by
      split
      · next h => exact (escaped_eq_self h).symm
      · rfl
    have hquoted : quoted (some input) = [34] ++ (s.flatMap escapeText ++ [34]) := by
      rw [quoted, hs]
      rfl
    intro p t hp
    obtain ⟨ok, p', hensure, hspec⟩ := ensure_spec hp
      (s.length + (s.map escapeCharacters).sum + 3)
    rw [printStringPtr]
    dsimp only
    rw [hs, hensure, hcopy, ← hlen, hquoted]
    rw [← hlen] at hspec
    cases ok with
    | false =>
      refine ⟨false, p', rfl, hspec.1, fun v hv => ?_⟩
      obtain rfl := Option.some.inj hv
      refine hspec.2.mono (Kept.refl m p) ?_
      simp only [List.length_append, List.length_singleton]
      omega
    | true =>
      obtain ⟨rest, hbuffer, hplen⟩ := hspec.text
      have hoffset := hspec.offset
      have hroom := hspec.room
      rw [hplen, List.length_append] at hroom
      obtain ⟨rest', hlen', hput⟩ := putQuoted_spec (s.flatMap escapeText) hbuffer hoffset
        (by omega)
      refine ⟨true, { p' with
          buffer := some (t ++ ([34] ++ (s.flatMap escapeText ++ [34]) ++ 0 :: rest')) },
        ?_, hspec.kept.trans ⟨Nat.le_refl _, rfl, fun _ => rfl⟩, _, rfl, ⟨rest', rfl, ?_⟩, ?_, ?_,
        ?_, hspec.bound, hspec.depth⟩
      · show (putQuoted (s.flatMap escapeText).length (s.flatMap escapeText) p' >>= _) = _
        rw [hput]
        rfl
      · exact hplen.trans hlen'
      · exact Nat.le_of_eq hoffset.symm
      · show p'.offset ≤ _
        omega
      · simp only [List.length_append, List.length_singleton]
        show _ ≤ p'.length
        rw [hplen, List.length_append]
        omega

theorem printNumber_prints (n : Double) :
    Prints m d d (some (numberText n)) (printNumber m n) := by
  have hlen := length_numberText_le n
  rw [printNumber, if_neg (by omega)]
  exact prints_emit rfl (Nat.le_refl _)

theorem printIndent_step : Step m d d (some (tabs m.format d)) (printIndent m) := by
  rw [printIndent, tabs]
  by_cases hformat : m.format = true
  · rw [if_pos hformat, if_pos hformat]
    have hlen : (List.replicate d (9 : UInt8)).length = d := List.length_replicate
    refine Step.of_depth (g := Printer.emit m d (List.replicate d 9) d) ?_ ?_
    · intro p hp
      rw [hp]
    · have hemit := step_emit (m := m) (d := d) (v := List.replicate d 9) (z := [])
        (Nat.le_of_eq hlen) (by rw [hlen]; exact Nat.le_succ d)
        (by rw [List.append_nil, hlen]; exact Nat.le_succ d)
      rwa [List.append_nil, hlen] at hemit
  · rw [if_neg hformat, if_neg hformat]
    exact step_nothing

theorem printClose_prints :
    Prints m (d + 1) (d + 1) (some (tabs m.format d ++ [125])) (printClose m) := by
  refine Prints.of_depth (g := Printer.emit m (if m.format then d + 1 + 1 else 2)
    (tabs m.format d ++ [125] ++ [0]) 0) ?_ ?_
  · intro p hp
    rw [printClose, hp]
    rfl
  · refine prints_emit ?_ (Nat.zero_le _)
    rw [tabs, List.length_append, List.length_singleton]
    by_cases hformat : m.format = true
    · rw [if_pos hformat, if_pos hformat, List.length_replicate]
    · rw [if_neg hformat, if_neg hformat]
      rfl

theorem length_formatted (format : Bool) (c : UInt8) :
    (formatted format c).length + 1 = if format then 2 else 1 := by
  cases format <;> rfl

/-- A character, and another one in a formatted text. -/
theorem step_formatted (a c : UInt8) (needed : Nat) (hlow : (if m.format then 2 else 1) ≤ needed)
    (hneeded : needed ≤ (if m.format then 2 else 1) + 1) (z : Bytes) (hz : z.length ≤ 1) :
    Step m d d (some (a :: formatted m.format c))
      (Printer.emit m needed (a :: formatted m.format c ++ z) (if m.format then 2 else 1)) := by
  have hlen := length_formatted m.format c
  rw [← hlen] at hlow hneeded ⊢
  exact step_emit (v := a :: formatted m.format c) hlow hneeded
    (by rw [List.length_append, List.length_cons]; omega)

end

/-- The text is a C string. -/
def NoNul (u : Option Bytes) : Prop := ∀ t, u = some t → 0 ∉ t

theorem noNul_some {t : Bytes} (h : 0 ∉ t) : NoNul (some t) := by
  intro v hv
  rw [← Option.some.inj hv]
  exact h

theorem NoNul.cat {u w : Option Bytes} (hu : NoNul u) (hw : NoNul w) : NoNul (cat u w) := by
  intro t ht
  obtain ⟨a, rfl, ha⟩ := Option.bind_eq_some_iff.mp ht
  obtain ⟨b, rfl, rfl⟩ := Option.map_eq_some_iff.mp ha
  intro h
  rcases List.mem_append.mp h with h | h
  · exact hu a rfl h
  · exact hw b rfl h

theorem zero_not_mem_formatted (format : Bool) {c : UInt8} (hc : c ≠ 0) :
    0 ∉ formatted format c := by
  cases format with
  | true => exact fun h => hc (List.mem_singleton.mp h).symm
  | false => exact List.not_mem_nil

theorem zero_not_mem_tabs (format : Bool) (n : Nat) : 0 ∉ tabs format n := by
  cases format with
  | true => exact fun h => absurd (List.eq_of_mem_replicate h) (by decide)
  | false => exact List.not_mem_nil

theorem zero_not_mem_cons {c : UInt8} (hc : c ≠ 0) {t : Bytes} (ht : 0 ∉ t) : 0 ∉ c :: t := by
  intro h
  rcases List.mem_cons.mp h with h | h
  · exact hc h.symm
  · exact ht h

theorem zero_not_mem_elementEnd (format : Bool) (items : List Item) :
    0 ∉ elementEnd format items := by
  rw [elementEnd]
  split
  · exact List.not_mem_nil
  · exact zero_not_mem_cons (by decide) (zero_not_mem_formatted format (by decide))

theorem zero_not_mem_memberEnd (format : Bool) (items : List Item) :
    0 ∉ memberEnd format items := by
  have hline := zero_not_mem_formatted format (c := 10) (by decide)
  rw [memberEnd]
  split
  · exact hline
  · exact zero_not_mem_cons (by decide) hline

mutual

theorem Item.noNul_text (format : Bool) : (item : Item) → (depth : Nat) →
    NoNul (item.text format depth)
  | ⟨type, valuestring, _, valuedouble, _, child⟩, depth => by
    have hbracket : NoNul (some [93]) := noNul_some (by decide)
    have hbrace : 0 ∉ tabs format depth ++ [125] := by
      intro h
      rcases List.mem_append.mp h with h | h
      · exact zero_not_mem_tabs format depth h
      · exact absurd h (by decide)
    rw [Item.text]
    split
    · exact noNul_some (by decide)
    split
    · exact noNul_some (by decide)
    split
    · exact noNul_some (by decide)
    split
    · exact noNul_some (zero_not_mem_numberText valuedouble)
    split
    · intro t ht
      obtain ⟨raw, -, rfl⟩ := Option.map_eq_some_iff.mp ht
      exact zero_not_mem_cStr raw
    split
    · exact noNul_some (zero_not_mem_quoted valuestring)
    split
    · exact (noNul_some (by decide)).cat
        ((Item.noNul_textElements format child (depth + 1)).cat hbracket)
    split
    · exact (noNul_some (zero_not_mem_cons (by decide)
        (zero_not_mem_formatted format (by decide)))).cat
        ((Item.noNul_textMembers format child (depth + 1)).cat (noNul_some hbrace))
    · intro t ht
      cases ht

theorem Item.noNul_textElements (format : Bool) : (items : List Item) → (depth : Nat) →
    NoNul (Item.textElements format depth items)
  | [], _ => noNul_some List.not_mem_nil
  | item :: items, depth => (Item.noNul_text format item depth).cat
      ((noNul_some (zero_not_mem_elementEnd format items)).cat
        (Item.noNul_textElements format items depth))

theorem Item.noNul_textMembers (format : Bool) : (items : List Item) → (depth : Nat) →
    NoNul (Item.textMembers format depth items)
  | [], _ => noNul_some List.not_mem_nil
  | item :: items, depth => (noNul_some (zero_not_mem_tabs format depth)).cat
      ((noNul_some (zero_not_mem_quoted item.string)).cat
        ((noNul_some (zero_not_mem_cons (by decide)
          (zero_not_mem_formatted format (by decide)))).cat
          ((Item.noNul_text format item depth).cat
            ((noNul_some (zero_not_mem_memberEnd format items)).cat
              (Item.noNul_textMembers format items depth)))))

end

theorem cat_nil (u : Option Bytes) : cat (some []) u = u := by
  cases u <;> rfl

mutual

/-- `print_value` prints the text of the item. -/
theorem printValue_prints (m : PrintMode) : (item : Item) → (d : Nat) →
    Prints m d d (item.text m.format d) (printValue m item)
  | ⟨type, valuestring, _, valuedouble, _, child⟩, d => by
    have hwrapped : ∀ {u w v : Option Bytes} {f g h : Printer}, Step m d d u f →
        Step m (d + 1) (d + 1) w g → Prints m (d + 1) (d + 1) v h →
        Prints m d d (cat u (cat w v))
          (f.andThen (Printer.deepen.andThen (g.andThen (h.andThen Printer.rise)))) := by
      intro u w v f g h hf hg hh
      have hrest := step_deepen.andThen_prints (hg.andThen_prints hh.rise)
      rw [cat_nil] at hrest
      exact hf.andThen_prints hrest
    rw [Item.text, printValue.eq_def]
    dsimp only
    by_cases hnull : type &&& 0xFF = cJSONNull
    · rw [if_pos hnull, if_pos hnull]
      exact prints_emit rfl (Nat.zero_le _)
    rw [if_neg hnull, if_neg hnull]
    by_cases hfalse : type &&& 0xFF = cJSONFalse
    · rw [if_pos hfalse, if_pos hfalse]
      exact prints_emit rfl (Nat.zero_le _)
    rw [if_neg hfalse, if_neg hfalse]
    by_cases htrue : type &&& 0xFF = cJSONTrue
    · rw [if_pos htrue, if_pos htrue]
      exact prints_emit rfl (Nat.zero_le _)
    rw [if_neg htrue, if_neg htrue]
    by_cases hnumber : type &&& 0xFF = cJSONNumber
    · rw [if_pos hnumber, if_pos hnumber]
      exact printNumber_prints valuedouble
    rw [if_neg hnumber, if_neg hnumber]
    by_cases hraw : type &&& 0xFF = cJSONRaw
    · rw [if_pos hraw, if_pos hraw]
      cases valuestring with
      | none => exact prints_failed
      | some raw => exact prints_emit rfl (Nat.zero_le _)
    rw [if_neg hraw, if_neg hraw]
    by_cases hstring : type &&& 0xFF = cJSONString
    · rw [if_pos hstring, if_pos hstring]
      exact printStringPtr_prints valuestring
    rw [if_neg hstring, if_neg hstring]
    by_cases harray : type &&& 0xFF = cJSONArray
    · rw [if_pos harray, if_pos harray]
      have hopen : Step m d d (some [91]) (Printer.emit m 1 [91] 1) :=
        step_emit (v := [91]) (z := []) (Nat.le_refl 1) (Nat.le_succ 1) (Nat.le_succ 1)
      exact hwrapped hopen (printElements_step m child (d + 1)) (prints_emit rfl (Nat.zero_le _))
    rw [if_neg harray, if_neg harray]
    by_cases hobject : type &&& 0xFF = cJSONObject
    · rw [if_pos hobject, if_pos hobject]
      have hopen : Step m d d (some (123 :: formatted m.format 10))
          (Printer.emit m (if m.format then 3 else 2) (123 :: formatted m.format 10)
            (if m.format then 2 else 1)) := by
        have hemit := step_formatted (m := m) (d := d) 123 10 (if m.format then 3 else 2)
          (by split <;> decide) (by split <;> decide) [] (Nat.zero_le 1)
        rwa [List.append_nil] at hemit
      exact hwrapped hopen (printMembers_step m child (d + 1)) printClose_prints
    rw [if_neg hobject, if_neg hobject]
    exact prints_failed

theorem printElements_step (m : PrintMode) : (items : List Item) → (d : Nat) →
    Step m d d (Item.textElements m.format d items) (printElements m items)
  | [], d => step_nothing
  | item :: items, d => by
    have hvalue := (printValue_prints m item d).updated (Item.noNul_text m.format item d)
    have hrest := printElements_step m items d
    have hend : Step m d d (some (elementEnd m.format items)) (if items.isEmpty then Printer.nothing
        else Printer.emit m (if m.format then 3 else 2) (elementEnd m.format items ++ [0])
          (if m.format then 2 else 1)) := by
      rw [elementEnd]
      by_cases hempty : items.isEmpty = true
      · rw [if_pos hempty, if_pos hempty]
        exact step_nothing
      · rw [if_neg hempty, if_neg hempty]
        refine step_formatted 44 32 _ ?_ ?_ [0] (Nat.le_refl 1)
        · split <;> decide
        · split <;> decide
    exact hvalue.andThen (hend.andThen hrest)

theorem printMembers_step (m : PrintMode) : (items : List Item) → (d : Nat) →
    Step m d d (Item.textMembers m.format d items) (printMembers m items)
  | [], d => step_nothing
  | item :: items, d => by
    have hname := (printStringPtr_prints (m := m) (d := d) item.string).updated
      (noNul_some (zero_not_mem_quoted item.string))
    have hvalue := (printValue_prints m item d).updated (Item.noNul_text m.format item d)
    have hrest := printMembers_step m items d
    have hcolon : Step m d d (some (58 :: formatted m.format 9))
        (Printer.emit m (if m.format then 2 else 1) (58 :: formatted m.format 9)
          (if m.format then 2 else 1)) := by
      have hemit := step_formatted (m := m) (d := d) 58 9 _ (Nat.le_refl _)
        (Nat.le_succ _) [] (Nat.zero_le 1)
      rwa [List.append_nil] at hemit
    have hend : Step m d d (some (memberEnd m.format items))
        (Printer.emit m ((memberEnd m.format items).length + 1) (memberEnd m.format items ++ [0])
          (memberEnd m.format items).length) :=
      step_emit (Nat.le_succ _) (Nat.le_refl _)
        (by rw [List.length_append, List.length_singleton]; exact Nat.le_succ _)
    exact printIndent_step.andThen (hname.andThen (hcolon.andThen (hvalue.andThen
      (hend.andThen hrest))))

end

/-! ## What the callers get -/

/-- The result of `print`: the block, or `none` for `NULL`. -/
structure Printed where
  block : Option Bytes
  asked : Nat
  live : Int

/-- The end of `print`: a block of the size of the text. -/
def fitBlock (m : PrintMode) (p : PrintBuffer) : Checked Printed :=
  match p.buffer with
  | none => throw .null
  | some mem =>
    if m.grants p.asked = false then pure ⟨none, p.asked + 1, p.live - 1⟩
    else if m.reallocate then
      pure ⟨some (PrintBuffer.grow (m.fresh p.asked) (mem.take (p.offset + 1)) (p.offset + 1)),
        p.asked + 1, p.live⟩
    else do
      let copied := mem.take (min p.length (p.offset + 1))
      let printed ← store (PrintBuffer.grow (m.fresh p.asked) copied (p.offset + 1)) p.offset [0]
      pure ⟨some printed, p.asked + 1, p.live + 1 - 1⟩

/-- `print`, which is `cJSON_Print` with `format` set and `cJSON_PrintUnformatted` without. -/
def print (m : PrintMode) (item : Item) (asked : Nat) (live : Int) : Checked Printed :=
  let m := { m with noalloc := false }
  if m.grants asked = false then pure ⟨none, asked + 1, live⟩
  else do
    let (ok, p) ← printValue m item
      ⟨some (PrintBuffer.grow (m.fresh asked) [] 256), 256, 0, 0, asked + 1, live + 1⟩
    if ok then
      let p ← p.updateOffset
      fitBlock m p
    else pure ⟨none, p.asked, p.live - if p.buffer.isSome then 1 else 0⟩

/-- `cJSON_PrintPreallocated`: whether it succeeds, and the caller's buffer behind. -/
def printPreallocated (m : PrintMode) (item : Item) (buf : Bytes) (len : Int) :
    Checked (Bool × Option Bytes) :=
  if len < 0 then pure (false, some buf)
  else do
    let (ok, p) ← printValue { m with noalloc := true } item ⟨some buf, len.toNat, 0, 0, 0, 0⟩
    pure (ok, p.buffer)

section

variable {m : PrintMode} {item : Item}

/-- The print functions start with an empty text. -/
theorem holds_nil {buf : Bytes} (hlen : buf.length ≤ maxInt.toNat)
    (hroom : 0 < buf.length ∨ m.noalloc = true) (asked : Nat) (live : Int) :
    Holds m ⟨some buf, buf.length, 0, 0, asked, live⟩ [] 0 := by
  refine ⟨⟨buf, rfl, rfl⟩, rfl, ?_, hlen, rfl⟩
  rcases Nat.eq_zero_or_pos buf.length with h0 | hpos
  · exact Or.inr ⟨h0, Or.inr (hroom.resolve_left (by omega))⟩
  · exact Or.inl hpos

theorem fitBlock_spec {p : PrintBuffer} {t : Bytes} {rest : Bytes}
    (hbuffer : p.buffer = some (t ++ 0 :: rest)) (hlen : p.length = (t ++ 0 :: rest).length)
    (hoffset : p.offset = t.length) :
    fitBlock m p = .ok (if m.grants p.asked then ⟨some (t ++ [0]), p.asked + 1, p.live⟩
      else ⟨none, p.asked + 1, p.live - 1⟩) := by
  have htake : (t ++ 0 :: rest).take (p.offset + 1) = t ++ [0] := by
    rw [hoffset, List.append_cons, List.take_left' (by simp)]
  have hgrow : ∀ fresh, PrintBuffer.grow fresh (t ++ [0]) (p.offset + 1) = t ++ [0] := by
    intro fresh
    rw [PrintBuffer.grow, hoffset, List.length_append, List.length_singleton, Nat.sub_self]
    exact List.append_nil _
  rw [fitBlock, hbuffer]
  dsimp only
  cases hgrant : m.grants p.asked with
  | false => rfl
  | true =>
    have hmin : min p.length (p.offset + 1) = p.offset + 1 := by
      rw [hlen, hoffset, List.length_append, List.length_cons]
      omega
    have hstore : store (t ++ [0]) p.offset [0] = .ok (t ++ [0]) := by
      have happend := store_append (a := t) (b := [0]) (c := []) (x := [0]) hoffset.symm rfl
      rwa [List.append_nil] at happend
    rw [if_neg (by simp), hmin, htake, hgrow, hstore, if_pos rfl]
    split
    · rfl
    · show Except.ok _ = _
      congr 2
      omega

/-- `cJSON_Print` and `cJSON_PrintUnformatted` return a block that holds the text of the item with
its NUL and nothing else.  They return `NULL` only for an item without a text, a text that is too
long, or a request for memory that was not met, and then they hold no block.  Nothing is read or
stored outside a block. -/
theorem print_spec (m : PrintMode) (item : Item) (asked : Nat) (live : Int) :
    ∃ r, print m item asked live = .ok r ∧
      match r.block with
      | some block => r.live = live + 1 ∧
          ∃ text, item.text m.format 0 = some text ∧ block = text ++ [0]
      | none => r.live = live ∧ ∀ text, item.text m.format 0 = some text →
          maxInt.toNat < text.length + 2 ∨ ∃ k, asked ≤ k ∧ k < r.asked ∧ m.grants k = false := by
  rw [print]
  dsimp only
  cases hgrant : m.grants asked with
  | false =>
    exact ⟨_, rfl, rfl, fun text _ => Or.inr ⟨asked, Nat.le_refl _, Nat.lt_succ_self _, hgrant⟩⟩
  | true =>
    have hsize : (PrintBuffer.grow (m.fresh asked) [] 256).length = 256 :=
      grow_spec (m.fresh asked) (Nat.zero_le 256)
    have hholds : Holds { m with noalloc := false }
        ⟨some (PrintBuffer.grow (m.fresh asked) [] 256), 256, 0, 0, asked + 1, live + 1⟩ [] 0 := by
      have hstart := holds_nil (m := { m with noalloc := false }) (hsize.trans_le (by decide))
        (Or.inl (Nat.lt_of_lt_of_eq (by decide) hsize.symm)) (asked + 1) (live + 1)
      rwa [hsize] at hstart
    obtain ⟨ok, p, hp, hends⟩ := printValue_prints { m with noalloc := false } item 0 _ _ hholds
    rw [if_neg (by simp), hp, ok_bind]
    cases ok with
    | false =>
      obtain ⟨hfailed, hroom⟩ := hends
      have hlive := hfailed.live
      refine ⟨_, rfl, ?_, fun text htext => ?_⟩
      · show p.live - _ = live
        change p.live = live + 1 - if p.buffer.isSome = true then 0 else 1 at hlive
        rw [hlive]
        split <;> omega
      · have hlack := hroom text htext
        rw [LacksRoom, if_neg Bool.false_ne_true, List.length_nil, Nat.zero_add] at hlack
        rcases hlack with hlong | ⟨k, hlow, hhigh, hk⟩
        · exact Or.inl hlong
        · exact Or.inr ⟨k, Nat.le_of_succ_le hlow, hhigh, hk⟩
    | true =>
      obtain ⟨hkept, text, htext, hwrote⟩ := hends
      obtain ⟨rest, hbuffer, hlen⟩ := hwrote.text
      have hnul := Item.noNul_text m.format item 0 text htext
      have hlive := hkept.live
      have hasked := hkept.asked
      have hfit := fitBlock_spec (m := { m with noalloc := false })
        (p := { p with offset := text.length }) hbuffer hlen rfl
      have hmove := hwrote.updateOffset hnul
      rw [List.length_nil, Nat.zero_add] at hmove
      dsimp only
      rw [if_pos rfl, hmove, ok_bind, hfit]
      refine ⟨_, rfl, ?_⟩
      dsimp only
      cases hlast : m.grants p.asked with
      | true => exact ⟨hlive, text, htext, rfl⟩
      | false =>
        refine ⟨?_, fun text _ => Or.inr ⟨p.asked, Nat.le_of_succ_le hasked, Nat.lt_succ_self _,
          hlast⟩⟩
        show p.live - 1 = live
        change p.live = live + 1 at hlive
        omega

/-- `cJSON_PrintPreallocated` stores nothing outside the buffer, and succeeds exactly when the text
fits with two bytes to spare. -/
theorem printPreallocated_spec (m : PrintMode) (item : Item) {buf : Bytes}
    (hlen : buf.length ≤ maxInt.toNat) :
    ∃ ok buf', printPreallocated m item buf buf.length = .ok (ok, some buf') ∧
      buf'.length = buf.length ∧
      (ok = true ↔ ∃ text, item.text m.format 0 = some text ∧ text.length + 2 ≤ buf.length) ∧
      (ok = true → ∃ text rest, item.text m.format 0 = some text ∧ buf' = text ++ 0 :: rest) := by
  have hholds := holds_nil (m := { m with noalloc := true }) hlen (Or.inr rfl) 0 0
  obtain ⟨ok, p, hp, hends⟩ := printValue_prints { m with noalloc := true } item 0 _ _ hholds
  rw [printPreallocated, if_neg (by omega), Int.toNat_natCast, hp, ok_bind]
  cases ok with
  | false =>
    obtain ⟨hfailed, hroom⟩ := hends
    obtain ⟨buf', hbuf', hlen'⟩ := hfailed.block rfl
    refine ⟨false, buf', by rw [← hbuf']; rfl, hlen', ?_, fun h => by cases h⟩
    refine ⟨fun h => (by cases h), ?_⟩
    rintro ⟨text, htext, hle⟩
    have hlack := hroom text htext
    rw [LacksRoom, if_pos rfl, List.length_nil, Nat.zero_add] at hlack
    change buf.length < text.length + 2 at hlack
    omega
  | true =>
    obtain ⟨hkept, text, htext, hwrote⟩ := hends
    obtain ⟨rest, hbuffer, hlen'⟩ := hwrote.text
    have hkeptLen := hkept.length rfl
    change p.length = buf.length at hkeptLen
    have hroom := hwrote.room
    rw [hkeptLen, List.length_nil, Nat.zero_add] at hroom
    refine ⟨true, text ++ 0 :: rest, ?_, ?_, ⟨fun _ => ⟨text, htext, hroom⟩, fun _ => rfl⟩,
      fun _ => ⟨text, rest, htext, rfl⟩⟩
    · show Except.ok (true, p.buffer) = _
      rw [hbuffer]
      rfl
    · rw [← hkeptLen, hlen']
      rfl

theorem printPreallocated_spec_array :
    ∃ buf' rest, printPreallocated ⟨fun _ => false, fun _ _ => 0, false, false, false⟩
        (Item.ofValue none (.array [.null])) (List.replicate 9 1) 9 = .ok (true, some buf') ∧
      buf' = [91, 110, 117, 108, 108, 93] ++ 0 :: rest := by
  obtain ⟨ok, buf', hprint, -, hok, hends⟩ :=
    printPreallocated_spec ⟨fun _ => false, fun _ _ => 0, false, false, false⟩
      (Item.ofValue none (.array [.null]))
      (show (List.replicate 9 (1 : UInt8)).length ≤ maxInt.toNat by decide)
  have htext : (Item.ofValue none (.array [.null])).text false 0 =
      some [91, 110, 117, 108, 108, 93] := by decide
  obtain rfl : ok = true := hok.mpr ⟨_, htext, by decide⟩
  obtain ⟨text, rest, htext', hbuf⟩ := hends rfl
  obtain rfl : [91, 110, 117, 108, 108, 93] = text := Option.some.inj (htext.symm.trans htext')
  exact ⟨buf', rest, hprint, hbuf⟩

end

end Cjson
end LinuxPrograming
