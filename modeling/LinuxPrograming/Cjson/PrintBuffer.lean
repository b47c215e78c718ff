import LinuxPrograming.Gateway.CString
import LinuxPrograming.Lib.CInt

/-!
# The print buffer

`ensure` and `update_offset` of cJSON, and what a printing function does to the buffer between
them.  `Step u f` says that `f` puts `u` behind what was printed, or gives up for lack of room or
of memory; the steps compose along `++`.
-/

namespace LinuxPrograming
namespace Cjson

open Lib Gateway

/-- What stays the same while an item is printed: which requests for memory are met, what a new
block holds, whether `hooks.reallocate` is there, and the flags of the buffer. -/
structure PrintMode where
  grants : Nat → Bool
  fresh : Nat → Nat → UInt8
  reallocate : Bool
  noalloc : Bool
  format : Bool

/-- `printbuffer`, with the requests for memory and the blocks that are held. -/
structure PrintBuffer where
  buffer : Option Bytes
  length : Nat
  offset : Nat
  depth : Nat
  asked : Nat
  live : Int

namespace PrintBuffer

/-- A block of `newsize` bytes that starts with `old`. -/
def grow (fresh : Nat → UInt8) (old : Bytes) (newsize : Nat) : Bytes :=
  old ++ (List.range (newsize - old.length)).map fresh

/-- The part of `ensure` that gets a larger block.  Without `reallocate` it copies what was
printed, and the byte behind. -/
def regrow (m : PrintMode) (p : PrintBuffer) (mem : Bytes) (newsize : Nat) :
    Checked (Bool × PrintBuffer) :=
  if m.grants p.asked = false then
    pure (false, { p with buffer := none, length := 0, asked := p.asked + 1, live := p.live - 1 })
  else if m.reallocate then
    pure (true, { p with
      buffer := some (grow (m.fresh p.asked) mem newsize), length := newsize,
      asked := p.asked + 1 })
  else if mem.length < p.offset + 1 then throw .unset
  else
    pure (true, { p with
      buffer := some (grow (m.fresh p.asked) (mem.take (p.offset + 1)) newsize), length := newsize,
      asked := p.asked + 1 })

/-- `ensure`: whether it returns a pointer, and the buffer behind. -/
def ensure (m : PrintMode) (needed : Nat) (p : PrintBuffer) : Checked (Bool × PrintBuffer) :=
  match p.buffer with
  | none => pure (false, p)
  | some mem =>
    if 0 < p.length ∧ p.length ≤ p.offset then pure (false, p)
    else if maxInt.toNat < needed then pure (false, p)
    else
      let needed := needed + p.offset + 1
      if needed ≤ p.length then pure (true, p)
      else if m.noalloc then pure (false, p)
      else if maxInt.toNat / 2 < needed then
        if needed ≤ maxInt.toNat then regrow m p mem maxInt.toNat else pure (false, p)
      else regrow m p mem (needed * 2)

/-- Store bytes `i` places behind the offset. -/
def put (i : Nat) (bs : Bytes) (p : PrintBuffer) : Checked PrintBuffer :=
  match p.buffer with
  | none => throw .null
  | some mem => do
    let mem ← store mem (p.offset + i) bs
    pure { p with buffer := some mem }

/-- `update_offset`. -/
def updateOffset (p : PrintBuffer) : Checked PrintBuffer :=
  match p.buffer with
  | none => pure p
  | some mem => do
    let n ← strlen mem p.offset
    pure { p with offset := p.offset + n }

end PrintBuffer

/-- A printing function: whether it succeeds, and the buffer behind. -/
abbrev Printer := PrintBuffer → Checked (Bool × PrintBuffer)

namespace Printer

/-- Go on with `g` if `f` succeeds. -/
def andThen (f g : Printer) : Printer := fun p => do
  let (ok, p) ← f p
  if ok then g p else pure (false, p)

/-- Ensure room for `needed` bytes, store `bs`, and move the offset by `n`. -/
def emit (m : PrintMode) (needed : Nat) (bs : Bytes) (n : Nat) : Printer := fun p => do
  let (ok, p) ← p.ensure m needed
  if ok then
    let p ← p.put 0 bs
    pure (true, { p with offset := p.offset + n })
  else pure (false, p)

def updated : Printer := fun p => do
  let p ← p.updateOffset
  pure (true, p)

/-- `output_buffer->depth++`. -/
def deepen : Printer := fun p => pure (true, { p with depth := p.depth + 1 })

/-- `output_buffer->depth--`. -/
def rise : Printer := fun p => pure (true, { p with depth := p.depth - 1 })

def nothing : Printer := fun p => pure (true, p)

def failed : Printer := fun p => pure (false, p)

end Printer

/-! ## What has been printed -/

/-- The offset is behind the printed text `t`. -/
structure Holds (m : PrintMode) (p : PrintBuffer) (t : Bytes) (depth : Nat) : Prop where
  text : ∃ rest, p.buffer = some (t ++ rest) ∧ p.length = (t ++ rest).length
  offset : p.offset = t.length
  room : p.offset < p.length ∨ p.length = 0 ∧ (m.reallocate = true ∨ m.noalloc = true)
  bound : p.length ≤ maxInt.toNat
  depth : p.depth = depth

/-- The text `t` and behind it `u` with its NUL are printed.  The offset is somewhere in `u`. -/
structure Wrote (p : PrintBuffer) (t u : Bytes) (depth : Nat) : Prop where
  text : ∃ rest, p.buffer = some (t ++ (u ++ 0 :: rest)) ∧
    p.length = (t ++ (u ++ 0 :: rest)).length
  low : t.length ≤ p.offset
  high : p.offset ≤ t.length + u.length
  room : t.length + u.length + 2 ≤ p.length
  bound : p.length ≤ maxInt.toNat
  depth : p.depth = depth

/-- What a function that succeeds leaves as it was. -/
structure Kept (m : PrintMode) (p p' : PrintBuffer) : Prop where
  asked : p.asked ≤ p'.asked
  live : p'.live = p.live
  length : m.noalloc = true → p'.length = p.length

/-- What a function that fails leaves: the block, or one block less. -/
structure Failed (m : PrintMode) (p p' : PrintBuffer) : Prop where
  asked : p.asked ≤ p'.asked
  live : p'.live = p.live - if p'.buffer.isSome then 0 else 1
  block : m.noalloc = true → ∃ mem, p'.buffer = some mem ∧ mem.length = p.length

/-- Why a function fails that had to print up to place `n`: a block that is not large enough, a
text that is too long, or memory that is not there. -/
def LacksRoom (m : PrintMode) (p p' : PrintBuffer) (n : Nat) : Prop :=
  if m.noalloc then p.length < n
  else maxInt.toNat < n ∨ ∃ k, p.asked ≤ k ∧ k < p'.asked ∧ m.grants k = false

/-- How a function ends that prints `u` behind `t`.  There is no `u` for what cannot be
printed. -/
def Ends (m : PrintMode) (p : PrintBuffer) (t : Bytes) (u : Option Bytes)
    (post : PrintBuffer → Bytes → Prop) (ok : Bool) (p' : PrintBuffer) : Prop :=
  if ok then Kept m p p' ∧ ∃ v, u = some v ∧ post p' v
  else Failed m p p' ∧ ∀ v, u = some v → LacksRoom m p p' (t.length + v.length + 2)

/-- `f` puts `u` behind what was printed. -/
def Step (m : PrintMode) (d d' : Nat) (u : Option Bytes) (f : Printer) : Prop :=
  ∀ p t, Holds m p t d → ∃ ok p', f p = .ok (ok, p') ∧
    Ends m p t u (fun p' v => Holds m p' (t ++ v) d') ok p'

/-- The same, with a NUL behind `u` and the offset not moved behind it yet. -/
def Prints (m : PrintMode) (d d' : Nat) (u : Option Bytes) (f : Printer) : Prop :=
  ∀ p t, Holds m p t d → ∃ ok p', f p = .ok (ok, p') ∧
    Ends m p t u (fun p' v => Wrote p' t v d') ok p'

/-- One text behind another. -/
def cat (u w : Option Bytes) : Option Bytes := u.bind fun a => w.map (a ++ ·)

section

variable {m : PrintMode} {p q r : PrintBuffer}

theorem Kept.refl (m : PrintMode) (p : PrintBuffer) : Kept m p p :=
  ⟨Nat.le_refl _, rfl, fun _ => rfl⟩

theorem Kept.trans (h : Kept m p q) (h' : Kept m q r) : Kept m p r :=
  ⟨Nat.le_trans h.asked h'.asked, h'.live.trans h.live,
    fun hm => (h'.length hm).trans (h.length hm)⟩

theorem Kept.failed (h : Kept m p q) (h' : Failed m q r) : Failed m p r := by
  refine ⟨Nat.le_trans h.asked h'.asked, by rw [h'.live, h.live], fun hm => ?_⟩
  obtain ⟨mem, hmem, hlen⟩ := h'.block hm
  exact ⟨mem, hmem, hlen.trans (h.length hm)⟩

theorem LacksRoom.mono (h : Kept m p q) {n n' : Nat} (hroom : LacksRoom m q r n) (hn : n ≤ n') :
    LacksRoom m p r n' := by
  rw [LacksRoom] at hroom ⊢
  by_cases hm : m.noalloc = true
  · have hlen := h.length hm
    rw [if_pos hm] at hroom ⊢
    omega
  · rw [if_neg hm] at hroom ⊢
    rcases hroom with hlong | ⟨k, hlow, hhigh, hk⟩
    · exact Or.inl (Nat.lt_of_lt_of_le hlong hn)
    · exact Or.inr ⟨k, Nat.le_trans h.asked hlow, hhigh, hk⟩

/-- A function that ends after another has printed `a`. -/
theorem Ends.after {t a : Bytes} {w : Option Bytes} {post post' : PrintBuffer → Bytes → Prop}
    {ok : Bool} (h : Kept m p q) (hends : Ends m q (t ++ a) w post ok r)
    (hpost : ∀ v, post r v → post' r (a ++ v)) : Ends m p t (cat (some a) w) post' ok r := by
  cases ok with
  | true =>
    obtain ⟨hkept, v, rfl, hv⟩ := hends
    exact ⟨h.trans hkept, a ++ v, rfl, hpost v hv⟩
  | false =>
    obtain ⟨hfailed, hroom⟩ := hends
    refine ⟨h.failed hfailed, fun v hv => ?_⟩
    obtain ⟨v', rfl, rfl⟩ := Option.map_eq_some_iff.mp hv
    refine (hroom v' rfl).mono h ?_
    rw [List.length_append, List.length_append]
    omega

/-- A function that fails in its first part. -/
theorem Ends.first {t : Bytes} {u w : Option Bytes} {post post' : PrintBuffer → Bytes → Prop}
    (hends : Ends m p t u post false r) : Ends m p t (cat u w) post' false r := by
  obtain ⟨hfailed, hroom⟩ := hends
  refine ⟨hfailed, fun v hv => ?_⟩
  obtain ⟨a, rfl, hv⟩ := Option.bind_eq_some_iff.mp hv
  obtain ⟨v', rfl, rfl⟩ := Option.map_eq_some_iff.mp hv
  refine (hroom a rfl).mono (Kept.refl m p) ?_
  rw [List.length_append]
  omega

theorem Wrote.append {t a v : Bytes} {d : Nat} (h : Wrote p (t ++ a) v d) :
    Wrote p t (a ++ v) d := by
  obtain ⟨rest, hbuffer, hlen⟩ := h.text
  have hlow := h.low
  have hhigh := h.high
  have hroom := h.room
  rw [List.length_append] at hlow hhigh hroom
  refine ⟨⟨rest, ?_, ?_⟩, by omega, ?_, ?_, h.bound, h.depth⟩
  · rw [hbuffer, List.append_assoc, List.append_assoc]
  · rw [hlen, List.append_assoc, List.append_assoc]
  · rw [List.length_append]
    omega
  · rw [List.length_append]
    omega

end

section

variable {m : PrintMode} {d d' d'' : Nat} {u w : Option Bytes} {f g : Printer}

theorem Step.andThen (hf : Step m d d' u f) (hg : Step m d' d'' w g) :
    Step m d d'' (cat u w) (f.andThen g) := by
  intro p t hp
  obtain ⟨ok, q, hq, hends⟩ := hf p t hp
  rw [Printer.andThen, hq, ok_bind]
  cases ok with
  | false => exact ⟨false, q, rfl, hends.first⟩
  | true =>
    obtain ⟨hkept, a, rfl, hhold⟩ := hends
    obtain ⟨ok, r, hr, hends'⟩ := hg q (t ++ a) hhold
    refine ⟨ok, r, hr, hends'.after hkept fun v hv => ?_⟩
    rw [← List.append_assoc]
    exact hv

theorem Step.andThen_prints (hf : Step m d d' u f) (hg : Prints m d' d'' w g) :
    Prints m d d'' (cat u w) (f.andThen g) := by
  intro p t hp
  obtain ⟨ok, q, hq, hends⟩ := hf p t hp
  rw [Printer.andThen, hq, ok_bind]
  cases ok with
  | false => exact ⟨false, q, rfl, hends.first⟩
  | true =>
    obtain ⟨hkept, a, rfl, hhold⟩ := hends
    obtain ⟨ok, r, hr, hends'⟩ := hg q (t ++ a) hhold
    exact ⟨ok, r, hr, hends'.after hkept fun v hv => hv.append⟩

/-- `update_offset` moves the offset behind the text. -/
theorem Wrote.updateOffset {p : PrintBuffer} {t v : Bytes} (h : Wrote p t v d) (hnul : 0 ∉ v) :
    p.updateOffset = .ok { p with offset := t.length + v.length } := by
  obtain ⟨rest, hbuffer, hlen⟩ := h.text
  have hhigh := h.high
  obtain ⟨k, hk⟩ := Nat.exists_eq_add_of_le h.low
  have hsplit : t ++ (v ++ 0 :: rest) = (t ++ v.take k) ++ (v.drop k ++ 0 :: rest) := by
    rw [List.append_assoc, ← List.append_assoc (v.take k), List.take_append_drop]
  have hstrlen : strlen (t ++ (v ++ 0 :: rest)) p.offset = .ok (v.drop k).length := by
    rw [hsplit]
    apply strlen_append
    · rw [List.length_append, List.length_take]
      omega
    · exact fun h => hnul (List.mem_of_mem_drop h)
  have hmove : p.offset + (v.drop k).length = t.length + v.length := by
    rw [List.length_drop]
    omega
  rw [PrintBuffer.updateOffset, hbuffer]
  dsimp only
  rw [hstrlen, ok_bind, hmove]
  rfl

theorem Prints.updated (hf : Prints m d d' u f) (hnul : ∀ v, u = some v → 0 ∉ v) :
    Step m d d' u (f.andThen Printer.updated) := by
  intro p t hp
  obtain ⟨ok, q, hq, hends⟩ := hf p t hp
  rw [Printer.andThen, hq, ok_bind]
  cases ok with
  | false => exact ⟨false, q, rfl, hends⟩
  | true =>
    obtain ⟨hkept, v, rfl, hwrote⟩ := hends
    obtain ⟨rest, hbuffer, hlen⟩ := hwrote.text
    have hroom := hwrote.room
    refine ⟨true, { q with offset := t.length + v.length }, ?_, ?_, v, rfl, ?_⟩
    · show Printer.updated q = _
      rw [Printer.updated, hwrote.updateOffset (hnul v rfl)]
      rfl
    · exact hkept.trans ⟨Nat.le_refl _, rfl, fun _ => rfl⟩
    · refine ⟨⟨0 :: rest, ?_, ?_⟩, ?_, Or.inl ?_, hwrote.bound, hwrote.depth⟩
      · rw [List.append_assoc]
        exact hbuffer
      · rw [List.append_assoc]
        exact hlen
      · rw [List.length_append]
      · show t.length + v.length < q.length
        omega

theorem step_nothing : Step m d d (some []) Printer.nothing := by
  intro p t hp
  refine ⟨true, p, rfl, Kept.refl m p, [], rfl, ?_⟩
  show Holds m p (t ++ []) d
  rw [List.append_nil]
  exact hp

theorem step_deepen : Step m d (d + 1) (some []) Printer.deepen := by
  intro p t hp
  refine ⟨true, _, rfl, ⟨Nat.le_refl _, rfl, fun _ => rfl⟩, [], rfl, ?_⟩
  show Holds m _ (t ++ []) (d + 1)
  rw [List.append_nil]
  exact ⟨hp.text, hp.offset, hp.room, hp.bound, congrArg (· + 1) hp.depth⟩

end

/-! ## Room -/

section

variable {m : PrintMode} {p p' : PrintBuffer} {t : Bytes} {d : Nat}

/-- What `ensure` leaves when it returns a pointer. -/
structure Ensured (m : PrintMode) (p p' : PrintBuffer) (t : Bytes) (needed d : Nat) : Prop where
  kept : Kept m p p'
  text : ∃ rest, p'.buffer = some (t ++ rest) ∧ p'.length = (t ++ rest).length
  offset : p'.offset = t.length
  room : t.length + needed + 1 ≤ p'.length
  bound : p'.length ≤ maxInt.toNat
  depth : p'.depth = d

theorem grow_spec (fresh : Nat → UInt8) {old : Bytes} {newsize : Nat}
    (h : old.length ≤ newsize) : (PrintBuffer.grow fresh old newsize).length = newsize := by
  rw [PrintBuffer.grow, List.length_append, List.length_map, List.length_range]
  omega

theorem regrow_spec (hp : Holds m p t d) (hm : m.noalloc = false) {mem : Bytes}
    (hmem : p.buffer = some mem) {needed newsize : Nat} (hneeded : p.length < t.length + needed + 1)
    (hsize : t.length + needed + 1 ≤ newsize) (hmax : newsize ≤ maxInt.toNat) :
    ∃ ok p', p.regrow m mem newsize = .ok (ok, p') ∧
      if ok then Ensured m p p' t needed d
      else Failed m p p' ∧ ∃ k, p.asked ≤ k ∧ k < p'.asked ∧ m.grants k = false := by
  obtain ⟨rest, hbuffer, hlen⟩ := hp.text
  obtain rfl : mem = t ++ rest := Option.some.inj (hmem.symm.trans hbuffer)
  have hoffset := hp.offset
  have hnoalloc : ¬ m.noalloc = true := by
    rw [hm]
    exact Bool.false_ne_true
  have hfits : (t ++ rest).length ≤ newsize := by omega
  have hfits' : (t ++ rest.take 1).length ≤ newsize := by
    rw [List.length_append] at hfits ⊢
    rw [List.length_take]
    omega
  rw [PrintBuffer.regrow]
  by_cases hgrant : m.grants p.asked = false
  · rw [if_pos hgrant]
    refine ⟨false, _, rfl, ⟨Nat.le_succ _, rfl, fun h => absurd h hnoalloc⟩, p.asked,
      Nat.le_refl _, Nat.lt_succ_self _, hgrant⟩
  · rw [if_neg hgrant]
    by_cases hre : m.reallocate = true
    · rw [if_pos hre]
      refine ⟨true, _, rfl, ⟨Nat.le_succ _, rfl, fun h => absurd h hnoalloc⟩, ?_, hoffset, hsize,
        hmax, hp.depth⟩
      refine ⟨rest ++ (List.range (newsize - (t ++ rest).length)).map (m.fresh p.asked), ?_, ?_⟩
      · rw [← List.append_assoc]
        rfl
      · rw [← List.append_assoc]
        exact (grow_spec _ hfits).symm
    · rw [if_neg hre]
      have hroom : p.offset < p.length := by
        rcases hp.room with h | ⟨-, h⟩
        · exact h
        · exact absurd h (by simp [hre, hnoalloc])
      have htake : (t ++ rest).take (p.offset + 1) = t ++ rest.take 1 := by
        rw [hoffset, List.take_length_add_append]
      rw [if_neg (by omega)]
      refine ⟨true, _, rfl, ⟨Nat.le_succ _, rfl, fun h => absurd h hnoalloc⟩, ?_, hoffset, hsize,
        hmax, hp.depth⟩
      rw [htake]
      refine ⟨rest.take 1 ++
        (List.range (newsize - (t ++ rest.take 1).length)).map (m.fresh p.asked), ?_, ?_⟩
      · rw [← List.append_assoc]
        rfl
      · rw [← List.append_assoc]
        exact (grow_spec _ hfits').symm

theorem ensure_spec (hp : Holds m p t d) (needed : Nat) :
    ∃ ok p', p.ensure m needed = .ok (ok, p') ∧
      if ok then Ensured m p p' t needed d
      else Failed m p p' ∧ LacksRoom m p p' (t.length + needed + 1) := by
  obtain ⟨rest, hbuffer, hlen⟩ := hp.text
  have hoffset := hp.offset
  have hbound := hp.bound
  have hsame : Failed m p p := by
    refine ⟨Nat.le_refl _, ?_, fun _ => ⟨_, hbuffer, hlen.symm⟩⟩
    rw [hbuffer]
    exact (Int.sub_zero _).symm
  have hvalid : ¬ (0 < p.length ∧ p.length ≤ p.offset) := by
    rintro ⟨hpos, hle⟩
    rcases hp.room with h | h
    · omega
    · omega
  rw [PrintBuffer.ensure, hbuffer]
  dsimp only
  rw [if_neg hvalid]
  by_cases hlarge : maxInt.toNat < needed
  · rw [if_pos hlarge]
    refine ⟨false, p, rfl, hsame, ?_⟩
    rw [LacksRoom]
    split
    · omega
    · left
      omega
  · rw [if_neg hlarge]
    by_cases hfits : needed + p.offset + 1 ≤ p.length
    · rw [if_pos hfits]
      exact ⟨true, p, rfl, Kept.refl m p, ⟨rest, hbuffer, hlen⟩, hoffset, by omega, hbound,
        hp.depth⟩
    · rw [if_neg hfits]
      cases hm : m.noalloc with
      | true =>
        refine ⟨false, p, rfl, hsame, ?_⟩
        rw [LacksRoom, if_pos hm]
        omega
      | false =>
        -- Both sizes that a new block may have are large enough.
        have hregrow : ∀ {newsize : Nat}, needed + p.offset + 1 ≤ newsize → newsize ≤ maxInt.toNat →
            ∃ ok p', p.regrow m (t ++ rest) newsize = .ok (ok, p') ∧
              if ok then Ensured m p p' t needed d
              else Failed m p p' ∧ LacksRoom m p p' (t.length + needed + 1) := by
          intro newsize hsize hmax
          obtain ⟨ok, p', hr, hspec⟩ := @regrow_spec m p t d hp hm _ hbuffer needed newsize
            (by omega) (by omega) hmax
          refine ⟨ok, p', hr, ?_⟩
          cases ok with
          | true => exact hspec
          | false =>
            refine ⟨hspec.1, ?_⟩
            rw [LacksRoom, if_neg (by rw [hm]; exact Bool.false_ne_true)]
            exact Or.inr hspec.2
        rw [if_neg Bool.false_ne_true]
        by_cases hhalf : maxInt.toNat / 2 < needed + p.offset + 1
        · rw [if_pos hhalf]
          by_cases hmax : needed + p.offset + 1 ≤ maxInt.toNat
          · rw [if_pos hmax]
            exact hregrow hmax (Nat.le_refl _)
          · rw [if_neg hmax]
            refine ⟨false, p, rfl, hsame, ?_⟩
            rw [LacksRoom, if_neg (by rw [hm]; exact Bool.false_ne_true)]
            left
            omega
        · rw [if_neg hhalf]
          exact hregrow (by omega) (by omega)

/-- A store behind `x`. -/
theorem put_append {x rest bs : Bytes} {i : Nat} (hbuffer : p.buffer = some (x ++ rest))
    (hi : p.offset + i = x.length) (hbs : bs.length ≤ rest.length) :
    p.put i bs = .ok { p with buffer := some (x ++ (bs ++ rest.drop bs.length)) } := by
  have htake : (rest.take bs.length).length = bs.length := by
    rw [List.length_take]
    omega
  have hstore := store_append (a := x) (c := rest.drop bs.length) hi.symm htake
  rw [List.take_append_drop] at hstore
  rw [PrintBuffer.put, hbuffer]
  dsimp only
  rw [hstore]
  rfl

/-- A store at the offset, into the room that `ensure` made. -/
theorem Ensured.put {needed : Nat} (h : Ensured m p p' t needed d) (bs : Bytes)
    (hbs : bs.length ≤ needed + 1) :
    ∃ rest, p'.put 0 bs = .ok { p' with buffer := some (t ++ (bs ++ rest)) } ∧
      p'.length = (t ++ (bs ++ rest)).length := by
  obtain ⟨rest, hbuffer, hlen⟩ := h.text
  have hroom := h.room
  rw [hlen, List.length_append] at hroom
  refine ⟨rest.drop bs.length, put_append hbuffer h.offset (by omega), ?_⟩
  rw [hlen, List.length_append, List.length_append, List.length_append, List.length_drop]
  omega

/-- How `Printer.emit` ends when there is no room. -/
theorem emit_fails {needed n : Nat} {bs : Bytes} {u : Option Bytes}
    {post : PrintBuffer → Bytes → Prop} (hensure : p.ensure m needed = .ok (false, p'))
    (hfailed : Failed m p p' ∧ LacksRoom m p p' (t.length + needed + 1))
    (hneeded : ∀ v, u = some v → needed ≤ v.length + 1) :
    ∃ ok q, Printer.emit m needed bs n p = .ok (ok, q) ∧ Ends m p t u post ok q := by
  refine ⟨false, p', ?_, hfailed.1, fun v hv => ?_⟩
  · rw [Printer.emit, hensure]
    rfl
  · have hle := hneeded v hv
    exact hfailed.2.mono (Kept.refl m p) (by omega)

/-- Bytes that are printed together with a move of the offset behind them. -/
theorem step_emit {needed : Nat} {v z : Bytes} (hlow : v.length ≤ needed)
    (hneeded : needed ≤ v.length + 1) (hz : (v ++ z).length ≤ needed + 1) :
    Step m d d (some v) (Printer.emit m needed (v ++ z) v.length) := by
  intro p t hp
  obtain ⟨ok, p', hensure, hspec⟩ := ensure_spec hp needed
  cases ok with
  | false =>
    exact emit_fails hensure hspec fun w hw => by rw [← Option.some.inj hw]; exact hneeded
  | true =>
    obtain ⟨rest, hput, hlen⟩ := Ensured.put hspec _ hz
    have hroom := hspec.room
    refine ⟨true, { p' with
        buffer := some (t ++ (v ++ z ++ rest)), offset := p'.offset + v.length },
      ?_, ?_, v, rfl, ⟨z ++ rest, ?_, ?_⟩, ?_, Or.inl ?_, hspec.bound, hspec.depth⟩
    · rw [Printer.emit, hensure]
      show (p'.put 0 (v ++ z) >>= _) = _
      rw [hput]
      rfl
    · exact hspec.kept.trans ⟨Nat.le_refl _, rfl, fun _ => rfl⟩
    · simp only [List.append_assoc]
    · rw [hlen]
      simp only [List.append_assoc]
    · rw [List.length_append, hspec.offset]
    · show p'.offset + v.length < p'.length
      rw [hspec.offset]
      omega

/-- Bytes that are printed with a NUL behind them. -/
theorem prints_emit {needed n : Nat} {v : Bytes} (hneeded : needed = v.length + 1)
    (hn : n ≤ v.length) : Prints m d d (some v) (Printer.emit m needed (v ++ [0]) n) := by
  intro p t hp
  obtain ⟨ok, p', hensure, hspec⟩ := ensure_spec hp needed
  cases ok with
  | false =>
    exact emit_fails hensure hspec fun w hw => by
      rw [← Option.some.inj hw]
      exact Nat.le_of_eq hneeded
  | true =>
    obtain ⟨rest, hput, hlen⟩ := Ensured.put hspec (v ++ [0])
      (by rw [List.length_append, List.length_singleton]; omega)
    have hroom := hspec.room
    have hoffset := hspec.offset
    refine ⟨true, { p' with buffer := some (t ++ (v ++ [0] ++ rest)), offset := p'.offset + n },
      ?_, ?_, v, rfl, ⟨rest, ?_, ?_⟩, ?_, ?_, ?_, hspec.bound, hspec.depth⟩
    · rw [Printer.emit, hensure]
      show (p'.put 0 (v ++ [0]) >>= _) = _
      rw [hput]
      rfl
    · exact hspec.kept.trans ⟨Nat.le_refl _, rfl, fun _ => rfl⟩
    · rw [List.append_assoc v]
      rfl
    · rw [hlen, List.append_assoc v]
      rfl
    · show t.length ≤ p'.offset + n
      omega
    · show p'.offset + n ≤ t.length + v.length
      omega
    · show t.length + v.length + 2 ≤ p'.length
      omega

theorem Prints.rise {d' : Nat} {u : Option Bytes} {f : Printer} (hf : Prints m d (d' + 1) u f) :
    Prints m d d' u (f.andThen Printer.rise) := by
  intro p t hp
  obtain ⟨ok, q, hq, hends⟩ := hf p t hp
  rw [Printer.andThen, hq, ok_bind]
  cases ok with
  | false => exact ⟨false, q, rfl, hends⟩
  | true =>
    obtain ⟨hkept, v, rfl, hwrote⟩ := hends
    refine ⟨true, { q with depth := q.depth - 1 }, rfl, ?_, v, rfl, hwrote.text, hwrote.low,
      hwrote.high, hwrote.room, hwrote.bound, ?_⟩
    · exact hkept.trans ⟨Nat.le_refl _, rfl, fun _ => rfl⟩
    · show q.depth - 1 = d'
      rw [hwrote.depth]
      rfl

/-- A function that looks at the depth. -/
theorem Step.of_depth {d' : Nat} {u : Option Bytes} {f g : Printer}
    (h : ∀ p : PrintBuffer, p.depth = d → f p = g p) (hg : Step m d d' u g) : Step m d d' u f := by
  intro p t hp
  rw [h p hp.depth]
  exact hg p t hp

theorem Prints.of_depth {d' : Nat} {u : Option Bytes} {f g : Printer}
    (h : ∀ p : PrintBuffer, p.depth = d → f p = g p) (hg : Prints m d d' u g) :
    Prints m d d' u f := by
  intro p t hp
  rw [h p hp.depth]
  exact hg p t hp

theorem prints_failed : Prints m d d none Printer.failed := by
  intro p t hp
  obtain ⟨rest, hbuffer, hlen⟩ := hp.text
  refine ⟨false, p, rfl, ⟨Nat.le_refl _, ?_, fun _ => ⟨_, hbuffer, hlen.symm⟩⟩, fun v h => ?_⟩
  · rw [hbuffer]
    exact (Int.sub_zero _).symm
  · cases h

end

end Cjson
end LinuxPrograming
