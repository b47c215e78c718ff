import LinuxPrograming.Driver.Fops
import Mathlib.Algebra.GroupWithZero.Nat

/-!
# The driver as a byte file

One open file writes, a fresh one reads everything back.  `m_write` clears the whole page
before it copies, so what earlier writes stored survives only where it was zero.
-/

namespace LinuxPrograming
namespace Driver

open Lib

variable {File : Type} [DecidableEq File] {pageSize : Nat} {s t : State File}

/-- What a byte file does on a write: a successful one that returns `n` stores `n` bytes of
the user's at the offset and changes no other byte, a failing one changes nothing. -/
def Kept (pageSize : Nat) (s : State File) : Call File → Prop
  | .read _ _ _ => True
  | .write f user mapped => ∃ t ret, call pageSize s (.write f user mapped) = some (t, ret, []) ∧
      (ret = efault ∧ t = s ∨ ∃ n : Nat, ret = n ∧ n ≤ user.length ∧
        t.dev.kmalloc = patch s.dev.kmalloc (s.offset f).toNat (user.take n))

/-- The page is zero around the bytes that a successful write stores.  Before a failing one it
is zero around the bytes that the copy brings, and holds these already. -/
def Blank (s : State File) : Call File → Prop
  | .read _ _ _ => True
  | .write f user mapped =>
    if user.length ≤ mapped then
      ∀ i b, s.dev.kmalloc[i]? = some b →
        ¬ ((s.offset f).toNat ≤ i ∧ i < (s.offset f).toNat + user.length) → b = 0
    else
      ∀ i b, s.dev.kmalloc[i]? = some b →
        if (s.offset f).toNat ≤ i ∧ i < (s.offset f).toNat + mapped then
          user[i - (s.offset f).toNat]? = some b
        else b = 0

/-- The write calls through one file, each with the buffer and how much of it is mapped. -/
def writes (f : File) (ws : List (Bytes × Nat)) : List (Call File) :=
  ws.map fun p => .write f p.1 p.2

/-- The bytes of the successful ones. -/
def stored (ws : List (Bytes × Nat)) : Bytes :=
  (ws.filter fun p => p.1.length ≤ p.2).flatMap Prod.fst

/-- A sequence of reads through one file: the bytes they return. -/
def readAll (pageSize : Nat) (s : State File) (f : File) : List Nat → Option (State File × Bytes)
  | [] => some (s, [])
  | size :: sizes =>
    (call pageSize s (.read f size size)).bind fun r =>
      (readAll pageSize r.1 f sizes).map fun u => (u.1, r.2.2 ++ u.2)

/-- Reads of any sizes return the bytes from their start on, and 0 behind the last one. -/
def ReadsBack (pageSize : Nat) (s : State File) (f : File) (bs : Bytes) : Prop :=
  ∀ sizes : List Nat, ∃ t, readAll pageSize s f sizes = some (t, bs.take sizes.sum) ∧
    (bs.length ≤ sizes.sum →
      ∀ size, ∃ u, call pageSize t (.read f size size) = some (u, 0, []))

/-! ## Writes -/

theorem patch_zeros_eq_iff {page bs : Bytes} {o : Nat} (halloc : page.length = npages * pageSize)
    (hfit : o + bs.length ≤ npages * pageSize) :
    patch (List.replicate (npages * pageSize) 0) o bs = patch page o bs ↔
      ∀ i b, page[i]? = some b → ¬ (o ≤ i ∧ i < o + bs.length) → b = 0 := by
  have hzeros : ∀ i, (patch (List.replicate (npages * pageSize) 0) o bs)[i]? =
      if o ≤ i ∧ i < o + bs.length then bs[i - o]?
      else (List.replicate (npages * pageSize) 0)[i]? :=
    getElem?_patch (by rw [List.length_replicate]; exact hfit)
  have hpage : ∀ i, (patch page o bs)[i]? =
      if o ≤ i ∧ i < o + bs.length then bs[i - o]? else page[i]? :=
    getElem?_patch (halloc ▸ hfit)
  constructor
  · intro heq i b hb hout
    have hi : i < npages * pageSize := halloc ▸ (List.getElem?_eq_some_iff.mp hb).1
    have hget := congrArg (·[i]?) heq
    rw [hzeros, hpage, if_neg hout, if_neg hout, hb, List.getElem?_replicate_of_lt hi] at hget
    exact (Option.some.inj hget).symm
  · intro hblank
    refine List.ext_getElem? fun i => ?_
    rw [hzeros, hpage]
    by_cases hin : o ≤ i ∧ i < o + bs.length
    · rw [if_pos hin, if_pos hin]
    · rw [if_neg hin, if_neg hin]
      cases hb : page[i]? with
      | none =>
        rw [List.getElem?_eq_none_iff] at hb ⊢
        rw [List.length_replicate, ← halloc]
        exact hb
      | some b =>
        have hi : i < npages * pageSize := halloc ▸ (List.getElem?_eq_some_iff.mp hb).1
        rw [List.getElem?_replicate_of_lt hi, hblank i b hb hin]

theorem eq_patch_zeros_iff {page user : Bytes} {o k : Nat}
    (halloc : page.length = npages * pageSize) (hk : k ≤ user.length)
    (hfit : o + k ≤ npages * pageSize) :
    page = patch (List.replicate (npages * pageSize) 0) o (user.take k) ↔
      ∀ i b, page[i]? = some b →
        if o ≤ i ∧ i < o + k then user[i - o]? = some b else b = 0 := by
  have hlen : (user.take k).length = k := List.length_take_of_le hk
  have hpatch : ∀ i, (patch (List.replicate (npages * pageSize) 0) o (user.take k))[i]? =
      if o ≤ i ∧ i < o + k then user[i - o]?
      else (List.replicate (npages * pageSize) 0)[i]? := fun i => by
    rw [getElem?_patch (by rw [List.length_replicate, hlen]; exact hfit), hlen]
    refine if_ctx_congr Iff.rfl (fun hin => ?_) fun _ => rfl
    exact List.getElem?_take_of_lt (by omega)
  constructor
  · intro heq i b hb
    have hi : i < npages * pageSize := halloc ▸ (List.getElem?_eq_some_iff.mp hb).1
    rw [heq, hpatch] at hb
    by_cases hin : o ≤ i ∧ i < o + k
    · rw [if_pos hin] at hb ⊢
      exact hb
    · rw [if_neg hin, List.getElem?_replicate_of_lt hi] at hb
      rw [if_neg hin]
      exact (Option.some.inj hb).symm
  · intro hpoint
    refine List.ext_getElem? fun i => ?_
    rw [hpatch]
    cases hb : page[i]? with
    | none =>
      have hi : npages * pageSize ≤ i := halloc ▸ List.getElem?_eq_none_iff.mp hb
      rw [if_neg (by omega), List.getElem?_eq_none (by rw [List.length_replicate]; exact hi)]
    | some b =>
      have hi : i < npages * pageSize := halloc ▸ (List.getElem?_eq_some_iff.mp hb).1
      have hpoint' := hpoint i b hb
      by_cases hin : o ≤ i ∧ i < o + k
      · rw [if_pos hin] at hpoint' ⊢
        exact hpoint'.symm
      · rw [if_neg hin] at hpoint' ⊢
        rw [List.getElem?_replicate_of_lt hi, hpoint']

omit [DecidableEq File] in
/-- On a zero page every write is blank that succeeds or brings only zeros. -/
theorem blank_of_zero (hzero : ∀ b ∈ s.dev.kmalloc, b = 0) (f : File) {user : Bytes}
    {mapped : Nat} (huser : user.length ≤ mapped ∨ ∀ b ∈ user.take mapped, b = 0) :
    Blank s (.write f user mapped) := by
  rw [Blank]
  split
  · exact fun i b hb _ => hzero b (List.mem_of_getElem? hb)
  · next hmap =>
    intro i b hb
    obtain rfl := hzero b (List.mem_of_getElem? hb)
    split
    · next hin =>
      have hi : i - (s.offset f).toNat < mapped := by omega
      have huser' := huser.resolve_left hmap
      rw [← List.getElem?_take_of_lt hi]
      have hlen : i - (s.offset f).toNat < (user.take mapped).length := by
        rw [List.length_take]
        omega
      rw [List.getElem?_eq_getElem hlen, huser' _ (List.getElem_mem hlen)]
    · rfl

section

variable (hpage : npages * pageSize ≤ maxRwCount) (h : Inv pageSize s)
include hpage h

/-- A write that fits the page and succeeds. -/
theorem call_write_ok (f : File) {user : Bytes}
    (hfit : (s.offset f).toNat + user.length ≤ npages * pageSize) {mapped : Nat}
    (hmap : user.length ≤ mapped) :
    call pageSize s (.write f user mapped) = some ((
        ⟨⟨s.offset f + user.length,
          patch (List.replicate (npages * pageSize) 0) (s.offset f).toNat user⟩,
        Function.update s.offset f (s.offset f + user.length)⟩ : State File),
        (user.length : Int), []) := by
  have ho := h.offset f
  have hn : min user.length ((npages * pageSize : Nat) - s.offset f).toNat = user.length := by
    omega
  rw [call_write hpage h f (by omega) mapped]
  dsimp only
  rw [hn, List.take_length, if_neg (by omega)]

theorem call_write_fails (f : File) {user : Bytes}
    (hfit : (s.offset f).toNat + user.length ≤ npages * pageSize) {mapped : Nat}
    (hmap : mapped < user.length) :
    call pageSize s (.write f user mapped) = some
      (⟨⟨s.dev.size, patch (List.replicate (npages * pageSize) 0) (s.offset f).toNat
          (user.take mapped)⟩, s.offset⟩, efault, []) := by
  have ho := h.offset f
  have hn : min user.length ((npages * pageSize : Nat) - s.offset f).toNat = user.length := by
    omega
  rw [call_write hpage h f (by omega) mapped]
  dsimp only
  rw [hn, if_pos hmap]

theorem kept_iff_blank (f : File) {user : Bytes}
    (hfit : (s.offset f).toNat + user.length ≤ npages * pageSize) (mapped : Nat) :
    Kept pageSize s (.write f user mapped) ↔ Blank s (.write f user mapped) := by
  rw [Kept, Blank]
  by_cases hmap : user.length ≤ mapped
  · rw [call_write_ok hpage h f hfit hmap, if_pos hmap, ← patch_zeros_eq_iff h.alloc hfit]
    constructor
    · rintro ⟨t, ret, hsome, ⟨hret, -⟩ | ⟨n, hret, -, hkept⟩⟩
      · obtain ⟨rfl, -⟩ := Prod.mk.inj (Prod.mk.inj (Option.some.inj hsome)).2
        rw [efault] at hret
        omega
      · obtain ⟨rfl, hrest⟩ := Prod.mk.inj (Option.some.inj hsome)
        obtain ⟨rfl, -⟩ := Prod.mk.inj hrest
        rwa [← Int.natCast_inj.mp hret, List.take_length] at hkept
    · intro heq
      refine ⟨_, _, rfl, Or.inr ⟨user.length, rfl, Nat.le_refl _, ?_⟩⟩
      rw [List.take_length]
      exact heq
  · rw [call_write_fails hpage h f hfit (Nat.lt_of_not_le hmap), if_neg hmap,
      ← eq_patch_zeros_iff h.alloc (by omega) (by omega)]
    constructor
    · rintro ⟨t, ret, hsome, ⟨-, hsame⟩ | ⟨n, hret, -⟩⟩
      · obtain ⟨rfl, -⟩ := Prod.mk.inj (Option.some.inj hsome)
        exact congrArg (·.dev.kmalloc) hsame.symm
      · obtain ⟨rfl, -⟩ := Prod.mk.inj (Prod.mk.inj (Option.some.inj hsome)).2
        rw [efault] at hret
        omega
    · intro heq
      refine ⟨_, _, rfl, Or.inl ⟨rfl, ?_⟩⟩
      rw [← heq]

theorem offset_next_write (f : File) {user : Bytes}
    (hfit : (s.offset f).toNat + user.length ≤ npages * pageSize) {mapped : Nat}
    (hnext : next pageSize s (.write f user mapped) = some t) :
    t.offset f ≤ s.offset f + user.length := by
  by_cases hmap : user.length ≤ mapped
  · rw [next, call_write_ok hpage h f hfit hmap] at hnext
    obtain rfl := Option.some.inj hnext
    exact Int.le_of_eq (Function.update_self ..)
  · rw [next, call_write_fails hpage h f hfit (Nat.lt_of_not_le hmap)] at hnext
    obtain rfl := Option.some.inj hnext
    show s.offset f ≤ s.offset f + user.length
    omega

end

/-- The first bytes of the page are `bs`, and the writer stands behind them. -/
structure Stores (pageSize : Nat) (s : State File) (w r : File) (bs : Bytes) : Prop where
  inv : Inv pageSize s
  size : s.dev.size = bs.length
  offset : s.offset w = bs.length
  fresh : s.offset r = 0
  bytes : s.dev.kmalloc.take bs.length = bs

variable {w r : File} {bs : Bytes}

omit [DecidableEq File] in
theorem init_stores {kmalloc : Bytes} (halloc : kmalloc.length = npages * pageSize) :
    Stores pageSize (init kmalloc) w r [] where
  inv := init_inv halloc
  size := rfl
  offset := rfl
  fresh := rfl
  bytes := rfl

theorem Stores.write (hpage : npages * pageSize ≤ maxRwCount) (h : Stores pageSize s w r bs)
    (hrw : r ≠ w) {user : Bytes} {mapped : Nat}
    (hfit : bs.length + user.length ≤ npages * pageSize)
    (hblank : Blank s (.write w user mapped)) :
    ∃ t, next pageSize s (.write w user mapped) = some t ∧
      Stores pageSize t w r (bs ++ stored [(user, mapped)]) := by
  have ho : (s.offset w).toNat = bs.length := by rw [h.offset, Int.toNat_natCast]
  have hlen : bs.length ≤ s.dev.kmalloc.length := by rw [h.inv.alloc]; omega
  rw [← ho] at hfit
  by_cases hmap : user.length ≤ mapped
  · have hcall := call_write_ok hpage h.inv w hfit hmap
    rw [Blank, if_pos hmap, ← patch_zeros_eq_iff h.inv.alloc hfit, ho] at hblank
    rw [ho, hblank] at hcall
    refine ⟨_, congrArg (Option.map Prod.fst) hcall, ?_⟩
    have hbs : bs ++ stored [(user, mapped)] = bs ++ user := by simp [stored, hmap]
    rw [hbs]
    refine ⟨next_inv hpage h.inv (by show user.length ≤ _; omega)
      (congrArg (Option.map Prod.fst) hcall), ?_, ?_, ?_, ?_⟩
    · show s.offset w + user.length = _
      rw [h.offset, List.length_append]
      rfl
    · show Function.update s.offset w _ w = _
      rw [Function.update_self, h.offset, List.length_append]
      rfl
    · show Function.update s.offset w _ r = 0
      rw [Function.update_of_ne hrw, h.fresh]
    · show (patch s.dev.kmalloc bs.length user).take (bs ++ user).length = bs ++ user
      rw [patch, h.bytes, List.take_left']
      rfl
  · have hcall := call_write_fails hpage h.inv w hfit (Nat.lt_of_not_le hmap)
    rw [Blank, if_neg hmap, ← eq_patch_zeros_iff h.inv.alloc (by omega) (by omega)] at hblank
    rw [← hblank] at hcall
    have hbs : bs ++ stored [(user, mapped)] = bs := by simp [stored, hmap]
    rw [hbs]
    exact ⟨s, congrArg (Option.map Prod.fst) hcall, h⟩

theorem stored_cons (p : Bytes × Nat) (ws : List (Bytes × Nat)) :
    stored (p :: ws) = stored [p] ++ stored ws := by
  by_cases hmap : p.1.length ≤ p.2
  · simp [stored, hmap]
  · simp [stored, hmap]

theorem length_stored_le (p : Bytes × Nat) : (stored [p]).length ≤ p.1.length := by
  by_cases hmap : p.1.length ≤ p.2
  · simp [stored, hmap]
  · simp [stored, hmap]

/-- Over a sequence of writes that keep what was stored, the bytes add up. -/
theorem Stores.writes (hpage : npages * pageSize ≤ maxRwCount) (hrw : r ≠ w)
    {ws : List (Bytes × Nat)} (h : Stores pageSize s w r bs)
    (hfit : bs.length + (ws.map fun p => p.1.length).sum ≤ npages * pageSize)
    (hblank : Meets (next pageSize) Blank s (writes w ws)) :
    ∃ t, run (next pageSize) s (Driver.writes w ws) = some t ∧
      Stores pageSize t w r (bs ++ stored ws) := by
  induction ws generalizing s bs with
  | nil => exact ⟨s, rfl, by simpa [stored] using h⟩
  | cons p ws ih =>
    rw [List.map_cons, List.sum_cons] at hfit
    obtain ⟨u, hu, hus⟩ := h.write hpage hrw (by omega) hblank.1
    have hlen : (stored [(p.1, p.2)]).length ≤ p.1.length := length_stored_le p
    obtain ⟨t, ht, hts⟩ := ih hus (by rw [List.length_append]; omega) (hblank.2 u hu)
    refine ⟨t, run_cons_eq_some.mpr ⟨u, hu, ht⟩, ?_⟩
    rwa [stored_cons, ← List.append_assoc]

/-! ## Reads -/

section

variable (hpage : npages * pageSize ≤ maxRwCount) (h : Inv pageSize s)
  (hsize : s.dev.size = bs.length) (hbytes : s.dev.kmalloc.take bs.length = bs)
include hpage h hsize hbytes

theorem call_read_stored {o : Nat} (ho : s.offset r = o) (hle : o ≤ bs.length) (size : Nat) :
    call pageSize s (.read r size size) = some ((
        { s with offset := Function.update s.offset r ((o + min size (bs.length - o) : Nat) : Int) }
          : State File),
        ((min size (bs.length - o) : Nat) : Int), (bs.drop o).take size) := by
  have hbound := h.size
  have hcount : readCount s.dev size (s.offset r) = min size (bs.length - o) := by
    rw [readCount, if_pos (by omega)]
    omega
  have hin : s.dev.Inside (s.offset r) (min size (bs.length - o)) :=
    ⟨by omega, by rw [h.alloc]; omega⟩
  have hmin : min size (min size (bs.length - o)) = min size (bs.length - o) := by omega
  rw [call_read hpage h r (Or.inl (by omega)) size, hcount]
  dsimp only
  rw [hmin, if_pos hin, if_neg (by omega), ho, Int.toNat_natCast, Int.natCast_add]
  have hslice : (s.dev.kmalloc.drop o).take (min size (bs.length - o)) =
      (bs.drop o).take size := by
    rw [← List.take_take, ← List.drop_take, hbytes]
  rw [hslice]

/-- Reads through a file that stands at `o` return the stored bytes from there on. -/
theorem readAll_eq {o : Nat} (ho : s.offset r = o) (hle : o ≤ bs.length) (sizes : List Nat) :
    ∃ t, readAll pageSize s r sizes = some (t, (bs.drop o).take sizes.sum) ∧
      (bs.length - o ≤ sizes.sum →
        ∀ size, ∃ u, call pageSize t (.read r size size) = some (u, 0, [])) := by
  induction sizes generalizing s o with
  | nil =>
    refine ⟨s, rfl, fun hend size => ?_⟩
    have heq : o = bs.length := by
      rw [List.sum_nil] at hend
      omega
    have hcall := call_read_stored hpage h hsize hbytes ho hle size
    rw [heq, Nat.sub_self, Nat.min_zero, List.drop_length, List.take_nil] at hcall
    exact ⟨_, hcall⟩
  | cons size sizes ih =>
    have hcall := call_read_stored hpage h hsize hbytes ho hle size
    have hinv : Inv pageSize { s with
        offset := Function.update s.offset r ((o + min size (bs.length - o) : Nat) : Int) } := by
      have hbound := h.size
      exact ⟨h.alloc, h.size, update_offset h r ⟨by omega, by omega⟩⟩
    obtain ⟨t, ht, hend⟩ := ih hinv hsize hbytes (Function.update_self ..)
      (show o + min size (bs.length - o) ≤ bs.length by omega)
    refine ⟨t, ?_, fun hsum => hend ?_⟩
    · rw [readAll, hcall, Option.bind_some, ht, Option.map_some]
      dsimp only
      have hdrop : bs.drop (o + min size (bs.length - o)) = bs.drop (o + size) := by
        by_cases hshort : size ≤ bs.length - o
        · rw [Nat.min_eq_left hshort]
        · rw [List.drop_eq_nil_of_le (by omega), List.drop_eq_nil_of_le (by omega)]
      rw [List.sum_cons, List.take_add, List.drop_drop, hdrop]
    · rw [List.sum_cons] at hsum
      omega

end

theorem meets_kept_iff (hpage : npages * pageSize ≤ maxRwCount) (h : Inv pageSize s)
    {ws : List (Bytes × Nat)}
    (hfit : (s.offset w).toNat + (ws.map fun p => p.1.length).sum ≤ npages * pageSize) :
    Meets (next pageSize) (Kept pageSize) s (writes w ws) ↔
      Meets (next pageSize) Blank s (writes w ws) := by
  induction ws generalizing s with
  | nil => exact Iff.rfl
  | cons p ws ih =>
    rw [List.map_cons, List.sum_cons] at hfit
    have hp : (s.offset w).toNat + p.1.length ≤ npages * pageSize := by omega
    have hhead := kept_iff_blank hpage h w hp p.2
    refine and_congr hhead (forall_congr' fun t => forall_congr' fun ht => ih ?_ ?_)
    · exact next_inv hpage h (by show p.1.length ≤ _; omega) ht
    · have hle := offset_next_write hpage h w hp ht
      have ho := h.offset w
      omega

/-- A sequence of writes through one file that fits the page behaves as on a byte file, and
what a fresh file reads afterwards is what the successful ones wrote, exactly when the page
is blank around each of them. -/
theorem byteFile_iff (hpage : npages * pageSize ≤ maxRwCount) {kmalloc : Bytes}
    (halloc : kmalloc.length = npages * pageSize) (hrw : r ≠ w) {ws : List (Bytes × Nat)}
    (hfit : (ws.map fun p => p.1.length).sum ≤ npages * pageSize) :
    (Meets (next pageSize) (Kept pageSize) (init kmalloc) (writes w ws) ∧
      ∃ t, run (next pageSize) (init kmalloc) (writes w ws) = some t ∧
        ReadsBack pageSize t r (stored ws)) ↔
      Meets (next pageSize) Blank (init kmalloc) (writes w ws) := by
  have hmeets : Meets (next pageSize) (Kept pageSize) (init kmalloc) (writes w ws) ↔
      Meets (next pageSize) Blank (init kmalloc) (writes w ws) :=
    meets_kept_iff hpage (init_inv halloc) (by simpa [init] using hfit)
  rw [hmeets]
  refine and_iff_left_of_imp fun hblank => ?_
  obtain ⟨t, ht, hts⟩ := (init_stores halloc).writes hpage hrw (by simpa using hfit) hblank
  refine ⟨t, ht, fun sizes => ?_⟩
  exact readAll_eq hpage hts.inv hts.size hts.bytes (o := 0) hts.fresh (Nat.zero_le _) sizes

/-- The second of two writes clears what the first one stored. -/
theorem byteFile_cleared :
    ∃ t, run (next 4096) (init (List.replicate 4096 0))
        (writes (1 : Nat) [([65], 1), ([66], 1)]) = some t ∧
      stored [([65], 1), ([66], 1)] = [65, 66] ∧
      (∃ u, readAll 4096 t 2 [2] = some (u, [0, 66])) ∧
      ¬ Meets (next 4096) (Kept 4096) (init (List.replicate 4096 0))
        (writes (1 : Nat) [([65], 1), ([66], 1)]) := by
  have hfirst : (next 4096 (init (List.replicate 4096 0)) (.write (1 : Nat) [65] 1)).map
      (fun s => (s.dev.kmalloc[0]?, s.offset 1)) = some (some 65, 1) := by decide +kernel
  have hread : ((run (next 4096) (init (List.replicate 4096 0))
      (writes (1 : Nat) [([65], 1), ([66], 1)])).bind
        fun t => (readAll 4096 t 2 [2]).map Prod.snd) = some [0, 66] := by decide +kernel
  obtain ⟨t, ht, hout⟩ := Option.bind_eq_some_iff.mp hread
  obtain ⟨u, hu, hbytes⟩ := Option.map_eq_some_iff.mp hout
  refine ⟨t, ht, rfl, ⟨u.1, by rw [hu, ← hbytes]⟩, fun hkept => ?_⟩
  have hinv : Inv 4096 (init (List.replicate 4096 0) : State Nat) :=
    init_inv (List.length_replicate ..)
  have hblank := (meets_kept_iff (by decide) hinv (by decide)).mp hkept
  obtain ⟨s, hs, hstate⟩ := Option.map_eq_some_iff.mp hfirst
  obtain ⟨hbyte, hoff⟩ := Prod.mk.inj hstate
  have hzero := (hblank.2 s hs).1
  rw [Blank, if_pos (by decide), hoff] at hzero
  exact absurd (hzero 0 65 hbyte (by decide)) (by decide)

theorem byteFile_iff_three :
    Meets (next 4096) (Kept 4096) (init (List.replicate 4096 0))
      (writes (1 : Nat) [([0, 0], 2), ([0, 9], 1), ([65, 66], 2)]) ∧
    ∃ t, run (next 4096) (init (List.replicate 4096 0))
        (writes (1 : Nat) [([0, 0], 2), ([0, 9], 1), ([65, 66], 2)]) = some t ∧
      ReadsBack 4096 t 2 [0, 0, 65, 66] := by
  have halloc : (List.replicate 4096 (0 : UInt8)).length = npages * 4096 :=
    List.length_replicate ..
  refine (byteFile_iff (by decide) halloc (by decide) (by decide)).mpr ?_
  have hfirst : (next 4096 (init (List.replicate 4096 0)) (.write (1 : Nat) [0, 0] 2)).all
      fun s => s.dev.kmalloc.all (· = 0) := by decide +kernel
  have hsecond : ((next 4096 (init (List.replicate 4096 0)) (.write (1 : Nat) [0, 0] 2)).bind
      (next 4096 · (.write 1 [0, 9] 1))).all fun s => s.dev.kmalloc.all (· = 0) := by
    decide +kernel
  refine ⟨blank_of_zero (fun _ => List.eq_of_mem_replicate) 1 (Or.inl (by decide)),
    fun s hs => ?_⟩
  replace hs : next 4096 (init (List.replicate 4096 0)) (.write 1 [0, 0] 2) = some s := hs
  rw [hs, Option.all_some, List.all_eq_true] at hfirst
  rw [hs, Option.bind_some] at hsecond
  refine ⟨blank_of_zero (fun b hb => of_decide_eq_true (hfirst b hb)) 1
    (Or.inr fun _ => List.mem_singleton.mp), fun t ht => ?_⟩
  replace ht : next 4096 s (.write 1 [0, 9] 1) = some t := ht
  rw [ht, Option.all_some, List.all_eq_true] at hsecond
  exact ⟨blank_of_zero (fun b hb => of_decide_eq_true (hsecond b hb)) 1 (Or.inl (by decide)),
    fun _ _ => trivial⟩

end Driver
end LinuxPrograming
