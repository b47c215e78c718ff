import LinuxPrograming.Lib.Bytes
import LinuxPrograming.Lib.CInt
import LinuxPrograming.Lib.Run
import Mathlib.Logic.Function.Basic

/-!
# The character driver

`m_read` and `m_write` of `05-fops-ioctl/hello.c` on the one page `mdev.kmalloc_ptr`.  The
driver has one size for all its users, and each open file has an offset of its own.  The
size of a page is a parameter.  A copy to or from the user's buffer stops where the mapped
part of that buffer ends, and what it brought before stays.  A copy that leaves the page has
no result.
-/

namespace LinuxPrograming
namespace Driver

open Lib

def npages : Nat := 1

/-- The kernel cuts the size of every request to this. -/
def maxRwCount : Nat := 2147479552

def efault : Int := -14

/-- The fields of `mdev` that reads and writes use: `size` and the bytes behind
`kmalloc_ptr`. -/
structure Dev where
  size : Int
  kmalloc : Bytes

/-- `n` bytes from `offset` on lie in the allocation. -/
def Dev.Inside (d : Dev) (offset : Int) (n : Nat) : Prop :=
  0 ≤ offset ∧ offset + n ≤ d.kmalloc.length

instance (d : Dev) (offset : Int) (n : Nat) : Decidable (d.Inside offset n) :=
  inferInstanceAs (Decidable (_ ∧ _))

/-- `m_read(filp, user_buffer, size, &offset)`: the returned value, the new offset and the
bytes in the user's buffer. -/
def mRead (d : Dev) (size mapped : Nat) (offset : Int) : Option (Int × Int × Bytes) :=
  let toRead := if toULong (d.size - offset) < size then toULong (d.size - offset) else size
  let copied := min mapped toRead
  if d.Inside offset copied then
    let data := (d.kmalloc.drop offset.toNat).take copied
    if mapped < toRead then some (efault, offset, data)
    else some (toLong toRead, toLong (offset + toRead), data)
  else none

/-- `m_write(filp, user_buffer, size, &offset)` for a buffer that holds `user`: the returned
value, the new offset and the device afterwards. -/
def mWrite (pageSize : Nat) (d : Dev) (user : Bytes) (mapped : Nat) (offset : Int) :
    Option (Int × Int × Dev) :=
  let toWrite :=
    if npages * pageSize < toULong (user.length + offset) then
      toULong ((npages * pageSize : Nat) - offset)
    else user.length
  let d := { d with kmalloc := List.replicate (npages * pageSize) 0 }
  if d.Inside offset toWrite then
    if mapped < toWrite then
      -- What was copied before the fault stays.
      some (efault, offset, { d with kmalloc := patch d.kmalloc offset.toNat (user.take mapped) })
    else
      some (toLong toWrite, toLong (offset + toWrite), { d with
        size := toInt (toLong (offset + toWrite))
        kmalloc := patch d.kmalloc offset.toNat (user.take toWrite) })
  else none

/-- The driver and the offset of each open file. -/
structure State (File : Type) where
  dev : Dev
  offset : File → Int

inductive Call (File : Type) where
  | read (f : File) (size mapped : Nat)
  | write (f : File) (user : Bytes) (mapped : Nat)

variable {File : Type}

def Call.file : Call File → File
  | .read f _ _ => f
  | .write f _ _ => f

def Call.size : Call File → Nat
  | .read _ size _ => size
  | .write _ user _ => user.length

/-- After `hello_world_init`: `kmalloc` does not clear the page. -/
def init (kmalloc : Bytes) : State File := ⟨⟨0, kmalloc⟩, fun _ => 0⟩

/-! ## The invariant -/

/-- The size and all offsets stay within the allocation. -/
structure Inv (pageSize : Nat) (s : State File) : Prop where
  alloc : s.dev.kmalloc.length = npages * pageSize
  size : 0 ≤ s.dev.size ∧ s.dev.size ≤ (npages * pageSize : Nat)
  offset : ∀ f, 0 ≤ s.offset f ∧ s.offset f ≤ (npages * pageSize : Nat)

variable {pageSize : Nat} {s t : State File}

theorem init_inv {kmalloc : Bytes} (h : kmalloc.length = npages * pageSize) :
    Inv pageSize (init kmalloc : State File) where
  alloc := h
  size := ⟨Int.le_refl 0, Int.natCast_nonneg _⟩
  offset _ := ⟨Int.le_refl 0, Int.natCast_nonneg _⟩

/-! ## What a call does -/

/-- How many bytes a read asks the copy for.  When the offset is ahead of the size the
difference is negative, which as `unsigned long` is more than any request. -/
def readCount (d : Dev) (size : Nat) (offset : Int) : Nat :=
  if offset ≤ d.size then min size (d.size - offset).toNat else size

section

variable (hpage : npages * pageSize ≤ maxRwCount) (h : Inv pageSize s)
include hpage h

theorem toRead_eq (f : File) {size : Nat}
    (hsize : s.offset f ≤ s.dev.size ∨ size ≤ maxRwCount) :
    (if toULong (s.dev.size - s.offset f) < size then toULong (s.dev.size - s.offset f)
      else size) = readCount s.dev size (s.offset f) := by
  have hs := h.size
  have ho := h.offset f
  rw [maxRwCount] at hpage hsize
  rw [readCount]
  by_cases hle : s.offset f ≤ s.dev.size
  · rw [toULong_of_nonneg (by omega) (by omega), if_pos hle]
    split <;> omega
  · have hlarge := toULong_of_neg (x := s.dev.size - s.offset f) (by omega) (by omega)
    rw [if_neg hle, if_neg (by omega)]

theorem mRead_eq (f : File) {size : Nat}
    (hsize : s.offset f ≤ s.dev.size ∨ size ≤ maxRwCount) (mapped : Nat) :
    mRead s.dev size mapped (s.offset f) =
      let n := readCount s.dev size (s.offset f)
      let data := (s.dev.kmalloc.drop (s.offset f).toNat).take (min mapped n)
      if s.dev.Inside (s.offset f) (min mapped n) then
        if mapped < n then some (efault, s.offset f, data)
        else some (n, s.offset f + n, data)
      else none := by
  have hs := h.size
  have ho := h.offset f
  have hn : readCount s.dev size (s.offset f) ≤ maxRwCount ∨
      readCount s.dev size (s.offset f) ≤ npages * pageSize := by
    rw [readCount]
    split <;> omega
  rw [maxRwCount] at hpage hn
  rw [mRead, toRead_eq hpage h f hsize, toLong_of_bounds (by omega) (by omega),
    toLong_of_bounds (by omega) (by omega)]

/-- A write stops at the end of the page. -/
theorem toWrite_eq (f : File) {n : Nat} (hn : n ≤ maxRwCount) :
    (if npages * pageSize < toULong (n + s.offset f) then
      toULong ((npages * pageSize : Nat) - s.offset f) else n) =
      min n ((npages * pageSize : Nat) - s.offset f).toNat := by
  have ho := h.offset f
  rw [maxRwCount] at hpage hn
  rw [toULong_of_nonneg (by omega) (by omega), toULong_of_nonneg (by omega) (by omega)]
  split <;> omega

theorem mWrite_eq (f : File) {user : Bytes} (huser : user.length ≤ maxRwCount) (mapped : Nat) :
    mWrite pageSize s.dev user mapped (s.offset f) =
      let n := min user.length ((npages * pageSize : Nat) - s.offset f).toNat
      let zeros := List.replicate (npages * pageSize) 0
      if mapped < n then
        some (efault, s.offset f,
          ⟨s.dev.size, patch zeros (s.offset f).toNat (user.take mapped)⟩)
      else some (n, s.offset f + n,
        ⟨s.offset f + n, patch zeros (s.offset f).toNat (user.take n)⟩) := by
  have ho := h.offset f
  have hlimit : maxRwCount = 2147479552 := rfl
  rw [mWrite, toWrite_eq hpage h f huser, toLong_of_bounds (by omega) (by omega),
    toLong_of_bounds (by omega) (by omega), toInt_of_bounds (by omega) (by omega)]
  refine if_pos ⟨ho.1, ?_⟩
  rw [List.length_replicate]
  omega

end

/-! ## Runs -/

variable [DecidableEq File]

/-- A call: the state afterwards, the returned value and the bytes a read hands out. -/
def call (pageSize : Nat) (s : State File) : Call File → Option (State File × Int × Bytes)
  | .read f size mapped =>
    (mRead s.dev size mapped (s.offset f)).map fun r =>
      ({ s with offset := Function.update s.offset f r.2.1 }, r.1, r.2.2)
  | .write f user mapped =>
    (mWrite pageSize s.dev user mapped (s.offset f)).map fun r =>
      (⟨r.2.2, Function.update s.offset f r.2.1⟩, r.1, [])

def next (pageSize : Nat) (s : State File) (c : Call File) : Option (State File) :=
  (call pageSize s c).map Prod.fst

/-- A store into the cleared page keeps its length. -/
theorem length_patch_zeros {i : Nat} {bs : Bytes} (hfit : i + bs.length ≤ npages * pageSize) :
    (patch (List.replicate (npages * pageSize) 0) i bs).length = npages * pageSize := by
  rw [length_patch (by rw [List.length_replicate]; exact hfit), List.length_replicate]

section

variable (hpage : npages * pageSize ≤ maxRwCount) (h : Inv pageSize s)

include h in
theorem update_offset (f : File) {x : Int} (hx : 0 ≤ x ∧ x ≤ (npages * pageSize : Nat)) (g : File) :
    0 ≤ Function.update s.offset f x g ∧
      Function.update s.offset f x g ≤ (npages * pageSize : Nat) := by
  by_cases hg : g = f
  · rw [hg, Function.update_self]
    exact hx
  · rw [Function.update_of_ne hg]
    exact h.offset g

include hpage h

theorem call_read (f : File) {size : Nat}
    (hsize : s.offset f ≤ s.dev.size ∨ size ≤ maxRwCount) (mapped : Nat) :
    call pageSize s (.read f size mapped) =
      let n := readCount s.dev size (s.offset f)
      let data := (s.dev.kmalloc.drop (s.offset f).toNat).take (min mapped n)
      if s.dev.Inside (s.offset f) (min mapped n) then
        if mapped < n then some (s, efault, data)
        else some ({ s with offset := Function.update s.offset f (s.offset f + n) }, n, data)
      else none := by
  rw [call, mRead_eq hpage h f hsize mapped]
  dsimp only
  split
  · split
    · rw [Option.map_some, Function.update_eq_self]
    · rfl
  · rfl

theorem call_write (f : File) {user : Bytes} (huser : user.length ≤ maxRwCount) (mapped : Nat) :
    call pageSize s (.write f user mapped) =
      let n := min user.length ((npages * pageSize : Nat) - s.offset f).toNat
      let zeros := List.replicate (npages * pageSize) 0
      if mapped < n then
        some (⟨⟨s.dev.size, patch zeros (s.offset f).toNat (user.take mapped)⟩, s.offset⟩,
          efault, [])
      else some (⟨⟨s.offset f + n, patch zeros (s.offset f).toNat (user.take n)⟩,
        Function.update s.offset f (s.offset f + n)⟩, n, []) := by
  rw [call, mWrite_eq hpage h f huser mapped]
  dsimp only
  split
  · rw [Option.map_some, Function.update_eq_self]
  · rfl

theorem next_inv {c : Call File} (hsize : c.size ≤ maxRwCount)
    (hnext : next pageSize s c = some t) : Inv pageSize t := by
  have ho := h.offset c.file
  cases c with
  | read f size mapped =>
    have hle : size ≤ maxRwCount := hsize
    rw [next, call_read hpage h f (.inr hle) mapped] at hnext
    dsimp only at hnext
    split at hnext
    · next hin =>
      have hend := hin.2
      rw [h.alloc] at hend
      split at hnext
      · exact Option.some.inj hnext ▸ h
      · next hmap =>
        rw [Nat.min_eq_right (Nat.le_of_not_lt hmap)] at hend
        obtain rfl := Option.some.inj hnext
        exact ⟨h.alloc, h.size, update_offset h f ⟨by have := hin.1; omega, hend⟩⟩
    · cases hnext
  | write f user mapped =>
    rw [next, call_write hpage h f (by exact hsize) mapped] at hnext
    dsimp only [Call.file] at hnext ho
    split at hnext
    · obtain rfl := Option.some.inj hnext
      exact ⟨length_patch_zeros (by rw [List.length_take]; omega), h.size, h.offset⟩
    · obtain rfl := Option.some.inj hnext
      refine ⟨length_patch_zeros (by rw [List.length_take]; omega), ?_,
        update_offset h f ?_⟩
      · dsimp only
        omega
      · omega

end

/-- The call copies within the allocation, hands out bytes below the size only and leaves
every offset within the allocation. -/
def Safe (pageSize : Nat) (s : State File) (c : Call File) : Prop :=
  ∃ t ret data, call pageSize s c = some (t, ret, data) ∧
    data <+: (s.dev.kmalloc.take s.dev.size.toNat).drop (s.offset c.file).toNat ∧
    ∀ f, 0 ≤ t.offset f ∧ t.offset f ≤ (npages * pageSize : Nat)

/-- The call is no read through a file whose offset is ahead of the size, except for nothing
or into a buffer of which no byte is mapped. -/
def NotAhead (s : State File) : Call File → Prop
  | .read f size mapped => s.offset f ≤ s.dev.size ∨ size = 0 ∨ mapped = 0
  | .write _ _ _ => True

instance (c : Call File) : Decidable (NotAhead s c) :=
  match c with
  | .read _ _ _ => inferInstanceAs (Decidable (_ ∨ _ ∨ _))
  | .write _ _ _ => inferInstanceAs (Decidable True)

/-- Bytes of the page from an offset on, as a prefix of those below the size. -/
theorem slice_prefix_iff {m : Bytes} {o n k : Nat} (hin : o + n ≤ m.length) :
    (m.drop o).take n <+: (m.take k).drop o ↔ n = 0 ∨ o + n ≤ k := by
  rw [List.drop_take]
  constructor
  · intro hprefix
    have hlen := hprefix.length_le
    rw [List.length_take, List.length_take, List.length_drop] at hlen
    omega
  · intro hn
    exact List.take_prefix_take_left (by omega)

section

variable (hpage : npages * pageSize ≤ maxRwCount) (h : Inv pageSize s)
include hpage h

/-- The offsets need no look, since every call that has a result keeps them. -/
theorem safe_iff_call {c : Call File} (hsize : c.size ≤ maxRwCount) :
    Safe pageSize s c ↔ ∃ r, call pageSize s c = some r ∧
      r.2.2 <+: (s.dev.kmalloc.take s.dev.size.toNat).drop (s.offset c.file).toNat := by
  constructor
  · rintro ⟨t, ret, data, hcall, hdata, -⟩
    exact ⟨_, hcall, hdata⟩
  · rintro ⟨⟨t, ret, data⟩, hcall, hdata⟩
    have hnext : next pageSize s c = some t := by rw [next, hcall]; rfl
    exact ⟨t, ret, data, hcall, hdata, (next_inv hpage h hsize hnext).offset⟩

theorem safe_write (f : File) {user : Bytes} (huser : user.length ≤ maxRwCount)
    (mapped : Nat) : Safe pageSize s (.write f user mapped) := by
  rw [safe_iff_call hpage h (by exact huser), call_write hpage h f huser mapped]
  dsimp only
  split
  · exact ⟨_, rfl, List.nil_prefix⟩
  · exact ⟨_, rfl, List.nil_prefix⟩

theorem safe_read_iff (f : File) {size : Nat} (hsize : size ≤ maxRwCount) {mapped n : Nat}
    (hn : min mapped (readCount s.dev size (s.offset f)) = n) :
    Safe pageSize s (.read f size mapped) ↔
      s.offset f + n ≤ (npages * pageSize : Nat) ∧ (n = 0 ∨ s.offset f + n ≤ s.dev.size) := by
  have hs := h.size
  have ho := h.offset f
  have hin : s.dev.Inside (s.offset f) n ↔ s.offset f + n ≤ (npages * pageSize : Nat) := by
    rw [Dev.Inside, h.alloc]
    exact and_iff_right ho.1
  rw [safe_iff_call hpage h (by exact hsize), call_read hpage h f (Or.inr hsize) mapped, ← hin]
  dsimp only [Call.file]
  rw [hn]
  by_cases hinside : s.dev.Inside (s.offset f) n
  · rw [if_pos hinside, and_iff_right hinside]
    have hend := hinside.2
    have hslice := slice_prefix_iff (m := s.dev.kmalloc) (k := s.dev.size.toNat)
      (o := (s.offset f).toNat) (n := n) (by omega)
    have hle : s.offset f + n ≤ s.dev.size ↔
        (s.offset f).toNat + n ≤ s.dev.size.toNat := by
      omega
    rw [hle, ← hslice]
    -- The bytes are the same whether the copy reached its end or not.
    constructor
    · rintro ⟨r, hr, hdata⟩
      split at hr
      · obtain rfl := Option.some.inj hr
        exact hdata
      · obtain rfl := Option.some.inj hr
        exact hdata
    · intro hdata
      split
      · exact ⟨_, rfl, hdata⟩
      · exact ⟨_, rfl, hdata⟩
  · rw [if_neg hinside]
    refine iff_of_false ?_ fun hboth => hinside hboth.1
    rintro ⟨r, hr, -⟩
    cases hr

theorem safe_iff {c : Call File} (hsize : c.size ≤ maxRwCount) :
    Safe pageSize s c ↔ NotAhead s c := by
  cases c with
  | read f size mapped =>
    have hs := h.size
    have ho := h.offset f
    rw [safe_read_iff hpage h f (by exact hsize) rfl, NotAhead, readCount]
    split <;> omega
  | write f user mapped => exact iff_of_true (safe_write hpage h f hsize mapped) trivial

end

/-- The driver stays within its page over a sequence of calls, each of at most the kernel's
size, exactly when no call of it reads ahead of the size. -/
theorem fops_safe_iff (hpage : npages * pageSize ≤ maxRwCount) {kmalloc : Bytes}
    (halloc : kmalloc.length = npages * pageSize) {cs : List (Call File)}
    (hsize : ∀ c ∈ cs, c.size ≤ maxRwCount) :
    Meets (next pageSize) (Safe pageSize) (init kmalloc) cs ↔
      Meets (next pageSize) NotAhead (init kmalloc) cs :=
  meets_congr (fun _ _ _ hs hc hnext => next_inv hpage hs hc hnext)
    (fun _ _ hs hc => safe_iff hpage hs hc) (init_inv halloc)
    (meets_of_forall (fun c hc _ => hsize c hc) _)

/-- Two users: the second write makes the size smaller than the offset of the first user,
whose read then leaves the page. -/
theorem fops_overread :
    ∃ s, run (next 4096) (init (List.replicate 4096 0))
        [.write 1 [65, 66] 2, .write 2 [67] 1] = some s ∧
      call 4096 s (.read 1 4096 4096) = none ∧ ¬ Safe 4096 s (.read (1 : Nat) 4096 4096) := by
  have hsome : (run (next 4096) (init (List.replicate 4096 0))
      [.write 1 [65, 66] 2, .write (2 : Nat) [67] 1]).isSome := by decide +kernel
  have hcall : ((run (next 4096) (init (List.replicate 4096 0))
      [.write 1 [65, 66] 2, .write (2 : Nat) [67] 1]).bind
        (call 4096 · (.read 1 4096 4096))).isNone := by decide +kernel
  obtain ⟨s, hs⟩ := Option.isSome_iff_exists.mp hsome
  rw [hs, Option.bind_some, Option.isNone_iff_eq_none] at hcall
  refine ⟨s, hs, hcall, ?_⟩
  rintro ⟨t, ret, data, hsafe, -⟩
  cases hcall.symm.trans hsafe

theorem fops_safe_iff_two :
    Meets (next 4096) (Safe 4096) (init (List.replicate 4096 0))
      [.write 1 [65, 66] 2, .read 2 1 1, .read (1 : Nat) 4096 4096] :=
  (fops_safe_iff (by decide) (List.length_replicate ..) (by decide)).mpr (by decide +kernel)

/-- With a single open file no call reads ahead. -/
theorem notAhead_of_subsingleton [Subsingleton File]
    (hpage : npages * pageSize ≤ maxRwCount) {kmalloc : Bytes}
    (halloc : kmalloc.length = npages * pageSize) {cs : List (Call File)}
    (hsize : ∀ c ∈ cs, c.size ≤ maxRwCount) :
    Meets (next pageSize) NotAhead (init kmalloc) cs := by
  refine meets_of_inv (I := fun s => Inv pageSize s ∧ ∀ f, s.offset f ≤ s.dev.size)
    (fun s c t hs hc hnext => ⟨next_inv hpage hs.1 hc hnext, ?_⟩) (fun s c hs _ => ?_)
    ⟨init_inv halloc, fun _ => Int.le_refl 0⟩ (meets_of_forall (fun c hc _ => hsize c hc) _)
  · intro g
    have hle := hs.2 c.file
    cases c with
    | read f size mapped =>
      have hmax : size ≤ maxRwCount := hc
      rw [next, call_read hpage hs.1 f (.inr hmax) mapped] at hnext
      dsimp only [Call.file] at hnext hle
      have hcount : readCount s.dev size (s.offset f) =
          min size (s.dev.size - s.offset f).toNat := if_pos hle
      split at hnext
      · split at hnext
        · obtain rfl := Option.some.inj hnext
          exact hs.2 g
        · obtain rfl := Option.some.inj hnext
          rw [Subsingleton.elim g f]
          show Function.update s.offset f _ f ≤ s.dev.size
          rw [Function.update_self]
          omega
      · cases hnext
    | write f user mapped =>
      rw [next, call_write hpage hs.1 f (by exact hc) mapped] at hnext
      dsimp only at hnext
      split at hnext
      · obtain rfl := Option.some.inj hnext
        exact hs.2 g
      · obtain rfl := Option.some.inj hnext
        rw [Subsingleton.elim g f]
        exact Int.le_of_eq (Function.update_self ..)
  · cases c with
    | read f size mapped => exact Or.inl (hs.2 f)
    | write f user mapped => exact trivial

end Driver
end LinuxPrograming
