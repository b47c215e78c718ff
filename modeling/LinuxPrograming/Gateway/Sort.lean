import LinuxPrograming.Lib.CInt
import LinuxPrograming.Lib.Cells
import Mathlib.Data.List.Sort

/-!
# `os_gen.c`: merge sort

The array may be accessed in a window, and so may the two temporary arrays, whose cells have no
value until they are written.  The parameter `l` of `merge` is where the next element goes.  A
window that ends at `INT_MAX` makes it leave the range of `int` behind the last cell, which is a
fault although no element is left to write.
-/

namespace LinuxPrograming
namespace Gateway

open Lib

variable {lo hi : Int}

/-- An array of `len` elements on the stack. -/
abbrev Vla (len : Int) := Cells (Option Int) 0 (len - 1)

theorem zero_le_zero : (0 : Int) ≤ 0 := Int.le_refl 0

theorem pred_lt_length_replicate (len : Int) :
    len - 1 < (List.replicate len.toNat (none : Option Int)).length := by
  rw [List.length_replicate]
  omega

/-- `int V[len]`. -/
def vla (len : Int) : Option (Vla len) :=
  if 0 < len then
    some ⟨List.replicate len.toNat none, zero_le_zero, pred_lt_length_replicate len⟩
  else none

/-- `V[i]`. -/
def Vla.load {len : Int} (V : Vla len) (i : Int) : Option Int := (V.read i).join

/-- `for (int i = 0; i < len; i++) V[i] = a[base + i]`, from `i` on. -/
def fillLoop (a : Cells Int lo hi) (base : Int) {len : Int} (V : Vla len) (i : Int) :
    Option (Vla len) :=
  if i < len then
    if FitsInt (i + 1) then do
      let k ← int (base + i)
      let v ← a.read k
      let V ← V.write i (some v)
      fillLoop a base V (i + 1)
    else none
  else some V
termination_by (len - i).toNat

/-- `a[l++] = v`. -/
def storeNext (a : Cells Int lo hi) (l v : Int) : Option (Cells Int lo hi × Int) := do
  let a ← a.write l v
  let l ← int (l + 1)
  pure (a, l)

/-- `while (i < len1 && j < len2)`: the array, `l`, `i` and `j` behind the loop. -/
def mergeLoop {len1 len2 : Int} (L : Vla len1) (R : Vla len2) (a : Cells Int lo hi)
    (l i j : Int) : Option ((Cells Int lo hi × Int) × Int × Int) :=
  if i < len1 ∧ j < len2 then do
    let x ← L.load i
    let y ← R.load j
    if x ≤ y then
      if FitsInt (i + 1) then do
        let s ← storeNext a l x
        mergeLoop L R s.1 s.2 (i + 1) j
      else none
    else
      if FitsInt (j + 1) then do
        let s ← storeNext a l y
        mergeLoop L R s.1 s.2 i (j + 1)
      else none
  else some ((a, l), i, j)
termination_by (len1 - i).toNat + (len2 - j).toNat
decreasing_by
  all_goals omega

/-- `while (i < len) a[l++] = V[i++]`. -/
def drainLoop {len : Int} (V : Vla len) (s : Cells Int lo hi × Int) (i : Int) :
    Option (Cells Int lo hi × Int) :=
  if i < len then
    if FitsInt (i + 1) then do
      let v ← V.load i
      let s ← storeNext s.1 s.2 v
      drainLoop V s (i + 1)
    else none
  else some s
termination_by (len - i).toNat

/-- The three loops of `merge` that write to the array. -/
def mergeBack {len1 len2 : Int} (L : Vla len1) (R : Vla len2) (a : Cells Int lo hi)
    (l i j : Int) : Option (Cells Int lo hi) := do
  let t ← mergeLoop L R a l i j
  let s ← drainLoop L t.1 t.2.1
  let s ← drainLoop R s t.2.2
  pure s.1

def merge (a : Cells Int lo hi) (l m r : Int) : Option (Cells Int lo hi) := do
  let d ← int (m - l)
  let len1 ← int (d + 1)
  let len2 ← int (r - m)
  let L ← vla len1
  let R ← vla len2
  let L ← fillLoop a l L 0
  let base ← int (m + 1)
  let R ← fillLoop a base R 0
  mergeBack L R a l 0 0

def sort (arr : Cells Int lo hi) (l r : Int) : Option (Cells Int lo hi) :=
  if l < r then
    if FitsInt (r - l) then do
      let mid := l + (r - l).tdiv 2
      if FitsInt mid ∧ FitsInt (mid + 1) then do
        let arr ← sort arr l mid
        let arr ← sort arr (mid + 1) r
        merge arr l mid r
      else none
    else none
  else some arr
termination_by (r + 1 - l).toNat
decreasing_by
  all_goals
    have hdiv : (r - l).tdiv 2 = (r - l) / 2 := Int.tdiv_eq_ediv_of_nonneg (by omega)
    omega

/-! ## The write index -/

/-- The write index behind `n` elements.  Only a step can leave the range. -/
def advance (k : Int) (n : Nat) : Option Int := if n = 0 then some k else int (k + n)

theorem advance_zero (k : Int) : advance k 0 = some k := if_pos rfl

theorem advance_succ {k : Int} (hk : 0 ≤ k) (n : Nat) :
    advance k (n + 1) = (int (k + 1)).bind fun k => advance k n := by
  rw [advance, if_neg (Nat.succ_ne_zero n)]
  have hsum : k + (n + 1 : Nat) = k + 1 + n := by omega
  rw [hsum]
  by_cases hle : k + 1 ≤ maxInt
  · rw [int_of_fits (fitsInt_of_bounds (x := k + 1) (by omega) hle), Option.bind_some, advance]
    split
    · next hzero =>
      rw [hzero, Int.natCast_zero, Int.add_zero, int_of_fits (fitsInt_of_bounds (by omega) hle)]
    · rfl
  · rw [int_of_lt (x := k + 1) (by omega), int_of_lt (by omega), Option.bind_none]

theorem advance_add {k : Int} (hk : 0 ≤ k) (m n : Nat) :
    advance k (m + n) = (advance k m).bind fun k => advance k n := by
  induction m generalizing k with
  | zero => rw [Nat.zero_add, advance_zero, Option.bind_some]
  | succ m ih =>
    rw [Nat.add_right_comm, advance_succ hk, advance_succ hk, Option.bind_assoc]
    cases hnext : int (k + 1) with
    | none => rfl
    | some k' =>
      obtain rfl := eq_of_int_eq_some hnext
      exact ih (by omega)

theorem eq_of_advance_eq_some {k l : Int} {n : Nat} (h : advance k n = some l) : k + n = l := by
  rw [advance] at h
  split at h
  · next hzero =>
    rw [hzero, Int.natCast_zero, Int.add_zero]
    exact Option.some.inj h
  · exact eq_of_int_eq_some h

/-! ## Segments -/

/-- The elements `xs` stand behind `pre`, from place `k` on, where the array may be accessed. -/
structure Segment (a : Cells Int lo hi) (pre xs post : List Int) (k : Int) : Prop where
  val : a.val = pre ++ xs ++ post
  start : k = pre.length
  low : lo ≤ k
  high : k + xs.length ≤ hi + 1
  fits : k + xs.length ≤ maxInt + 1

namespace Segment

variable {a : Cells Int lo hi} {pre xs ys post : List Int} {k : Int}

theorem left (h : Segment a pre (xs ++ ys) post k) : Segment a pre xs (ys ++ post) k := by
  obtain ⟨hval, hstart, hlow, hhigh, hfits⟩ := h
  rw [List.length_append] at hhigh hfits
  refine ⟨?_, hstart, hlow, by omega, by omega⟩
  rw [hval]
  simp only [List.append_assoc]

theorem right (h : Segment a pre (xs ++ ys) post k) :
    Segment a (pre ++ xs) ys post (k + xs.length) := by
  obtain ⟨hval, hstart, hlow, hhigh, hfits⟩ := h
  rw [List.length_append] at hhigh hfits
  refine ⟨?_, ?_, by omega, by omega, by omega⟩
  · rw [hval]
    simp only [List.append_assoc]
  · rw [List.length_append]
    omega

/-- Elements behind the segment that may be accessed belong to it. -/
theorem extend (h : Segment a pre xs (ys ++ post) k) (hhigh : k + xs.length + ys.length ≤ hi + 1)
    (hfits : k + xs.length + ys.length ≤ maxInt + 1) : Segment a pre (xs ++ ys) post k := by
  obtain ⟨hval, hstart, hlow, -, -⟩ := h
  refine ⟨?_, hstart, hlow, ?_, ?_⟩
  · rw [hval]
    simp only [List.append_assoc]
  · rw [List.length_append]
    omega
  · rw [List.length_append]
    omega

theorem read {x : Int} (h : Segment a pre (xs ++ x :: ys) post k) :
    a.read (k + xs.length) = some x := by
  obtain ⟨hval, hstart, hlow, hhigh, -⟩ := h.right
  rw [List.length_cons] at hhigh
  rw [List.append_assoc, List.cons_append] at hval
  exact a.read_append hval hstart hlow (by omega)

theorem nonneg (h : Segment a pre xs post k) : 0 ≤ k := by
  rw [h.start]
  exact Int.natCast_nonneg _

theorem storeNext {y : Int} (h : Segment a pre (y :: xs) post k) (v : Int) :
    ∃ a', storeNext a k v = (int (k + 1)).map (Prod.mk a') ∧
      Segment a' (pre ++ [v]) xs post (k + 1) := by
  obtain ⟨hval, hstart, hlow, hhigh, hfits⟩ := h
  rw [List.length_cons] at hhigh hfits
  rw [List.append_assoc, List.cons_append] at hval
  obtain ⟨a', hwrite, hval'⟩ := a.write_append hval hstart hlow (by omega) v
  refine ⟨a', ?_, ?_, ?_, by omega, by omega, by omega⟩
  · rw [Gateway.storeNext, hwrite, Option.map_eq_bind]
    rfl
  · rw [hval', List.append_assoc, List.append_assoc]
    rfl
  · rw [List.length_append, List.length_singleton]
    omega

/-- Two segments one behind the other are one. -/
theorem append (h : Segment a (pre ++ xs) ys post (k + xs.length)) (hlow : lo ≤ k) :
    Segment a pre (xs ++ ys) post k := by
  obtain ⟨hval, hstart, -, hhigh, hfits⟩ := h
  rw [List.length_append] at hstart
  refine ⟨?_, by omega, hlow, ?_, ?_⟩
  · rw [hval]
    simp only [List.append_assoc]
  · rw [List.length_append]
    omega
  · rw [List.length_append]
    omega

end Segment

/-! ## The temporary arrays -/

/-- `V` holds `xs`. -/
structure Vla.Holds {len : Int} (V : Vla len) (xs : List Int) : Prop where
  val : V.val = xs.map some
  length : len = xs.length
  fits : len ≤ maxInt

section

variable {len : Int} {V : Vla len}

theorem vla_of_pos (h : 0 < len) :
    ∃ V : Vla len, vla len = some V ∧ V.val = List.replicate len.toNat none :=
  ⟨_, if_pos h, rfl⟩

theorem Vla.Holds.load {taken rest : List Int} {x i : Int} (h : V.Holds (taken ++ x :: rest))
    (hi : i = taken.length) : V.load i = some x := by
  have hlen := h.length
  rw [List.length_append, List.length_cons] at hlen
  have hval : V.val = taken.map some ++ some x :: rest.map some := by
    rw [h.val, List.map_append, List.map_cons]
  have hidx : i = (taken.map some).length := by rw [List.length_map, hi]
  rw [Vla.load, V.read_append hval hidx (by omega) (by omega)]
  rfl

variable {a : Cells Int lo hi} {pre post : List Int} {base : Int}

/-- What has been copied stands in front of the cells that are still to be written. -/
theorem fillLoop_holds {done rest : List Int} {unset : List (Option Int)} {i : Int}
    (h : Segment a pre (done ++ rest) post base) (hlen : len = (done ++ rest).length)
    (hle : len ≤ maxInt) (hV : V.val = done.map some ++ unset)
    (hunset : unset.length = rest.length) (hi : i = done.length) :
    ∃ V', fillLoop a base V i = some V' ∧ V'.Holds (done ++ rest) := by
  induction rest generalizing done unset i V with
  | nil =>
    rw [List.append_nil] at hlen ⊢
    have hnil : unset = [] := List.eq_nil_of_length_eq_zero hunset
    rw [hnil, List.append_nil] at hV
    refine ⟨V, ?_, hV, hlen, hle⟩
    rw [fillLoop, if_neg (by omega)]
  | cons x rest ih =>
    obtain ⟨u, unset, rfl⟩ : ∃ u us, unset = u :: us :=
      List.exists_cons_of_length_eq_add_one hunset
    have hstart := h.start
    have hfits := h.fits
    have hlen' := hlen
    rw [← hlen] at hfits
    rw [List.length_append, List.length_cons] at hlen'
    have hread : a.read (base + i) = some x := hi ▸ h.read
    have hkfits : FitsInt (base + i) := fitsInt_of_bounds (by omega) (by omega)
    have hdone : i = (done.map some).length := by rw [List.length_map, hi]
    obtain ⟨V', hwrite, hV'⟩ := V.write_append hV hdone (by omega) (by omega) (some x)
    rw [fillLoop, if_pos (by omega), if_pos (fitsInt_of_bounds (by omega) (by omega)),
      int_of_fits hkfits]
    simp only [Option.bind_eq_bind, Option.bind_some, hread, hwrite]
    have hsplit : done ++ x :: rest = (done ++ [x]) ++ rest := List.append_cons done x rest
    rw [hsplit] at h hlen ⊢
    refine ih h hlen ?_ (Nat.succ.inj hunset) ?_
    · rw [hV', List.map_append, List.append_assoc]
      rfl
    · rw [List.length_append, List.length_singleton]
      omega

/-- A new array is filled with a segment. -/
theorem fillLoop_all {xs : List Int} (h : Segment a pre xs post base) (hlen : len = xs.length)
    (hle : len ≤ maxInt) (hV : V.val = List.replicate len.toNat none) :
    ∃ V', fillLoop a base V 0 = some V' ∧ V'.Holds xs := by
  have h' : Segment a pre ([] ++ xs) post base := h
  refine fillLoop_holds h' hlen hle hV ?_ rfl
  rw [List.length_replicate]
  omega

end

/-! ## Writing back -/

section

variable {a : Cells Int lo hi} {pre old more post : List Int} {k : Int}

/-- The rest of a temporary array replaces as many elements. -/
theorem drainLoop_segment {len : Int} {V : Vla len} {taken rest : List Int} {i : Int}
    (hV : V.Holds (taken ++ rest)) (hi : i = taken.length)
    (h : Segment a pre (old ++ more) post k) (hold : old.length = rest.length) :
    ∃ a', drainLoop V (a, k) i = (advance k rest.length).map (Prod.mk a') ∧
      Segment a' (pre ++ rest) more post (k + rest.length) := by
  have hlen := hV.length
  have hfits := hV.fits
  rw [List.length_append] at hlen
  induction rest generalizing taken i a pre old k with
  | nil =>
    obtain rfl : old = [] := List.eq_nil_of_length_eq_zero hold
    rw [List.length_nil] at hlen
    refine ⟨a, ?_, ?_⟩
    · rw [drainLoop, if_neg (by omega), List.length_nil, advance_zero]
      rfl
    · simpa using h
  | cons v rest ih =>
    obtain ⟨y, old, rfl⟩ : ∃ y ys, old = y :: ys := List.exists_cons_of_length_eq_add_one hold
    rw [List.length_cons] at hlen
    rw [List.cons_append] at h
    obtain ⟨a', hstore, h'⟩ := h.storeNext v
    have hV' : V.Holds ((taken ++ [v]) ++ rest) := List.append_cons taken v rest ▸ hV
    have hi' : i + 1 = (taken ++ [v]).length := by
      rw [List.length_append, List.length_singleton]
      omega
    obtain ⟨a'', hdrain, h''⟩ := ih hV' hi' h' (Nat.succ.inj hold) (by omega)
    have hend : k + ((v :: rest).length : Nat) = k + 1 + (rest.length : Nat) := by
      rw [List.length_cons]
      omega
    refine ⟨a'', ?_, ?_⟩
    · rw [drainLoop, if_pos (by omega), if_pos (fitsInt_of_bounds (by omega) (by omega)),
        hV.load hi, List.length_cons, advance_succ h.nonneg]
      simp only [Option.bind_eq_bind, Option.bind_some, hstore]
      cases hnext : int (k + 1) with
      | none => rfl
      | some l =>
        obtain rfl := eq_of_int_eq_some hnext
        exact hdrain
    · rw [hend, List.append_cons]
      exact h''

theorem exists_append_of_length {xs : List Int} {m n : Nat} (h : xs.length = m + n) :
    ∃ ys zs, xs = ys ++ zs ∧ ys.length = m ∧ zs.length = n := by
  refine ⟨xs.take m, xs.drop m, (List.take_append_drop m xs).symm, ?_, ?_⟩
  · exact List.length_take_of_le (by omega)
  · rw [List.length_drop]
    omega

variable {len1 len2 : Int} {L : Vla len1} {R : Vla len2} {takenL xs takenR ys : List Int}
  {i j : Int} (hL : L.Holds (takenL ++ xs)) (hR : R.Holds (takenR ++ ys))
  (hposL : i = takenL.length) (hposR : j = takenR.length) (h : Segment a pre old post k)
  (hold : old.length = xs.length + ys.length)
include hL hR hposL hposR h hold

/-- Behind the first loop the rests are written one after the other. -/
theorem mergeBack_exit (hempty : xs = [] ∨ ys = []) :
    ∃ a', mergeBack L R a k i j =
        (advance k (xs.length + ys.length)).map (fun _ => a') ∧
      Segment a' pre (xs ++ ys) post k := by
  have hexit : ¬ (i < len1 ∧ j < len2) := by
    have hlen1 := hL.length
    have hlen2 := hR.length
    rw [List.length_append] at hlen1 hlen2
    intro hlt
    rcases hempty with hnil | hnil
    · rw [hnil, List.length_nil] at hlen1
      omega
    · rw [hnil, List.length_nil] at hlen2
      omega
  obtain ⟨oldL, oldR, rfl, holdL, holdR⟩ := exists_append_of_length hold
  obtain ⟨a', hdrainL, h'⟩ := drainLoop_segment hL hposL h holdL
  rw [← List.append_nil oldR] at h'
  obtain ⟨a'', hdrainR, h''⟩ := drainLoop_segment hR hposR h' holdR
  have hhigh := h.high
  have hfits := h.fits
  rw [hold] at hhigh hfits
  refine ⟨a'', ?_, ?_, h.start, h.low, ?_, ?_⟩
  · rw [mergeBack, mergeLoop, if_neg hexit, advance_add h.nonneg]
    simp only [Option.bind_eq_bind, Option.bind_some, hdrainL]
    cases hnext : advance k xs.length with
    | none => rfl
    | some l =>
      obtain rfl := eq_of_advance_eq_some hnext
      simp only [Option.map_some, Option.bind_some, hdrainR]
      cases advance (k + xs.length) ys.length with
      | none => rfl
      | some l => rfl
  · rw [h''.val, List.append_nil, List.append_assoc pre]
  · rwa [List.length_append]
  · rwa [List.length_append]

/-- The three loops write what `List.merge` makes of the rests. -/
theorem mergeBack_segment :
    ∃ a', mergeBack L R a k i j =
        (advance k (xs.length + ys.length)).map (fun _ => a') ∧
      Segment a' pre (xs.merge ys) post k := by
  induction old generalizing takenL xs takenR ys i j a pre k with
  | nil =>
    have hnil : xs = [] := by
      rw [List.length_nil] at hold
      exact List.eq_nil_of_length_eq_zero (by omega)
    rw [hnil] at hL hold ⊢
    rw [List.nil_merge]
    exact mergeBack_exit hL hR hposL hposR h hold (.inl rfl)
  | cons z old ih =>
    cases xs with
    | nil =>
      rw [List.nil_merge]
      exact mergeBack_exit hL hR hposL hposR h hold (.inl rfl)
    | cons x xs =>
      cases ys with
      | nil =>
        have hexit := mergeBack_exit hL hR hposL hposR h hold (.inr rfl)
        rw [List.append_nil] at hexit
        rwa [List.merge_right (x :: xs)]
      | cons y ys =>
        have hlen1 := hL.length
        have hlen2 := hR.length
        have hfits1 := hL.fits
        have hfits2 := hR.fits
        rw [List.length_append, List.length_cons] at hlen1 hlen2
        rw [List.length_cons, List.length_cons, List.length_cons] at hold
        have hin : i < len1 ∧ j < len2 := by omega
        have hcount : (x :: xs).length + (y :: ys).length = old.length + 1 := by
          rw [List.length_cons, List.length_cons]
          omega
        rw [hcount, advance_succ h.nonneg]
        by_cases hle : x ≤ y
        · obtain ⟨a', hstore, h'⟩ := h.storeNext x
          have hL' : L.Holds ((takenL ++ [x]) ++ xs) := List.append_cons takenL x xs ▸ hL
          have hposL' : i + 1 = (takenL ++ [x]).length := by
            rw [List.length_append, List.length_singleton]
            omega
          have hold' : old.length = xs.length + (y :: ys).length := by
            rw [List.length_cons]
            omega
          obtain ⟨a'', hback, h''⟩ := ih hL' hR hposL' hposR h' hold'
          rw [← hold'] at hback
          refine ⟨a'', ?_, ?_⟩
          · rw [mergeBack, mergeLoop, if_pos hin, hL.load hposL, hR.load hposR]
            simp only [Option.bind_eq_bind, Option.bind_some, if_pos hle,
              if_pos (fitsInt_of_bounds (x := i + 1) (by omega) (by omega)), hstore]
            cases hnext : int (k + 1) with
            | none => rfl
            | some l =>
              obtain rfl := eq_of_int_eq_some hnext
              exact hback
          · rw [List.cons_merge_cons_pos _ _ _ (by simpa using hle)]
            exact h''.append h.low
        · obtain ⟨a', hstore, h'⟩ := h.storeNext y
          have hR' : R.Holds ((takenR ++ [y]) ++ ys) := List.append_cons takenR y ys ▸ hR
          have hposR' : j + 1 = (takenR ++ [y]).length := by
            rw [List.length_append, List.length_singleton]
            omega
          have hold' : old.length = (x :: xs).length + ys.length := by
            rw [List.length_cons]
            omega
          obtain ⟨a'', hback, h''⟩ := ih hL hR' hposL hposR' h' hold'
          rw [← hold'] at hback
          refine ⟨a'', ?_, ?_⟩
          · rw [mergeBack, mergeLoop, if_pos hin, hL.load hposL, hR.load hposR]
            simp only [Option.bind_eq_bind, Option.bind_some, if_neg hle,
              if_pos (fitsInt_of_bounds (x := j + 1) (by omega) (by omega)), hstore]
            cases hnext : int (k + 1) with
            | none => rfl
            | some l =>
              obtain rfl := eq_of_int_eq_some hnext
              exact hback
          · rw [List.cons_merge_cons_neg _ _ _ (by simpa using hle)]
            exact h''.append h.low

end

/-! ## Sorting -/

section

variable {a : Cells Int lo hi} {pre xs ys post : List Int} {l m r : Int}

/-- Two segments are replaced by their merge, unless they end at `INT_MAX`. -/
theorem merge_segment (h : Segment a pre (xs ++ ys) post l) (hxs : m + 1 = l + xs.length)
    (hys : r = m + ys.length) (hl : 0 ≤ l) (hlm : l ≤ m) (hmr : m < r) :
    ∃ a', merge a l m r = (int (r + 1)).map (fun _ => a') ∧
      Segment a' pre (xs.merge ys) post l := by
  have hfits := h.fits
  rw [List.length_append] at hfits
  have hlen1 : 0 < m - l + 1 := by omega
  have hlen2 : 0 < r - m := by omega
  have hright : Segment a (pre ++ xs) ys post (m + 1) := hxs ▸ h.right
  obtain ⟨L₀, hL₀, hunsetL⟩ := vla_of_pos hlen1
  obtain ⟨R₀, hR₀, hunsetR⟩ := vla_of_pos hlen2
  obtain ⟨L, hfillL, hL⟩ := fillLoop_all h.left (by omega) (by omega) hunsetL
  obtain ⟨R, hfillR, hR⟩ := fillLoop_all hright (by omega) (by omega) hunsetR
  have hL' : L.Holds ([] ++ xs) := hL
  have hR' : R.Holds ([] ++ ys) := hR
  have hzero : (0 : Int) = ([] : List Int).length := rfl
  obtain ⟨a', hback, h'⟩ :=
    mergeBack_segment hL' hR' hzero hzero h (List.length_append ..)
  refine ⟨a', ?_, h'⟩
  have hsum : l + (xs.length + ys.length : Nat) = r + 1 := by omega
  rw [advance, if_neg (by omega), hsum] at hback
  rw [merge, int_of_fits (x := m - l) (fitsInt_of_bounds (by omega) (by omega))]
  simp only [Option.bind_eq_bind, Option.bind_some]
  rw [int_of_fits (x := m - l + 1) (fitsInt_of_bounds (by omega) (by omega)),
    int_of_fits (x := r - m) (fitsInt_of_bounds (by omega) (by omega)),
    int_of_fits (x := m + 1) (fitsInt_of_bounds (by omega) (by omega))]
  simp only [Option.bind_some, hL₀, hR₀, hfillL, hfillR, hback]

/-- The merge of two lists in order is in order. -/
theorem pairwise_merge_le (hxs : xs.Pairwise (· ≤ ·)) (hys : ys.Pairwise (· ≤ ·)) :
    (xs.merge ys).Pairwise (· ≤ ·) := by
  simpa using hxs.merge hys

/-- The two calls and the merge, where no sum leaves the range of `int`. -/
theorem sort_step (hl : 0 ≤ l) (hlt : l < r) (hr : r ≤ maxInt) (hm : m = l + (r - l) / 2) :
    sort a l r =
      (sort a l m).bind fun a => (sort a (m + 1) r).bind fun a => merge a l m r := by
  have hmid : l + (r - l).tdiv 2 = m := by
    rw [Int.tdiv_eq_ediv_of_nonneg (by omega), hm]
  rw [sort, if_pos hlt, if_pos (fitsInt_of_bounds (by omega) (by omega))]
  simp only [hmid]
  rw [if_pos ⟨fitsInt_of_bounds (by omega) (by omega), fitsInt_of_bounds (by omega) (by omega)⟩]
  rfl

theorem pairwise_of_length_le_one (h : xs.length ≤ 1) : xs.Pairwise (· ≤ ·) := by
  cases xs with
  | nil => exact List.Pairwise.nil
  | cons x xs =>
    rw [List.length_cons] at h
    obtain rfl : xs = [] := List.eq_nil_of_length_eq_zero (by omega)
    exact List.pairwise_singleton _ x

/-- A segment is sorted.  One of two elements or more may not end at `INT_MAX`. -/
theorem sort_segment (h : Segment a pre xs post l) (hl : 0 ≤ l) (hr : r + 1 = l + xs.length) :
    ∃ a' xs', sort a l r = (if r < maxInt ∨ r ≤ l then some a' else none) ∧
      Segment a' pre xs' post l ∧ xs'.Perm xs ∧ xs'.Pairwise (· ≤ ·) := by
  induction hn : xs.length using Nat.strong_induction_on generalizing a pre xs post l r with
  | _ n ih =>
    by_cases hlt : l < r
    · obtain ⟨m, hm⟩ : ∃ m, m = l + (r - l) / 2 := ⟨_, rfl⟩
      have hhalves : xs.length = (m + 1 - l).toNat + (r - m).toNat := by omega
      obtain ⟨left, right, rfl, hleft, hright⟩ := exists_append_of_length hhalves
      have hhigh := h.high
      have hfits := h.fits
      rw [List.length_append] at hhigh hfits hn
      obtain ⟨a₁, left', hsort₁, h₁, hperm₁, hle₁⟩ :=
        ih left.length (by omega) h.left hl (r := m) (by omega) rfl
      have hlen₁ := hperm₁.length_eq
      have h₁' : Segment a₁ pre (left' ++ right) post l := h₁.extend (by omega) (by omega)
      have hmid : l + left'.length = m + 1 := by omega
      obtain ⟨a₂, right', hsort₂, h₂, hperm₂, hle₂⟩ :=
        ih right.length (by omega) h₁'.right (by omega) (r := r) (by omega) rfl
      have hlen₂ := hperm₂.length_eq
      have h₂' : Segment a₂ pre (left' ++ right') post l := h₂.append h.low
      obtain ⟨a', hmerge, h'⟩ :=
        merge_segment h₂' (m := m) (by omega) (r := r) (by omega) hl (by omega) (by omega)
      refine ⟨a', left'.merge right', ?_, h', ?_, pairwise_merge_le hle₁ hle₂⟩
      · rw [hmid] at hsort₂
        rw [sort_step hl hlt (by omega) hm, hsort₁, if_pos (.inl (by omega)), Option.bind_some,
          hsort₂]
        by_cases hmax : r < maxInt
        · rw [if_pos (.inl hmax), if_pos (.inl hmax), Option.bind_some, hmerge,
            int_of_fits (fitsInt_of_bounds (by omega) hmax)]
          rfl
        · -- Even where the right half is a single element, the merge leaves the range.
          rw [int_of_lt (x := r + 1) (by omega)] at hmerge
          rw [if_neg (show ¬ (r < maxInt ∨ r ≤ l) by omega)]
          split
          · exact hmerge
          · rfl
      · exact (List.merge_perm_append _).trans (hperm₁.append hperm₂)
    · refine ⟨a, xs, by rw [sort, if_neg hlt, if_pos (.inr (by omega))], h, List.Perm.refl xs, ?_⟩
      exact pairwise_of_length_le_one (by omega)

end

/-- The window is put in order and no other cell changes. -/
structure SortedInPlace {l r : Int} (arr arr' : Cells Int l r) : Prop where
  sorted : arr'.window.Pairwise (· ≤ ·)
  perm : arr'.window.Perm arr.window
  outside : ∀ i : Nat, i < l ∨ r < i → arr'.val[i]? = arr.val[i]?

theorem sort_window {l r : Int} (arr : Cells Int l r) (hlr : l ≤ r + 1) (hr : r ≤ maxInt) :
    ∃ arr', sort arr l r = (if r < maxInt ∨ r ≤ l then some arr' else none) ∧
      SortedInPlace arr arr' := by
  have hl := arr.lo_nonneg
  have hbound := arr.hi_lt
  have hpre : l = (arr.val.take l.toNat).length := by
    rw [List.length_take]
    omega
  have hwindow : r + 1 - l = arr.window.length := by
    rw [Cells.length_window]
    omega
  have hsegment : Segment arr (arr.val.take l.toNat) arr.window (arr.val.drop (r + 1).toNat) l :=
    ⟨arr.val_eq_window hlr, hpre, Int.le_refl l, by omega, by omega⟩
  have hend : r + 1 = l + arr.window.length := by omega
  obtain ⟨arr', xs, hsort, hsegment', hperm, hsorted⟩ := sort_segment hsegment hl hend
  have hlen := hperm.length_eq
  have hwindow' : arr'.window = xs := Cells.window_of_val hsegment'.val hpre (by omega)
  refine ⟨arr', hsort, ?_, ?_, fun i hi => ?_⟩
  · rw [hwindow']
    exact hsorted
  · rw [hwindow']
    exact hperm
  · exact Cells.getElem?_outside hsegment.val hsegment'.val hpre hwindow hlen hi

/-- `sort` ends without a fault, which keeps it within the indices `l` to `r`, and sorts them in
place, exactly when they do not end at `INT_MAX` or are at most one. -/
theorem sort_in_place_iff {l r : Int} (arr : Cells Int l r) (hlr : l ≤ r + 1) (hr : r ≤ maxInt) :
    (∃ arr', sort arr l r = some arr' ∧ SortedInPlace arr arr') ↔ r < maxInt ∨ r ≤ l := by
  obtain ⟨arr', hsort, hplace⟩ := sort_window arr hlr hr
  constructor
  · rintro ⟨arr'', hsome, -⟩
    by_contra hmax
    rw [hsort, if_neg hmax] at hsome
    cases hsome
  · intro hmax
    exact ⟨arr', by rw [hsort, if_pos hmax], hplace⟩

theorem sort_in_place_iff_five :
    ∃ arr', sort (⟨[7, 5, 3, 8, 1, 3], by decide, by decide⟩ : Cells Int 1 5) 1 5 = some arr' ∧
      SortedInPlace ⟨[7, 5, 3, 8, 1, 3], by decide, by decide⟩ arr' :=
  (sort_in_place_iff _ (by decide) (by decide)).mpr (by decide)

/-- As many zeros as `int` has indices, of which the last two may be accessed. -/
def lastCells : Cells Int 2147483646 2147483647 :=
  ⟨List.replicate 2147483648 0, by decide, by rw [List.length_replicate]; decide⟩

/-- The two cells are in order already, and `l` is raised beyond `INT_MAX` behind the last. -/
theorem sort_overflow : (2147483647 : Int) ≤ maxInt ∧
    sort lastCells 2147483646 2147483647 = none ∧
    ¬ ∃ arr', sort lastCells 2147483646 2147483647 = some arr' ∧
      SortedInPlace lastCells arr' := by
  obtain ⟨arr', hsort, -⟩ := sort_window lastCells (by decide) (by decide)
  rw [if_neg (by decide)] at hsort
  refine ⟨by decide, hsort, ?_⟩
  rintro ⟨arr'', hsome, -⟩
  rw [hsort] at hsome
  cases hsome

end Gateway
end LinuxPrograming
