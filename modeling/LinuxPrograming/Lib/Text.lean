import LinuxPrograming.Lib.Bytes

/-!
# Searching and splitting text

`find pat t` is the first place in `t` where `pat` stands.  `cut pat t` is the text before
and after that place.  `pieces d t` are the parts that a reader gets which reads up to the
delimiter `d` again and again.  There is no empty part behind a last delimiter.
-/

namespace LinuxPrograming
namespace Lib

variable {α : Type*} [DecidableEq α]

/-- The first place where `pat` stands. -/
def find (pat : List α) : List α → Option Nat
  | [] => if pat = [] then some 0 else none
  | c :: t => if pat <+: c :: t then some 0 else (find pat t).map (· + 1)

/-- The text before the first `pat` and the text behind it. -/
def cut (pat t : List α) : Option (List α × List α) :=
  (find pat t).map fun i => (t.take i, t.drop (i + pat.length))

/-- The parts of `t` between delimiters. -/
def pieces (d : α) : List α → List (List α)
  | [] => []
  | c :: t =>
    if c = d then [] :: pieces d t
    else match pieces d t with
      | [] => [[c]]
      | p :: ps => (c :: p) :: ps

section

variable {pat t a b : List α} {i : Nat}

theorem find_eq_some (h : find pat t = some i) :
    t = t.take i ++ pat ++ t.drop (i + pat.length) ∧ i + pat.length ≤ t.length := by
  induction t generalizing i with
  | nil =>
    rw [find] at h
    split at h
    · next hnil =>
      obtain rfl := Option.some.inj h
      rw [hnil]
      exact ⟨rfl, Nat.le_refl 0⟩
    · cases h
  | cons c t ih =>
    rw [find] at h
    split at h
    · next hpre =>
      obtain rfl := Option.some.inj h
      obtain ⟨u, hu⟩ := hpre
      rw [← hu]
      refine ⟨by simp, ?_⟩
      rw [List.length_append]
      omega
    · obtain ⟨j, hj, rfl⟩ := Option.map_eq_some_iff.mp h
      obtain ⟨heq, hlen⟩ := ih hj
      refine ⟨?_, ?_⟩
      · rw [Nat.add_right_comm, List.take_succ_cons, List.drop_succ_cons, List.cons_append,
          List.cons_append, ← heq]
      · rw [List.length_cons]
        omega

omit [DecidableEq α] in
/-- A pattern that lacks the delimiter begins a text exactly when it begins what stands
before the first delimiter. -/
theorem isPrefix_append_cons {d : α} (hd : d ∉ pat) : pat <+: a ++ d :: b ↔ pat <+: a := by
  constructor
  · rintro ⟨u, hu⟩
    rcases List.append_eq_append_iff.mp hu with ⟨c, rfl, -⟩ | ⟨c, rfl, hc⟩
    · exact List.prefix_append pat c
    · cases c with
      | nil => exact (List.append_nil a).symm ▸ List.prefix_refl a
      | cons e c =>
        rw [(List.cons.inj hc).1] at hd
        exact absurd (List.mem_append_right a List.mem_cons_self) hd
  · exact fun h => h.trans (List.prefix_append a (d :: b))

theorem find_singleton_append {d : α} (hd : d ∉ a) (b : List α) :
    find [d] (a ++ d :: b) = some a.length := by
  induction a with
  | nil =>
    rw [List.nil_append, find, if_pos ⟨b, rfl⟩]
    rfl
  | cons c a ih =>
    have hc : ¬ [d] <+: c :: (a ++ d :: b) := by
      rintro ⟨u, hu⟩
      exact hd ((List.cons.inj hu).1 ▸ List.mem_cons_self)
    rw [List.cons_append, find, if_neg hc, ih fun h => hd (List.mem_cons_of_mem c h)]
    rfl

theorem find_singleton_eq_none {d : α} : find [d] t = none ↔ d ∉ t := by
  constructor
  · intro h hmem
    obtain ⟨a, b, rfl, ha⟩ := List.eq_append_cons_of_mem hmem
    rw [find_singleton_append ha b] at h
    cases h
  · intro h
    cases hi : find [d] t with
    | none => rfl
    | some i =>
      have hmem : d ∈ t.take i ++ [d] ++ t.drop (i + [d].length) := by simp
      rw [← (find_eq_some hi).1] at hmem
      exact absurd hmem h

theorem cut_singleton_append {d : α} (hd : d ∉ a) (b : List α) :
    cut [d] (a ++ d :: b) = some (a, b) := by
  rw [cut, find_singleton_append hd b, Option.map_some, List.take_left]
  congr 2
  exact List.drop_length_add_append ..

theorem cut_singleton_eq_none {d : α} : cut [d] t = none ↔ d ∉ t := by
  rw [cut, Option.map_eq_none_iff, find_singleton_eq_none]

theorem not_mem_of_cut_singleton {d : α} (h : cut [d] t = some (a, b)) : d ∉ a := by
  have hmem : d ∈ t := by
    by_contra hd
    rw [cut_singleton_eq_none.mpr hd] at h
    cases h
  obtain ⟨a', b', rfl, ha'⟩ := List.eq_append_cons_of_mem hmem
  rw [cut_singleton_append ha'] at h
  obtain ⟨rfl, -⟩ := Prod.mk.inj (Option.some.inj h)
  exact ha'

theorem cut_eq_some (h : cut pat t = some (a, b)) : t = a ++ pat ++ b := by
  obtain ⟨i, hi, hpair⟩ := Option.map_eq_some_iff.mp h
  obtain ⟨rfl, rfl⟩ := Prod.mk.inj hpair
  exact (find_eq_some hi).1

theorem cut_length (h : cut pat t = some (a, b)) : a.length + pat.length + b.length = t.length := by
  rw [cut_eq_some h, List.length_append, List.length_append]

omit [DecidableEq α] in
theorem takeWhile_append_cons {p : α → Bool} {d : α} (hd : p d = false) (a b : List α) :
    (a ++ d :: b).takeWhile p = a.takeWhile p := by
  induction a with
  | nil => simp [hd]
  | cons c a ih =>
    rw [List.cons_append, List.takeWhile_cons, List.takeWhile_cons, ih]

theorem pieces_append_cons {d : α} (hd : d ∉ a) (b : List α) :
    pieces d (a ++ d :: b) = a :: pieces d b := by
  induction a with
  | nil => rw [List.nil_append, pieces, if_pos rfl]
  | cons c a ih =>
    have hc : c ≠ d := fun h => hd (h ▸ List.mem_cons_self)
    rw [List.cons_append, pieces, if_neg hc, ih fun h => hd (List.mem_cons_of_mem c h)]

theorem pieces_of_not_mem {d : α} (hd : d ∉ a) (ha : a ≠ []) : pieces d a = [a] := by
  induction a with
  | nil => exact absurd rfl ha
  | cons c a ih =>
    have hc : c ≠ d := fun h => hd (h ▸ List.mem_cons_self)
    rw [pieces, if_neg hc]
    cases a with
    | nil => rfl
    | cons e a => rw [ih (fun h => hd (List.mem_cons_of_mem c h)) (List.cons_ne_nil e a)]

/-- Parts that were each written with the delimiter behind them are read back. -/
theorem pieces_flatMap {d : α} {ls : List (List α)} (hls : ∀ l ∈ ls, d ∉ l) (t : List α) :
    pieces d (ls.flatMap (· ++ [d]) ++ t) = ls ++ pieces d t := by
  induction ls with
  | nil => rfl
  | cons l ls ih =>
    have hl : d ∉ l := hls l List.mem_cons_self
    rw [List.flatMap_cons, List.append_assoc, List.append_assoc, List.singleton_append,
      pieces_append_cons hl, ih fun m hm => hls m (List.mem_cons_of_mem l hm), List.cons_append]

theorem length_pieces_le (d : α) (t : List α) : (pieces d t).length ≤ t.count d + 1 := by
  induction t with
  | nil => exact Nat.zero_le _
  | cons c t ih =>
    rw [pieces]
    split
    · next hc =>
      rw [hc, List.count_cons_self, List.length_cons]
      omega
    · next hc =>
      rw [List.count_cons_of_ne hc]
      split
      · simp
      · next heq =>
        rw [heq] at ih
        exact ih

/-- A part has no delimiter, and its items are items of the text. -/
theorem mem_pieces {d : α} {p : List α} (h : p ∈ pieces d t) : d ∉ p ∧ p ⊆ t := by
  induction t generalizing p with
  | nil => cases h
  | cons c t ih =>
    rw [pieces] at h
    split at h
    · rcases List.mem_cons.mp h with rfl | h
      · exact ⟨List.not_mem_nil, List.nil_subset _⟩
      · exact ⟨(ih h).1, List.subset_cons_of_subset c (ih h).2⟩
    · next hc =>
      split at h
      · rw [List.mem_singleton] at h
        subst h
        refine ⟨fun hd => hc (List.mem_singleton.mp hd).symm, ?_⟩
        exact List.cons_subset_cons c (List.nil_subset t)
      · next q qs heq =>
        rw [heq] at ih
        rcases List.mem_cons.mp h with rfl | h
        · obtain ⟨hq, hsub⟩ := ih List.mem_cons_self
          refine ⟨?_, List.cons_subset_cons c hsub⟩
          intro hd
          exact (List.mem_cons.mp hd).elim (fun hdc => hc hdc.symm) hq
        · obtain ⟨hp, hsub⟩ := ih (List.mem_cons_of_mem q h)
          exact ⟨hp, List.subset_cons_of_subset c hsub⟩

end

end Lib
end LinuxPrograming
