import LinuxPrograming.Gateway.Handoff
import Mathlib.Data.List.Nodup

/-!
# Safety of the hand-off

With every node keeping the string it was pushed with, both managers take the pushed
nodes in order, and no node leaves the list before both have taken it.

The comparison of strings does not confuse two nodes in the wrong direction: a manager
that has taken the head has the head's string in `old_msg`, so it cannot take the head
again.
-/

namespace LinuxPrograming
namespace Gateway
namespace Handoff

open Lib

/-- The string of the last of some nodes, and the empty `old_msg` before the first. -/
def lastSent (ns : List Node) : Bytes := (ns.getLast?.map Node.sent).getD []

@[simp] theorem lastSent_append (ns : List Node) (n : Node) :
    lastSent (ns ++ [n]) = n.sent := by
  simp [lastSent]

/-- The string that `old_msg` holds: between `strcpy` and `cnt++` it is ahead. -/
def Mgr.expected (m : Mgr) : Bytes :=
  match m.pc with
  | .count n => n.sent
  | _ => lastSent m.taken

/-- The places where a manager works on the head of the list. -/
def Pc.AtHead (n : Node) : Pc → Prop
  | .cmp n' | .copy n' | .count n' | .test n' => n' = n
  | _ => False

/-- The places where a manager has found the head to be new. -/
def Pc.FoundNew (n : Node) : Pc → Prop
  | .copy n' | .count n' => n' = n
  | _ => False

theorem Pc.atHead_of_foundNew {n : Node} {pc : Pc} (h : pc.FoundNew n) : pc.AtHead n := by
  cases pc <;> simp_all [Pc.FoundNew, Pc.AtHead]

theorem Pc.inside_of_atHead {n : Node} {pc : Pc} (h : pc.AtHead n) : pc.Inside := by
  cases pc <;> simp_all [Pc.AtHead, Pc.Inside]

/-- A manager has taken the removed nodes, and possibly the head after them. -/
structure Follows (removed items : List Node) (m : Mgr) : Prop where
  taken : m.taken = removed ∨
    ∃ n, items.head? = some n ∧ m.taken = removed ++ [n] ∧ n.sent ≠ lastSent removed
  oldMsg : m.oldMsg = m.expected
  atHead : ∀ n, m.pc.AtHead n → items.head? = some n
  foundNew : ∀ n, m.pc.FoundNew n → m.taken = removed ∧ n.sent ≠ lastSent removed
  test : ∀ n, m.pc = .test n → m.taken = removed ++ [n]

namespace Follows

variable {removed items : List Node} {m m' : Mgr}

theorem of_not_atHead
    (htaken : m.taken = removed ∨
      ∃ n, items.head? = some n ∧ m.taken = removed ++ [n] ∧ n.sent ≠ lastSent removed)
    (hold : m.oldMsg = lastSent m.taken) (hpc : ∀ n, ¬ m.pc.AtHead n) :
    Follows removed items m := by
  refine ⟨htaken, ?_, fun n hn => absurd hn (hpc n),
    fun n hn => absurd (Pc.atHead_of_foundNew hn) (hpc n),
    fun n hn => absurd (by rw [hn]; exact rfl) (hpc n)⟩
  rw [hold, Mgr.expected]
  split
  · next n hp => exact absurd (by rw [hp]; exact rfl) (hpc n)
  · rfl

theorem oldMsg_eq (h : Follows removed items m) (hpc : ∀ n, ¬ m.pc.FoundNew n) :
    m.oldMsg = lastSent m.taken := by
  rw [h.oldMsg, Mgr.expected]
  split
  · next n hp => exact absurd (by rw [hp]; exact rfl) (hpc n)
  · rfl

theorem length_le (h : Follows removed items m) : m.taken.length ≤ removed.length + 1 := by
  rcases h.taken with heq | ⟨n, -, heq, -⟩ <;> rw [heq]
  · exact Nat.le_succ _
  · rw [List.length_append, List.length_singleton]

theorem taken_of_length (h : Follows removed items m)
    (hlen : m.taken.length = removed.length + 1) : m.taken = removed ++ items.take 1 := by
  rcases h.taken with heq | ⟨n, hhead, heq, -⟩
  · rw [heq] at hlen
    omega
  · cases items with
    | nil => exact absurd hhead (by simp)
    | cons n' rest =>
      rw [List.head?_cons, Option.some.injEq] at hhead
      rw [heq, hhead]
      rfl

/-- The comparison tells exactly whether the manager has taken the head, unless the head
repeats the string of the node before it. -/
theorem taken_of_differ (h : Follows removed items m) {n : Node} (hpc : m.pc = .cmp n)
    (hmsg : n.sent ≠ m.oldMsg) : m.taken = removed ∧ n.sent ≠ lastSent removed := by
  have hhead : items.head? = some n := h.atHead n (by rw [hpc]; exact rfl)
  have hold : m.oldMsg = lastSent m.taken := by rw [h.oldMsg, Mgr.expected, hpc]
  rcases h.taken with heq | ⟨n', hhead', heq, -⟩
  · rw [hold, heq] at hmsg
    exact ⟨heq, hmsg⟩
  · rw [hhead, Option.some.injEq] at hhead'
    rw [hold, heq, lastSent_append, hhead'] at hmsg
    exact absurd rfl hmsg

end Follows

/-- The number of nodes the managers have taken together. -/
def total (mgr : Who → Mgr) : Nat := (mgr .data).taken.length + (mgr .storage).taken.length

theorem total_setMgr (s : State) (w : Who) (m : Mgr) :
    total (s.setMgr w m).mgr + (s.mgr w).taken.length = total s.mgr + m.taken.length := by
  cases w <;> simp [total, State.setMgr] <;> omega

/-- The invariant of the hand-off by value. -/
structure Safe (s : State) : Prop extends Inv s where
  follows : ∀ w, Follows s.removed s.queue.items (s.mgr w)
  cnt : s.cnt + 2 * s.removed.length = total s.mgr
  both : s.cnt = 2 → ∃ w n, (s.mgr w).pc = .test n

theorem start_safe (size : Nat) (buf : Bytes) : Safe (start size buf) where
  toInv := start_inv size buf
  follows w := ⟨Or.inl rfl, rfl, fun n h => h.elim, fun n h => h.elim, fun n h => by cases h⟩
  cnt := rfl
  both h := by cases h

theorem follows_setMgr {s : State} {removed items : List Node} {w : Who} {m : Mgr}
    (h : ∀ v, v ≠ w → Follows removed items (s.mgr v)) (hw : Follows removed items m) (v : Who) :
    Follows removed items ((s.setMgr w m).mgr v) := by
  by_cases hv : v = w
  · rw [hv, setMgr_mgr_self]
    exact hw
  · rw [setMgr_mgr_of_ne _ _ hv]
    exact h v hv

theorem both_setMgr {s : State} {w : Who} {m : Mgr} (h : ∃ v n, (s.mgr v).pc = .test n)
    (hpc : ∀ n, (s.mgr w).pc ≠ .test n) : ∃ v n, ((s.setMgr w m).mgr v).pc = .test n := by
  obtain ⟨v, n, hv⟩ := h
  have hvw : v ≠ w := fun e => hpc n (e ▸ hv)
  exact ⟨v, n, by rw [setMgr_mgr_of_ne _ _ hvw]; exact hv⟩

namespace Safe

variable {s t : State} {w : Who}

theorem move (h : Safe s) {m : Mgr} {o : Option Who}
    (hinv : Inv ({ s with owner := o }.setMgr w m)) (htaken : m.taken = (s.mgr w).taken)
    (hold : m.oldMsg = (s.mgr w).oldMsg) (hpc : ∀ n, ¬ (s.mgr w).pc.FoundNew n)
    (hpc' : ∀ n, ¬ m.pc.AtHead n) (hboth : s.cnt = 2 → ∀ n, (s.mgr w).pc ≠ .test n) :
    Safe ({ s with owner := o }.setMgr w m) where
  toInv := hinv
  follows := by
    refine follows_setMgr (s := s) (fun v _ => h.follows v) (.of_not_atHead ?_ ?_ hpc')
    · exact htaken ▸ (h.follows w).taken
    · rw [hold, (h.follows w).oldMsg_eq hpc, htaken]
  cnt := by
    have htotal := total_setMgr s w m
    rw [htaken] at htotal
    exact h.cnt.trans (Nat.add_right_cancel htotal).symm
  both hcnt := both_setMgr (s := s) (h.both hcnt) (hboth hcnt)

theorem update (h : Safe s) {m : Mgr} (hinv : Inv (s.setMgr w m))
    (htaken : m.taken = (s.mgr w).taken)
    (hfollows : Follows s.removed s.queue.items m) (hpc : ∀ n, (s.mgr w).pc ≠ .test n) :
    Safe (s.setMgr w m) where
  toInv := hinv
  follows := follows_setMgr (fun v _ => h.follows v) hfollows
  cnt := by
    have htotal := total_setMgr s w m
    rw [htaken] at htotal
    exact h.cnt.trans (Nat.add_right_cancel htotal).symm
  both hcnt := both_setMgr (h.both hcnt) hpc

theorem count (h : Safe s) {n : Node} (hpc : (s.mgr w).pc = .count n) {m : Mgr}
    (hm : m = { s.mgr w with pc := .test n, taken := (s.mgr w).taken ++ [n] })
    (hinv : Inv ({ s with cnt := s.cnt + 1 }.setMgr w m)) :
    Safe ({ s with cnt := s.cnt + 1 }.setMgr w m) where
  toInv := hinv
  follows := by
    have hhead := (h.follows w).atHead n (by rw [hpc]; exact rfl)
    obtain ⟨htaken, hne⟩ := (h.follows w).foundNew n (by rw [hpc]; exact rfl)
    have hold : (s.mgr w).oldMsg = n.sent := by rw [(h.follows w).oldMsg, Mgr.expected, hpc]
    have hm' : m.taken = s.removed ++ [n] := by rw [hm, ← htaken]
    refine follows_setMgr (s := s) (fun v _ => h.follows v)
      ⟨Or.inr ⟨n, hhead, hm', hne⟩, ?_, fun n' hn' => ?_, fun n' hn' => ?_, fun n' hn' => ?_⟩
    · rw [hm]
      exact hold.trans (lastSent_append _ n).symm
    · rw [hm] at hn'
      exact (hn' : n = n') ▸ hhead
    · rw [hm] at hn'
      exact hn'.elim
    · rw [hm] at hn'
      exact Pc.test.inj hn' ▸ hm'
  cnt := by
    have htotal := total_setMgr s w m
    have hcnt := h.cnt
    rw [hm, List.length_append, List.length_singleton, ← hm] at htotal
    have heq : total ({ s with cnt := s.cnt + 1 }.setMgr w m).mgr = total (s.setMgr w m).mgr := rfl
    rw [heq, setMgr_cnt, setMgr_removed]
    dsimp only
    omega
  both _ := ⟨w, n, by rw [setMgr_mgr_self, hm]⟩

theorem taken_of_cnt (h : Safe s) (hcnt : s.cnt = 2) (v : Who) :
    (s.mgr v).taken = s.removed ++ s.queue.items.take 1 := by
  have hdata := (h.follows .data).length_le
  have hstorage := (h.follows .storage).length_le
  have htotal := h.cnt
  rw [total, hcnt] at htotal
  refine (h.follows v).taken_of_length ?_
  cases v <;> omega

theorem remove (h : Safe s) {n : Node} (hpc : (s.mgr w).pc = .test n) (hcnt : s.cnt = 2)
    {m : Mgr} (hm : m = { s.mgr w with pc := .release n })
    (hinv : Inv ({ s with
      cnt := 0
      queue := s.queue.pop
      removed := s.removed ++ s.queue.items.take 1 }.setMgr w m)) :
    Safe ({ s with
      cnt := 0
      queue := s.queue.pop
      removed := s.removed ++ s.queue.items.take 1 }.setMgr w m) where
  toInv := hinv
  follows := by
    have hother : ∀ v, v ≠ w → ∀ n', ¬ (s.mgr v).pc.AtHead n' := by
      intro v hv n' hn'
      have hw : (s.mgr w).pc.Inside := hpc ▸ trivial
      exact hv (h.owned.unique (Pc.inside_of_atHead hn') hw)
    refine follows_setMgr (s := s) (fun v hv => .of_not_atHead (Or.inl (h.taken_of_cnt hcnt v))
      ((h.follows v).oldMsg_eq fun n' hn' => hother v hv n' (Pc.atHead_of_foundNew hn'))
      (hother v hv)) (.of_not_atHead (Or.inl ?_) ?_ ?_)
    · rw [hm]
      exact h.taken_of_cnt hcnt w
    · rw [hm]
      exact (h.follows w).oldMsg_eq fun n' hn' => by rw [hpc] at hn'; exact hn'
    · rw [hm]
      exact fun _ hn' => hn'
  cnt := by
    have htotal := total_setMgr s w m
    have htaken : m.taken = (s.mgr w).taken := by rw [hm]
    have hdata := congrArg List.length (h.taken_of_cnt hcnt .data)
    have hstorage := congrArg List.length (h.taken_of_cnt hcnt .storage)
    rw [htaken] at htotal
    rw [setMgr_cnt, setMgr_removed]
    refine Eq.trans ?_ (Nat.add_right_cancel htotal).symm
    rw [total, hdata, hstorage]
    dsimp only
    omega
  both h0 := by simp at h0

end Safe

theorem mgrStep_safe {s t : State} {w : Who} (h : Safe s) (hstep : MgrStep byValue s w t) :
    Safe t := by
  have hinv := mgrStep_inv h.toInv hstep
  have hfol := h.follows w
  cases hstep with
  | lock hpc _ | skip hpc | release _ hpc =>
    exact h.move hinv rfl rfl (fun n hn => by rw [hpc] at hn; exact hn) (fun _ hn => hn)
      fun _ n hn => by rw [hpc] at hn; cases hn
  | equal _ hpc _ | parse _ hpc =>
    exact h.move (o := s.owner) hinv rfl rfl (fun n hn => by rw [hpc] at hn; exact hn)
      (fun _ hn => hn) fun _ n hn => by rw [hpc] at hn; cases hn
  | get n rest hpc hitems =>
    refine h.update hinv rfl ⟨hfol.taken, ?_, fun n' hn' => ?_, fun _ hn' => hn'.elim,
      fun _ hn' => by cases hn'⟩ fun n' hn' => by rw [hpc] at hn'; cases hn'
    · exact hfol.oldMsg_eq fun n' hn' => by rw [hpc] at hn'; exact hn'
    · rw [hitems]
      exact congrArg some hn'
  | differ n hpc hmsg =>
    refine h.update hinv rfl ⟨hfol.taken, ?_, fun n' hn' => ?_, fun n' hn' => ?_,
      fun _ hn' => by cases hn'⟩ fun n' hn' => by rw [hpc] at hn'; cases hn'
    · exact hfol.oldMsg_eq fun n' hn' => by rw [hpc] at hn'; exact hn'
    · exact hfol.atHead n' (by rw [hpc]; exact hn')
    · obtain rfl : n = n' := hn'
      exact hfol.taken_of_differ hpc hmsg
  | copy n hpc =>
    refine h.update hinv rfl ⟨hfol.taken, rfl, fun n' hn' => ?_, fun n' hn' => ?_,
      fun _ hn' => by cases hn'⟩ fun n' hn' => by rw [hpc] at hn'; cases hn'
    · exact hfol.atHead n' (by rw [hpc]; exact hn')
    · exact hfol.foundNew n' (by rw [hpc]; exact hn')
  | count n hpc => exact h.count hpc rfl hinv
  | remove n hpc hcnt => exact h.remove hpc hcnt rfl hinv
  | keep n hpc hcnt =>
    exact h.move (o := s.owner) hinv rfl rfl (fun n' hn' => by rw [hpc] at hn'; exact hn')
      (fun _ hn => hn) fun h2 => absurd h2 hcnt

theorem Follows.append {removed items : List Node} {m : Mgr} (h : Follows removed items m)
    (n : Node) : Follows removed (items ++ [n]) m := by
  have hhead : ∀ n', items.head? = some n' → (items ++ [n]).head? = some n' := by
    intro n' hn'
    rw [List.head?_append, hn', Option.some_or]
  exact ⟨h.taken.imp_right fun ⟨n', hn', hrest⟩ => ⟨n', hhead n' hn', hrest⟩, h.oldMsg,
    fun n' hn' => hhead n' (h.atHead n' hn'), h.foundNew, h.test⟩

theorem next_safe {s t : State} {e : Event} (h : Safe s) (hstep : next byValue s e = some t) :
    Safe t := by
  have hinv := next_inv h.toInv hstep
  cases e with
  | recv bs =>
    rw [next] at hstep
    split at hstep
    · exact absurd hstep (by simp)
    · obtain rfl := Option.some.inj hstep
      exact ⟨hinv, h.follows, h.cnt, h.both⟩
  | push alloc =>
    rw [next] at hstep
    split at hstep
    · obtain rfl := Option.some.inj hstep
      rcases listPush_cases byValue s alloc with heq | ⟨hfull, heq⟩ <;> rw [heq] at hinv ⊢
      · exact ⟨hinv, h.follows, h.cnt, h.both⟩
      · refine ⟨hinv, fun v => ?_, h.cnt, h.both⟩
        rw [BoundedQueue.push_items hfull]
        exact (h.follows v).append _
    · exact absurd hstep (by simp)
  | mgr w => exact mgrStep_safe h (mgrStep_cases hstep)

theorem run_safe {size : Nat} {buf : Bytes} {es : List Event} {s : State}
    (h : run (next byValue) (start size buf) es = some s) : Safe s :=
  run_preserves (fun _ _ _ hs hstep => next_safe hs hstep) (start_safe size buf) h

theorem Inv.nodup {s : State} (h : Inv s) : s.pushed.Nodup := by
  rw [List.nodup_iff_getElem?_ne_getElem?]
  intro i j hij hj heq
  rw [List.getElem?_eq_getElem hj] at heq
  have hi := h.ids i _ heq
  have hj' := h.ids j _ (List.getElem?_eq_getElem hj)
  omega

/-- `w` has taken the node that is at the head of the list. -/
def State.TookHead (s : State) (w : Who) : Prop := ∃ n ∈ s.queue.items.head?, n ∈ (s.mgr w).taken

instance (s : State) (w : Who) : Decidable (s.TookHead w) :=
  inferInstanceAs (Decidable (∃ n ∈ s.queue.items.head?, n ∈ (s.mgr w).taken))

namespace Safe

variable {s : State}

theorem taken_prefix (h : Safe s) (w : Who) : (s.mgr w).taken <+: s.pushed := by
  rw [h.queue]
  rcases (h.follows w).taken with heq | ⟨n, hhead, heq, -⟩ <;> rw [heq]
  · exact List.prefix_append _ _
  · obtain ⟨rest, hrest⟩ := List.head?_eq_some_iff.mp hhead
    exact ⟨rest, by rw [hrest, List.append_assoc, List.singleton_append]⟩

theorem length_bounds (h : Safe s) (w : Who) :
    s.removed.length ≤ (s.mgr w).taken.length ∧
      (s.mgr w).taken.length ≤ s.removed.length + 1 := by
  refine ⟨?_, (h.follows w).length_le⟩
  rcases (h.follows w).taken with heq | ⟨n, -, heq, -⟩ <;> rw [heq]
  rw [List.length_append]
  exact Nat.le_add_right _ _

theorem tookHead_iff (h : Safe s) (w : Who) :
    s.TookHead w ↔ (s.mgr w).taken.length = s.removed.length + 1 := by
  constructor
  · rintro ⟨n, hhead, hmem⟩
    rcases (h.follows w).taken with heq | ⟨n', -, heq, -⟩
    · have hnodup := h.nodup
      rw [h.queue] at hnodup
      rw [heq] at hmem
      have hmem' : n ∈ s.queue.items := List.mem_of_mem_head? hhead
      exact absurd rfl ((List.nodup_append.mp hnodup).2.2 n hmem n hmem')
    · rw [heq, List.length_append, List.length_singleton]
  · intro hlen
    rcases (h.follows w).taken with heq | ⟨n, hhead, heq, -⟩
    · rw [heq] at hlen
      omega
    · exact ⟨n, hhead, by rw [heq]; simp⟩

theorem cnt_le_one (h : Safe s) (hfree : s.owner = none) : s.cnt ≤ 1 := by
  have hdata := (h.length_bounds .data).2
  have hstorage := (h.length_bounds .storage).2
  have htotal := h.cnt
  rw [total] at htotal
  have hne : s.cnt ≠ 2 := by
    intro hcnt
    obtain ⟨w, n, hpc⟩ := h.both hcnt
    have hw : (s.mgr w).pc.Inside := hpc ▸ trivial
    have howner := h.owned.owner_eq hw
    rw [hfree] at howner
    exact absurd howner (by simp)
  omega

theorem cnt_eq (h : Safe s) :
    s.cnt = (if s.TookHead .data then 1 else 0) + if s.TookHead .storage then 1 else 0 := by
  have hdata := h.length_bounds .data
  have hstorage := h.length_bounds .storage
  have htotal := h.cnt
  rw [total] at htotal
  simp only [h.tookHead_iff]
  split_ifs <;> omega

theorem removed_length (h : Safe s) (hfree : s.owner = none) :
    s.removed.length = min (s.mgr .data).taken.length (s.mgr .storage).taken.length := by
  have hdata := h.length_bounds .data
  have hstorage := h.length_bounds .storage
  have hcnt := h.cnt_le_one hfree
  have htotal := h.cnt
  rw [total] at htotal
  omega

end Safe

/-- In every state that any interleaving reaches: no node is pushed twice; each manager
has taken a prefix of the pushed nodes and parsed it up to the one it holds; the two
prefixes differ by at most one node, and the removed nodes are a part of both.  While
`cnt_mutex` is free, `cnt` is the number of managers that have taken the head, at most
one of them has, and the removed nodes are the shorter prefix. -/
theorem handoff_safe {size : Nat} {buf : Bytes} {es : List Event} {s : State}
    (h : run (next byValue) (start size buf) es = some s) :
    s.pushed.Nodup ∧
      (∀ w, (s.mgr w).taken <+: s.pushed ∧ (s.mgr w).taken.Nodup ∧
        (s.mgr w).taken = (s.mgr w).parsed ++ (s.mgr w).pc.inFlight) ∧
      ((s.mgr .data).taken.length ≤ (s.mgr .storage).taken.length + 1 ∧
        (s.mgr .storage).taken.length ≤ (s.mgr .data).taken.length + 1) ∧
      (∀ w, s.removed <+: (s.mgr w).taken) ∧ s.pushed = s.removed ++ s.queue.items ∧
      (s.owner = none →
        s.cnt ≤ 1 ∧
        s.cnt = (if s.TookHead .data then 1 else 0) + (if s.TookHead .storage then 1 else 0) ∧
        s.removed.length =
          min (s.mgr .data).taken.length (s.mgr .storage).taken.length) := by
  have hs := run_safe h
  have hdata := hs.length_bounds .data
  have hstorage := hs.length_bounds .storage
  have hpre : ∀ w, s.removed <+: (s.mgr w).taken := by
    intro w
    rcases (hs.follows w).taken with heq | ⟨n, -, heq, -⟩
    · exact heq ▸ List.prefix_refl s.removed
    · exact heq ▸ List.prefix_append s.removed [n]
  refine ⟨hs.nodup, fun w => ⟨hs.taken_prefix w, hs.nodup.sublist (hs.taken_prefix w).sublist,
    hs.parsed w⟩, by omega, hpre, hs.queue, fun hfree => ⟨hs.cnt_le_one hfree, hs.cnt_eq,
    hs.removed_length hfree⟩⟩

/-- Two messages, the first taken by both managers and the second by one. -/
def twoMessages : List Event :=
  .recv (bytes "a") :: .push true :: lap .data ++
    .recv (bytes "b") :: .push true :: lap .storage ++ lap .storage

theorem handoff_safe_two :
    ∃ s, run (next byValue) (start 100 []) twoMessages = some s ∧ s.owner = none ∧
      (s.mgr .data).taken = [⟨0, bytes "a"⟩] ∧
      (s.mgr .storage).taken = [⟨0, bytes "a"⟩, ⟨1, bytes "b"⟩] ∧ s.removed = [⟨0, bytes "a"⟩] ∧
      s.cnt ≤ 1 ∧ s.removed.length =
        min (s.mgr .data).taken.length (s.mgr .storage).taken.length := by
  have hstate : (run (next byValue) (start 100 []) twoMessages).map
      (fun s => (s.owner, (s.mgr .data).taken, (s.mgr .storage).taken, s.removed)) =
      some (none, [⟨0, bytes "a"⟩], [⟨0, bytes "a"⟩, ⟨1, bytes "b"⟩], [⟨0, bytes "a"⟩]) := by
    decide
  obtain ⟨s, hs, hstate⟩ := Option.map_eq_some_iff.mp hstate
  obtain ⟨hfree, hrest⟩ := Prod.mk.inj hstate
  obtain ⟨hdata, hrest⟩ := Prod.mk.inj hrest
  obtain ⟨hstorage, hremoved⟩ := Prod.mk.inj hrest
  obtain ⟨-, -, -, -, -, h⟩ := handoff_safe hs
  exact ⟨s, hs, hfree, hdata, hstorage, hremoved, (h hfree).1, (h hfree).2.2⟩

end Handoff
end Gateway
end LinuxPrograming
