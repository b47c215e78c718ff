import LinuxPrograming.Gateway.Handoff

/-!
# What the nodes of the shared list denote

`list_push(shared_data, buf)` stores the address of `buf` in the node.  Every node of
the list therefore denotes whatever `buf` holds when it is read, and a reception alters
all messages that are not used up yet.
-/

namespace LinuxPrograming
namespace Gateway
namespace Handoff

open Lib

/-- No node is in the list or in the hands of a manager. -/
def State.UsedUp (s : State) : Prop :=
  s.queue.items = [] ∧ ∀ w, (s.mgr w).pc.node = none

/-- A reception leaves the string in `buf` as it was, or comes when all nodes are used
up. -/
def RecvHarmless (mem : Bytes) (s : State) : Event → Prop
  | .recv bs => bufStr mem (recv s.buf bs) = bufStr mem s.buf ∨ s.UsedUp
  | _ => True

instance (s : State) : Decidable s.UsedUp :=
  decidable_of_iff
    (s.queue.items = [] ∧ (s.mgr .data).pc.node = none ∧ (s.mgr .storage).pc.node = none)
    ⟨fun ⟨hitems, hdata, hstorage⟩ => ⟨hitems, fun w => by cases w <;> assumption⟩,
      fun ⟨hitems, hnode⟩ => ⟨hitems, hnode .data, hnode .storage⟩⟩

instance (mem : Bytes) (s : State) (e : Event) : Decidable (RecvHarmless mem s e) :=
  match e with
  | .recv _ => inferInstanceAs (Decidable (_ ∨ _))
  | .push _ | .mgr _ => isTrue trivial

/-- Every node still in use denotes the string it was pushed with, and every string read
so far was that of its node. -/
structure Intact (mem : Bytes) (s : State) : Prop where
  queue : ∀ n ∈ s.queue.items, n.sent = bufStr mem s.buf
  held : ∀ w n, (s.mgr w).pc.node = some n → n.sent = bufStr mem s.buf
  uses : ∀ w, ∀ u ∈ (s.mgr w).uses, u.2 = u.1.sent

namespace Intact

variable {mem : Bytes} {s t : State} {w : Who}

theorem setMgr (h : Intact mem s) {m : Mgr} (hmgr : t.mgr = (s.setMgr w m).mgr)
    (hbuf : t.buf = s.buf) (hqueue : ∀ n ∈ t.queue.items, n ∈ s.queue.items)
    (hnode : ∀ n, m.pc.node = some n → n ∈ s.queue.items ∨ (s.mgr w).pc.node = some n)
    (huses : ∀ u ∈ m.uses, u ∈ (s.mgr w).uses ∨
      (s.mgr w).pc.node = some u.1 ∧ u.2 = bufStr mem s.buf) : Intact mem t where
  queue n hn := by
    rw [hbuf]
    exact h.queue n (hqueue n hn)
  held v n hn := by
    rw [hmgr] at hn
    rw [hbuf]
    by_cases hv : v = w
    · rw [hv, setMgr_mgr_self] at hn
      exact (hnode n hn).elim (h.queue n) (h.held w n)
    · rw [setMgr_mgr_of_ne _ _ hv] at hn
      exact h.held v n hn
  uses v u hu := by
    rw [hmgr] at hu
    by_cases hv : v = w
    · rw [hv, setMgr_mgr_self] at hu
      rcases huses u hu with hold | ⟨hnode', hstr⟩
      · exact h.uses w u hold
      · rw [hstr, h.held w u.1 hnode']
    · rw [setMgr_mgr_of_ne _ _ hv] at hu
      exact h.uses v u hu

end Intact

theorem mgrStep_intact {mem : Bytes} {s t : State} {w : Who} (h : Intact mem s)
    (hstep : MgrStep (byAddress mem) s w t) : Intact mem t := by
  -- A use that is appended reads the string of `buf` through the node that is held.
  have hread : ∀ n, (s.mgr w).pc.node = some n →
      ∀ u ∈ (s.mgr w).uses ++ [(n, (byAddress mem).deref s.buf n)], u ∈ (s.mgr w).uses ∨
        (s.mgr w).pc.node = some u.1 ∧ u.2 = bufStr mem s.buf := by
    intro n hn u hu
    rcases List.mem_append.mp hu with hu | hu
    · exact Or.inl hu
    · rw [List.mem_singleton.mp hu]
      exact Or.inr ⟨hn, rfl⟩
  have hsame : ∀ n ∈ s.queue.items, n ∈ s.queue.items := fun _ hn => hn
  cases hstep with
  | get n rest hpc hitems =>
    refine h.setMgr (w := w) rfl rfl hsame (fun n' hn' => Or.inl ?_) (fun u hu => Or.inl hu)
    obtain rfl := Option.some.inj hn'
    rw [hitems]
    exact List.mem_cons_self
  | remove n hpc _ =>
    exact h.setMgr (w := w) rfl rfl (fun _ => List.mem_of_mem_tail)
      (fun n' hn' => Or.inr (by rw [hpc]; exact hn')) (fun u hu => Or.inl hu)
  | lock hpc _ | skip hpc =>
    exact h.setMgr (w := w) rfl rfl hsame (fun n hn => by cases hn) (fun u hu => Or.inl hu)
  | equal n hpc _ | parse n hpc =>
    exact h.setMgr (w := w) rfl rfl hsame (fun n' hn' => by cases hn') (hread n (by rw [hpc]; rfl))
  | differ n hpc _ | copy n hpc =>
    exact h.setMgr (w := w) rfl rfl hsame (fun n' hn' => Or.inr (by rw [hpc]; exact hn'))
      (hread n (by rw [hpc]; rfl))
  | count n hpc | keep n hpc _ | release n hpc =>
    exact h.setMgr (w := w) rfl rfl hsame (fun n' hn' => Or.inr (by rw [hpc]; exact hn'))
      (fun u hu => Or.inl hu)

theorem next_intact {mem : Bytes} {s t : State} {e : Event} (h : Intact mem s)
    (he : RecvHarmless mem s e) (hstep : next (byAddress mem) s e = some t) : Intact mem t := by
  cases e with
  | recv bs =>
    rw [next] at hstep
    split at hstep
    · exact absurd hstep (by simp)
    · obtain rfl := Option.some.inj hstep
      rcases he with heq | ⟨hitems, hnode⟩
      · exact ⟨fun n hn => (h.queue n hn).trans heq.symm,
          fun w n hn => (h.held w n hn).trans heq.symm, h.uses⟩
      · refine ⟨fun n hn => ?_, fun w n hn => ?_, h.uses⟩
        · rw [hitems] at hn
          cases hn
        · rw [hnode w] at hn
          cases hn
  | push alloc =>
    rw [next] at hstep
    split at hstep
    · obtain rfl := Option.some.inj hstep
      rcases listPush_cases (byAddress mem) s alloc with heq | ⟨hfull, heq⟩ <;> rw [heq]
      · exact ⟨h.queue, h.held, h.uses⟩
      · refine ⟨fun n hn => ?_, h.held, h.uses⟩
        rw [BoundedQueue.push_items hfull] at hn
        rcases List.mem_append.mp hn with hn | hn
        · exact h.queue n hn
        · rw [List.mem_singleton.mp hn]
          rfl
    · exact absurd hstep (by simp)
  | mgr w => exact mgrStep_intact h (mgrStep_cases hstep)

/-! ## Every node in use is read again -/

/-- The node whose string the next access of a manager reads. -/
def Pc.reads : Pc → Option Node
  | .cmp n | .copy n | .parse n => some n
  | _ => none

/-- Accesses of `w` that read no string lead to one that reads the node `n`. -/
inductive Approach (p : Payload) (w : Who) (n : Node) : State → Prop where
  | here {s : State} (h : (s.mgr w).pc.reads = some n) : Approach p w n s
  | step {s t : State} (hno : (s.mgr w).pc.reads = none) (hstep : mgrStep p s w = some t)
    (h : Approach p w n t) : Approach p w n s

section

variable {p : Payload} {s t : State} {n : Node} {w : Who}

theorem approach_release (hpc : (s.mgr w).pc = .release n) : Approach p w n s :=
  .step (by rw [hpc]; rfl) (mgrStep_of (.release n hpc)) (.here (by simp [Pc.reads]))

theorem approach_test (hpc : (s.mgr w).pc = .test n) : Approach p w n s := by
  have hno : (s.mgr w).pc.reads = none := by rw [hpc]; rfl
  by_cases hcnt : s.cnt = 2
  · exact .step hno (mgrStep_of (.remove n hpc hcnt)) (approach_release (by simp))
  · exact .step hno (mgrStep_of (.keep n hpc hcnt)) (approach_release (by simp))

theorem approach_count (hpc : (s.mgr w).pc = .count n) : Approach p w n s :=
  .step (by rw [hpc]; rfl) (mgrStep_of (.count n hpc)) (approach_test (by simp))

theorem approach_of_node (hnode : (s.mgr w).pc.node = some n) : Approach p w n s := by
  cases hpc : (s.mgr w).pc <;> rw [hpc] at hnode
  case lock | get | skip => cases hnode
  case cmp | copy | parse => exact .here (by rw [hpc]; exact hnode)
  case count => exact approach_count (hpc.trans (by rw [Option.some.inj hnode]))
  case test => exact approach_test (hpc.trans (by rw [Option.some.inj hnode]))
  case release => exact approach_release (hpc.trans (by rw [Option.some.inj hnode]))

variable {rest : List Node}

theorem approach_get (hitems : s.queue.items = n :: rest) (hpc : (s.mgr w).pc = .get) :
    Approach p w n s :=
  .step (by rw [hpc]; rfl) (mgrStep_of (.get n rest hpc hitems)) (.here (by simp [Pc.reads]))

theorem approach_lock (hitems : s.queue.items = n :: rest) (howner : s.owner = none)
    (hpc : (s.mgr w).pc = .lock) : Approach p w n s :=
  .step (by rw [hpc]; rfl) (mgrStep_of (.lock hpc howner)) (approach_get hitems (by simp))

theorem approach_skip (hitems : s.queue.items = n :: rest) (hpc : (s.mgr w).pc = .skip) :
    Approach p w n s :=
  .step (by rw [hpc]; rfl) (mgrStep_of (.skip hpc)) (approach_lock hitems rfl (by simp))

theorem approach_of_head (h : Inv s) (hnode : ∀ v, (s.mgr v).pc.node = none)
    (hitems : s.queue.items = n :: rest) : ∃ w, Approach p w n s := by
  cases howner : s.owner with
  | some w =>
    refine ⟨w, ?_⟩
    have hin := (h.owner w).mpr howner
    have hw := hnode w
    cases hpc : (s.mgr w).pc <;> rw [hpc] at hin hw
    case get => exact approach_get hitems hpc
    case skip => exact approach_skip hitems hpc
    case lock => exact hin.elim
    all_goals cases hw
  | none =>
    refine ⟨.data, ?_⟩
    have hout : ¬ (s.mgr .data).pc.Inside := by
      rw [h.owner, howner]
      simp
    have hw := hnode .data
    cases hpc : (s.mgr .data).pc <;> rw [hpc] at hout hw
    case lock => exact approach_lock hitems howner hpc
    case get | skip => exact absurd trivial hout
    all_goals cases hw

theorem approach_of_not_usedUp (h : Inv s) (hused : ¬ s.UsedUp) :
    ∃ w n, Approach p w n s ∧ (n ∈ s.queue.items ∨ (s.mgr w).pc.node = some n) := by
  by_cases hheld : ∃ w n, (s.mgr w).pc.node = some n
  · obtain ⟨w, n, hn⟩ := hheld
    exact ⟨w, n, approach_of_node hn, Or.inr hn⟩
  · have hnone : ∀ w, (s.mgr w).pc.node = none := by
      intro w
      cases hn : (s.mgr w).pc.node with
      | none => rfl
      | some n => exact absurd ⟨w, n, hn⟩ hheld
    cases hitems : s.queue.items with
    | nil => exact absurd ⟨hitems, hnone⟩ hused
    | cons n rest =>
      obtain ⟨w, hw⟩ := approach_of_head h hnone hitems
      exact ⟨w, n, hw, Or.inl List.mem_cons_self⟩

/-- Without a node in use the managers only get hold of `cnt_mutex` and back. -/
theorem usedUp_mgrStep (h : s.UsedUp) (hstep : MgrStep p s w t) : t.UsedUp := by
  have hnode := h.2 w
  have hkeep : ∀ m : Mgr, m.pc.node = none → ∀ v, ((s.setMgr w m).mgr v).pc.node = none := by
    intro m hm v
    by_cases hv : v = w
    · rw [hv, setMgr_mgr_self]
      exact hm
    · rw [setMgr_mgr_of_ne _ _ hv]
      exact h.2 v
  cases hstep with
  | lock hpc _ => exact ⟨h.1, hkeep _ rfl⟩
  | skip hpc => exact ⟨h.1, hkeep _ rfl⟩
  | get n rest hpc hitems =>
    rw [h.1] at hitems
    cases hitems
  | _ n hpc =>
    rw [hpc] at hnode
    cases hnode

theorem Approach.read (h : Approach p w n s) :
    ∃ (k : Nat) (t : State), run (next p) s (List.replicate k (.mgr w)) = some t ∧
      (n, p.deref s.buf n) ∈ (t.mgr w).uses := by
  induction h with
  | @here s h =>
    cases hpc : (s.mgr w).pc <;> rw [hpc] at h
    case cmp n' =>
      obtain rfl := Option.some.inj h
      by_cases hmsg : p.deref s.buf n' = (s.mgr w).oldMsg
      · exact ⟨1, _, (run_singleton s _).trans (mgrStep_of (.equal n' hpc hmsg)), by simp⟩
      · exact ⟨1, _, (run_singleton s _).trans (mgrStep_of (.differ n' hpc hmsg)), by simp⟩
    case copy n' =>
      obtain rfl := Option.some.inj h
      exact ⟨1, _, (run_singleton s _).trans (mgrStep_of (.copy n' hpc)), by simp⟩
    case parse n' =>
      obtain rfl := Option.some.inj h
      exact ⟨1, _, (run_singleton s _).trans (mgrStep_of (.parse n' hpc)), by simp⟩
    all_goals cases h
  | step hno hstep _ ih =>
    obtain ⟨k, u, hrun, hmem⟩ := ih
    have hframe := mgrStep_frame (mgrStep_cases hstep)
    exact ⟨k + 1, u, run_cons_eq_some.mpr ⟨_, hstep, hrun⟩, hframe.1 ▸ hmem⟩

end

theorem harmful_recv {mem : Bytes} {s : State} (hinv : Inv s) (h : Intact mem s) {bs : Bytes}
    (hrecv : s.received = false) (hbad : ¬ RecvHarmless mem s (.recv bs)) :
    ∃ (k : Nat) (t : State) (w : Who),
      run (next (byAddress mem)) s (.recv bs :: List.replicate k (.mgr w)) = some t ∧
      ∃ u ∈ (t.mgr w).uses, u.2 ≠ u.1.sent := by
  rw [RecvHarmless, not_or] at hbad
  obtain ⟨hstr, hused⟩ := hbad
  have hstep : next (byAddress mem) s (.recv bs) =
      some { s with buf := recv s.buf bs, received := true } := by
    rw [next, hrecv]
    rfl
  obtain ⟨w, n, happ, hn⟩ := approach_of_not_usedUp (p := byAddress mem)
    (next_inv hinv hstep) hused
  obtain ⟨k, t, hrun, hmem⟩ := happ.read
  have hsent : n.sent = bufStr mem s.buf := hn.elim (h.queue n) (h.held w n)
  exact ⟨k, t, w, run_cons_eq_some.mpr ⟨_, hstep, hrun⟩, _, hmem,
    fun heq => hstr (Eq.trans heq hsent)⟩

theorem start_intact (mem : Bytes) (size : Nat) (buf : Bytes) : Intact mem (start size buf) where
  queue n hn := by cases hn
  held w n hn := by cases hn
  uses w u hu := by cases hu

/-- In a run whose receptions are all harmless, every string a manager compares, copies or
parses is the one its node was pushed with.  From every state of such a run, a reception
that is not harmless lets a manager read another string. -/
theorem payload_intact {mem buf : Bytes} {size : Nat} {es : List Event} {s : State}
    (hes : Meets (next (byAddress mem)) (RecvHarmless mem) (start size buf) es)
    (h : run (next (byAddress mem)) (start size buf) es = some s) :
    (∀ w, ∀ u ∈ (s.mgr w).uses, u.2 = u.1.sent) ∧
      ∀ bs, s.received = false → ¬ RecvHarmless mem s (.recv bs) →
        ∃ (k : Nat) (t : State) (w : Who),
          run (next (byAddress mem)) s (.recv bs :: List.replicate k (.mgr w)) = some t ∧
          ∃ u ∈ (t.mgr w).uses, u.2 ≠ u.1.sent := by
  have hintact : Intact mem s :=
    run_preserves_of_meets (fun _ _ _ hI he hstep => next_intact hI he hstep)
      (start_intact mem size buf) hes h
  have hinv : Inv s :=
    run_preserves (fun _ _ _ hI hstep => next_inv hI hstep) (start_inv size buf) h
  exact ⟨hintact.uses, fun bs hrecv hbad => harmful_recv hinv hintact hrecv hbad⟩

/-- A second message that arrives before the first is taken replaces it: `data_mgr`
compares, copies and parses the first node as the second message. -/
theorem payload_replaced :
    reading₁ ≠ reading₂ ∧
      (run (next (byAddress [])) (start 100 (List.replicate osBufferSize 0))
        (.recv reading₁ :: .push true :: .recv reading₂ :: .push true :: lap .data)).map
        (fun s => (s.mgr .data).uses) = some (List.replicate 3 (⟨0, reading₁⟩, reading₂)) := by
  decide +kernel

/-- Both managers take the first message before the second one arrives. -/
def inTurn : List Event :=
  .recv reading₁ :: .push true :: lap .data ++ lap .storage ++
    .recv reading₂ :: .push true :: lap .storage ++ lap .data

theorem payload_intact_two :
    ∃ s, run (next (byAddress [])) (start 100 (List.replicate osBufferSize 0)) inTurn = some s ∧
      s.removed = [⟨0, reading₁⟩, ⟨1, reading₂⟩] ∧
      ∀ w, ∀ u ∈ (s.mgr w).uses, u.2 = u.1.sent := by
  have hes : Meets (next (byAddress [])) (RecvHarmless [])
      (start 100 (List.replicate osBufferSize 0)) inTurn := by decide +kernel
  have hremoved : (run (next (byAddress [])) (start 100 (List.replicate osBufferSize 0))
      inTurn).map State.removed = some [⟨0, reading₁⟩, ⟨1, reading₂⟩] := by decide +kernel
  obtain ⟨s, hs, hremoved⟩ := Option.map_eq_some_iff.mp hremoved
  exact ⟨s, hs, hremoved, (payload_intact hes hs).1⟩

end Handoff
end Gateway
end LinuxPrograming
