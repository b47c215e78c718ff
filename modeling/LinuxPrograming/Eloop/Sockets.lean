import LinuxPrograming.Eloop.Model

/-!
# Sockets

A handler may register and unregister sockets, so that what `select` found may no longer be true of
a table.  A handler of `readers` is only called for a socket that `select` was asked about.  For
the other two tables this holds unless a handler changed the table since.
-/

namespace LinuxPrograming
namespace Eloop

open Lib

/-- What is true of a call. -/
structure SockCall.Good (c : SockCall) : Prop where
  ready : c.entry.sock ∈ c.ready
  read : c.type = .read → c.touched = false
  selected : c.touched = false → c.entry ∈ c.selected

/-- What the place in the loop tells about changes since `select`. -/
def Settled (s : Socks) : Pc → Prop
  | .pending (.selected _) _ | .timers _ | .sockets _ =>
    ∀ type, s.touched type = true → (s.tables type).changed = true
  | .dispatch .read _ _ => s.touched .read = false
  | .called .read _ _ => s.touched .read = true → (s.tables .read).changed = true
  | _ => True

/-- What is true of the tables at all times. -/
structure Socks.Good (s : Socks) : Prop where
  maxSock : ∀ type, ∀ entry ∈ (s.tables type).table, entry.sock ≤ s.maxSock
  same : ∀ type, s.touched type = false → (s.tables type).table = s.selected type
  flagged : ∀ type, (s.tables type).changed = true → s.touched type = true
  calls : ∀ c ∈ s.calls, c.Good

/-- The same with the place in the loop. -/
def Consistent (s : State) : Prop :=
  s.socks.Good ∧ match s.pc with
    | .handler k => Returns k ∧ Settled s.socks k
    | pc => Settled s.socks pc

/-! ## The functions -/

namespace Socks

variable {s : Socks}

@[simp] theorem set_tables_self (type : EventType) (table : Table) :
    (s.set type table).tables type = table := if_pos rfl

theorem set_tables_other {type other : EventType} (h : other ≠ type) (table : Table) :
    (s.set type table).tables other = s.tables other := if_neg h

/-- A table is changed, and marked as changed. -/
theorem Good.change (h : s.Good) (type : EventType) {list : List Sock} {maxSock registered : Nat}
    (hmax : s.maxSock ≤ maxSock) (hlist : ∀ entry ∈ list, entry.sock ≤ maxSock) :
    ({ s.set type ⟨list, true⟩ with
      maxSock, registered,
      touched := fun other => if other = type then true else s.touched other } : Socks).Good := by
  refine ⟨fun other entry hentry => ?_, fun other hother => ?_, fun other hother => ?_, h.calls⟩
  · by_cases hsame : other = type
    · subst hsame
      change entry ∈ ((s.set other ⟨list, true⟩).tables other).table at hentry
      rw [set_tables_self] at hentry
      exact hlist entry hentry
    · change entry ∈ ((s.set type ⟨list, true⟩).tables other).table at hentry
      rw [set_tables_other hsame] at hentry
      exact Nat.le_trans (h.maxSock other entry hentry) hmax
  · change (if other = type then true else s.touched other) = false at hother
    split at hother
    · cases hother
    · next hsame =>
      show ((s.set type ⟨list, true⟩).tables other).table = s.selected other
      rw [set_tables_other hsame]
      exact h.same other hother
  · show (if other = type then true else s.touched other) = true
    split
    · rfl
    · next hsame =>
      change ((s.set type ⟨list, true⟩).tables other).changed = true at hother
      rw [set_tables_other hsame] at hother
      exact h.flagged other hother

/-- In a handler nothing is lost of what `Settled` says. -/
theorem settled_change {pc : Pc} (hreturns : Returns pc) (h : Settled s pc) (type : EventType)
    (list : List Sock) (maxSock registered : Nat) :
    Settled { s.set type ⟨list, true⟩ with
      maxSock, registered,
      touched := fun other => if other = type then true else s.touched other } pc := by
  have hkeeps : ∀ other, (s.touched other = true → (s.tables other).changed = true) →
      (if other = type then true else s.touched other) = true →
      ((s.set type ⟨list, true⟩).tables other).changed = true := by
    intro other hother htouched
    by_cases hsame : other = type
    · rw [hsame, set_tables_self]
    · rw [if_neg hsame] at htouched
      rw [set_tables_other hsame]
      exact hother htouched
  cases pc with
  | pending k scan =>
    cases k with
    | top => trivial
    | selected r => exact fun other => hkeeps other (h other)
  | sockets r => exact fun other => hkeeps other (h other)
  | called called i r =>
    cases called with
    | read => exact hkeeps .read h
    | write => trivial
    | exception => trivial
  | _ => exact absurd hreturns id

theorem register_spec (h : s.Good) (memory : Bool) (sock : Nat) (type : EventType)
    (handler eloopData userData : Nat) :
    (s.register memory sock type handler eloopData userData).1.Good ∧
      ∀ pc, Returns pc → Settled s pc →
        Settled (s.register memory sock type handler eloopData userData).1 pc := by
  rw [register]
  cases memory with
  | false => exact ⟨h, fun _ _ hpc => hpc⟩
  | true =>
    have hmax : s.maxSock ≤ if s.maxSock < sock then sock else s.maxSock := by
      split
      · omega
      · exact Nat.le_refl _
    have hsock : sock ≤ if s.maxSock < sock then sock else s.maxSock := by
      split
      · exact Nat.le_refl _
      · omega
    refine ⟨h.change type hmax fun entry hentry => ?_, fun pc hreturns hpc =>
      settled_change hreturns hpc ..⟩
    rcases List.mem_append.mp hentry with hentry | hentry
    · exact Nat.le_trans (h.maxSock type entry hentry) hmax
    · rw [List.mem_singleton.mp hentry]
      exact hsock

theorem unregister_spec (h : s.Good) (sock : Nat) (type : EventType) :
    (s.unregister sock type).Good ∧
      ∀ pc, Returns pc → Settled s pc → Settled (s.unregister sock type) pc := by
  rw [unregister]
  split
  · refine ⟨h.change type (Nat.le_refl _) fun entry hentry => ?_, fun pc hreturns hpc =>
      settled_change hreturns hpc ..⟩
    exact h.maxSock type entry (List.mem_of_mem_eraseP hentry)
  · exact ⟨h, fun _ _ hpc => hpc⟩

theorem clear_good (h : s.Good) : s.clear.Good :=
  ⟨h.maxSock, fun _ _ => rfl, fun _ hchanged => absurd hchanged Bool.false_ne_true, h.calls⟩

theorem begin_good (h : s.Good) (type : EventType) : (s.begin type).Good := by
  refine ⟨fun other entry hentry => ?_, fun other hother => ?_, fun other hother => ?_, h.calls⟩
  · rw [begin] at hentry
    by_cases hsame : other = type
    · rw [hsame, set_tables_self] at hentry
      exact h.maxSock type entry hentry
    · rw [set_tables_other hsame] at hentry
      exact h.maxSock other entry hentry
  · rw [begin]
    by_cases hsame : other = type
    · rw [hsame, set_tables_self]
      exact h.same type (hsame ▸ hother)
    · rw [set_tables_other hsame]
      exact h.same other hother
  · rw [begin] at hother
    by_cases hsame : other = type
    · rw [hsame, set_tables_self] at hother
      cases hother
    · rw [set_tables_other hsame] at hother
      exact h.flagged other hother

end Socks

/-! ## Runs -/

section

variable {s t : State}

/-- Away from handlers. -/
theorem Consistent.of_settled {pc : Pc} (hgood : s.socks.Good) (hpc : s.pc = pc)
    (hsettled : Settled s.socks pc) (hhandler : ∀ k, pc ≠ .handler k) : Consistent s := by
  refine ⟨hgood, ?_⟩
  rw [hpc]
  cases pc with
  | handler k => exact absurd rfl (hhandler k)
  | _ => exact hsettled

theorem Consistent.settled {pc : Pc} (h : Consistent s) (hpc : s.pc = pc)
    (hhandler : ∀ k, pc ≠ .handler k) : Settled s.socks pc := by
  have hsettled := h.2
  rw [hpc] at hsettled
  cases pc with
  | handler k => exact absurd rfl (hhandler k)
  | _ => exact hsettled

theorem Consistent.handler {k : Pc} (h : Consistent s) (hpc : s.pc = .handler k) :
    Returns k ∧ Settled s.socks k := by
  have hsettled := h.2
  rw [hpc] at hsettled
  exact hsettled

theorem call_consistent (h : Consistent s) (c : Call)
    (hpc : s.pc = .outside ∨ ∃ k, s.pc = .handler k) : Consistent (s.call c) := by
  have hchange : ∀ {socks : Socks}, socks.Good →
      (∀ pc, Returns pc → Settled s.socks pc → Settled socks pc) →
      Consistent { s with socks } := by
    intro socks hgood hsettled
    rcases hpc with hpc | ⟨k, hpc⟩
    · exact Consistent.of_settled hgood hpc trivial fun _ heq => by cases heq
    · obtain ⟨hreturns, hk⟩ := h.handler hpc
      refine ⟨hgood, ?_⟩
      dsimp only
      rw [hpc]
      exact ⟨hreturns, hsettled k hreturns hk⟩
  cases c with
  | registerSock memory sock type handler eloopData userData =>
    obtain ⟨hgood, hsettled⟩ := Socks.register_spec h.1 memory sock type handler eloopData userData
    exact hchange hgood hsettled
  | unregisterSock sock type =>
    obtain ⟨hgood, hsettled⟩ := Socks.unregister_spec h.1 sock type
    exact hchange hgood hsettled
  | _ => exact h

theorem selected_consistent (hgood : s.socks.Good) (r : Result) : Consistent (s.selected r) :=
  ⟨Socks.clear_good hgood, fun _ htouched => absurd htouched Bool.false_ne_true⟩

theorem resume_consistent {k : After} {scan : Scan} (hgood : s.socks.Good)
    (h : Settled s.socks (.pending k scan)) : Consistent (s.resume k) := by
  cases k with
  | top =>
    rw [State.resume]
    split
    · exact ⟨hgood, trivial⟩
    · exact ⟨hgood, trivial⟩
  | selected r => exact ⟨hgood, h⟩

theorem scan_consistent {k : After} {scan : Scan} (hgood : s.socks.Good)
    (hpc : s.pc = .pending k scan) (h : Settled s.socks (.pending k scan)) :
    Consistent (s.scan k scan) := by
  have hother : ∀ other, Settled s.socks (.pending k other) := by
    intro other
    cases k with
    | top => trivial
    | selected r => exact h
  rcases scan_cases hpc with hend | ⟨pc, signals, hstay, ⟨other, rfl⟩ | ⟨i, rfl⟩⟩
  · rw [hend]
    exact resume_consistent hgood h
  · rw [hstay]
    exact ⟨hgood, hother _⟩
  · rw [hstay]
    exact ⟨hgood, trivial, hother _⟩

theorem dispatchNext_consistent (hgood : s.socks.Good) (type : EventType) (r : Result) :
    Consistent (s.dispatchNext type r) := by
  cases type with
  | read => exact ⟨Socks.begin_good hgood .write, trivial⟩
  | write => exact ⟨Socks.begin_good hgood .exception, trivial⟩
  | exception => exact ⟨hgood, trivial⟩

/-- The handler of an entry is called. -/
theorem dispatch_consistent (h : Consistent s) {type : EventType} {i : Nat} {r : Result}
    (hpc : s.pc = .dispatch type i r) {entry : Sock}
    (hentry : (s.socks.tables type).table[i]? = some entry) (hready : entry.sock ∈ r.fds type) :
    Consistent { s with
      pc := .handler (.called type i r),
      socks := { s.socks with
        calls := ⟨type, entry, r.fds type, s.socks.selected type, s.socks.touched type⟩ ::
          s.socks.calls } } := by
  have hsettled := h.settled hpc fun _ heq => by cases heq
  refine ⟨⟨h.1.maxSock, h.1.same, h.1.flagged, fun c hc => ?_⟩, trivial, ?_⟩
  · rcases List.mem_cons.mp hc with rfl | hc
    · refine ⟨hready, fun hread => ?_, fun htouched => ?_⟩
      · obtain rfl : type = .read := hread
        exact hsettled
      · show entry ∈ s.socks.selected type
        rw [← h.1.same type htouched]
        exact List.mem_of_getElem? hentry
    · exact h.1.calls c hc
  · cases type with
    | read =>
      intro htouched
      change s.socks.touched .read = true at htouched
      change s.socks.touched .read = false at hsettled
      rw [hsettled] at htouched
      cases htouched
    | write => trivial
    | exception => trivial

theorem step_consistent (h : Consistent s) {now : Reltime} (hstep : s.step now = some t) :
    Consistent t := by
  cases loopStep_cases hstep with
  | enter _ _ =>
    refine ⟨h.1, ?_⟩
    cases s.signals.pendingTerminate with
    | true => trivial
    | false => trivial
  | leave _ _ | sleep _ _ | sleepUntil _ _ _ _ | skip _ _ _ => exact ⟨h.1, trivial⟩
  | scan k scan hpc => exact scan_consistent h.1 hpc (h.settled hpc fun _ heq => by cases heq)
  | wait r hpc _ =>
    have hsettled := h.settled hpc fun _ heq => by cases heq
    exact ⟨h.1, hsettled⟩
  | fire r _ _ hpc _ _ =>
    have hsettled := h.settled hpc fun _ heq => by cases heq
    exact ⟨h.1, trivial, hsettled⟩
  | dispatch r hpc hready =>
    have hsettled := h.settled hpc fun _ heq => by cases heq
    refine ⟨Socks.begin_good h.1 .read, ?_⟩
    show s.socks.touched .read = false
    by_contra htouched
    have hchanged := hsettled .read (by simpa using htouched)
    refine hready (Or.inr ?_)
    rw [Socks.changed, hchanged]
    rfl
  | call type i r entry hpc hentry hready => exact dispatch_consistent h hpc hentry hready
  | pass type i r entry hpc _ _ =>
    have hsettled := h.settled hpc fun _ heq => by cases heq
    refine ⟨h.1, ?_⟩
    cases type with
    | read => exact hsettled
    | write => trivial
    | exception => trivial
  | back type i r hpc hunchanged =>
    have hsettled := h.settled hpc fun _ heq => by cases heq
    refine ⟨h.1, ?_⟩
    cases type with
    | read =>
      show s.socks.touched .read = false
      by_contra htouched
      have hchanged := hsettled (by simpa using htouched)
      rw [hunchanged] at hchanged
      cases hchanged
    | write => trivial
    | exception => trivial
  | tableEnd type _ r _ _ | tableChanged type _ r _ _ => exact dispatchNext_consistent h.1 type r

theorem next_consistent (h : Consistent s) {e : Event} (hnext : next s e = some t) :
    Consistent t := by
  cases e with
  | call c =>
    obtain ⟨hpc, rfl⟩ := call_cases hnext
    exact call_consistent h c hpc
  | assign =>
    obtain ⟨_, _, -, -, rfl⟩ := assign_cases hnext
    exact h
  | ret =>
    obtain ⟨k, hpc, rfl⟩ := ret_cases hnext
    obtain ⟨hreturns, hk⟩ := h.handler hpc
    refine Consistent.of_settled (s := { s with pc := k }) h.1 rfl hk ?_
    rintro _ rfl
    exact hreturns
  | run memory =>
    rcases run_cases hnext with ⟨-, ⟨-, rfl⟩ | ⟨-, rfl⟩⟩
    · exact h
    · exact ⟨h.1, trivial⟩
  | step now => exact step_consistent h (step_cases hnext)
  | select result =>
    rcases select_cases hnext with ⟨_, -, ⟨-, rfl⟩ | ⟨r, -, -, rfl⟩⟩
    · exact ⟨h.1, trivial⟩
    · exact selected_consistent h.1 r
  | signal sig =>
    obtain ⟨-, rfl⟩ := signal_cases hnext
    rw [State.interrupt]
    split
    · exact selected_consistent h.1 _
    · exact h
  | alarm =>
    obtain ⟨-, rfl⟩ := alarm_cases hnext
    exact ⟨h.1, trivial⟩

/-- Whatever the handlers do: `select` is asked about every registered socket, a socket handler is
called only for what `select` found ready, and only for an entry that was in the table then, as
long as no handler changed the table since.  A handler of `readers` is never called otherwise. -/
theorem sockets_good {es : List Event} {s : State} (h : run next init es = some s) :
    s.socks.Good := by
  have hconsistent : Consistent s := by
    refine run_preserves (fun s e t hs hnext => next_consistent hs hnext) ?_ h
    refine ⟨⟨fun _ entry hentry => ?_, fun _ _ => rfl, fun _ hchanged => ?_, fun c hc => ?_⟩,
      trivial⟩
    · cases hentry
    · cases hchanged
    · cases hc
  exact hconsistent.1

/-- The handler 1 for reading unregisters the socket 3 for writing and registers it again.  The
handler 4 is then called although `select` was not asked about its entry. -/
def staleRun : List Event :=
  [.call (.registerSock true 3 .read 1 0 0), .call (.registerSock true 3 .write 2 0 0), .run true,
    .step ⟨0, 0⟩, .step ⟨0, 0⟩,
    .select (some ⟨1, fun type => if type = .exception then [] else [3]⟩), .step ⟨0, 0⟩,
    .step ⟨0, 0⟩, .step ⟨0, 0⟩, .step ⟨0, 0⟩, .call (.unregisterSock 3 .write),
    .call (.registerSock true 3 .write 4 0 0), .ret, .step ⟨0, 0⟩, .step ⟨0, 0⟩, .step ⟨0, 0⟩]

theorem sockets_good_stale : ∃ s, run next init staleRun = some s ∧ s.socks.Good ∧
    s.socks.calls.map (fun c => (c.entry.handler, c.touched, decide (c.entry ∈ c.selected))) =
      [(4, true, false), (1, false, true)] := by
  have hrun : run next init staleRun = some _ := rfl
  exact ⟨_, hrun, sockets_good hrun, rfl⟩

end

end Eloop
end LinuxPrograming
