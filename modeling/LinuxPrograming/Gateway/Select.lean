import LinuxPrograming.Lib.Run
import Mathlib.Data.Finset.Erase
import Mathlib.Data.Finset.Insert
import Mathlib.Data.Finset.Filter
import Mathlib.Order.Basic

/-!
# The select loop of `connection_mgr`

One event is one `select`, one turn of the inner `for` loop, or something that the rest of
the process does with its own descriptors.  Connections are numbered in the order of their
`accept`, since the kernel uses descriptor numbers again.
-/

namespace LinuxPrograming
namespace Gateway
namespace Select

open Lib

/-- Where `connection_mgr` is: at the head of the outer loop, before the test `i <= fd_max`
of the inner one, or in `exit`. -/
inductive Pc where
  | head
  | scan (i : Nat)
  | exit
  deriving DecidableEq, Repr

/-- The variables of `connection_mgr` and the descriptors of the process.  `conn` is the
connection behind a client descriptor, and `passStart` the number of connections accepted
before the current pass.  `recvs` and `closed` record what was done with which
connection. -/
structure State where
  listener : Nat
  master : Finset Nat
  fdMax : Nat
  readFds : Finset Nat
  pc : Pc
  openFds : Finset Nat
  conn : Nat → Option Nat
  accepted : Nat
  passStart : Nat
  recvs : List (Option Nat × Int)
  closed : List (Option Nat)

inductive Event where
  /-- `select` fails, or finds these descriptors ready. -/
  | select (ready : Option (Finset Nat))
  /-- A turn of the inner loop, with the descriptor `accept` would return and what `recv`
  would return. -/
  | turn (accept : Option Nat) (recv : Int)
  /-- The rest of the process opens or closes a descriptor of its own. -/
  | openFd (n : Nat)
  | closeFd (n : Nat)

/-- The state in front of the loop, with the descriptors that are open then. -/
def start (listener : Nat) (others : Finset Nat) : State where
  listener := listener
  master := {listener}
  fdMax := listener
  readFds := ∅
  pc := .head
  openFds := insert listener others
  conn _ := none
  accepted := 0
  passStart := 0
  recvs := []
  closed := []

def State.setConn (s : State) (i : Nat) (c : Option Nat) : State :=
  { s with conn := fun j => if j = i then c else s.conn j }

/-- `OS_AcceptTCP` and the two lines behind it. -/
def acceptConn (s : State) : Option Nat → Option State
  | none => some s
  | some n =>
    if n ∈ s.openFds then none
    else some ({ s with
      master := insert n s.master
      fdMax := if n > s.fdMax then n else s.fdMax
      openFds := insert n s.openFds
      accepted := s.accepted + 1 }.setConn n (some s.accepted))

/-- `recv` on the descriptor `i`, and what follows it. -/
def recvConn (s : State) (i : Nat) (bytes : Int) : State :=
  if bytes ≤ 0 then
    { s with
      recvs := s.recvs ++ [(s.conn i, bytes)]
      master := s.master.erase i
      openFds := s.openFds.erase i
      closed := s.closed ++ [s.conn i] }.setConn i none
  else { s with recvs := s.recvs ++ [(s.conn i, bytes)] }

/-- The body of the inner loop. -/
def handle (s : State) (i : Nat) (accept : Option Nat) (recv : Int) : Option State :=
  if i ∈ s.readFds then
    if i = s.listener then acceptConn s accept else some (recvConn s i recv)
  else some s

def next (s : State) : Event → Option State
  | .select ready =>
    match s.pc, ready with
    | .head, none => some { s with pc := .exit }
    | .head, some ready => some { s with
        readFds := s.master.filter fun i => i ≤ s.fdMax ∧ i ∈ ready
        passStart := s.accepted
        pc := .scan 0 }
    | _, _ => none
  | .turn accept recv =>
    match s.pc with
    | .scan i =>
      if i ≤ s.fdMax then (handle s i accept recv).map fun s => { s with pc := .scan (i + 1) }
      else some { s with pc := .head }
    | _ => none
  | .openFd n => if n ∈ s.openFds then none else some { s with openFds := insert n s.openFds }
  | .closeFd n => if n ∈ s.master then none else some { s with openFds := s.openFds.erase n }

/-! ## The connections -/

@[simp] theorem setConn_conn_self (s : State) (i : Nat) (c : Option Nat) :
    (s.setConn i c).conn i = c := if_pos rfl

theorem setConn_conn_of_ne (s : State) {i j : Nat} (h : j ≠ i) (c : Option Nat) :
    (s.setConn i c).conn j = s.conn j := if_neg h

theorem setConn_conn_eq_some (s : State) (i : Nat) (x : Option Nat) (j d : Nat) :
    (s.setConn i x).conn j = some d ↔ j = i ∧ x = some d ∨ j ≠ i ∧ s.conn j = some d := by
  by_cases hji : j = i
  · rw [hji, setConn_conn_self]
    simp
  · rw [setConn_conn_of_ne _ hji]
    simp [hji]

/-- What the sets and the records have to do with the connections. -/
structure Conns (s : State) : Prop where
  master : ∀ i, i ∈ s.master ↔ i = s.listener ∨ ∃ c, s.conn i = some c
  listener : s.conn s.listener = none
  bound : ∀ i ∈ s.master, i ≤ s.fdMax
  openFds : ∀ i ∈ s.master, i ∈ s.openFds
  accepted : ∀ i c, s.conn i = some c → c < s.accepted
  single : ∀ i j c, s.conn i = some c → s.conn j = some c → i = j
  closed : ∀ x ∈ s.closed, ∃ c, x = some c ∧ c < s.accepted
  live : ∀ c < s.accepted, some c ∉ s.closed ↔ ∃ i, s.conn i = some c
  nodup : s.closed.Nodup
  recvs : ∀ c, some c ∈ s.closed ↔ ∃ r ≤ 0, (some c, r) ∈ s.recvs

theorem start_conns (listener : Nat) (others : Finset Nat) : Conns (start listener others) where
  master i := by simp [start]
  listener := rfl
  bound i h := by
    rw [Finset.mem_singleton.mp h]
    exact le_refl listener
  openFds i h := by
    rw [Finset.mem_singleton.mp h]
    exact Finset.mem_insert_self _ _
  accepted i c h := absurd h (by simp [start])
  single i j c h := absurd h (by simp [start])
  closed x h := absurd h List.not_mem_nil
  live c h := absurd h (Nat.not_lt_zero c)
  nodup := List.nodup_nil
  recvs c := by simp [start]

/-- A descriptor that is not open belongs to no connection and is in neither set. -/
theorem Conns.not_open {s : State} (h : Conns s) {n : Nat} (hn : n ∉ s.openFds) :
    n ∉ s.master ∧ n ≠ s.listener ∧ s.conn n = none := by
  have hmaster : n ∉ s.master := fun hm => hn (h.openFds n hm)
  obtain ⟨hlistener, hconn⟩ := not_or.mp ((h.master n).not.mp hmaster)
  refine ⟨hmaster, hlistener, ?_⟩
  cases hc : s.conn n with
  | none => rfl
  | some c => exact absurd ⟨c, hc⟩ hconn

theorem Conns.accept {s : State} (h : Conns s) {n : Nat} (hn : n ∉ s.openFds) :
    Conns ({ s with
      master := insert n s.master
      fdMax := if n > s.fdMax then n else s.fdMax
      openFds := insert n s.openFds
      accepted := s.accepted + 1 }.setConn n (some s.accepted)) := by
  obtain ⟨hmaster, hlistener, hnone⟩ := h.not_open hn
  have hconn : ∀ j d, (s.setConn n (some s.accepted)).conn j = some d ↔
      j = n ∧ some s.accepted = some d ∨ j ≠ n ∧ s.conn j = some d :=
    setConn_conn_eq_some s n (some s.accepted)
  refine ⟨fun i => ?_, ?_, fun i hi => ?_, fun i hi => ?_, fun i c hc => ?_,
    fun i j c hi hj => ?_, fun x hx => ?_, fun c hc => ?_, h.nodup, h.recvs⟩
  · show i ∈ insert n s.master ↔ i = s.listener ∨ _
    rw [Finset.mem_insert, h.master i]
    by_cases hin : i = n
    · simp [hin]
    · rw [setConn_conn_of_ne _ hin]
      simp [hin]
  · exact (setConn_conn_of_ne _ (Ne.symm hlistener) _).trans h.listener
  · show i ≤ if n > s.fdMax then n else s.fdMax
    rcases Finset.mem_insert.mp hi with rfl | hi
    · split <;> omega
    · have hbound := h.bound i hi
      split <;> omega
  · rcases Finset.mem_insert.mp hi with rfl | hi
    · exact Finset.mem_insert_self _ _
    · exact Finset.mem_insert_of_mem (h.openFds i hi)
  · show c < s.accepted + 1
    rcases (hconn i c).mp hc with ⟨-, hc⟩ | ⟨-, hc⟩
    · rw [← Option.some.inj hc]
      exact Nat.lt_succ_self _
    · exact Nat.lt_succ_of_lt (h.accepted i c hc)
  · rcases (hconn i c).mp hi with ⟨hin, hc⟩ | ⟨-, hi⟩ <;>
      rcases (hconn j c).mp hj with ⟨hjn, hc'⟩ | ⟨-, hj⟩
    · rw [hin, hjn]
    · have hlt := h.accepted j c hj
      have heq := Option.some.inj hc
      omega
    · have hlt := h.accepted i c hi
      have heq := Option.some.inj hc'
      omega
    · exact h.single i j c hi hj
  · obtain ⟨c, rfl, hc⟩ := h.closed x hx
    exact ⟨c, rfl, Nat.lt_succ_of_lt hc⟩
  · show some c ∉ s.closed ↔ ∃ j, (s.setConn n (some s.accepted)).conn j = some c
    simp only [hconn]
    rcases Nat.lt_succ_iff_lt_or_eq.mp hc with hlt | rfl
    · rw [h.live c hlt]
      constructor
      · rintro ⟨i, hi⟩
        refine ⟨i, Or.inr ⟨fun heq => ?_, hi⟩⟩
        rw [heq, hnone] at hi
        exact absurd hi (by simp)
      · rintro ⟨i, ⟨-, heq⟩ | ⟨-, hi⟩⟩
        · have := Option.some.inj heq
          omega
        · exact ⟨i, hi⟩
    · refine iff_of_true (fun hmem => ?_) ⟨n, Or.inl ⟨rfl, rfl⟩⟩
      obtain ⟨c, hc, hlt⟩ := h.closed _ hmem
      have := Option.some.inj hc
      omega

/-- `recv` returned data. -/
theorem Conns.received {s : State} (h : Conns s) (x : Option Nat) {r : Int} (hr : ¬ r ≤ 0) :
    Conns { s with recvs := s.recvs ++ [(x, r)] } := by
  refine ⟨h.master, h.listener, h.bound, h.openFds, h.accepted, h.single, h.closed, h.live,
    h.nodup, fun c => ?_⟩
  rw [h.recvs c]
  constructor
  · rintro ⟨r', hr', hmem⟩
    exact ⟨r', hr', List.mem_append_left _ hmem⟩
  · rintro ⟨r', hr', hmem⟩
    rcases List.mem_append.mp hmem with hmem | hmem
    · exact ⟨r', hr', hmem⟩
    · have heq := (Prod.mk.inj (List.mem_singleton.mp hmem)).2
      exact absurd (heq ▸ hr') hr

/-- `recv` returned 0 or failed on the descriptor of the connection `c`. -/
theorem Conns.close {s : State} (h : Conns s) {i c : Nat} (hi : s.conn i = some c) {r : Int}
    (hr : r ≤ 0) :
    Conns ({ s with
      recvs := s.recvs ++ [(s.conn i, r)]
      master := s.master.erase i
      openFds := s.openFds.erase i
      closed := s.closed ++ [s.conn i] }.setConn i none) := by
  have hlistener : s.listener ≠ i := fun heq => by
    rw [← heq, h.listener] at hi
    exact absurd hi (by simp)
  have hopen : some c ∉ s.closed := (h.live c (h.accepted i c hi)).mpr ⟨i, hi⟩
  have hother : ∀ j d, (s.setConn i none).conn j = some d ↔ j ≠ i ∧ s.conn j = some d := by
    intro j d
    rw [setConn_conn_eq_some]
    simp
  refine ⟨fun j => ?_, ?_, fun j hj => ?_, fun j hj => ?_, fun j d hj => ?_,
    fun j k d hj hk => ?_, fun x hx => ?_, fun d hd => ?_, ?_, fun d => ?_⟩
  · show j ∈ s.master.erase i ↔ j = s.listener ∨ ∃ d, (s.setConn i none).conn j = some d
    rw [Finset.mem_erase, h.master j]
    simp only [hother]
    by_cases hji : j = i
    · simp [hji, Ne.symm hlistener]
    · simp [hji]
  · exact (setConn_conn_of_ne _ hlistener _).trans h.listener
  · exact h.bound j (Finset.mem_of_mem_erase hj)
  · show j ∈ s.openFds.erase i
    obtain ⟨hji, hj⟩ := Finset.mem_erase.mp hj
    exact Finset.mem_erase.mpr ⟨hji, h.openFds j hj⟩
  · exact h.accepted j d ((hother j d).mp hj).2
  · exact h.single j k d ((hother j d).mp hj).2 ((hother k d).mp hk).2
  · rcases List.mem_append.mp hx with hx | hx
    · exact h.closed x hx
    · exact ⟨c, (List.mem_singleton.mp hx).trans hi, h.accepted i c hi⟩
  · show some d ∉ s.closed ++ [s.conn i] ↔ ∃ j, (s.setConn i none).conn j = some d
    simp only [hother, List.mem_append, List.mem_singleton, not_or, h.live d hd, hi]
    constructor
    · rintro ⟨⟨j, hj⟩, hne⟩
      refine ⟨j, fun heq => hne ?_, hj⟩
      rw [← hj, heq, hi]
    · rintro ⟨j, hji, hj⟩
      refine ⟨⟨j, hj⟩, fun heq => hji ?_⟩
      exact h.single j i c (hj.trans heq) hi
  · show (s.closed ++ [s.conn i]).Nodup
    rw [hi]
    exact List.nodup_append.mpr ⟨h.nodup, List.nodup_singleton _, fun x hx y hy heq =>
      hopen (List.mem_singleton.mp hy ▸ heq ▸ hx)⟩
  · show some d ∈ s.closed ++ [s.conn i] ↔ ∃ r' ≤ 0, (some d, r') ∈ s.recvs ++ [(s.conn i, r)]
    rw [List.mem_append, List.mem_singleton, h.recvs d]
    constructor
    · rintro (⟨r', hr', hmem⟩ | heq)
      · exact ⟨r', hr', List.mem_append_left _ hmem⟩
      · exact ⟨r, hr, List.mem_append_right _ (by rw [heq]; exact List.mem_singleton_self _)⟩
    · rintro ⟨r', hr', hmem⟩
      rcases List.mem_append.mp hmem with hmem | hmem
      · exact Or.inl ⟨r', hr', hmem⟩
      · exact Or.inr (Prod.mk.inj (List.mem_singleton.mp hmem)).1

/-! ## The pass -/

/-- What the rest of a pass will find: the members of `read_fds` at or behind `i` are the
listener and connections accepted before the pass. -/
def PassOk (s : State) (i : Nat) : Prop :=
  ∀ j, i ≤ j → j ∈ s.readFds → j = s.listener ∨ ∃ c, s.conn j = some c ∧ c < s.passStart

structure Inv (s : State) : Prop where
  conns : Conns s
  pass : ∀ i, s.pc = .scan i → PassOk s i

theorem handle_inv {s t : State} {i : Nat} {accept : Option Nat} {recv : Int} (h : Conns s)
    (hpass : PassOk s i) (ht : handle s i accept recv = some t) :
    Conns t ∧ PassOk t (i + 1) := by
  have hrest : PassOk s (i + 1) := fun j hj => hpass j (by omega)
  rw [handle] at ht
  split at ht
  case isFalse => exact Option.some.inj ht ▸ ⟨h, hrest⟩
  case isTrue hi =>
    by_cases hlistener : i = s.listener
    · rw [if_pos hlistener] at ht
      cases accept with
      | none => exact Option.some.inj ht ▸ ⟨h, hrest⟩
      | some n =>
        rw [acceptConn] at ht
        split at ht
        · exact absurd ht (by simp)
        · next hn =>
          obtain rfl := Option.some.inj ht
          refine ⟨h.accept hn, fun j hj hmem => ?_⟩
          -- A member that is still to come is open, so the kernel did not return its number.
          rcases hrest j hj hmem with heq | ⟨c, hc, hlt⟩
          · exact Or.inl heq
          · have hjn : j ≠ n := fun heq => by
              rw [heq, (h.not_open hn).2.2] at hc
              exact absurd hc (by simp)
            exact Or.inr ⟨c, (setConn_conn_of_ne _ hjn _).trans hc, hlt⟩
    · rw [if_neg hlistener] at ht
      obtain rfl := Option.some.inj ht
      obtain ⟨c, hc, -⟩ := (hpass i (le_refl i) hi).resolve_left hlistener
      rw [recvConn]
      split
      · next hr =>
        refine ⟨h.close hc hr, fun j hj hmem => ?_⟩
        rcases hrest j hj hmem with heq | ⟨d, hd, hlt⟩
        · exact Or.inl heq
        · exact Or.inr ⟨d, (setConn_conn_of_ne _ (by omega) _).trans hd, hlt⟩
      · next hr => exact ⟨h.received _ hr, hrest⟩

theorem Conns.of_pass {s : State} (h : Conns s) (readFds : Finset Nat) (passStart : Nat)
    (pc : Pc) : Conns { s with readFds := readFds, passStart := passStart, pc := pc } :=
  ⟨h.master, h.listener, h.bound, h.openFds, h.accepted, h.single, h.closed, h.live, h.nodup,
    h.recvs⟩

theorem Conns.of_openFds {s : State} (h : Conns s) {openFds : Finset Nat}
    (hopen : ∀ i ∈ s.master, i ∈ openFds) : Conns { s with openFds := openFds } :=
  ⟨h.master, h.listener, h.bound, hopen, h.accepted, h.single, h.closed, h.live, h.nodup,
    h.recvs⟩

/-- `select` reports members of `master` only, and all connections are older than the pass. -/
theorem Conns.passOk {s : State} (h : Conns s) (ready : Finset Nat) :
    PassOk { s with
      readFds := s.master.filter fun i => i ≤ s.fdMax ∧ i ∈ ready
      passStart := s.accepted
      pc := .scan 0 } 0 := by
  intro j _ hj
  rcases (h.master j).mp (Finset.mem_filter.mp hj).1 with heq | ⟨c, hc⟩
  · exact Or.inl heq
  · exact Or.inr ⟨c, hc, h.accepted j c hc⟩

theorem next_inv {s t : State} {e : Event} (h : Inv s) (hstep : next s e = some t) : Inv t := by
  unfold next at hstep
  cases e with
  | select ready =>
    dsimp only at hstep
    split at hstep
    · exact Option.some.inj hstep ▸
        ⟨h.conns.of_pass s.readFds s.passStart .exit, fun i hi => absurd hi (by simp)⟩
    · obtain rfl := Option.some.inj hstep
      refine ⟨h.conns.of_pass _ _ _, fun i hi => ?_⟩
      obtain rfl := Pc.scan.inj hi
      exact h.conns.passOk _
    · exact absurd hstep (by simp)
  | turn accept recv =>
    dsimp only at hstep
    split at hstep
    · next i hpc =>
      split at hstep
      · obtain ⟨u, hu, rfl⟩ := Option.map_eq_some_iff.mp hstep
        obtain ⟨hconns, hpass⟩ := handle_inv h.conns (h.pass i hpc) hu
        refine ⟨hconns.of_pass u.readFds u.passStart _, fun j hj => ?_⟩
        obtain rfl := Pc.scan.inj hj
        exact hpass
      · exact Option.some.inj hstep ▸
          ⟨h.conns.of_pass s.readFds s.passStart .head, fun i hi => absurd hi (by simp)⟩
    · exact absurd hstep (by simp)
  | openFd n =>
    dsimp only at hstep
    split at hstep
    · exact absurd hstep (by simp)
    · exact Option.some.inj hstep ▸ ⟨h.conns.of_openFds fun i hi =>
        Finset.mem_insert_of_mem (h.conns.openFds i hi), h.pass⟩
  | closeFd n =>
    dsimp only at hstep
    split at hstep
    · exact absurd hstep (by simp)
    · next hn =>
      exact Option.some.inj hstep ▸ ⟨h.conns.of_openFds fun i hi =>
        Finset.mem_erase.mpr ⟨fun heq => hn (heq ▸ hi), h.conns.openFds i hi⟩, h.pass⟩

theorem handle_listener {s t : State} {i : Nat} {accept : Option Nat} {recv : Int}
    (ht : handle s i accept recv = some t) : t.listener = s.listener := by
  rw [handle] at ht
  split at ht
  case isFalse => exact Option.some.inj ht ▸ rfl
  case isTrue =>
    split at ht
    · cases accept with
      | none => exact Option.some.inj ht ▸ rfl
      | some n =>
        rw [acceptConn] at ht
        split at ht
        · exact absurd ht (by simp)
        · exact Option.some.inj ht ▸ rfl
    · obtain rfl := Option.some.inj ht
      rw [recvConn]
      split <;> rfl

theorem next_listener {s t : State} {e : Event} (hstep : next s e = some t) :
    t.listener = s.listener := by
  unfold next at hstep
  cases e with
  | select ready =>
    dsimp only at hstep
    split at hstep
    · exact Option.some.inj hstep ▸ rfl
    · exact Option.some.inj hstep ▸ rfl
    · exact absurd hstep (by simp)
  | turn accept recv =>
    dsimp only at hstep
    split at hstep
    · split at hstep
      · obtain ⟨u, hu, rfl⟩ := Option.map_eq_some_iff.mp hstep
        show u.listener = s.listener
        exact handle_listener hu
      · exact Option.some.inj hstep ▸ rfl
    · exact absurd hstep (by simp)
  | openFd n =>
    dsimp only at hstep
    split at hstep
    · exact absurd hstep (by simp)
    · exact Option.some.inj hstep ▸ rfl
  | closeFd n =>
    dsimp only at hstep
    split at hstep
    · exact absurd hstep (by simp)
    · exact Option.some.inj hstep ▸ rfl

/-- The descriptor that the next turn of the inner loop calls `recv` on. -/
def RecvAt (s : State) (i : Nat) : Prop :=
  s.pc = .scan i ∧ i ≤ s.fdMax ∧ i ∈ s.readFds ∧ i ≠ s.listener

theorem inv_of_run {listener : Nat} {others : Finset Nat} {es : List Event} {s : State}
    (hrun : run next (start listener others) es = some s) : Inv s ∧ s.listener = listener :=
  run_preserves (I := fun s => Inv s ∧ s.listener = listener)
    (fun _ _ _ h hstep => ⟨next_inv h.1 hstep, (next_listener hstep).trans h.2⟩)
    ⟨⟨start_conns listener others, fun i hi => absurd hi (by simp [start])⟩, rfl⟩ hrun

/-- In every state of every run: `master` is the listener and the connections that were
accepted and not closed, all of them up to `fd_max`; a `recv` is made on an open descriptor
whose connection is older than the pass; and a connection was closed, once, exactly when a
`recv` on it returned no data. -/
theorem connectionSet_of_run {listener : Nat} {others : Finset Nat} {es : List Event}
    {s : State} (hrun : run next (start listener others) es = some s) :
    (∀ i, i ∈ s.master ↔ i = listener ∨ ∃ c < s.accepted, some c ∉ s.closed ∧ s.conn i = some c) ∧
    (∀ c < s.accepted, some c ∉ s.closed → ∃ i ∈ s.master, s.conn i = some c) ∧
    (∀ i ∈ s.master, i ≤ s.fdMax) ∧
    (∀ i, RecvAt s i → i ∈ s.openFds ∧ ∃ c < s.passStart, some c ∉ s.closed ∧ s.conn i = some c) ∧
    s.closed.Nodup ∧
    (∀ x ∈ s.closed, ∃ c < s.accepted, x = some c ∧ ∃ r ≤ 0, (some c, r) ∈ s.recvs) ∧
    (∀ c, (∃ r ≤ 0, (some c, r) ∈ s.recvs) → some c ∈ s.closed) := by
  obtain ⟨⟨h, hpass⟩, rfl⟩ := inv_of_run hrun
  have hlive : ∀ i c, s.conn i = some c → c < s.accepted ∧ some c ∉ s.closed := by
    intro i c hc
    exact ⟨h.accepted i c hc, (h.live c (h.accepted i c hc)).mpr ⟨i, hc⟩⟩
  refine ⟨fun i => ?_, fun c hc hopen => ?_, h.bound, fun i hi => ?_, h.nodup, fun x hx => ?_,
    fun c => (h.recvs c).mpr⟩
  · rw [h.master i]
    refine or_congr Iff.rfl ⟨?_, ?_⟩
    · rintro ⟨c, hc⟩
      exact ⟨c, (hlive i c hc).1, (hlive i c hc).2, hc⟩
    · rintro ⟨c, -, -, hc⟩
      exact ⟨c, hc⟩
  · obtain ⟨i, hi⟩ := (h.live c hc).mp hopen
    exact ⟨i, (h.master i).mpr (Or.inr ⟨c, hi⟩), hi⟩
  · obtain ⟨hpc, -, hmem, hne⟩ := hi
    obtain ⟨c, hc, hlt⟩ := (hpass i hpc i (le_refl i) hmem).resolve_left hne
    exact ⟨h.openFds i ((h.master i).mpr (Or.inr ⟨c, hc⟩)), c, hlt, (hlive i c hc).2, hc⟩
  · obtain ⟨c, rfl, hc⟩ := h.closed x hx
    exact ⟨c, hc, rfl, (h.recvs c).mp hx⟩

/-- One client connects, is read from in the next pass, and leaves. -/
theorem connectionSet_of_run_one :
    ∃ s, run next (start 1 ∅) ([.select (some {1}), .turn none 1, .turn (some 0) 1, .turn none 1,
        .select (some {0}), .turn none 0, .turn none 0, .turn none 0]) = some s ∧
      s.pc = .head ∧ s.closed = [some 0] ∧ s.closed.Nodup := by
  have hrun : ∃ s, run next (start 1 ∅) ([.select (some {1}), .turn none 1, .turn (some 0) 1,
        .turn none 1, .select (some {0}), .turn none 0, .turn none 0, .turn none 0]) = some s ∧
      s.pc = .head ∧ s.closed = [some 0] := ⟨_, rfl, rfl, rfl⟩
  obtain ⟨s, hs, hpc, hclosed⟩ := hrun
  exact ⟨s, hs, hpc, hclosed, (connectionSet_of_run hs).2.2.2.2.1⟩

end Select
end Gateway
end LinuxPrograming
