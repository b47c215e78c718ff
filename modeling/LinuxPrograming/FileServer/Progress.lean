import LinuxPrograming.FileServer.Steps
import Mathlib.Algebra.BigOperators.Group.Finset.Piecewise
import Mathlib.Algebra.GroupWithZero.Nat
import Mathlib.Data.Fintype.Basic

/-!
# The steps that are left

Each step uses up a part of `potential`, so every run ends.  It ends only when every client has
left, since a client that waits has a message in its queue or a job that can go on.
-/

namespace LinuxPrograming
namespace FileServer

open Lib

variable {ι : Type} {S : Setting ι} {s t : State ι}

/-! ## What is left to do -/

def Setting.fileSize (S : Setting ι) (path : Bytes) : Nat := ((S.files path).getD []).length

/-- A child has at most so many steps left, and messages it puts into a queue. -/
def Stage.weight (size : Nat) : Stage → Nat
  | .opening => 3 * size + 4
  | .reading rest => 3 * rest.length + 3
  | .sending _ rest => 3 * rest.length + 5
  | .ending => 2
  | .failing => 2

def Child.weight (S : Setting ι) (c : Child) : Nat :=
  c.stage.weight (S.fileSize (cStr c.req.pathname))

def Phase.weight (size : Nat) : Phase → Nat
  | .start => 3 * size + 9
  | .requesting => 3 * size + 7
  | _ => 0

/-- The steps of a client and the messages in its queue, which it removes in the end. -/
def clientWeight (S : Setting ι) (s : State ι) (i : ι) : Nat :=
  (s.client i).phase.weight (S.fileSize (S.path i)) +
    ((s.queue (S.clientId i)).map fun msgs => msgs.length + 1).getD 0

theorem Phase.weight_of_receiving {p : Phase} (h : p.receiving = true) (size : Nat)
    (resp : ResponseMsg) : (p.receive resp).weight size = 0 ∧ p.weight size = 0 := by
  cases p with
  | waiting =>
    refine ⟨?_, rfl⟩
    simp only [receive, test]
    split
    · rfl
    · split
      · rfl
      · rfl
  | loop totBytes numMsgs =>
    refine ⟨?_, rfl⟩
    simp only [receive, test]
    split
    · rfl
    · rfl
  | _ => cases h

theorem Advance.weight_lt {req : RequestMsg} {stage stage' : Stage}
    (h : Advance S req stage stage') :
    stage'.weight (S.fileSize (cStr req.pathname)) <
      stage.weight (S.fileSize (cStr req.pathname)) := by
  cases h with
  | openFile =>
    rw [Setting.openStage, Setting.fileSize]
    cases S.files (cStr req.pathname) with
    | some file => simp [Stage.weight]
    | none => simp [Stage.weight]
  | read rest count _ hread =>
    rw [readStage] at hread
    split at hread
    · split at hread
      · obtain rfl := Option.some.inj hread
        simp only [Stage.weight]
        omega
      · cases hread
    · split at hread
      · obtain rfl := Option.some.inj hread
        simp only [Stage.weight, List.length_drop]
        omega
      · cases hread

theorem Stage.post_weight {stage : Stage} {resp : ResponseMsg} {stage' : Option Stage}
    (h : stage.post = some (resp, stage')) (size : Nat) :
    (stage'.map (·.weight size)).getD 0 + 2 ≤ stage.weight size := by
  cases stage with
  | opening => cases h
  | reading rest => cases h
  | sending data rest =>
    obtain ⟨-, rfl⟩ := Prod.mk.inj (Option.some.inj h)
    exact Nat.le_refl _
  | ending =>
    obtain ⟨-, rfl⟩ := Prod.mk.inj (Option.some.inj h)
    exact Nat.le_refl _
  | failing =>
    obtain ⟨-, rfl⟩ := Prod.mk.inj (Option.some.inj h)
    exact Nat.le_refl _

def jobsWeight (S : Setting ι) (js : List Child) : Nat := (js.map (Child.weight S)).sum

theorem jobsWeight_append (x y : List Child) :
    jobsWeight S (x ++ y) = jobsWeight S x + jobsWeight S y := by
  rw [jobsWeight, List.map_append, List.sum_append]
  rfl

theorem jobsWeight_after {req : RequestMsg} {stage : Option Stage} :
    jobsWeight S (after req stage) =
      (stage.map (·.weight (S.fileSize (cStr req.pathname)))).getD 0 := by
  cases stage with
  | none => rfl
  | some stage => simp [jobsWeight, after, Child.weight]

/-! ## The session of the step -/

/-- A step of the session of `i`, which uses up some of what is left to do there. -/
structure Works (S : Setting ι) (s t : State ι) (i : ι) (x y : List Child) : Prop extends
    Local S s t i x y where
  session : ∀ u v, Session S i (s.client i) (s.queue (S.clientId i)) (u ++ (x ++ v)) →
    Session S i (t.client i) (t.queue (S.clientId i)) (u ++ (y ++ v))
  weight : clientWeight S t i + jobsWeight S y + t.backlog <
    clientWeight S s i + jobsWeight S x + s.backlog

section

variable {i : ι}

theorem clientId_ne {j : ι} (hj : j ≠ i) : S.clientId j ≠ S.clientId i :=
  fun heq => hj (S.injective heq)

theorem works_exit {msgs : List ResponseMsg} (hphase : (s.client i).phase.finished = true)
    (hsome : s.queue (S.clientId i) = some msgs)
    (hqueue : t.queue = Function.update s.queue (S.clientId i) none)
    (hclient : t.client = s.client) (hjobs : t.jobs = s.jobs) (hbacklog : t.backlog = s.backlog) :
    Works S s t i [] [] where
  jobs := ⟨s.jobs, [], by simp, by simp [hjobs]⟩
  mine c hc := by cases hc
  client j hj := by rw [hclient]
  queue j hj := by rw [hqueue, Function.update_of_ne (clientId_ne hj)]
  session u v hsession := by
    rw [hsome] at hsession
    rw [hclient, hqueue, Function.update_self]
    exact hsession.exit hphase
  weight := by
    rw [clientWeight, clientWeight, hclient, hqueue, Function.update_self, hbacklog, hsome]
    simp only [Option.map_some, Option.getD_some, Option.map_none, Option.getD_none]
    omega

theorem works_advance {a b : List Child} {req : RequestMsg} {stage stage' : Stage}
    (hreq : req.clientId = S.clientId i) (hstage : Advance S req stage stage')
    (hqueue : t.queue = s.queue) (hclient : t.client = s.client)
    (hjobs : s.jobs = a ++ ⟨req, stage⟩ :: b) (hjobs' : t.jobs = a ++ ⟨req, stage'⟩ :: b)
    (hbacklog : t.backlog = s.backlog) :
    Works S s t i [⟨req, stage⟩] [⟨req, stage'⟩] where
  jobs := ⟨a, b, hjobs, hjobs'⟩
  mine c hc := by
    rcases List.mem_append.mp hc with hc | hc
    · rw [List.mem_singleton.mp hc]
      exact hreq
    · rw [List.mem_singleton.mp hc]
      exact hreq
  client j hj := by rw [hclient]
  queue j hj := by rw [hqueue]
  session u v hsession := by
    obtain ⟨rfl, rfl⟩ := hsession.single
    rw [hclient, hqueue]
    exact hsession.advance hstage
  weight := by
    have hlt := hstage.weight_lt
    rw [clientWeight, clientWeight, hclient, hqueue, hbacklog]
    simp only [jobsWeight, List.map_singleton, List.sum_singleton, Child.weight]
    omega

theorem works_post {a b : List Child} {req : RequestMsg} {stage : Stage} {resp : ResponseMsg}
    {stage' : Option Stage} {msgs : List ResponseMsg} (hreq : req.clientId = S.clientId i)
    (hpost : stage.post = some (resp, stage')) (hsome : s.queue req.clientId = some msgs)
    (hqueue : t.queue = Function.update s.queue req.clientId (some (msgs ++ [resp])))
    (hclient : t.client = s.client) (hjobs : s.jobs = a ++ ⟨req, stage⟩ :: b)
    (hjobs' : t.jobs = a ++ (after req stage' ++ b)) (hbacklog : t.backlog = s.backlog) :
    Works S s t i [⟨req, stage⟩] (after req stage') where
  jobs := ⟨a, b, hjobs, hjobs'⟩
  mine c hc := by
    rcases List.mem_append.mp hc with hc | hc
    · rw [List.mem_singleton.mp hc]
      exact hreq
    · obtain ⟨st, -, rfl⟩ := List.mem_map.mp hc
      exact hreq
  client j hj := by rw [hclient]
  queue j hj := by rw [hqueue, hreq, Function.update_of_ne (clientId_ne hj)]
  session u v hsession := by
    obtain ⟨rfl, rfl⟩ := hsession.single
    rw [hreq] at hsome
    rw [hsome] at hsession
    rw [hclient, hqueue, hreq, Function.update_self, List.append_nil]
    exact hsession.post hpost
  weight := by
    have hlt := Stage.post_weight hpost (S.fileSize (cStr req.pathname))
    rw [hreq] at hsome
    rw [clientWeight, clientWeight, hclient, hqueue, hreq, Function.update_self, hsome, hbacklog,
      jobsWeight_after]
    simp only [jobsWeight, List.map_singleton, List.sum_singleton, Child.weight,
      Option.map_some, Option.getD_some, List.length_append, List.length_singleton]
    omega

variable [DecidableEq ι]

theorem works_create (hphase : (s.client i).phase = .start)
    (hqueue : t.queue = Function.update s.queue (S.clientId i) (some []))
    (hclient : t.client = Function.update s.client i { s.client i with phase := .requesting })
    (hjobs : t.jobs = s.jobs) (hbacklog : t.backlog = s.backlog) : Works S s t i [] [] where
  jobs := ⟨s.jobs, [], by simp, by simp [hjobs]⟩
  mine c hc := by cases hc
  client j hj := by rw [hclient, Function.update_of_ne hj]
  queue j hj := by rw [hqueue, Function.update_of_ne (clientId_ne hj)]
  session u v hsession := by
    rw [hclient, hqueue, Function.update_self, Function.update_self]
    exact hsession.create hphase
  weight := by
    rw [clientWeight, clientWeight, hclient, hqueue, Function.update_self,
      Function.update_self, hphase, hbacklog]
    simp only [Phase.weight, Option.map_some, Option.getD_some, List.length_nil]
    omega

theorem works_request (hphase : (s.client i).phase = .requesting) (hqueue : t.queue = s.queue)
    (hclient : t.client = Function.update s.client i { s.client i with phase := .waiting })
    (hjobs : t.jobs = s.jobs ++ [⟨S.request i, .opening⟩])
    (hbacklog : t.backlog = s.backlog + 2) :
    Works S s t i [] [⟨S.request i, .opening⟩] where
  jobs := ⟨s.jobs, [], by simp, hjobs⟩
  mine c hc := by
    rw [List.nil_append, List.mem_singleton] at hc
    rw [hc]
    rfl
  client j hj := by rw [hclient, Function.update_of_ne hj]
  queue j hj := by rw [hqueue]
  session u v hsession := by
    obtain ⟨hnil, hnext⟩ := hsession.request hphase
    obtain ⟨rfl, hv⟩ := List.append_eq_nil_iff.mp hnil
    obtain ⟨-, rfl⟩ := List.append_eq_nil_iff.mp hv
    rw [hclient, hqueue, Function.update_self]
    exact hnext
  weight := by
    have hpath : cStr (S.request i).pathname = S.path i :=
      cStr_pathnameField (S.plain i).1 (S.plain i).2
    rw [clientWeight, clientWeight, hclient, hqueue, Function.update_self, hphase, hbacklog]
    simp only [jobsWeight, List.map_singleton, List.sum_singleton, List.map_nil, List.sum_nil,
      Child.weight, hpath, Phase.weight, Stage.weight]
    omega

theorem works_deliver {resp : ResponseMsg} {msgs : List ResponseMsg}
    (hphase : (s.client i).phase.receiving = true)
    (hsome : s.queue (S.clientId i) = some (resp :: msgs))
    (hqueue : t.queue = Function.update s.queue (S.clientId i) (some msgs))
    (hclient : t.client = Function.update s.client i ((s.client i).receive resp))
    (hjobs : t.jobs = s.jobs) (hbacklog : t.backlog = s.backlog) : Works S s t i [] [] where
  jobs := ⟨s.jobs, [], by simp, by simp [hjobs]⟩
  mine c hc := by cases hc
  client j hj := by rw [hclient, Function.update_of_ne hj]
  queue j hj := by rw [hqueue, Function.update_of_ne (clientId_ne hj)]
  session u v hsession := by
    rw [hsome] at hsession
    rw [hclient, hqueue, Function.update_self, Function.update_self]
    exact hsession.deliver
  weight := by
    obtain ⟨hafter, hbefore⟩ :=
      Phase.weight_of_receiving hphase (S.fileSize (S.path i)) resp
    rw [clientWeight, clientWeight, hclient, hqueue, Function.update_self,
      Function.update_self, hbacklog, hsome, Client.receive, hafter, hbefore]
    simp only [Option.map_some, Option.getD_some, List.length_cons]
    omega

/-- A step moves a request on, or it is one of a session. -/
theorem Effect.works (h : Effect S s t) (hs : Inv S s) :
    (t.queue = s.queue ∧ t.client = s.client ∧ t.jobs = s.jobs ∧ t.backlog < s.backlog) ∨
      ∃ i x y, Works S s t i x y := by
  cases h with
  | create i hphase hqueue hclient hjobs hbacklog =>
    exact .inr ⟨i, _, _, works_create hphase hqueue hclient hjobs hbacklog⟩
  | request i hphase hqueue hclient hjobs hbacklog =>
    exact .inr ⟨i, _, _, works_request hphase hqueue hclient hjobs hbacklog⟩
  | deliver i resp msgs hphase hsome hqueue hclient hjobs hbacklog =>
    exact .inr ⟨i, _, _, works_deliver hphase hsome hqueue hclient hjobs hbacklog⟩
  | exit i msgs hphase hsome hqueue hclient hjobs hbacklog =>
    exact .inr ⟨i, _, _, works_exit hphase hsome hqueue hclient hjobs hbacklog⟩
  | pass hqueue hclient hjobs hbacklog => exact .inl ⟨hqueue, hclient, hjobs, hbacklog⟩
  | advance a b req stage stage' hstage hqueue hclient hjobs hjobs' hbacklog =>
    obtain ⟨i, hreq⟩ := hs.owned ⟨req, stage⟩ (by simp [hjobs])
    exact .inr ⟨i, _, _, works_advance hreq hstage hqueue hclient hjobs hjobs' hbacklog⟩
  | post a b req stage resp stage' msgs hpost hsome hqueue hclient hjobs hjobs' hbacklog =>
    obtain ⟨i, hreq⟩ := hs.owned ⟨req, stage⟩ (by simp [hjobs])
    exact .inr ⟨i, _, _, works_post hreq hpost hsome hqueue hclient hjobs hjobs' hbacklog⟩

/-- The step lemma. -/
theorem Inv.next {e : Event ι} (hs : Inv S s) (h : next S s e = some t) : Inv S t := by
  rcases (next_effect h).works hs with ⟨hqueue, hclient, hjobs, -⟩ | ⟨i, x, y, hworks⟩
  · refine ⟨fun c hc => hs.owned c (hjobs ▸ hc), fun i => ?_⟩
    rw [State.mine, hqueue, hclient, hjobs]
    exact hs.session i
  · exact hworks.toLocal.inv hs hworks.session

/-- The run lemma. -/
theorem inv_of_run {es : List (Event ι)} (h : run (FileServer.next S) (init ι) es = some s) :
    Inv S s :=
  run_preserves (fun _ _ _ hs hstep => hs.next hstep) (inv_init S) h

end

/-! ## Every run ends -/

section

variable [Fintype ι]

/-- All that is left to do. -/
def potential (S : Setting ι) (s : State ι) : Nat :=
  ∑ i, clientWeight S s i + jobsWeight S s.jobs + s.backlog

theorem Works.potential_lt [DecidableEq ι] {i : ι} {x y : List Child} (h : Works S s t i x y) :
    potential S t < potential S s := by
  obtain ⟨a, b, hs, ht⟩ := h.jobs
  have hrest : ∑ j ∈ Finset.univ.erase i, clientWeight S t j =
      ∑ j ∈ Finset.univ.erase i, clientWeight S s j := by
    refine Finset.sum_congr rfl fun j hj => ?_
    have hne := Finset.ne_of_mem_erase hj
    rw [clientWeight, clientWeight, h.client j hne, h.queue j hne]
  have hweight := h.weight
  rw [potential, potential, hs, ht, jobsWeight_append, jobsWeight_append, jobsWeight_append,
    jobsWeight_append, ← Finset.add_sum_erase _ _ (Finset.mem_univ i), hrest,
    ← Finset.add_sum_erase _ (clientWeight S s) (Finset.mem_univ i)]
  omega

theorem potential_next [DecidableEq ι] {e : Event ι} (hs : Inv S s) (h : next S s e = some t) :
    potential S t < potential S s := by
  rcases (next_effect h).works hs with ⟨hqueue, hclient, hjobs, hbacklog⟩ | ⟨i, x, y, hworks⟩
  · have hsame : ∀ i, clientWeight S t i = clientWeight S s i := by
      intro i
      rw [clientWeight, clientWeight, hqueue, hclient]
    rw [potential, potential, hjobs]
    simp only [hsame]
    omega
  · exact hworks.potential_lt

theorem run_length_le_potential [DecidableEq ι] {es : List (Event ι)}
    (h : run (next S) (init ι) es = some s) : es.length ≤ potential S (init ι) := by
  have hle := run_length_le (I := Inv S)
    (fun _ _ _ hs hstep => ⟨hs.next hstep, potential_next hs hstep⟩) (inv_init S) h
  omega

end

/-! ## A run that has not ended goes on -/

section

variable [DecidableEq ι] {i : ι}

/-- A child whose client has taken all its messages has a step. -/
theorem child_enabled {k : Nat} {req : RequestMsg} {stage : Stage} {file : Option Bytes}
    {msgs : List ResponseMsg} (hget : s.children[k]? = some ⟨req, stage⟩)
    (hqueue : s.queue req.clientId = some []) (hsent : Sent file msgs stage) :
    ∃ e t, next S s e = some t := by
  have hsend : ∀ resp stage', stage.post = some (resp, stage') →
      resp.data.length ≤ respMsgSize → ∃ t, next S s (.send k) = some t := by
    intro resp stage' hpost hle
    rw [← Option.isSome_iff_exists]
    simp only [next, childSend, hget, hpost, Option.bind_some, msgsnd, hqueue, List.map_nil,
      S.fits_nil _ hle, if_true, Option.map_some, Option.isSome_some]
  cases stage with
  | opening => exact ⟨.openFile k, _, by rw [next, childOpen, hget]⟩
  | reading rest =>
    cases rest with
    | nil => exact ⟨.read k 0, _, by rw [next, childRead, hget]; rfl⟩
    | cons x rest =>
      have hle : 1 ≤ respMsgSize ∧ 1 ≤ (x :: rest).length := ⟨by decide, Nat.succ_pos _⟩
      have hread : readStage (x :: rest) 1 =
          some (.sending ((x :: rest).take 1) ((x :: rest).drop 1)) := by
        rw [readStage, if_neg Nat.one_ne_zero, if_pos hle]
      exact ⟨.read k 1, _, by rw [next, childRead, hget]; simp only [hread, Option.map_some]; rfl⟩
  | sending data rest =>
    exact ⟨.send k, hsend _ _ rfl hsent.2.1⟩
  | ending => exact ⟨.send k, hsend _ _ rfl (Nat.zero_le _)⟩
  | failing => exact ⟨.send k, hsend _ _ rfl (by decide)⟩

theorem receive_enabled {resp : ResponseMsg} {msgs : List ResponseMsg}
    (hphase : (s.client i).phase.receiving = true)
    (hsome : s.queue (S.clientId i) = some (resp :: msgs)) :
    ∃ e t, next S s e = some t :=
  ⟨.receive i, _, by rw [next, clientReceive, if_pos hphase, hsome]⟩

theorem progress (hs : Inv S s) (hi : (s.client i).phase.finished = false) :
    ∃ e t, next S s e = some t := by
  cases hreq : s.req with
  | some req => exact ⟨.fork, _, by rw [next, fork, hreq]⟩
  | none =>
    cases hserver : s.server with
    | cons req server => exact ⟨.serve, _, by rw [next, serve, hreq, hserver]⟩
    | nil =>
      have hjobs : s.jobs = s.children := by simp [State.jobs, hreq, hserver]
      have hsession := hs.session i
      generalize hq : s.queue (S.clientId i) = q at hsession
      generalize hmine : s.mine S i = js at hsession
      cases hsession with
      | start hphase _ => exact ⟨.msgget i, _, by rw [next, clientMsgget, if_pos hphase]⟩
      | requesting hphase _ =>
        have hfits := S.fits_nil reqMsgSize (by decide)
        exact ⟨.request i, _, by
          rw [next, clientRequest, hserver, if_pos ⟨hphase, hfits⟩]⟩
      | served msgs stage hheard hsent =>
        cases msgs with
        | cons resp msgs => exact receive_enabled (hheard.receiving_of_sent hsent) hq
        | nil =>
          have hmem : (⟨S.request i, stage⟩ : Child) ∈ s.children := by
            rw [← hjobs]
            have hin : (⟨S.request i, stage⟩ : Child) ∈ s.mine S i := by simp [hmine]
            exact (List.mem_filter.mp hin).1
          obtain ⟨k, hk⟩ := List.mem_iff_getElem?.mp hmem
          exact child_enabled hk hq hsent
      | ended msgs hheard hwhole =>
        cases msgs with
        | cons resp msgs =>
          exact receive_enabled (hheard.receiving_of_whole hwhole (List.cons_ne_nil _ _)) hq
        | nil =>
          rw [List.append_nil] at hwhole
          exact absurd (hheard.finished_of_whole hwhole) (by rw [hi]; exact Bool.false_ne_true)
      | exited hheard hwhole =>
        exact absurd (hheard.finished_of_whole hwhole) (by rw [hi]; exact Bool.false_ne_true)

end

end FileServer
end LinuxPrograming
