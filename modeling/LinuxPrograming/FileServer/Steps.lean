import LinuxPrograming.FileServer.Session

/-!
# What one step changes

Each step is that of one client, or of the child that serves it.  Where a request waits for its
child makes no difference but to `backlog`.
-/

namespace LinuxPrograming
namespace FileServer

open Lib

variable {ι : Type} {S : Setting ι} {s t : State ι}

/-- How far the requests are from their children. -/
def State.backlog (s : State ι) : Nat := s.req.toList.length + 2 * s.server.length

/-- The change of one step. -/
inductive Effect [DecidableEq ι] (S : Setting ι) (s t : State ι) : Prop where
  | create (i : ι) (hphase : (s.client i).phase = .start)
    (hqueue : t.queue = Function.update s.queue (S.clientId i) (some []))
    (hclient : t.client = Function.update s.client i { s.client i with phase := .requesting })
    (hjobs : t.jobs = s.jobs) (hbacklog : t.backlog = s.backlog)
  | request (i : ι) (hphase : (s.client i).phase = .requesting) (hqueue : t.queue = s.queue)
    (hclient : t.client = Function.update s.client i { s.client i with phase := .waiting })
    (hjobs : t.jobs = s.jobs ++ [⟨S.request i, .opening⟩]) (hbacklog : t.backlog = s.backlog + 2)
  | deliver (i : ι) (resp : ResponseMsg) (msgs : List ResponseMsg)
    (hphase : (s.client i).phase.receiving = true)
    (hsome : s.queue (S.clientId i) = some (resp :: msgs))
    (hqueue : t.queue = Function.update s.queue (S.clientId i) (some msgs))
    (hclient : t.client = Function.update s.client i ((s.client i).receive resp))
    (hjobs : t.jobs = s.jobs) (hbacklog : t.backlog = s.backlog)
  | exit (i : ι) (msgs : List ResponseMsg) (hphase : (s.client i).phase.finished = true)
    (hsome : s.queue (S.clientId i) = some msgs)
    (hqueue : t.queue = Function.update s.queue (S.clientId i) none)
    (hclient : t.client = s.client) (hjobs : t.jobs = s.jobs) (hbacklog : t.backlog = s.backlog)
  | pass (hqueue : t.queue = s.queue) (hclient : t.client = s.client) (hjobs : t.jobs = s.jobs)
    (hbacklog : t.backlog < s.backlog)
  | advance (a b : List Child) (req : RequestMsg) (stage stage' : Stage)
    (hstage : Advance S req stage stage') (hqueue : t.queue = s.queue)
    (hclient : t.client = s.client) (hjobs : s.jobs = a ++ ⟨req, stage⟩ :: b)
    (hjobs' : t.jobs = a ++ ⟨req, stage'⟩ :: b) (hbacklog : t.backlog = s.backlog)
  | post (a b : List Child) (req : RequestMsg) (stage : Stage) (resp : ResponseMsg)
    (stage' : Option Stage) (msgs : List ResponseMsg) (hpost : stage.post = some (resp, stage'))
    (hsome : s.queue req.clientId = some msgs)
    (hqueue : t.queue = Function.update s.queue req.clientId (some (msgs ++ [resp])))
    (hclient : t.client = s.client) (hjobs : s.jobs = a ++ ⟨req, stage⟩ :: b)
    (hjobs' : t.jobs = a ++ (after req stage' ++ b)) (hbacklog : t.backlog = s.backlog)

/-- A child of the server stands in the list of jobs. -/
theorem jobs_split {k : Nat} {c : Child} (h : s.children[k]? = some c) :
    ∃ a b, s.jobs = a ++ c :: b ∧ ∀ (x : List Child) (u : State ι),
      u.req = s.req → u.server = s.server →
      (u.children = s.children.take k ++ (x ++ s.children.drop (k + 1))) →
      u.jobs = a ++ (x ++ b) := by
  obtain ⟨hlt, hget⟩ := List.getElem?_eq_some_iff.mp h
  refine ⟨s.children.take k,
    s.children.drop (k + 1) ++ (s.req.toList ++ s.server).map (⟨·, .opening⟩), ?_, ?_⟩
  · rw [State.jobs, ← List.cons_append, ← List.append_assoc, ← hget,
      ← List.drop_eq_getElem_cons hlt, List.take_append_drop]
  · intro x u hreq hserver hchildren
    rw [State.jobs, hreq, hserver, hchildren]
    simp only [List.append_assoc]

section

variable [DecidableEq ι] {i : ι} {k count : Nat}

theorem clientMsgget_effect (h : clientMsgget S s i = some t) : Effect S s t := by
  rw [clientMsgget] at h
  split at h
  · next hphase =>
    obtain rfl := Option.some.inj h
    exact .create i hphase rfl rfl rfl rfl
  · cases h

theorem clientRequest_effect (h : clientRequest S s i = some t) : Effect S s t := by
  rw [clientRequest] at h
  split at h
  · next hcond =>
    obtain rfl := Option.some.inj h
    refine .request i hcond.1 rfl rfl ?_ ?_
    · simp [State.jobs]
    · simp only [State.backlog, List.length_append, List.length_singleton]
      omega
  · cases h

theorem clientReceive_effect (h : clientReceive S s i = some t) : Effect S s t := by
  rw [clientReceive] at h
  split at h
  · next hphase =>
    split at h
    · next resp msgs hsome =>
      obtain rfl := Option.some.inj h
      exact .deliver i resp msgs hphase hsome rfl rfl rfl rfl
    · cases h
  · cases h

theorem clientExit_effect (h : clientExit S s i = some t) : Effect S s t := by
  rw [clientExit] at h
  split at h
  · next hcond =>
    obtain rfl := Option.some.inj h
    obtain ⟨msgs, hsome⟩ := Option.isSome_iff_exists.mp hcond.2
    exact .exit i msgs hcond.1 hsome rfl rfl rfl rfl
  · cases h

theorem serve_effect (h : serve s = some t) : Effect S s t := by
  rw [serve] at h
  split at h
  · next req server hreq hserver =>
    obtain rfl := Option.some.inj h
    refine .pass rfl rfl ?_ ?_
    · simp [State.jobs, hreq, hserver]
    · simp only [State.backlog, hreq, hserver, Option.toList_none, Option.toList_some,
        List.length_nil, List.length_cons]
      omega
  · cases h

theorem fork_effect (h : fork s = some t) : Effect S s t := by
  rw [fork] at h
  split at h
  · next req hreq =>
    obtain rfl := Option.some.inj h
    refine .pass rfl rfl ?_ ?_
    · simp [State.jobs, hreq]
    · simp [State.backlog, hreq]
  · cases h

theorem childOpen_effect (h : childOpen S s k = some t) : Effect S s t := by
  rw [childOpen] at h
  split at h
  · next req hget =>
    obtain rfl := Option.some.inj h
    obtain ⟨a, b, hjobs, hjobs'⟩ := jobs_split hget
    refine .advance a b req .opening (S.openStage req) .openFile rfl rfl hjobs ?_ rfl
    refine hjobs' [_] _ rfl rfl ?_
    rw [List.set_eq_take_append_cons_drop, if_pos (List.getElem?_eq_some_iff.mp hget).1]
    rfl
  · cases h

theorem childRead_effect (h : childRead s k count = some t) : Effect S s t := by
  rw [childRead] at h
  split at h
  · next req rest hget =>
    obtain ⟨stage, hread, rfl⟩ := Option.map_eq_some_iff.mp h
    obtain ⟨a, b, hjobs, hjobs'⟩ := jobs_split hget
    refine .advance a b req _ stage (.read rest count stage hread) rfl rfl hjobs ?_ rfl
    refine hjobs' [_] _ rfl rfl ?_
    rw [List.set_eq_take_append_cons_drop, if_pos (List.getElem?_eq_some_iff.mp hget).1]
    rfl
  · cases h

theorem childSend_effect (h : childSend S s k = some t) : Effect S s t := by
  rw [childSend] at h
  split at h
  · next c hget =>
    obtain ⟨p, hpost, hsend⟩ := Option.bind_eq_some_iff.mp h
    obtain ⟨queue, hqueue, rfl⟩ := Option.map_eq_some_iff.mp hsend
    obtain ⟨a, b, hjobs, hjobs'⟩ := jobs_split hget
    rw [msgsnd] at hqueue
    split at hqueue
    · cases hqueue
    · next msgs hsome =>
      split at hqueue
      · obtain rfl := Option.some.inj hqueue
        refine .post a b c.req c.stage p.1 p.2 msgs hpost hsome rfl rfl hjobs ?_ rfl
        refine hjobs' _ _ rfl rfl ?_
        cases hnext : p.2 with
        | some stage =>
          simp only
          rw [List.set_eq_take_append_cons_drop, if_pos (List.getElem?_eq_some_iff.mp hget).1]
          rfl
        | none =>
          simp only
          rw [List.eraseIdx_eq_take_drop_succ]
          rfl
      · cases hqueue
  · cases h

theorem next_effect {e : Event ι} (h : next S s e = some t) : Effect S s t := by
  cases e with
  | msgget i => exact clientMsgget_effect h
  | request i => exact clientRequest_effect h
  | receive i => exact clientReceive_effect h
  | exit i => exact clientExit_effect h
  | serve => exact serve_effect h
  | fork => exact fork_effect h
  | openFile k => exact childOpen_effect h
  | read k count => exact childRead_effect h
  | send k => exact childSend_effect h

end

/-! ## A step touches one session -/

/-- Only the session of `i` changes; its jobs `x` become `y`. -/
structure Local (S : Setting ι) (s t : State ι) (i : ι) (x y : List Child) : Prop where
  jobs : ∃ a b, s.jobs = a ++ (x ++ b) ∧ t.jobs = a ++ (y ++ b)
  mine : ∀ c ∈ x ++ y, c.req.clientId = S.clientId i
  client : ∀ j, j ≠ i → t.client j = s.client j
  queue : ∀ j, j ≠ i → t.queue (S.clientId j) = s.queue (S.clientId j)

/-- The jobs with the identifier of `i`. -/
def State.mine (S : Setting ι) (s : State ι) (i : ι) : List Child :=
  s.jobs.filter fun c => c.req.clientId == S.clientId i

/-- Every job is that of a client, and every client is in its session. -/
structure Inv (S : Setting ι) (s : State ι) : Prop where
  owned : ∀ c ∈ s.jobs, ∃ i, c.req.clientId = S.clientId i
  session : ∀ i, Session S i (s.client i) (s.queue (S.clientId i)) (s.mine S i)

theorem inv_init (S : Setting ι) : Inv S (init ι) where
  owned c hc := by cases hc
  session _ := .start rfl rfl

namespace Local

variable {i : ι} {x y : List Child}

theorem mine_ne (h : Local S s t i x y) {j : ι} (hj : j ≠ i) : t.mine S j = s.mine S j := by
  obtain ⟨a, b, hs, ht⟩ := h.jobs
  have hnone : ∀ z : List Child, (∀ c ∈ z, c ∈ x ++ y) →
      z.filter (fun c => c.req.clientId == S.clientId j) = [] := by
    intro z hz
    rw [List.filter_eq_nil_iff]
    intro c hc
    rw [h.mine c (hz c hc), beq_iff_eq]
    exact fun heq => hj (S.injective heq).symm
  rw [State.mine, State.mine, hs, ht]
  simp only [List.filter_append]
  rw [hnone x fun c hc => List.mem_append_left y hc,
    hnone y fun c hc => List.mem_append_right x hc]

theorem inv (h : Local S s t i x y) (hs : Inv S s)
    (hsession : ∀ u v, Session S i (s.client i) (s.queue (S.clientId i)) (u ++ (x ++ v)) →
      Session S i (t.client i) (t.queue (S.clientId i)) (u ++ (y ++ v))) : Inv S t := by
  obtain ⟨a, b, hjobs, hjobs'⟩ := h.jobs
  refine ⟨fun c hc => ?_, fun j => ?_⟩
  · rw [hjobs'] at hc
    rcases List.mem_append.mp hc with hc | hc
    · exact hs.owned c (by rw [hjobs]; exact List.mem_append_left _ hc)
    · rcases List.mem_append.mp hc with hc | hc
      · exact ⟨i, h.mine c (List.mem_append_right x hc)⟩
      · exact hs.owned c (by
          rw [hjobs]
          exact List.mem_append_right a (List.mem_append_right x hc))
  · by_cases hj : j = i
    · subst hj
      have hall : ∀ z : List Child, (∀ c ∈ z, c ∈ x ++ y) →
          z.filter (fun c => c.req.clientId == S.clientId j) = z := by
        intro z hz
        rw [List.filter_eq_self]
        intro c hc
        rw [h.mine c (hz c hc), beq_self_eq_true]
      have hold := hs.session j
      rw [State.mine, hjobs] at hold
      rw [State.mine, hjobs']
      simp only [List.filter_append] at hold ⊢
      rw [hall x fun c hc => List.mem_append_left y hc] at hold
      rw [hall y fun c hc => List.mem_append_right x hc]
      exact hsession _ _ hold
    · rw [h.client j hj, h.queue j hj, h.mine_ne hj]
      exact hs.session j

end Local

end FileServer
end LinuxPrograming
