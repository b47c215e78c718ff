import LinuxPrograming.FileServer.Model
import Mathlib.Data.List.Induction

/-!
# One client and the child that serves it

A request in the queue of the server, or in its hands, is a child that has not started yet.  What
the client has received, followed by what is in its queue, is what this child has sent.
-/

namespace LinuxPrograming
namespace FileServer

open Lib

variable {ι : Type}

/-- The children, and the requests that will become children. -/
def State.jobs (s : State ι) : List Child :=
  s.children ++ (s.req.toList ++ s.server).map (⟨·, .opening⟩)

def dataMsg (chunk : Bytes) : ResponseMsg := ⟨.data, chunk⟩

/-- The parts in which a file is sent. -/
def Chunks (chunks : List Bytes) : Prop := ∀ c ∈ chunks, c ≠ [] ∧ c.length ≤ respMsgSize

/-- What a child has sent of the file when it is at `stage`. -/
def Sent (file : Option Bytes) (msgs : List ResponseMsg) : Stage → Prop
  | .opening => msgs = []
  | .reading rest =>
    ∃ chunks, Chunks chunks ∧ msgs = chunks.map dataMsg ∧ file = some (chunks.flatten ++ rest)
  | .sending data rest =>
    data ≠ [] ∧ data.length ≤ respMsgSize ∧ ∃ chunks, Chunks chunks ∧
      msgs = chunks.map dataMsg ∧ file = some (chunks.flatten ++ (data ++ rest))
  | .ending => ∃ chunks, Chunks chunks ∧ msgs = chunks.map dataMsg ∧ file = some chunks.flatten
  | .failing => msgs = [] ∧ file = none

/-- All that is sent for a request. -/
def Whole (file : Option Bytes) (msgs : List ResponseMsg) : Prop :=
  (∃ chunks, Chunks chunks ∧ msgs = chunks.map dataMsg ++ [⟨.finish, []⟩] ∧
    file = some chunks.flatten) ∨
  msgs = [⟨.failure, couldntOpen⟩] ∧ file = none

/-- The client is where its messages have brought it. -/
def Client.Heard (c : Client) : Prop := c.phase = c.received.foldl Phase.receive .waiting

/-- A client, its queue, and the jobs with its identifier. -/
inductive Session (S : Setting ι) (i : ι) (c : Client) : Option (List ResponseMsg) → List Child →
    Prop where
  | start (hphase : c.phase = .start) (hnone : c.received = []) : Session S i c none []
  | requesting (hphase : c.phase = .requesting) (hnone : c.received = []) :
    Session S i c (some []) []
  | served (msgs : List ResponseMsg) (stage : Stage) (hheard : c.Heard)
    (hsent : Sent (S.files (S.path i)) (c.received ++ msgs) stage) :
    Session S i c (some msgs) [⟨S.request i, stage⟩]
  | ended (msgs : List ResponseMsg) (hheard : c.Heard)
    (hwhole : Whole (S.files (S.path i)) (c.received ++ msgs)) : Session S i c (some msgs) []
  | exited (hheard : c.Heard) (hwhole : Whole (S.files (S.path i)) c.received) :
    Session S i c none []

/-! ## The client behind its messages -/

theorem Client.heard_receive {c : Client} (h : c.Heard) (resp : ResponseMsg) :
    (c.receive resp).Heard := by
  rw [Client.Heard] at h ⊢
  rw [Client.receive, List.foldl_append, ← h]
  rfl

/-- Behind one part of the file or more, the client is in its loop. -/
theorem foldl_dataMsg {chunks : List Bytes} (hne : chunks ≠ []) :
    (chunks.map dataMsg).foldl Phase.receive .waiting =
      .loop chunks.flatten.length (toInt chunks.length) := by
  induction chunks using List.reverseRecOn with
  | nil => exact absurd rfl hne
  | append_singleton chunks c ih =>
    rw [List.map_append, List.foldl_append]
    by_cases hchunks : chunks = []
    · subst hchunks
      have hone : toInt (1 : Nat) = (1 : Nat) := toInt_natCast_eq_iff.mpr (by decide)
      rw [List.nil_append, List.length_singleton, hone, List.flatten_singleton]
      rfl
    · rw [ih hchunks]
      simp only [List.map_singleton, List.foldl_cons, List.foldl_nil, Phase.receive, dataMsg,
        Phase.test, if_true, List.flatten_append, List.flatten_singleton, List.length_append,
        List.length_singleton]
      rw [toInt_toInt_add, Int.natCast_add, Int.natCast_one]

theorem Client.Heard.receiving {c : Client} {chunks : List Bytes} (h : c.Heard)
    (hdata : c.received = chunks.map dataMsg) : c.phase.receiving = true := by
  rw [h, hdata]
  by_cases hchunks : chunks = []
  · subst hchunks
    rfl
  · rw [foldl_dataMsg hchunks]
    rfl

section

variable {file : Option Bytes} {msgs : List ResponseMsg} {c : Client}

/-- Until its last message a child sends parts of the file only. -/
theorem Sent.data {stage : Stage} (h : Sent file msgs stage) :
    ∃ chunks : List Bytes, msgs = chunks.map dataMsg := by
  cases stage with
  | opening => exact ⟨[], h⟩
  | reading rest =>
    obtain ⟨chunks, -, hmsgs, -⟩ := h
    exact ⟨chunks, hmsgs⟩
  | sending data rest =>
    obtain ⟨-, -, chunks, -, hmsgs, -⟩ := h
    exact ⟨chunks, hmsgs⟩
  | ending =>
    obtain ⟨chunks, -, hmsgs, -⟩ := h
    exact ⟨chunks, hmsgs⟩
  | failing => exact ⟨[], h.1⟩

/-- All messages but the last carry parts of the file. -/
theorem Whole.data (h : Whole file msgs) :
    ∃ (chunks : List Bytes) (last : ResponseMsg), msgs = chunks.map dataMsg ++ [last] := by
  rcases h with ⟨chunks, -, hmsgs, -⟩ | ⟨hmsgs, -⟩
  · exact ⟨chunks, _, hmsgs⟩
  · exact ⟨[], _, hmsgs⟩

theorem Client.Heard.receiving_of_sent {stage : Stage} (h : c.Heard)
    (hsent : Sent file (c.received ++ msgs) stage) : c.phase.receiving = true := by
  obtain ⟨chunks, hdata⟩ := hsent.data
  obtain ⟨a, b, -, ha, -⟩ := List.append_eq_map_iff.mp hdata
  exact h.receiving ha.symm

/-- A client with a message left in its queue has not finished. -/
theorem Client.Heard.receiving_of_whole (h : c.Heard) (hwhole : Whole file (c.received ++ msgs))
    (hne : msgs ≠ []) : c.phase.receiving = true := by
  obtain ⟨chunks, last, hdata⟩ := hwhole.data
  rcases List.eq_nil_or_concat msgs with rfl | ⟨front, resp, rfl⟩
  · exact absurd rfl hne
  · rw [List.concat_eq_append, ← List.append_assoc] at hdata
    obtain ⟨hfront, -⟩ := List.append_inj' hdata rfl
    obtain ⟨a, b, -, ha, -⟩ := List.append_eq_map_iff.mp hfront
    exact h.receiving ha.symm

/-- Where a client is that has received everything. -/
theorem Client.Heard.phase_of_whole (h : c.Heard) (hwhole : Whole file c.received) :
    (∃ chunks, Chunks chunks ∧ c.received = chunks.map dataMsg ++ [⟨.finish, []⟩] ∧
      file = some chunks.flatten ∧
      c.phase = .left chunks.flatten.length (toInt (chunks.length + 1 : Nat))) ∨
    c.received = [⟨.failure, couldntOpen⟩] ∧ file = none ∧ c.phase = .failed couldntOpen := by
  rcases hwhole with ⟨chunks, hchunks, hmsgs, hfile⟩ | ⟨hmsgs, hfile⟩
  · refine .inl ⟨chunks, hchunks, hmsgs, hfile, ?_⟩
    rw [h, hmsgs, List.foldl_append]
    by_cases hne : chunks = []
    · subst hne
      rfl
    · rw [foldl_dataMsg hne]
      simp only [List.foldl_cons, List.foldl_nil, Phase.receive]
      rw [toInt_toInt_add, Int.natCast_add, Int.natCast_one]
      rfl
  · refine .inr ⟨hmsgs, hfile, ?_⟩
    rw [h, hmsgs]
    rfl

theorem Client.Heard.finished_of_whole (h : c.Heard) (hwhole : Whole file c.received) :
    c.phase.finished = true := by
  rcases h.phase_of_whole hwhole with ⟨_, -, -, -, hleft⟩ | ⟨-, -, hfailed⟩
  · rw [hleft]
    rfl
  · rw [hfailed]
    rfl

end

/-! ## The steps of a session -/

/-- A step of a child that sends nothing. -/
inductive Advance (S : Setting ι) (req : RequestMsg) : Stage → Stage → Prop where
  | openFile : Advance S req .opening (S.openStage req)
  | read (rest : Bytes) (count : Nat) (stage : Stage) (h : readStage rest count = some stage) :
    Advance S req (.reading rest) stage

/-- The jobs in which one stage has been replaced. -/
def after (req : RequestMsg) (stage : Option Stage) : List Child :=
  stage.toList.map fun st => ⟨req, st⟩

section

variable {S : Setting ι} {i : ι} {c : Client} {q : Option (List ResponseMsg)} {js : List Child}

theorem cStr_pathnameField {path : Bytes} (hplain : 0 ∉ path) (hlen : path.length < pathMax) :
    cStr (pathnameField path) = path := by
  have hfield : pathnameField path =
      path ++ 0 :: List.replicate (pathMax - 1 - path.length) 0 := by
    have hfull : (path ++ List.replicate (pathMax - 1 - path.length) (0 : UInt8)).length =
        pathMax - 1 := by
      rw [List.length_append, List.length_replicate]
      omega
    rw [pathnameField, List.take_of_length_le (Nat.le_of_eq hfull), List.append_assoc,
      ← List.replicate_succ', List.replicate_succ]
  rw [hfield, cStr_append hplain, cStr_cons, if_pos rfl, List.append_nil]

/-- The child opens the file that its client asked for. -/
theorem Setting.openStage_request (S : Setting ι) (i : ι) :
    S.openStage (S.request i) = (S.files (S.path i)).elim .failing .reading := by
  rw [openStage, request, cStr_pathnameField (S.plain i).1 (S.plain i).2]
  cases S.files (S.path i) with
  | some file => rfl
  | none => rfl

theorem Client.Heard.started (h : c.Heard) :
    c.phase.receiving = true ∨ c.phase.finished = true := by
  rw [h]
  induction c.received using List.reverseRecOn with
  | nil => exact .inl rfl
  | append_singleton msgs resp ih =>
    rw [List.foldl_append, List.foldl_cons, List.foldl_nil]
    generalize msgs.foldl Phase.receive .waiting = p at ih ⊢
    cases p with
    | start => simp [Phase.receiving, Phase.finished] at ih
    | requesting => simp [Phase.receiving, Phase.finished] at ih
    | waiting =>
      simp only [Phase.receive, Phase.test]
      split
      · exact .inr rfl
      · split
        · exact .inl rfl
        · exact .inr rfl
    | loop totBytes numMsgs =>
      simp only [Phase.receive, Phase.test]
      split
      · exact .inl rfl
      · exact .inr rfl
    | left totBytes numMsgs => exact .inr rfl
    | failed text => exact .inr rfl

/-- Before its request a client has not heard anything. -/
theorem Client.not_heard (hphase : c.phase = .start ∨ c.phase = .requesting) : ¬ c.Heard := by
  intro hheard
  have hstarted := hheard.started
  rcases hphase with hphase | hphase
  · rw [hphase] at hstarted
    simp [Phase.receiving, Phase.finished] at hstarted
  · rw [hphase] at hstarted
    simp [Phase.receiving, Phase.finished] at hstarted

theorem Phase.not_receiving {p : Phase} (h : p.finished = true) : ¬ p.receiving = true := by
  cases p with
  | left totBytes numMsgs => exact Bool.false_ne_true
  | failed text => exact Bool.false_ne_true
  | _ => cases h

/-- A client that has finished has received everything. -/
theorem Client.Heard.whole_of_finished {file : Option Bytes} {msgs : List ResponseMsg}
    (h : c.Heard) (hwhole : Whole file (c.received ++ msgs)) (hphase : c.phase.finished = true) :
    Whole file c.received := by
  have hnil : msgs = [] := by
    by_contra hne
    exact Phase.not_receiving hphase (h.receiving_of_whole hwhole hne)
  rwa [hnil, List.append_nil] at hwhole

/-- A client has one job at most. -/
theorem Session.single {x y : List Child} {k : Child} (h : Session S i c q (x ++ k :: y)) :
    x = [] ∧ y = [] := by
  generalize hjs : x ++ k :: y = js at h
  have hlen : js.length ≤ 1 := by
    cases h with
    | served => exact Nat.le_refl 1
    | _ => exact Nat.zero_le 1
  rw [← hjs, List.length_append, List.length_cons] at hlen
  exact ⟨List.eq_nil_of_length_eq_zero (by omega), List.eq_nil_of_length_eq_zero (by omega)⟩

theorem Session.create (h : Session S i c q js) (hphase : c.phase = .start) :
    Session S i { c with phase := .requesting } (some []) js := by
  have hnot := Client.not_heard (.inl hphase)
  cases h with
  | start _ hnone => exact .requesting rfl hnone
  | requesting hphase' _ => cases hphase.symm.trans hphase'
  | served _ _ hheard _ => exact absurd hheard hnot
  | ended _ hheard _ => exact absurd hheard hnot
  | exited hheard _ => exact absurd hheard hnot

theorem Session.request (h : Session S i c q js) (hphase : c.phase = .requesting) :
    js = [] ∧ Session S i { c with phase := .waiting } q [⟨S.request i, .opening⟩] := by
  have hnot := Client.not_heard (.inr hphase)
  cases h with
  | start hphase' _ => cases hphase.symm.trans hphase'
  | requesting _ hnone =>
    refine ⟨rfl, .served [] .opening ?_ ?_⟩
    · rw [Client.Heard, hnone]
      rfl
    · rw [hnone]
      rfl
  | served _ _ hheard _ => exact absurd hheard hnot
  | ended _ hheard _ => exact absurd hheard hnot
  | exited hheard _ => exact absurd hheard hnot

theorem Session.deliver {resp : ResponseMsg} {msgs : List ResponseMsg}
    (h : Session S i c (some (resp :: msgs)) js) : Session S i (c.receive resp) (some msgs) js := by
  have happend : (c.receive resp).received ++ msgs = c.received ++ resp :: msgs := by
    rw [Client.receive, List.append_assoc]
    rfl
  cases h with
  | served _ stage hheard hsent =>
    exact .served msgs stage (Client.heard_receive hheard resp) (happend ▸ hsent)
  | ended _ hheard hwhole =>
    exact .ended msgs (Client.heard_receive hheard resp) (happend ▸ hwhole)

theorem Session.exit {msgs : List ResponseMsg} (h : Session S i c (some msgs) js)
    (hphase : c.phase.finished = true) : Session S i c none js := by
  cases h with
  | requesting hphase' _ =>
    rw [hphase'] at hphase
    cases hphase
  | served _ stage hheard hsent =>
    exact absurd (hheard.receiving_of_sent hsent) (Phase.not_receiving hphase)
  | ended _ hheard hwhole => exact .exited hheard (hheard.whole_of_finished hwhole hphase)

theorem Sent.advance {file : Option Bytes} {msgs : List ResponseMsg} {rest : Bytes}
    {count : Nat} {stage : Stage} (h : Sent file msgs (.reading rest))
    (hread : readStage rest count = some stage) : Sent file msgs stage := by
  obtain ⟨chunks, hchunks, hmsgs, hfile⟩ := h
  rw [readStage] at hread
  split at hread
  · split at hread
    · next hnil =>
      obtain rfl := Option.some.inj hread
      rw [hnil, List.append_nil] at hfile
      exact ⟨chunks, hchunks, hmsgs, hfile⟩
    · cases hread
  · next hpos =>
    split at hread
    · next hle =>
      obtain rfl := Option.some.inj hread
      have hlen : (rest.take count).length = count := List.length_take_of_le hle.2
      refine ⟨fun hnil => ?_, hlen.symm ▸ hle.1, chunks, hchunks, hmsgs, ?_⟩
      · rw [hnil] at hlen
        exact hpos hlen.symm
      · rw [List.take_append_drop]
        exact hfile
    · cases hread

theorem Session.advance {req : RequestMsg} {stage stage' : Stage}
    (h : Session S i c q [⟨req, stage⟩]) (hstage : Advance S req stage stage') :
    Session S i c q [⟨req, stage'⟩] := by
  cases h with
  | served msgs _ hheard hsent =>
    refine .served msgs stage' hheard ?_
    cases hstage with
    | openFile =>
      rw [S.openStage_request i]
      cases hfile : S.files (S.path i) with
      | some file => exact ⟨[], fun _ h => absurd h List.not_mem_nil, hsent, rfl⟩
      | none => exact ⟨hsent, rfl⟩
    | read rest count _ hread => exact hsent.advance hread

theorem Session.post {req : RequestMsg} {stage : Stage} {resp : ResponseMsg}
    {stage' : Option Stage} {msgs : List ResponseMsg}
    (h : Session S i c (some msgs) [⟨req, stage⟩]) (hpost : stage.post = some (resp, stage')) :
    Session S i c (some (msgs ++ [resp])) (after req stage') := by
  cases h with
  | served _ _ hheard hsent =>
    cases stage with
    | opening => cases hpost
    | reading rest => cases hpost
    | sending data rest =>
      obtain ⟨rfl, rfl⟩ := Prod.mk.inj (Option.some.inj hpost)
      obtain ⟨hne, hle, chunks, hchunks, hmsgs, hfile⟩ := hsent
      refine .served _ _ hheard ⟨chunks ++ [data], ?_, ?_, ?_⟩
      · intro x hx
        rcases List.mem_append.mp hx with hx | hx
        · exact hchunks x hx
        · rw [List.mem_singleton.mp hx]
          exact ⟨hne, hle⟩
      · rw [← List.append_assoc, hmsgs, List.map_append]
        rfl
      · rw [hfile, List.flatten_append, List.flatten_singleton, List.append_assoc]
    | ending =>
      obtain ⟨rfl, rfl⟩ := Prod.mk.inj (Option.some.inj hpost)
      obtain ⟨chunks, hchunks, hmsgs, hfile⟩ := hsent
      refine .ended _ hheard (.inl ⟨chunks, hchunks, ?_, hfile⟩)
      rw [← List.append_assoc, hmsgs]
    | failing =>
      obtain ⟨rfl, rfl⟩ := Prod.mk.inj (Option.some.inj hpost)
      refine .ended _ hheard (.inr ⟨?_, hsent.2⟩)
      rw [← List.append_assoc, hsent.1]
      rfl

end

end FileServer
end LinuxPrograming
