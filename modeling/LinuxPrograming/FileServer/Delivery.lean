import LinuxPrograming.FileServer.Progress

/-!
# The files arrive

Whatever the order of the steps, every run ends, and then each client has its file or the news
that it could not be opened.
-/

namespace LinuxPrograming
namespace FileServer

open Lib

variable {ι : Type}

/-- What a client ends with.  `own` says that the children that write into its queue serve its
request. -/
structure Delivered (S : Setting ι) (s : State ι) (i : ι) : Prop where
  own : ∀ c ∈ s.children, c.req.clientId = S.clientId i → cStr c.req.pathname = S.path i
  opened : ∀ file, S.files (S.path i) = some file →
    (∀ text, (s.client i).phase ≠ .failed text) ∧
    ∀ totBytes numMsgs, (s.client i).phase = .left totBytes numMsgs →
      ∃ chunks : List Bytes, Chunks chunks ∧ chunks.flatten = file ∧
        (s.client i).received = chunks.map dataMsg ++ [⟨.finish, []⟩] ∧
        totBytes = file.length ∧ numMsgs = chunks.length + 1
  notOpened : S.files (S.path i) = none →
    (∀ totBytes numMsgs, (s.client i).phase ≠ .loop totBytes numMsgs ∧
      (s.client i).phase ≠ .left totBytes numMsgs) ∧
    ∀ text, (s.client i).phase = .failed text →
      text = couldntOpen ∧ (s.client i).received = [⟨.failure, couldntOpen⟩]

/-- The messages with parts of the file that a client has received. -/
def Client.dataMsgs (c : Client) : List ResponseMsg :=
  c.received.filter fun resp => resp.mtype == .data

/-- `numMsgs` has not overflowed in a client behind its loop. -/
def Counted (s : State ι) (i : ι) : Prop :=
  ∀ totBytes numMsgs, (s.client i).phase = .left totBytes numMsgs →
    (s.client i).dataMsgs.length < maxInt.toNat

variable {S : Setting ι} {s : State ι} {i : ι}

theorem Inv.own (hs : Inv S s) {c : Child} (hc : c ∈ s.children)
    (hid : c.req.clientId = S.clientId i) : cStr c.req.pathname = S.path i := by
  have hmem : c ∈ s.mine S i := by
    rw [State.mine, List.mem_filter, hid]
    exact ⟨List.mem_append_left _ hc, beq_self_eq_true _⟩
  have hsession := hs.session i
  generalize s.queue (S.clientId i) = q at hsession
  generalize s.mine S i = js at hmem hsession
  cases hsession with
  | served msgs stage _ _ =>
    rw [List.mem_singleton.mp hmem]
    exact cStr_pathnameField (S.plain i).1 (S.plain i).2
  | _ => cases hmem

/-- What a client that has finished has received. -/
theorem Inv.whole (hs : Inv S s) (hi : (s.client i).phase.finished = true) :
    (s.client i).Heard ∧ Whole (S.files (S.path i)) (s.client i).received := by
  have hsession := hs.session i
  generalize s.queue (S.clientId i) = q at hsession
  generalize s.mine S i = js at hsession
  cases hsession with
  | start hphase _ =>
    rw [hphase] at hi
    cases hi
  | requesting hphase _ =>
    rw [hphase] at hi
    cases hi
  | served msgs stage hheard hsent =>
    exact absurd (hheard.receiving_of_sent hsent) (Phase.not_receiving hi)
  | ended msgs hheard hwhole => exact ⟨hheard, hheard.whole_of_finished hwhole hi⟩
  | exited hheard hwhole => exact ⟨hheard, hwhole⟩

/-- Without a file nothing is received but the news of it. -/
theorem Inv.received_of_none (hs : Inv S s) (hfile : S.files (S.path i) = none) :
    (s.client i).received = [] ∨ (s.client i).received = [⟨.failure, couldntOpen⟩] := by
  have hsession := hs.session i
  generalize s.queue (S.clientId i) = q at hsession
  generalize s.mine S i = js at hsession
  cases hsession with
  | start _ hnone => exact .inl hnone
  | requesting _ hnone => exact .inl hnone
  | served msgs stage _ hsent =>
    rw [hfile] at hsent
    have hnil : (s.client i).received ++ msgs = [] := by
      cases stage with
      | opening => exact hsent
      | reading rest =>
        obtain ⟨_, _, _, hsome⟩ := hsent
        cases hsome
      | sending data rest =>
        obtain ⟨_, _, _, _, _, hsome⟩ := hsent
        cases hsome
      | ending =>
        obtain ⟨_, _, _, hsome⟩ := hsent
        cases hsome
      | failing => exact hsent.1
    exact .inl (List.append_eq_nil_iff.mp hnil).1
  | ended msgs _ hwhole =>
    rcases hwhole with ⟨_, _, _, hsome⟩ | ⟨hmsgs, -⟩
    · rw [hfile] at hsome
      cases hsome
    · rcases List.append_eq_singleton_iff.mp hmsgs with ⟨hnil, -⟩ | ⟨hone, -⟩
      · exact .inl hnil
      · exact .inr hone
  | exited _ hwhole =>
    rcases hwhole with ⟨_, _, _, hsome⟩ | ⟨hmsgs, -⟩
    · rw [hfile] at hsome
      cases hsome
    · exact .inr hmsgs

/-- A client is in its loop only when there is a file. -/
theorem Inv.loop_opened (hs : Inv S s) {totBytes : Nat} {numMsgs : Int}
    (hi : (s.client i).phase = .loop totBytes numMsgs) : S.files (S.path i) ≠ none := by
  intro hfile
  have hreceived := hs.received_of_none hfile
  have hsession := hs.session i
  generalize s.queue (S.clientId i) = q at hsession
  generalize s.mine S i = js at hsession
  have hnot : ¬ (s.client i).Heard := by
    intro hheard
    rw [Client.Heard, hi] at hheard
    rcases hreceived with hnil | hone
    · rw [hnil] at hheard
      cases hheard
    · rw [hone] at hheard
      cases hheard
  cases hsession with
  | start hphase _ => cases hi.symm.trans hphase
  | requesting hphase _ => cases hi.symm.trans hphase
  | served _ _ hheard _ => exact hnot hheard
  | ended _ hheard _ => exact hnot hheard
  | exited hheard _ => exact hnot hheard

theorem length_dataMsgs {c : Client} {chunks : List Bytes}
    (h : c.received = chunks.map dataMsg ++ [⟨.finish, []⟩]) :
    c.dataMsgs.length = chunks.length := by
  have hall : (chunks.map dataMsg).filter (fun resp => resp.mtype == .data) =
      chunks.map dataMsg := by
    rw [List.filter_eq_self]
    intro resp hresp
    obtain ⟨x, -, rfl⟩ := List.mem_map.mp hresp
    rfl
  have hend : [(⟨.finish, []⟩ : ResponseMsg)].filter (fun resp => resp.mtype == .data) = [] := rfl
  rw [Client.dataMsgs, h, List.filter_append, hall, hend, List.append_nil, List.length_map]

/-- Behind its loop a client has the file, and its count of the messages as an `int`. -/
theorem Inv.left (hs : Inv S s) {totBytes : Nat} {numMsgs : Int}
    (hi : (s.client i).phase = .left totBytes numMsgs) :
    ∃ chunks : List Bytes, Chunks chunks ∧ S.files (S.path i) = some chunks.flatten ∧
      (s.client i).received = chunks.map dataMsg ++ [⟨.finish, []⟩] ∧
      totBytes = chunks.flatten.length ∧ numMsgs = toInt (chunks.length + 1 : Nat) := by
  obtain ⟨hheard, hwhole⟩ := hs.whole (i := i) (by rw [hi]; rfl)
  rcases hheard.phase_of_whole hwhole with
    ⟨chunks, hchunks, hreceived, hfile, hleft⟩ | ⟨-, -, hfailed⟩
  · obtain ⟨htot, hnum⟩ := Phase.left.inj (hi.symm.trans hleft)
    exact ⟨chunks, hchunks, hfile, hreceived, htot, hnum⟩
  · cases hi.symm.trans hfailed

theorem Inv.failed (hs : Inv S s) {text : Bytes} (hi : (s.client i).phase = .failed text) :
    text = couldntOpen ∧ (s.client i).received = [⟨.failure, couldntOpen⟩] ∧
      S.files (S.path i) = none := by
  obtain ⟨hheard, hwhole⟩ := hs.whole (i := i) (by rw [hi]; rfl)
  rcases hheard.phase_of_whole hwhole with ⟨_, -, -, -, hleft⟩ | ⟨hreceived, hfile, hfailed⟩
  · cases hi.symm.trans hleft
  · exact ⟨Phase.failed.inj (hi.symm.trans hfailed), hreceived, hfile⟩

theorem Inv.delivered_iff (hs : Inv S s) : Delivered S s i ↔ Counted s i := by
  constructor
  · intro h totBytes numMsgs hi
    obtain ⟨chunks, -, hfile, hreceived, -, hnum⟩ := hs.left hi
    obtain ⟨chunks', -, -, hreceived', -, hnum'⟩ := (h.opened _ hfile).2 totBytes numMsgs hi
    have hlen := length_dataMsgs hreceived
    have hlen' := length_dataMsgs hreceived'
    have hwrap : toInt (chunks.length + 1 : Nat) = (chunks.length + 1 : Nat) := by
      rw [← hnum, hnum']
      omega
    have hlt := toInt_natCast_eq_iff.mp hwrap
    rw [hlen, maxInt]
    omega
  · intro h
    refine ⟨fun c hc hid => hs.own hc hid, fun file hfile => ⟨fun text hi => ?_, ?_⟩,
      fun hfile => ⟨fun totBytes numMsgs => ⟨fun hi => ?_, fun hi => ?_⟩, fun text hi => ?_⟩⟩
    · rw [(hs.failed hi).2.2] at hfile
      cases hfile
    · intro totBytes numMsgs hi
      obtain ⟨chunks, hchunks, hfile', hreceived, htot, hnum⟩ := hs.left hi
      have hflat : chunks.flatten = file := Option.some.inj (hfile'.symm.trans hfile)
      have hlt := h totBytes numMsgs hi
      rw [length_dataMsgs hreceived, maxInt] at hlt
      have hwrap : toInt (chunks.length + 1 : Nat) = (chunks.length + 1 : Nat) :=
        toInt_natCast_eq_iff.mpr (by omega)
      refine ⟨chunks, hchunks, hflat, hreceived, hflat ▸ htot, ?_⟩
      rw [hnum, hwrap, Int.natCast_add, Int.natCast_one]
    · exact hs.loop_opened hi hfile
    · obtain ⟨chunks, -, hsome, -⟩ := hs.left hi
      rw [hfile] at hsome
      cases hsome
    · exact ⟨(hs.failed hi).1, (hs.failed hi).2.1⟩

theorem file_server_delivers [Fintype ι] [DecidableEq ι] (S : Setting ι) :
    (∃ bound, ∀ es s, run (next S) (init ι) es = some s → es.length ≤ bound) ∧
    ∀ es s, run (next S) (init ι) es = some s →
      ((∃ i, (s.client i).phase.finished = false) → ∃ e t, next S s e = some t) ∧
      ((∀ i, Delivered S s i) ↔ ∀ i, Counted s i) := by
  refine ⟨⟨potential S (init ι), fun es s h => run_length_le_potential h⟩, fun es s h => ?_⟩
  have hs : Inv S s := inv_of_run h
  refine ⟨?_, forall_congr' fun i => hs.delivered_iff⟩
  rintro ⟨i, hi⟩
  exact progress hs hi

/-! ## A file of too many parts -/

section

variable [DecidableEq ι]

/-- The one child reads, and the client has taken all its messages. -/
structure Reading (S : Setting ι) (s : State ι) (i : ι) (c : Client) (rest : Bytes) : Prop where
  children : s.children = [⟨S.request i, .reading rest⟩]
  queue : s.queue (S.clientId i) = some []
  client : s.client i = c

theorem send_receive {stage : Stage} {resp : ResponseMsg} {stage' : Option Stage}
    (hchildren : s.children = [⟨S.request i, stage⟩])
    (hqueue : s.queue (S.clientId i) = some []) (hpost : stage.post = some (resp, stage'))
    (hle : resp.data.length ≤ respMsgSize) (hphase : (s.client i).phase.receiving = true) :
    ∃ t, run (next S) s [.send 0, .receive i] = some t ∧
      t.children = after (S.request i) stage' ∧ t.queue (S.clientId i) = some [] ∧
      t.client i = (s.client i).receive resp := by
  have hsend : next S s (.send 0) = some { s with
      queue := Function.update s.queue (S.clientId i) (some [resp])
      children := after (S.request i) stage' } := by
    have hqueue' : s.queue (S.request i).clientId = some [] := hqueue
    rw [next, childSend, hchildren]
    simp only [List.getElem?_cons_zero, hpost, Option.bind_some, msgsnd, hqueue', List.map_nil,
      S.fits_nil _ hle, if_true, Option.map_some]
    cases stage' with
    | none => rfl
    | some stage => rfl
  have hreceive : next S { s with
      queue := Function.update s.queue (S.clientId i) (some [resp])
      children := after (S.request i) stage' } (.receive i) = some { s with
        queue := Function.update (Function.update s.queue (S.clientId i) (some [resp]))
          (S.clientId i) (some [])
        children := after (S.request i) stage'
        client := Function.update s.client i ((s.client i).receive resp) } := by
    rw [next, clientReceive, if_pos hphase]
    simp only [Function.update_self]
  exact ⟨_, run_cons_eq_some.mpr ⟨_, hsend, (run_singleton _ _).trans hreceive⟩, rfl,
    Function.update_self .., Function.update_self ..⟩

theorem reading_chunk {c : Client} {chunk rest : Bytes} (h : Reading S s i c (chunk ++ rest))
    (hchunk : chunk ≠ [] ∧ chunk.length ≤ respMsgSize) (hphase : c.phase.receiving = true) :
    ∃ es t, run (next S) s es = some t ∧ Reading S t i (c.receive (dataMsg chunk)) rest := by
  have hlen : chunk.length ≠ 0 := fun hzero => hchunk.1 (List.eq_nil_of_length_eq_zero hzero)
  have hle : chunk.length ≤ (chunk ++ rest).length := by
    rw [List.length_append]
    omega
  have hread : readStage (chunk ++ rest) chunk.length = some (.sending chunk rest) := by
    rw [readStage, if_neg hlen, if_pos ⟨hchunk.2, hle⟩, List.take_left, List.drop_left]
  have hstep : next S s (.read 0 chunk.length) =
      some { s with children := [⟨S.request i, .sending chunk rest⟩] } := by
    rw [next, childRead, h.children]
    simp only [List.getElem?_cons_zero, hread, Option.map_some]
    rfl
  have hclient := h.client
  obtain ⟨t, hrun, hchildren, hqueue, hc⟩ := send_receive (S := S) (i := i)
    (s := { s with children := [⟨S.request i, .sending chunk rest⟩] })
    rfl h.queue rfl hchunk.2 (by rw [hclient]; exact hphase)
  refine ⟨[.read 0 chunk.length, .send 0, .receive i], t,
    run_cons_eq_some.mpr ⟨_, hstep, hrun⟩, hchildren, hqueue, ?_⟩
  rw [hc, hclient]
  rfl

/-- The file is read in any given parts. -/
theorem reading_chunks {c : Client} {chunks sent : List Bytes} {rest : Bytes}
    (hchunks : Chunks chunks) (h : Reading S s i c (chunks.flatten ++ rest)) (hheard : c.Heard)
    (hsent : c.received = sent.map dataMsg) :
    ∃ es t c', run (next S) s es = some t ∧ Reading S t i c' rest ∧ c'.Heard ∧
      c'.received = (sent ++ chunks).map dataMsg := by
  induction chunks generalizing s c sent with
  | nil => exact ⟨[], s, c, rfl, h, hheard, by rw [List.append_nil, hsent]⟩
  | cons chunk chunks ih =>
    rw [List.flatten_cons, List.append_assoc] at h
    obtain ⟨es, u, hrun, hu⟩ :=
      reading_chunk h (hchunks chunk List.mem_cons_self) (hheard.receiving hsent)
    have hsent' : (c.receive (dataMsg chunk)).received = (sent ++ [chunk]).map dataMsg := by
      rw [Client.receive, hsent, List.map_append]
      rfl
    obtain ⟨fs, t, c', hrun', ht, hheard', hdata⟩ :=
      ih (fun x hx => hchunks x (List.mem_cons_of_mem chunk hx)) hu
        (Client.heard_receive hheard _) hsent'
    refine ⟨es ++ fs, t, c', (run_append hrun fs).trans hrun', ht, hheard', ?_⟩
    rw [hdata, List.append_assoc]
    rfl

theorem exists_reading {file : Bytes} (hfile : S.files (S.path i) = some file) :
    ∃ es t, run (next S) (init ι) es = some t ∧ Reading S t i ⟨.waiting, []⟩ file := by
  have hopen : S.openStage (S.request i) = .reading file := by
    rw [S.openStage_request, hfile]
    rfl
  have hfits := S.fits_nil reqMsgSize (by decide)
  refine ⟨[.msgget i, .request i, .serve, .fork, .openFile 0], ?t, ?hrun, ?hreading⟩
  case hrun =>
    simp only [run, next, clientMsgget, init, if_true, Option.bind_some, clientRequest,
      Function.update_self, List.map_nil, hfits, true_and, serve, fork, childOpen,
      List.nil_append, List.getElem?_cons_zero, List.set_cons_zero, hopen]
    rfl
  case hreading =>
    refine ⟨rfl, ?_, ?_⟩
    · simp only [Function.update_self]
    · simp only [Function.update_self]

theorem Phase.finished_receive {p : Phase} (h : p.receiving = true) :
    (p.receive ⟨.finish, []⟩).finished = true := by
  cases p with
  | waiting => rfl
  | loop totBytes numMsgs => rfl
  | _ => cases h

/-- A run in which the file arrives in the given parts. -/
theorem exists_run_left {chunks : List Bytes} (hchunks : Chunks chunks)
    (hfile : S.files (S.path i) = some chunks.flatten) :
    ∃ es t, run (next S) (init ι) es = some t ∧
      (t.client i).received = chunks.map dataMsg ++ [⟨.finish, []⟩] ∧
      (t.client i).phase.finished = true := by
  obtain ⟨es, s, hrun, hs⟩ := exists_reading hfile
  rw [← List.append_nil chunks.flatten] at hs
  have hnone : ([] : List ResponseMsg) = ([] : List Bytes).map dataMsg := rfl
  obtain ⟨fs, t, c, hrun', ht, hheard, hdata⟩ := reading_chunks hchunks hs rfl hnone
  have hreceiving := hheard.receiving hdata
  have hend : next S t (.read 0 0) =
      some { t with children := [⟨S.request i, .ending⟩] } := by
    rw [next, childRead, ht.children]
    rfl
  have hclient := ht.client
  obtain ⟨u, hrun'', -, -, hu⟩ := send_receive (S := S) (i := i)
    (s := { t with children := [⟨S.request i, .ending⟩] }) rfl ht.queue
    rfl (Nat.zero_le _) (by rw [hclient]; exact hreceiving)
  refine ⟨es ++ (fs ++ [.read 0 0, .send 0, .receive i]), u, ?_, ?_, ?_⟩
  · rw [run_append hrun, run_append hrun']
    exact run_cons_eq_some.mpr ⟨_, hend, hrun''⟩
  · rw [hu, hclient, Client.receive, hdata, List.nil_append]
  · rw [hu, hclient]
    exact Phase.finished_receive hreceiving

end

/-- One client whose file comes in `INT_MAX` parts of full size.  The queues take 16384 bytes
and as many messages. -/
def bigFile : Setting Unit where
  path _ := bytes "big"
  plain _ := by decide
  clientId _ := 0
  injective _ _ _ := rfl
  files _ := some (List.replicate maxInt.toNat (List.replicate respMsgSize 0)).flatten
  fits sizes n := decide (sizes.sum + n ≤ 16384 ∧ sizes.length + 1 ≤ 16384)
  fits_nil n hn := by
    have hle : n ≤ 8192 := hn
    rw [decide_eq_true_eq, List.sum_nil, List.length_nil]
    omega

theorem bigFile_overflow :
    ∃ es s, run (next bigFile) (init Unit) es = some s ∧
      (s.client ()).phase.finished = true ∧ ¬ Delivered bigFile s () := by
  have hchunks : Chunks (List.replicate maxInt.toNat (List.replicate respMsgSize 0)) := by
    intro c hc
    rw [List.eq_of_mem_replicate hc, List.length_replicate]
    exact ⟨fun hnil => absurd (congrArg List.length hnil) (by
      rw [List.length_replicate]; decide), Nat.le_refl _⟩
  obtain ⟨es, s, hrun, hreceived, hfinished⟩ := exists_run_left (S := bigFile) (i := ()) hchunks rfl
  have hs : Inv bigFile s := inv_of_run hrun
  refine ⟨es, s, hrun, hfinished, fun hdelivered => ?_⟩
  have hcounted := hs.delivered_iff.mp hdelivered
  cases hphase : (s.client ()).phase with
  | left totBytes numMsgs =>
    have hlt := hcounted totBytes numMsgs hphase
    rw [length_dataMsgs hreceived, List.length_replicate] at hlt
    exact Nat.lt_irrefl _ hlt
  | failed text => cases (hs.failed hphase).2.2
  | _ =>
    rw [hphase] at hfinished
    cases hfinished

end FileServer
end LinuxPrograming
