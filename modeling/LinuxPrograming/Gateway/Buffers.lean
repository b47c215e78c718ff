import LinuxPrograming.Gateway.DataMgr
import LinuxPrograming.Gateway.HandoffPayload

/-!
# The fixed buffers on the way of a message

A message passes `buf[512]`, `old_msg[512]`, `msg_t.ts[64]` and the `msg[128]` of `_log`.
The machine here is the hand-off with the accesses to these buffers: a manager that
reads through `msg` reads the C string in `buf`, and `data_mgr` and `storage_mgr` parse
it into their records.

`senIDs` is the memory at the address `read_room` returned, so that its search always
ends.
-/

namespace LinuxPrograming
namespace Gateway

open Lib Handoff

/-- A run that neither reads behind a buffer nor writes behind one. -/
def Within {α : Type} (c : Checked α) : Prop :=
  c ≠ .error .unterminated ∧ c ≠ .error .overflow

section

variable {α β : Type}

theorem within_ok (a : α) : Within (.ok a : Checked α) := ⟨by simp, by simp⟩

theorem within_pure_bind {c : Checked α} {f : α → β} :
    Within (c >>= fun a => pure (f a)) ↔ Within c := by
  cases c with
  | error e => simp [Within]
  | ok a => exact iff_of_true (within_ok _) (within_ok _)

theorem within_strcpy_iff {cap : Nat} {src : Bytes} :
    Within (strcpy cap src) ↔ src.length < cap := by
  by_cases h : src.length < cap
  · rw [strcpy_of_lt h]
    exact iff_of_true (within_ok _) h
  · rw [strcpy_of_le (by omega)]
    exact iff_of_false (fun hw => hw.2 rfl) h

end

/-- The hand-off, the locals of `data_mgr` and the record of `storage_mgr`. -/
structure Pipeline where
  hand : State
  data : DataMgr
  storage : Msg

/-- Reading the C string in `buf`.  Nothing is known about the memory behind `buf`. -/
def readMsg (buf : Bytes) : Checked Bytes :=
  if 0 ∈ buf then pure (cStr buf) else throw .unterminated

/-- `strcmp(msg, old_msg)` reads `buf` up to the first char that differs. -/
def strcmpMsg (buf oldMsg : Bytes) : Checked Unit :=
  if 0 ∈ buf ∨ ¬ buf <+: oldMsg then pure () else throw .unterminated

section

variable (cJSONParse : Bytes → Option Json) (senIDs : Int → Int) (mem : Bytes)

/-- What the next access of a manager does besides its part of the hand-off. -/
def access (g : Pipeline) (w : Who) : Checked (DataMgr × Msg) :=
  match (g.hand.mgr w).pc with
  | .cmp _ => do
    strcmpMsg g.hand.buf (g.hand.mgr w).oldMsg
    pure (g.data, g.storage)
  | .copy _ => do
    let msg ← readMsg g.hand.buf
    let _ ← strcpy osBufferSize msg
    pure (g.data, g.storage)
  | .parse _ => do
    let msg ← readMsg g.hand.buf
    match w with
    | .data => do
      let (data, _) ← handle cJSONParse (fun i => pure (senIDs i)) g.data msg
      pure (data, g.storage)
    | .storage => do
      let (_, storage) ← msgParse cJSONParse (fun i => pure (senIDs i)) g.storage msg
      pure (g.data, storage)
  | _ => pure (g.data, g.storage)

/-- A step of the machine; it stops at a fault. -/
def pipelineNext (g : Pipeline) (e : Event) : Option Pipeline :=
  match Handoff.next (byAddress mem) g.hand e with
  | none => none
  | some hand =>
    match e with
    | .mgr w =>
      match access cJSONParse senIDs g w with
      | .ok (data, storage) => some ⟨hand, data, storage⟩
      | .error _ => none
    | _ => some { g with hand := hand }

/-- `main` up to the start of the threads; `buf` and the records are uninitialised. -/
def Pipeline.init (buf : Bytes) (data storage : Msg) : Pipeline :=
  ⟨Handoff.start 100 buf, DataMgr.init data, storage⟩

/-- No string read or written by the access overruns its buffer. -/
def NoOverrun (g : Pipeline) : Event → Prop
  | .mgr w => Within (access cJSONParse senIDs g w)
  | _ => True

/-! ## The conditions -/

/-- `recv` is asked for at most `BUFFER_SIZE` bytes. -/
def RecvBounded : Event → Prop
  | .recv bs => bs.length ≤ osBufferSize
  | _ => True

/-- A reception brings a NUL, or leaves one behind it. -/
def RecvTerminated (g : Pipeline) : Event → Prop
  | .recv bs => 0 ∈ bs ∨ 0 ∈ g.hand.buf.drop bs.length
  | _ => True

/-- What the fixed text of the line leaves for timestamp, ID and mean. -/
def lineBudget (mean : Rat) : Nat :=
  if 26 ≤ mean then 47 else if mean ≤ 24 then 46 else 67

/-- If the reading makes a mean of the last five due, the line fits.  The mean and its text are
those of exact arithmetic. -/
def LineFits (s : DataMgr) (parsed : Msg) : Prop :=
  1 ≤ parsed.senID → parsed.senID ≤ 5 → ∀ rs, s.windows.Rep rs →
    let mean := meanOfLastFive (ofSensor parsed.senID rs ++ [parsed.temp])
    0 < mean →
      parsed.ts.length + (decimal parsed.senID).length + (fixed1 mean).length ≤ lineBudget mean

/-- The message that a manager is about to parse fits: its timestamp if it names a
registered sensor, and for `data_mgr` the line of the reading.  A message without a
numeric `sensorID` repeats the reading in the record. -/
def MessageFits (g : Pipeline) (w : Who) : View → Prop
  | .other => True
  | .unnamed => w = .data → LineFits g.data g.data.parsed
  | .sensor senID ts temp =>
    search (m := Id) senIDs senID 0 5 = true → ∀ t, ts = some t → t.length < tsSize ∧
      (w = .data → ∀ q, temp = some q → LineFits g.data ⟨t, roundTenth q, senID⟩)

def MessagesFit (g : Pipeline) : Event → Prop
  | .mgr w => ∀ n, (g.hand.mgr w).pc = .parse n →
      MessageFits senIDs g w (view (cJSONParse (cStr g.hand.buf)))
  | _ => True

end

/-! ## Lines -/

variable (ts : Bytes) (senID : Int) (mean : Rat)

theorem length_line {fmt a b c : Bytes}
    (hfmt : fmt = bytes "%s" ++ (a ++ (bytes "%d" ++ (b ++ (bytes "%.1lf" ++ c)))))
    (htext : 37 ∉ a ∧ 37 ∉ b ∧ 37 ∉ c) {n : Nat} (hn : a.length + b.length + c.length = n) :
    (vsprintf fmt [.str ts, .int senID, .double mean]).length =
      n + (ts.length + (decimal senID).length + (fixed1 mean).length) := by
  obtain ⟨ha, hb, hc⟩ := htext
  have hend : vsprintf c [] = c := by
    have h := vsprintf_text [] [] hc
    rwa [List.append_nil, vsprintf, List.append_nil] at h
  rw [hfmt, vsprintf_str, vsprintf_text _ _ ha, vsprintf_int, vsprintf_text _ _ hb,
    vsprintf_double, hend]
  simp only [List.length_append]
  omega

theorem length_sensorHot :
    (vsprintf (sensorHot ++ bytes "\n") [.str ts, .int senID, .double mean]).length =
      80 + (ts.length + (decimal senID).length + (fixed1 mean).length) :=
  length_line ts senID mean (a := bytes " [WARNING]: The sensor node with ID '")
    (b := bytes "' reports it's hot (avg temperature = <") (c := bytes ">).\n") (by decide +kernel)
    (by decide +kernel) (by decide +kernel)

theorem length_sensorCold :
    (vsprintf (sensorCold ++ bytes "\n") [.str ts, .int senID, .double mean]).length =
      81 + (ts.length + (decimal senID).length + (fixed1 mean).length) :=
  length_line ts senID mean (a := bytes " [WARNING]: The sensor node with ID '")
    (b := bytes "' reports it's cold (avg temperature = <") (c := bytes ">).\n") (by decide +kernel)
    (by decide +kernel) (by decide +kernel)

theorem length_sensorTemp :
    (vsprintf (sensorTemp ++ bytes "\n") [.str ts, .int senID, .double mean]).length =
      60 + (ts.length + (decimal senID).length + (fixed1 mean).length) :=
  length_line ts senID mean (a := bytes " [INFO]: The sensor node with ID '")
    (b := bytes "' (avg temperature = <") (c := bytes ">).\n") (by decide +kernel)
    (by decide +kernel) (by decide +kernel)

theorem within_report_iff (parsed : Msg) :
    Within (report parsed mean) ↔ (0 < mean →
      parsed.ts.length + (decimal parsed.senID).length + (fixed1 mean).length ≤
        lineBudget mean) := by
  rw [report, lineBudget]
  by_cases h0 : mean ≤ 0
  · rw [if_pos h0]
    exact iff_of_true (within_ok _) fun h => absurd h0 (not_le.mpr h)
  · rw [if_neg h0]
    have hpos : 0 < mean := not_le.mp h0
    simp only [hpos, true_implies]
    by_cases hhot : 26 ≤ mean
    · rw [if_pos hhot, if_pos hhot, within_pure_bind, writeToPipe, within_strcpy_iff,
        length_sensorHot, osMsgSize]
      omega
    · rw [if_neg hhot, if_neg hhot]
      by_cases hcold : mean ≤ 24
      · rw [if_pos hcold, if_pos hcold, within_pure_bind, writeToPipe, within_strcpy_iff,
          length_sensorCold, osMsgSize]
        omega
      · rw [if_neg hcold, if_neg hcold, within_pure_bind, writeToPipe, within_strcpy_iff,
          length_sensorTemp, osMsgSize]
        omega

/-! ## Messages -/

section

variable {cJSONParse : Bytes → Option Json} {senIDs : Int → Int}

theorem search_pure (senIDs : Int → Int) (x : Int) :
    search (fun i => (pure (senIDs i) : Checked Int)) x 0 5 =
      .ok (search (m := Id) senIDs x 0 5) := by
  have hid : search (m := Id) senIDs x 0 5 =
      if senIDs 2 = x then true
      else if senIDs 2 < x then
        if senIDs 4 = x then true
        else if senIDs 4 < x then if senIDs 5 = x then true else false
        else if senIDs 3 = x then true else false
      else
        if senIDs 0 = x then true
        else if senIDs 0 < x then if senIDs 1 = x then true else false
        else false := search_five _ _
  rw [hid, search_five]
  simp only [pure_eq_ok, ok_bind]
  split_ifs <;> rfl

theorem mean_unique {w : Windows} {rs rs' : List Reading} (h : w.Rep rs) (h' : w.Rep rs')
    {s : Int} (h1 : 1 ≤ s) (h5 : s ≤ 5) (t : Rat) :
    meanOfLastFive (ofSensor s rs ++ [t]) = meanOfLastFive (ofSensor s rs' ++ [t]) := by
  obtain ⟨w₁, hw₁, -⟩ := accept_spec h h1 h5 t
  obtain ⟨w₂, hw₂, -⟩ := accept_spec h' h1 h5 t
  rw [hw₁, Except.ok.injEq, Prod.mk.injEq] at hw₂
  exact hw₂.2

theorem within_accepted_iff {s : DataMgr} (hs : s.Windowed) (parsed : Msg) :
    Within (do
      let (windows, tempAvg) ← accept s.windows parsed.senID parsed.temp
      let line ← report parsed tempAvg
      pure ((⟨parsed, windows⟩ : DataMgr), line)) ↔ LineFits s parsed := by
  obtain ⟨rs, hrs⟩ := hs
  rcases accept_cases hrs parsed.senID parsed.temp with ⟨h1, h5, w', hacc, -⟩ | ⟨hno, hacc⟩
  · rw [hacc, ok_bind, within_pure_bind, within_report_iff]
    constructor
    · intro h _ _ rs' hrs'
      dsimp only
      rw [mean_unique hrs' hrs h1 h5]
      exact h
    · exact fun h => h h1 h5 rs hrs
  · rw [hacc, error_bind]
    exact iff_of_true ⟨by simp, by simp⟩ fun h1 h5 => absurd ⟨h1, h5⟩ hno

theorem within_msgParse_iff (parsed : Msg) (msg : Bytes) :
    Within (msgParse cJSONParse (fun i => pure (senIDs i)) parsed msg) ↔
      ∀ senID ts temp, view (cJSONParse msg) = .sensor senID ts temp →
        search (m := Id) senIDs senID 0 5 = true → ∀ t, ts = some t → t.length < tsSize := by
  cases hview : view (cJSONParse msg) with
  | other =>
    rw [msgParse_other _ _ hview]
    exact iff_of_true (within_ok _) fun _ _ _ h => by cases h
  | unnamed =>
    rw [msgParse_unnamed _ _ hview]
    exact iff_of_true (within_ok _) fun _ _ _ h => by cases h
  | sensor senID ts temp =>
    rw [msgParse_sensor _ _ hview, search_pure, ok_bind]
    have hall : (∀ senID' ts' temp', View.sensor senID ts temp = .sensor senID' ts' temp' →
        search (m := Id) senIDs senID' 0 5 = true → ∀ t, ts' = some t → t.length < tsSize) ↔
        (search (m := Id) senIDs senID 0 5 = true → ∀ t, ts = some t → t.length < tsSize) :=
      ⟨fun h => h senID ts temp rfl, fun h _ _ _ heq => by cases heq; exact h⟩
    rw [hall]
    by_cases hfound : search (m := Id) senIDs senID 0 5 = true
    · rw [if_pos hfound]
      cases ts with
      | none => exact iff_of_true (within_ok _) fun _ _ h => by cases h
      | some t =>
        dsimp only
        by_cases hlen : t.length < tsSize
        · have hfits : ∀ t', some t = some t' → t'.length < tsSize :=
            fun t' ht' => Option.some.inj ht' ▸ hlen
          rw [strcpy_of_lt hlen, ok_bind]
          cases temp <;> exact iff_of_true (within_ok _) fun _ => hfits
        · rw [strcpy_of_le (by omega), error_bind]
          exact iff_of_false (fun hw => hw.2 rfl) fun h => hlen (h hfound t rfl)
    · rw [if_neg hfound]
      exact iff_of_true (within_ok _) fun h => absurd h hfound

theorem within_storage_iff (g : Pipeline) (msg : Bytes) :
    Within (msgParse cJSONParse (fun i => pure (senIDs i)) g.storage msg) ↔
      MessageFits senIDs g .storage (view (cJSONParse msg)) := by
  rw [within_msgParse_iff]
  cases view (cJSONParse msg) with
  | other => exact iff_of_true (fun _ _ _ h => by cases h) trivial
  | unnamed => exact iff_of_true (fun _ _ _ h => by cases h) fun h => by cases h
  | sensor senID ts temp =>
    constructor
    · exact fun h hfound t ht => ⟨h senID ts temp rfl hfound t ht, fun hw => by cases hw⟩
    · rintro h _ _ _ ⟨⟩ hfound t ht
      exact (h hfound t ht).1

theorem within_data_iff {g : Pipeline} (hs : g.data.Windowed) (msg : Bytes) :
    Within (handle cJSONParse (fun i => pure (senIDs i)) g.data msg) ↔
      MessageFits senIDs g .data (view (cJSONParse msg)) := by
  cases hview : view (cJSONParse msg) with
  | other =>
    rw [handle_of_rejected (msgParse_other _ _ hview) (by decide)]
    exact iff_of_true (within_ok _) trivial
  | unnamed =>
    rw [handle_of_accepted (msgParse_unnamed _ _ hview), within_accepted_iff hs]
    exact ⟨fun h _ => h, fun h => h rfl⟩
  | sensor senID ts temp =>
    have hsearch := search_pure senIDs senID
    by_cases hfound : search (m := Id) senIDs senID 0 5 = true
    · have hparse := msgParse_sensor (fun i => pure (senIDs i)) g.data.parsed hview
      rw [hsearch, hfound, ok_bind, if_pos rfl] at hparse
      simp only [MessageFits, hfound, true_implies]
      cases ts with
      | none =>
        rw [handle_of_rejected hparse (by decide)]
        exact iff_of_true (within_ok _) fun _ h => by cases h
      | some t =>
        simp only [Option.some.injEq, forall_eq']
        by_cases hlen : t.length < tsSize
        · dsimp only at hparse
          rw [strcpy_of_lt hlen, ok_bind] at hparse
          cases temp with
          | none =>
            rw [handle_of_rejected hparse (by decide)]
            exact iff_of_true (within_ok _) ⟨hlen, fun _ h => by cases h⟩
          | some q =>
            rw [handle_of_accepted hparse, within_accepted_iff hs]
            simp only [Option.some.injEq, forall_eq', hlen, true_and]
        · dsimp only at hparse
          rw [strcpy_of_le (by omega), error_bind] at hparse
          rw [handle_of_error hparse]
          exact iff_of_false (fun hw => hw.2 rfl) fun h => hlen h.1
    · have hparse := msgParse_sensor (fun i => pure (senIDs i)) g.data.parsed hview
      rw [hsearch, ok_bind, if_neg hfound] at hparse
      rw [handle_of_rejected hparse (by decide)]
      exact iff_of_true (within_ok _) fun h => absurd h hfound

/-! ## Runs -/

/-- What holds between the steps as long as every reception is terminated. -/
structure Sound (g : Pipeline) : Prop where
  inv : Inv g.hand
  cap : g.hand.queue.cap = 100
  buf : g.hand.buf.length = osBufferSize
  nul : (g.hand.received = false ∧ g.hand.UsedUp) ∨ 0 ∈ g.hand.buf
  oldMsg : ∀ w, (g.hand.mgr w).oldMsg.length < osBufferSize
  windowed : g.data.Windowed

variable {mem : Bytes}

theorem init_sound {buf : Bytes} (hbuf : buf.length = osBufferSize) (data storage : Msg) :
    Sound (Pipeline.init buf data storage) where
  inv := start_inv 100 buf
  cap := rfl
  buf := hbuf
  nul := Or.inl ⟨rfl, rfl, fun _ => rfl⟩
  oldMsg _ := Nat.succ_pos 511
  windowed := DataMgr.init_windowed data

theorem pipelineNext_cases {g t : Pipeline} {e : Event}
    (h : pipelineNext cJSONParse senIDs mem g e = some t) :
    Handoff.next (byAddress mem) g.hand e = some t.hand ∧
      ((∃ w, e = .mgr w ∧ access cJSONParse senIDs g w = .ok (t.data, t.storage)) ∨
        t.data = g.data ∧ t.storage = g.storage) := by
  rw [pipelineNext] at h
  split at h
  · cases h
  · next hand hhand =>
    split at h
    · next w =>
      split at h
      · next data storage hacc =>
        obtain rfl := Option.some.inj h
        exact ⟨hhand, Or.inl ⟨w, rfl, hacc⟩⟩
      · cases h
    · obtain rfl := Option.some.inj h
      exact ⟨hhand, Or.inr ⟨rfl, rfl⟩⟩

section

variable (cJSONParse senIDs mem)

theorem pipelineNext_recv {g : Pipeline} (bs : Bytes) (h : g.hand.received = false) :
    pipelineNext cJSONParse senIDs mem g (.recv bs) =
      some { g with hand := { g.hand with buf := recv g.hand.buf bs, received := true } } := by
  rw [pipelineNext, Handoff.next, h]
  rfl

theorem pipelineNext_push {g : Pipeline} (alloc : Bool) (h : g.hand.received = true) :
    pipelineNext cJSONParse senIDs mem g (.push alloc) =
      some { g with hand := g.hand.listPush (byAddress mem) alloc } := by
  rw [pipelineNext, Handoff.next, h]
  rfl

theorem pipelineNext_mgr {g : Pipeline} {w : Who} {t : State} {data : DataMgr} {storage : Msg}
    (hstep : MgrStep (byAddress mem) g.hand w t)
    (hacc : access cJSONParse senIDs g w = .ok (data, storage)) :
    pipelineNext cJSONParse senIDs mem g (.mgr w) = some ⟨t, data, storage⟩ := by
  have hnext : Handoff.next (byAddress mem) g.hand (.mgr w) = some t := mgrStep_of hstep
  rw [pipelineNext, hnext]
  dsimp only
  rw [hacc]

end

theorem access_of_reads_none {g : Pipeline} {w : Who} (h : (g.hand.mgr w).pc.reads = none) :
    access cJSONParse senIDs g w = .ok (g.data, g.storage) := by
  rw [access]
  split
  case h_4 => rfl
  all_goals
    next hpc =>
      rw [hpc] at h
      cases h

theorem strcmpMsg_of_lt {buf oldMsg : Bytes} (h : oldMsg.length < buf.length) :
    strcmpMsg buf oldMsg = .ok () :=
  if_pos (Or.inr fun hprefix => Nat.not_lt.mpr hprefix.length_le h)

theorem access_compare {g : Pipeline} {w : Who} {n : Node} (hpc : (g.hand.mgr w).pc = .cmp n)
    (hold : (g.hand.mgr w).oldMsg.length < g.hand.buf.length) :
    access cJSONParse senIDs g w = .ok (g.data, g.storage) := by
  rw [access, hpc]
  dsimp only
  rw [strcmpMsg_of_lt hold]
  rfl

theorem access_of_terminated {g : Pipeline} {w : Who} (h0 : 0 ∈ g.hand.buf)
    (hbuf : g.hand.buf.length = osBufferSize) (hpc : ∀ n, (g.hand.mgr w).pc ≠ .parse n) :
    access cJSONParse senIDs g w = .ok (g.data, g.storage) := by
  have hlen : (cStr g.hand.buf).length < osBufferSize := hbuf ▸ length_cStr_lt_iff.mpr h0
  rw [access, readMsg, if_pos h0, strcmpMsg, if_pos (Or.inl h0)]
  split
  · rfl
  · rw [pure_eq_ok, ok_bind, strcpy_of_lt hlen]
    rfl
  · next n hparse => exact absurd hparse (hpc n)
  · rfl

theorem access_parse_data {g : Pipeline} {n : Node} (h0 : 0 ∈ g.hand.buf)
    (hpc : (g.hand.mgr .data).pc = .parse n) :
    access cJSONParse senIDs g .data =
      handle cJSONParse (fun i => pure (senIDs i)) g.data (cStr g.hand.buf) >>=
        fun r => pure (r.1, g.storage) := by
  rw [access, hpc, readMsg, if_pos h0]
  rfl

theorem access_parse_storage {g : Pipeline} {n : Node} (h0 : 0 ∈ g.hand.buf)
    (hpc : (g.hand.mgr .storage).pc = .parse n) :
    access cJSONParse senIDs g .storage =
      msgParse cJSONParse (fun i => pure (senIDs i)) g.storage (cStr g.hand.buf) >>=
        fun r => pure (g.data, r.2) := by
  rw [access, hpc, readMsg, if_pos h0]
  rfl

theorem Sound.terminated {g : Pipeline} (h : Sound g) {w : Who} {n : Node}
    (hnode : (g.hand.mgr w).pc.node = some n) : 0 ∈ g.hand.buf := by
  refine h.nul.resolve_left fun hused => ?_
  rw [hused.2.2 w] at hnode
  cases hnode

theorem Sound.access_of_not_parse {g : Pipeline} (h : Sound g) {w : Who}
    (hpc : ∀ n, (g.hand.mgr w).pc ≠ .parse n) :
    access cJSONParse senIDs g w = .ok (g.data, g.storage) := by
  cases hreads : (g.hand.mgr w).pc.reads with
  | none => exact access_of_reads_none hreads
  | some n =>
    have hnode : (g.hand.mgr w).pc.node = some n := by
      cases hp : (g.hand.mgr w).pc <;> rw [hp] at hreads <;> first | exact hreads | cases hreads
    exact access_of_terminated (h.terminated hnode) h.buf hpc

/-- In a sound state, an access stays within the buffers exactly when the message it parses
fits. -/
theorem noOverrun_iff {g : Pipeline} (h : Sound g) (e : Event) :
    NoOverrun cJSONParse senIDs g e ↔ MessagesFit cJSONParse senIDs g e := by
  cases e with
  | recv bs => exact Iff.rfl
  | push alloc => exact Iff.rfl
  | mgr w =>
    rw [NoOverrun, MessagesFit]
    by_cases hparse : ∃ n, (g.hand.mgr w).pc = .parse n
    · obtain ⟨n, hpc⟩ := hparse
      have h0 := h.terminated (w := w) (n := n) (by rw [hpc]; rfl)
      have hall : (∀ n, (g.hand.mgr w).pc = .parse n →
          MessageFits senIDs g w (view (cJSONParse (cStr g.hand.buf)))) ↔
          MessageFits senIDs g w (view (cJSONParse (cStr g.hand.buf))) :=
        ⟨fun hn => hn n hpc, fun hfits _ _ => hfits⟩
      rw [hall]
      cases w with
      | data => rw [access_parse_data h0 hpc, within_pure_bind, within_data_iff h.windowed]
      | storage => rw [access_parse_storage h0 hpc, within_pure_bind, within_storage_iff]
    · have hpc : ∀ n, (g.hand.mgr w).pc ≠ .parse n := fun n hn => hparse ⟨n, hn⟩
      rw [h.access_of_not_parse hpc]
      exact iff_of_true (within_ok _) fun n hn => absurd hn (hpc n)

theorem access_windowed {g : Pipeline} (h : Sound g) {w : Who} {data : DataMgr} {storage : Msg}
    (hacc : access cJSONParse senIDs g w = .ok (data, storage)) : data.Windowed := by
  by_cases hparse : ∃ n, (g.hand.mgr w).pc = .parse n
  · obtain ⟨n, hpc⟩ := hparse
    have h0 := h.terminated (w := w) (n := n) (by rw [hpc]; rfl)
    cases w with
    | data =>
      rw [access_parse_data h0 hpc] at hacc
      rcases hr : handle cJSONParse (fun i => pure (senIDs i)) g.data (cStr g.hand.buf) with
        e | ⟨data', line⟩
      · rw [hr, error_bind] at hacc
        cases hacc
      · rw [hr, ok_bind, pure_eq_ok, Except.ok.injEq, Prod.mk.injEq] at hacc
        exact hacc.1 ▸ dataMgrNext_windowed h.windowed (by rw [dataMgrNext, hr])
    | storage =>
      rw [access_parse_storage h0 hpc] at hacc
      rcases hr : msgParse cJSONParse (fun i => pure (senIDs i)) g.storage (cStr g.hand.buf) with
        e | r
      · rw [hr, error_bind] at hacc
        cases hacc
      · rw [hr, ok_bind, pure_eq_ok, Except.ok.injEq, Prod.mk.injEq] at hacc
        exact hacc.1 ▸ h.windowed
  · have hpc : ∀ n, (g.hand.mgr w).pc ≠ .parse n := fun n hn => hparse ⟨n, hn⟩
    rw [h.access_of_not_parse hpc, Except.ok.injEq, Prod.mk.injEq] at hacc
    exact hacc.1 ▸ h.windowed

theorem oldMsg_mgrStep {s t : State} {w : Who} (h : MgrStep (byAddress mem) s w t) (v : Who) :
    (t.mgr v).oldMsg = (s.mgr v).oldMsg ∨
      (∃ n, (s.mgr w).pc = .copy n) ∧ (t.mgr v).oldMsg = bufStr mem s.buf := by
  by_cases hv : v = w
  · subst hv
    cases h with
    | copy n hpc => exact Or.inr ⟨⟨n, hpc⟩, by rw [setMgr_mgr_self]; rfl⟩
    | _ => exact Or.inl (by rw [setMgr_mgr_self])
  · cases h <;> exact Or.inl (by rw [setMgr_mgr_of_ne _ _ hv])

theorem Sound.recv {g : Pipeline} (h : Sound g) {bs : Bytes}
    (he : RecvTerminated g (.recv bs) ∧ RecvBounded (.recv bs)) :
    Sound { g with hand := { g.hand with buf := recv g.hand.buf bs, received := true } } where
  inv := ⟨h.inv.owner, h.inv.queue, h.inv.ids, h.inv.parsed⟩
  cap := h.cap
  buf := recv_length h.buf he.2
  nul := Or.inr (List.mem_append.mpr he.1)
  oldMsg := h.oldMsg
  windowed := h.windowed

theorem Sound.push {g : Pipeline} (h : Sound g) (hreceived : g.hand.received = true)
    (alloc : Bool) :
    Sound { g with hand := g.hand.listPush (byAddress mem) alloc } := by
  have hstep : Handoff.next (byAddress mem) g.hand (.push alloc) =
      some (g.hand.listPush (byAddress mem) alloc) := by
    rw [Handoff.next, hreceived]
    rfl
  have h0 : 0 ∈ g.hand.buf := by
    refine h.nul.resolve_left fun hused => ?_
    rw [hused.1] at hreceived
    cases hreceived
  have hcap : (g.hand.listPush (byAddress mem) alloc).queue.cap = g.hand.queue.cap := by
    rcases listPush_cases (byAddress mem) g.hand alloc with heq | ⟨-, heq⟩ <;> rw [heq]
    exact BoundedQueue.push_cap _ _
  refine ⟨next_inv h.inv hstep, hcap.trans h.cap, ?_, Or.inr ?_, ?_, h.windowed⟩
  · show (g.hand.listPush (byAddress mem) alloc).buf.length = osBufferSize
    rw [listPush_buf, h.buf]
  · show 0 ∈ (g.hand.listPush (byAddress mem) alloc).buf
    rw [listPush_buf]
    exact h0
  · intro w
    show ((g.hand.listPush (byAddress mem) alloc).mgr w).oldMsg.length < osBufferSize
    rw [listPush_mgr]
    exact h.oldMsg w

theorem Sound.mgrStep {g t : Pipeline} (h : Sound g) {w : Who}
    (hstep : MgrStep (byAddress mem) g.hand w t.hand) (hwindowed : t.data.Windowed) :
    Sound t := by
  obtain ⟨hbuf, hreceived, hcap⟩ := mgrStep_frame hstep
  refine ⟨mgrStep_inv h.inv hstep, hcap.trans h.cap, hbuf ▸ h.buf, ?_, fun v => ?_, hwindowed⟩
  · rcases h.nul with ⟨hno, hused⟩ | h0
    · exact Or.inl ⟨hreceived.trans hno, usedUp_mgrStep hused hstep⟩
    · exact Or.inr (hbuf ▸ h0)
  · rcases oldMsg_mgrStep hstep v with hsame | ⟨⟨n, hpc⟩, hcopy⟩
    · exact hsame ▸ h.oldMsg v
    · have h0 : 0 ∈ g.hand.buf := h.terminated (w := w) (n := n) (by rw [hpc]; rfl)
      rw [hcopy, show bufStr mem g.hand.buf = cStr g.hand.buf from cStr_append_of_mem h0 mem,
        ← h.buf]
      exact length_cStr_lt_iff.mpr h0

/-- A terminated reception of at most 512 bytes, and every other step, keeps the state
sound. -/
theorem sound_next {g t : Pipeline} {e : Event} (h : Sound g)
    (he : RecvTerminated g e ∧ RecvBounded e)
    (hstep : pipelineNext cJSONParse senIDs mem g e = some t) : Sound t := by
  obtain ⟨hhand, hdata⟩ := pipelineNext_cases hstep
  cases e with
  | recv bs =>
    rw [Handoff.next] at hhand
    split at hhand
    · cases hhand
    · next hno =>
      rw [pipelineNext_recv cJSONParse senIDs mem bs (by simpa using hno)] at hstep
      exact Option.some.inj hstep ▸ h.recv he
  | push alloc =>
    rw [Handoff.next] at hhand
    split at hhand
    · next hreceived =>
      rw [pipelineNext_push cJSONParse senIDs mem alloc hreceived] at hstep
      exact Option.some.inj hstep ▸ h.push hreceived alloc
    · cases hhand
  | mgr w =>
    refine h.mgrStep (mgrStep_cases hhand) ?_
    rcases hdata with ⟨w', -, hacc⟩ | ⟨heq, -⟩
    · exact access_windowed h hacc
    · exact heq ▸ h.windowed

end

/-! ## Receptions without NUL -/

theorem push_inUse {s : State} (p : Payload) (hitems : s.queue.items = [])
    (hcap : s.queue.cap = 100) : ¬ (s.listPush p true).UsedUp := by
  have hfull : ¬ s.queue.IsFull := by
    rw [BoundedQueue.IsFull, hitems, hcap]
    decide
  intro hused
  have hnil := hused.1
  rw [State.listPush, if_neg (by simpa using hfull)] at hnil
  rw [BoundedQueue.push_items hfull, hitems] at hnil
  cases hnil

section

variable (cJSONParse : Bytes → Option Json) (senIDs : Int → Int) (mem : Bytes)

/-- `buf` has been filled without NUL, and no `old_msg` is as long. -/
structure Unterminated (s : State) : Prop where
  zero : 0 ∉ s.buf
  oldMsg : ∀ w, (s.mgr w).oldMsg.length < s.buf.length

variable {mem} in
theorem Unterminated.mgrStep {s t : State} {w : Who} (h : Unterminated s)
    (hstep : MgrStep (byAddress mem) s w t) (hpc : ∀ n, (s.mgr w).pc ≠ .copy n) :
    Unterminated t := by
  have hbuf := (mgrStep_frame hstep).1
  refine ⟨hbuf ▸ h.zero, fun v => ?_⟩
  rcases oldMsg_mgrStep hstep v with hsame | ⟨⟨n, hcopy⟩, -⟩
  · rw [hsame, hbuf]
    exact h.oldMsg v
  · exact absurd hcopy (hpc n)

variable {cJSONParse senIDs} in
theorem access_unterminated {g : Pipeline} {w : Who} {n : Node} (h : Unterminated g.hand)
    (hpc : (g.hand.mgr w).pc = .copy n ∨ (g.hand.mgr w).pc = .parse n) :
    access cJSONParse senIDs g w = .error .unterminated := by
  rw [access, readMsg, if_neg h.zero]
  rcases hpc with hpc | hpc <;> rw [hpc] <;> rfl

/-- The manager that reads next runs over the end of `buf`, after the comparison at the
latest. -/
theorem overrun_of_reads {g : Pipeline} {w : Who} {n : Node} (h : Unterminated g.hand)
    (hreads : (g.hand.mgr w).pc.reads = some n) :
    ∃ (k : Nat) (t : Pipeline),
      run (pipelineNext cJSONParse senIDs mem) g (List.replicate k (.mgr w)) = some t ∧
      access cJSONParse senIDs t w = .error .unterminated := by
  cases hpc : (g.hand.mgr w).pc <;> rw [hpc] at hreads
  case copy => exact ⟨0, g, rfl, access_unterminated h (Or.inl hpc)⟩
  case parse => exact ⟨0, g, rfl, access_unterminated h (Or.inr hpc)⟩
  case cmp n =>
    have hne : (byAddress mem).deref g.hand.buf n ≠ (g.hand.mgr w).oldMsg := by
      intro heq
      have hlt := h.oldMsg w
      have hstr : (byAddress mem).deref g.hand.buf n = g.hand.buf ++ cStr mem :=
        cStr_append h.zero mem
      rw [← heq, hstr, List.length_append] at hlt
      omega
    have hdiffer := MgrStep.differ n hpc hne
    exact ⟨1, _, (run_singleton _ _).trans
        (pipelineNext_mgr cJSONParse senIDs mem hdiffer (access_compare hpc (h.oldMsg w))),
      access_unterminated (n := n) (h.mgrStep hdiffer (by simp [hpc]))
        (Or.inl (by simp))⟩
  all_goals cases hreads

theorem overrun_of_approach {g : Pipeline} {w : Who} {n : Node} (h : Unterminated g.hand)
    (happ : Approach (byAddress mem) w n g.hand) :
    ∃ (k : Nat) (t : Pipeline),
      run (pipelineNext cJSONParse senIDs mem) g (List.replicate k (.mgr w)) = some t ∧
      access cJSONParse senIDs t w = .error .unterminated := by
  obtain ⟨hand, data, storage⟩ := g
  dsimp only at h happ
  induction happ with
  | here hreads => exact overrun_of_reads cJSONParse senIDs mem h hreads
  | @step s t hno hstep _ ih =>
    obtain ⟨k, u, hrun, hacc⟩ := ih (h.mgrStep (mgrStep_cases hstep) fun n hpc => by
      rw [hpc] at hno
      cases hno)
    have hfirst : pipelineNext cJSONParse senIDs mem ⟨s, data, storage⟩ (.mgr w) =
        some ⟨t, data, storage⟩ :=
      pipelineNext_mgr cJSONParse senIDs mem (mgrStep_cases hstep) (access_of_reads_none hno)
    exact ⟨k + 1, u, run_cons_eq_some.mpr ⟨_, hfirst, hrun⟩, hacc⟩

theorem overrun_of_inUse {g : Pipeline} (hinv : Inv g.hand) (h : Unterminated g.hand)
    (hused : ¬ g.hand.UsedUp) :
    ∃ (es : List Event) (t : Pipeline) (w : Who),
      run (pipelineNext cJSONParse senIDs mem) g es = some t ∧
      access cJSONParse senIDs t w = .error .unterminated := by
  obtain ⟨w, n, happ, -⟩ := approach_of_not_usedUp (p := byAddress mem) hinv hused
  obtain ⟨k, t, hrun, hacc⟩ := overrun_of_approach cJSONParse senIDs mem h happ
  exact ⟨_, t, w, hrun, hacc⟩

/-- A reception that is not terminated is read by some manager, after the push if no node
was in use before. -/
theorem overrun_of_recv {g : Pipeline} (h : Sound g) {bs : Bytes}
    (hbs : bs.length ≤ osBufferSize) (hreceived : g.hand.received = false)
    (hbad : ¬ RecvTerminated g (.recv bs)) :
    ∃ (es : List Event) (t : Pipeline) (w : Who),
      run (pipelineNext cJSONParse senIDs mem) g (.recv bs :: es) = some t ∧
      access cJSONParse senIDs t w = .error .unterminated := by
  let received : State := { g.hand with buf := recv g.hand.buf bs, received := true }
  have hunterminated : Unterminated received := by
    refine ⟨fun hmem => hbad (List.mem_append.mp hmem), fun w => ?_⟩
    rw [recv_length h.buf hbs]
    exact h.oldMsg w
  have hrecv : pipelineNext cJSONParse senIDs mem g (.recv bs) =
      some { g with hand := received } := pipelineNext_recv cJSONParse senIDs mem bs hreceived
  have hinv : Inv received := next_inv h.inv (pipelineNext_cases hrecv).1
  by_cases hused : g.hand.UsedUp
  · -- `connection_mgr` pushes the node that is then read.
    have hpush : pipelineNext cJSONParse senIDs mem { g with hand := received } (.push true) =
        some { g with hand := received.listPush (byAddress mem) true } :=
      pipelineNext_push cJSONParse senIDs mem true rfl
    obtain ⟨es, t, w, hrun, hacc⟩ := overrun_of_inUse cJSONParse senIDs mem
      (next_inv hinv (pipelineNext_cases hpush).1)
      ⟨by simpa using hunterminated.zero, by simpa using hunterminated.oldMsg⟩
      (push_inUse (s := received) _ hused.1 h.cap)
    exact ⟨.push true :: es, t, w, run_cons_eq_some.mpr ⟨_, hrecv,
      run_cons_eq_some.mpr ⟨_, hpush, hrun⟩⟩, hacc⟩
  · obtain ⟨es, t, w, hrun, hacc⟩ := overrun_of_inUse cJSONParse senIDs mem
      (g := { g with hand := received }) hinv hunterminated hused
    exact ⟨es, t, w, run_cons_eq_some.mpr ⟨_, hrecv, hrun⟩, hacc⟩

end

instance {α : Type} (c : Checked α) : Decidable (Within c) :=
  match c with
  | .ok _ => isTrue (within_ok _)
  | .error .unterminated => isFalse fun h => h.1 rfl
  | .error .overflow => isFalse fun h => h.2 rfl
  | .error .null | .error .freed | .error .wild | .error .unset | .error .index =>
    isTrue ⟨by simp, by simp⟩

instance (cJSONParse : Bytes → Option Json) (senIDs : Int → Int) (g : Pipeline) :
    (e : Event) → Decidable (NoOverrun cJSONParse senIDs g e)
  | .mgr w => inferInstanceAs (Decidable (Within (access cJSONParse senIDs g w)))
  | .recv _ | .push _ => isTrue trivial

instance : (e : Event) → Decidable (RecvBounded e)
  | .recv bs => inferInstanceAs (Decidable (bs.length ≤ osBufferSize))
  | .push _ | .mgr _ => isTrue trivial

instance (g : Pipeline) : (e : Event) → Decidable (RecvTerminated g e)
  | .recv bs => inferInstanceAs (Decidable (0 ∈ bs ∨ 0 ∈ g.hand.buf.drop bs.length))
  | .push _ | .mgr _ => isTrue trivial

/-- The parser for the first reading of sensor 1. -/
def parseReading : Bytes → Option Json :=
  parseOne reading₁ (messageJson (bytes "2023/11/21 10:00:00") 1 20.5)

/-- The zeroed buffer and records, and the array of the shipped configuration. -/
def shippedStart : Pipeline :=
  Pipeline.init (List.replicate osBufferSize 0) ⟨[], 0, 0⟩ ⟨[], 0, 0⟩

end Gateway
end LinuxPrograming
