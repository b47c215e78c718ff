import LinuxPrograming.Gateway.DataMgr
import LinuxPrograming.Lib.Block

/-!
# The alert pipe

Threads of the parent send lines with `write_to_pipe`, in blocks of `OS_MSG_SIZE` bytes of
which only the first ones are the line.  The child reads `OS_MSG_SIZE` bytes at a time into
`recv_buf`, which it never clears, and appends `strlen(recv_buf)` of them to `gateway.log`.
-/

namespace LinuxPrograming
namespace Gateway
namespace Pipe

open Lib

/-- `char msg[OS_MSG_SIZE]`, `char recv_buf[OS_MSG_SIZE]`. -/
abbrev MsgBuf := Block UInt8 osMsgSize

/-- A formatted line that fits `msg` together with its NUL. -/
structure AlertLine where
  text : Bytes
  short : text.length < osMsgSize
  noNul : 0 ∉ text

/-- `vsprintf(msg, buf, args)` over what the stack held before. -/
def AlertLine.format (line : AlertLine) (stack : MsgBuf) : MsgBuf :=
  stack.store (line.text ++ [0]) (by
    rw [List.length_append, List.length_singleton]
    exact line.short)

/-- Where a thread is in `write_to_pipe`. -/
inductive WriterPc where
  | idle
  | lock (line : AlertLine)
  | format (line : AlertLine)
  | write (line : AlertLine) (msg : MsgBuf)
  | unlock

/-- Where the child is in its loop. -/
inductive ChildPc where
  | read
  | write
  | done
  deriving DecidableEq, Repr

/-- `log` is what the child has appended to `gateway.log`.  `written` records the lines in
the order of their writes. -/
structure State (T : Type) where
  ipcPipeMutex : Option T
  writer : T → WriterPc
  pipe : Bytes
  closed : Bool
  child : ChildPc
  recvBuf : MsgBuf
  log : Bytes
  written : List AlertLine

inductive Event (T : Type) where
  /-- A thread calls `write_to_pipe`. -/
  | call (t : T) (line : AlertLine)
  /-- The next step of a thread; the bytes are those of its stack. -/
  | thread (t : T) (stack : MsgBuf)
  /-- The last write end is closed, with the end of the parent. -/
  | close
  /-- The next step of the child. -/
  | child

variable {T : Type} [DecidableEq T]

def State.setWriter (s : State T) (t : T) (pc : WriterPc) : State T :=
  { s with writer := fun u => if u = t then pc else s.writer u }

/-- The start, with an uninitialised `recv_buf`. -/
def start (recvBuf : MsgBuf) : State T where
  ipcPipeMutex := none
  writer _ := .idle
  pipe := []
  closed := false
  child := .read
  recvBuf := recvBuf
  log := []
  written := []

/-- One step of `write_to_pipe`. -/
def writerStep (s : State T) (t : T) (stack : MsgBuf) : Option (State T) :=
  match s.writer t with
  | .idle => none
  | .lock line =>
    if s.ipcPipeMutex = none then some ({ s with ipcPipeMutex := some t }.setWriter t (.format line))
    else none
  | .format line => some (s.setWriter t (.write line (line.format stack)))
  | .write line msg =>
    some ({ s with pipe := s.pipe ++ msg.1, written := s.written ++ [line] }.setWriter t .unlock)
  | .unlock => some ({ s with ipcPipeMutex := none }.setWriter t .idle)

/-- One step of the child.  `mem` lies behind `recv_buf`. -/
def childStep (mem : Bytes) (s : State T) : Option (State T) :=
  match s.child with
  | .read =>
    if s.pipe = [] then
      if s.closed then some { s with child := .done } else none
    else
      some { s with
        recvBuf := s.recvBuf.store (s.pipe.take osMsgSize) (List.length_take_le _ _)
        pipe := s.pipe.drop osMsgSize
        child := .write }
  | .write => some { s with log := s.log ++ bufStr mem s.recvBuf.1, child := .read }
  | .done => none

def next (mem : Bytes) (s : State T) : Event T → Option (State T)
  | .call t line =>
    match s.closed, s.writer t with
    | false, .idle => some (s.setWriter t (.lock line))
    | _, _ => none
  | .thread t stack => if s.closed then none else writerStep s t stack
  | .close => if s.closed then none else some { s with closed := true }
  | .child => childStep mem s

/-! ## The invariant -/

/-- A block that carries a line. -/
def Carries (b : MsgBuf) (line : AlertLine) : Prop := 0 ∈ b.1 ∧ cStr b.1 = line.text

theorem format_carries (line : AlertLine) (stack : MsgBuf) :
    Carries (line.format stack) line := by
  have hval : (line.format stack).1 =
      line.text ++ ([0] ++ stack.1.drop (line.text ++ [0]).length) := by
    show (line.text ++ [0]) ++ _ = _
    rw [List.append_assoc]
  constructor
  · rw [hval]
    simp
  · rw [hval, cStr_append line.noNul, List.singleton_append, cStr_cons, if_pos rfl,
      List.append_nil]

theorem Carries.bufStr_eq {b : MsgBuf} {line : AlertLine} (h : Carries b line) (mem : Bytes) :
    bufStr mem b.1 = line.text := by
  rw [bufStr, cStr_append_of_mem h.1, h.2]

/-- The texts of some lines, one after the other. -/
def texts (lines : List AlertLine) : Bytes := (lines.map (·.text)).flatten

theorem texts_append (as bs : List AlertLine) : texts (as ++ bs) = texts as ++ texts bs := by
  rw [texts, List.map_append, List.flatten_append]
  rfl

theorem texts_singleton (line : AlertLine) : texts [line] = line.text := List.append_nil _

/-- The blocks in the pipe carry the last lines written, in order.  The line before them is
the one in `recv_buf` while the child has not logged it, and the log has all others. -/
structure Inv (s : State T) (logged inHand inPipe : List AlertLine) (blocks : List MsgBuf) :
    Prop where
  written : s.written = logged ++ inHand ++ inPipe
  log : s.log = texts logged
  pipe : s.pipe = Block.stream blocks
  carries : List.Forall₂ Carries blocks inPipe
  reading : s.child ≠ .write → inHand = []
  logging : s.child = .write → ∃ line, inHand = [line] ∧ Carries s.recvBuf line
  done : s.child = .done → inPipe = [] ∧ s.closed = true
  writers : ∀ t line msg, s.writer t = .write line msg → Carries msg line

variable {s : State T} {logged inHand inPipe : List AlertLine} {blocks : List MsgBuf}

omit [DecidableEq T] in
theorem start_inv (recvBuf : MsgBuf) : Inv (start recvBuf : State T) [] [] [] [] where
  written := rfl
  log := rfl
  pipe := rfl
  carries := .nil
  reading _ := rfl
  logging h := absurd h (by simp [start])
  done h := absurd h (by simp [start])
  writers t line msg h := absurd h (by simp [start])

theorem writers_setWriter {t : T} {pc : WriterPc}
    (h : ∀ u line msg, s.writer u = .write line msg → Carries msg line)
    (hpc : ∀ line msg, pc = .write line msg → Carries msg line) (u : T) (line : AlertLine)
    (msg : MsgBuf) (hu : (s.setWriter t pc).writer u = .write line msg) : Carries msg line := by
  have hcase : (if u = t then pc else s.writer u) = .write line msg := hu
  by_cases hut : u = t
  · rw [if_pos hut] at hcase
    exact hpc line msg hcase
  · rw [if_neg hut] at hcase
    exact h u line msg hcase

/-- A step of a thread that leaves the pipe alone. -/
theorem Inv.setWriter (h : Inv s logged inHand inPipe blocks) {t : T} {pc : WriterPc}
    (hpc : ∀ line msg, pc = .write line msg → Carries msg line) (mutex : Option T) :
    Inv ({ s with ipcPipeMutex := mutex }.setWriter t pc) logged inHand inPipe blocks :=
  ⟨h.written, h.log, h.pipe, h.carries, h.reading, h.logging, h.done,
    writers_setWriter h.writers hpc⟩

theorem Inv.write (h : Inv s logged inHand inPipe blocks) (hopen : s.closed = false) {t : T}
    {line : AlertLine} {msg : MsgBuf} (hcarries : Carries msg line) :
    Inv ({ s with pipe := s.pipe ++ msg.1, written := s.written ++ [line] }.setWriter t .unlock)
      logged inHand (inPipe ++ [line]) (blocks ++ [msg]) where
  written := by
    show s.written ++ [line] = _
    rw [h.written, List.append_assoc]
  log := h.log
  pipe := by
    show s.pipe ++ msg.1 = _
    rw [h.pipe, Block.stream_append, Block.stream_singleton]
  carries := List.rel_append h.carries (.cons hcarries .nil)
  reading := h.reading
  logging := h.logging
  done hchild := by
    have hclosed := (h.done hchild).2
    rw [hopen] at hclosed
    exact absurd hclosed (by decide)
  writers := writers_setWriter (s := { s with
    pipe := s.pipe ++ msg.1, written := s.written ++ [line] }) h.writers (by simp)

theorem writerStep_inv (h : Inv s logged inHand inPipe blocks) (hopen : s.closed = false)
    {t : T} {stack : MsgBuf} {u : State T} (hstep : writerStep s t stack = some u) :
    ∃ inPipe' blocks', Inv u logged inHand inPipe' blocks' := by
  rw [writerStep] at hstep
  split at hstep
  case h_1 => exact absurd hstep (by simp)
  case h_2 line hpc =>
    split at hstep
    · exact ⟨_, _, Option.some.inj hstep ▸ h.setWriter (by simp) (some t)⟩
    · exact absurd hstep (by simp)
  case h_3 line hpc =>
    refine ⟨_, _, Option.some.inj hstep ▸ h.setWriter (fun line' msg heq => ?_) s.ipcPipeMutex⟩
    obtain ⟨rfl, rfl⟩ := WriterPc.write.inj heq
    exact format_carries line stack
  case h_4 line msg hpc =>
    exact ⟨_, _, Option.some.inj hstep ▸ h.write hopen (h.writers t line msg hpc)⟩
  case h_5 => exact ⟨_, _, Option.some.inj hstep ▸ h.setWriter (by simp) none⟩

omit [DecidableEq T] in
/-- The child takes one whole block out of the pipe. -/
theorem Inv.read (h : Inv s logged inHand inPipe blocks) (hchild : s.child = .read)
    (hpipe : s.pipe ≠ []) :
    ∃ inHand' inPipe' blocks', Inv { s with
      recvBuf := s.recvBuf.store (s.pipe.take osMsgSize) (List.length_take_le _ _)
      pipe := s.pipe.drop osMsgSize
      child := .write } logged inHand' inPipe' blocks' := by
  have hhand : inHand = [] := h.reading (by simp [hchild])
  obtain ⟨hwritten, hlog, hstream, hcarries, -, -, -, hwriters⟩ := h
  cases hcarries with
  | nil => exact absurd hstream hpipe
  | @cons b line bs lines hb hbs =>
    have htake : s.pipe.take osMsgSize = b.1 := by
      rw [hstream]
      exact Block.take_stream_cons b bs
    have hdrop : s.pipe.drop osMsgSize = Block.stream bs := by
      rw [hstream]
      exact Block.drop_stream_cons b bs
    have hstore : s.recvBuf.store (s.pipe.take osMsgSize) (List.length_take_le _ _) = b := by
      simp only [htake]
      exact Block.store_full s.recvBuf b
    refine ⟨[line], lines, bs, ?_, hlog, hdrop, hbs, ?_, ?_, ?_, hwriters⟩
    · show s.written = logged ++ [line] ++ lines
      rw [hwritten, hhand, List.append_nil, List.append_assoc]
      rfl
    · exact fun hne => absurd rfl hne
    · exact fun _ => ⟨line, rfl, hstore ▸ hb⟩
    · exact fun hdone => absurd hdone (by simp)

omit [DecidableEq T] in
theorem Inv.append (h : Inv s logged inHand inPipe blocks) (hchild : s.child = .write)
    (mem : Bytes) :
    ∃ logged', Inv { s with log := s.log ++ bufStr mem s.recvBuf.1, child := .read }
      logged' [] inPipe blocks := by
  obtain ⟨line, rfl, hline⟩ := h.logging hchild
  refine ⟨logged ++ [line], ?_, ?_, h.pipe, h.carries, fun _ => rfl,
    fun hw => absurd hw (by simp), fun hd => absurd hd (by simp), h.writers⟩
  · rw [List.append_nil]
    exact h.written
  · show s.log ++ bufStr mem s.recvBuf.1 = texts (logged ++ [line])
    rw [h.log, hline.bufStr_eq, texts_append, texts_singleton]

omit [DecidableEq T] in
theorem Inv.endOfFile (h : Inv s logged inHand inPipe blocks) (hchild : s.child = .read)
    (hpipe : s.pipe = []) (hclosed : s.closed = true) :
    Inv { s with child := .done } logged inHand inPipe blocks := by
  have hhand : inHand = [] := h.reading (by simp [hchild])
  have hblocks : blocks = [] := (Block.stream_eq_nil_iff (by decide)).mp (h.pipe ▸ hpipe)
  have hempty : inPipe = [] := List.forall₂_nil_left_iff.mp (hblocks ▸ h.carries)
  exact ⟨h.written, h.log, h.pipe, h.carries, fun _ => hhand, fun hw => absurd hw (by simp),
    fun _ => ⟨hempty, hclosed⟩, h.writers⟩

omit [DecidableEq T] in
theorem Inv.close (h : Inv s logged inHand inPipe blocks) :
    Inv { s with closed := true } logged inHand inPipe blocks :=
  ⟨h.written, h.log, h.pipe, h.carries, h.reading, h.logging, fun hd => ⟨(h.done hd).1, rfl⟩,
    h.writers⟩

omit [DecidableEq T] in
theorem childStep_inv (h : Inv s logged inHand inPipe blocks) {mem : Bytes} {u : State T}
    (hstep : childStep mem s = some u) :
    ∃ logged' inHand' inPipe' blocks', Inv u logged' inHand' inPipe' blocks' := by
  rw [childStep] at hstep
  split at hstep
  case h_1 hchild =>
    by_cases hpipe : s.pipe = []
    · rw [if_pos hpipe] at hstep
      split at hstep
      · next hclosed =>
        exact ⟨_, _, _, _, Option.some.inj hstep ▸ h.endOfFile hchild hpipe hclosed⟩
      · exact absurd hstep (by simp)
    · rw [if_neg hpipe] at hstep
      obtain ⟨inHand', inPipe', blocks', hread⟩ := h.read hchild hpipe
      exact ⟨_, inHand', inPipe', blocks', Option.some.inj hstep ▸ hread⟩
  case h_2 hchild =>
    obtain ⟨logged', happend⟩ := h.append hchild mem
    exact ⟨logged', _, _, _, Option.some.inj hstep ▸ happend⟩
  case h_3 => exact absurd hstep (by simp)

theorem next_inv {mem : Bytes} {u : State T} {e : Event T}
    (h : ∃ logged inHand inPipe blocks, Inv s logged inHand inPipe blocks)
    (hstep : next mem s e = some u) :
    ∃ logged inHand inPipe blocks, Inv u logged inHand inPipe blocks := by
  obtain ⟨logged, inHand, inPipe, blocks, h⟩ := h
  cases e with
  | call t line =>
    rw [next] at hstep
    split at hstep
    · exact ⟨_, _, _, _, Option.some.inj hstep ▸ h.setWriter (by simp) s.ipcPipeMutex⟩
    · exact absurd hstep (by simp)
  | thread t stack =>
    rw [next] at hstep
    split at hstep
    · exact absurd hstep (by simp)
    · next hopen =>
      obtain ⟨inPipe', blocks', hinv⟩ := writerStep_inv h (by simpa using hopen) hstep
      exact ⟨_, _, _, _, hinv⟩
  | close =>
    rw [next] at hstep
    split at hstep
    · exact absurd hstep (by simp)
    · exact ⟨_, _, _, _, Option.some.inj hstep ▸ h.close⟩
  | child => exact childStep_inv h hstep

/-- In every run the log is made of the first lines written, whole and in order, and of all
of them once the child has seen the end of file. -/
theorem gatewayLog_eq_prefix (mem : Bytes) (recvBuf : MsgBuf) (es : List (Event T))
    (hrun : run (next mem) (start recvBuf) es = some s) :
    (∃ k, s.log = texts (s.written.take k)) ∧ (s.child = .done → s.log = texts s.written) := by
  have hinv : ∃ logged inHand inPipe blocks, Inv s logged inHand inPipe blocks :=
    run_preserves (fun _ _ _ h hstep => next_inv h hstep)
      ⟨_, _, _, _, start_inv recvBuf⟩ hrun
  obtain ⟨logged, inHand, inPipe, blocks, h⟩ := hinv
  constructor
  · refine ⟨logged.length, ?_⟩
    rw [h.log, h.written, List.append_assoc, List.take_left']
    rfl
  · intro hdone
    have hhand : inHand = [] := h.reading (by simp [hdone])
    rw [h.log, h.written, hhand, (h.done hdone).1, List.append_nil, List.append_nil]

/-- What the buffers hold before they are written: no NUL. -/
def garbage : MsgBuf := ⟨List.replicate osMsgSize 120, List.length_replicate⟩

def hot : AlertLine := ⟨bytes "hot\n", by decide, by decide⟩

def cold : AlertLine := ⟨bytes "too cold\n", by decide, by decide⟩

/-- Two threads send a line each, and the shorter one comes into `recv_buf` behind the longer
one. -/
def twoLines : List (Event Bool) :=
  [.call false hot, .call true cold] ++ List.replicate 3 (.thread true garbage) ++ [.child] ++
    [.thread true garbage] ++ List.replicate 2 (.thread false garbage) ++ [.child] ++
    List.replicate 2 (.thread false garbage) ++ [.close] ++ List.replicate 3 .child

theorem gatewayLog_eq_prefix_two :
    ∃ s, run (next (bytes "xx")) (start garbage) twoLines = some s ∧ s.written = [cold, hot] ∧
      s.child = .done ∧ s.log = texts [cold, hot] := by
  have hrun : ∃ s, run (next (bytes "xx")) (start garbage) twoLines = some s ∧
      s.child = .done ∧ s.written = [cold, hot] := ⟨_, rfl, rfl, rfl⟩
  obtain ⟨s, hs, hdone, hwritten⟩ := hrun
  obtain ⟨-, hall⟩ := gatewayLog_eq_prefix (bytes "xx") garbage _ hs
  have hlog := hall hdone
  rw [hwritten] at hlog
  exact ⟨s, hs, hwritten, hdone, hlog⟩

end Pipe
end Gateway
end LinuxPrograming
