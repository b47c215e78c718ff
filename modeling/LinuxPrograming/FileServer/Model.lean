import LinuxPrograming.Lib.Bytes
import LinuxPrograming.Lib.CInt
import LinuxPrograming.Lib.Run
import Mathlib.Logic.Function.Basic

/-!
# The file server over message queues

Clients put requests into the server's queue.  The server takes them out one by one and forks a
child for each, which sends the file to the queue of the client.  One event is one step of one
process, and any process may come next.  Apart from `open`, no call fails.
-/

namespace LinuxPrograming
namespace FileServer

open Lib

def pathMax : Nat := 4096
/-- `RESP_MSG_SIZE`. -/
def respMsgSize : Nat := 8192
/-- `REQ_MSG_SIZE`: the queue's identifier and the pathname. -/
def reqMsgSize : Nat := 4 + pathMax

/-- `struct requestMsg`. -/
structure RequestMsg where
  mtype : Nat
  clientId : Nat
  pathname : Bytes
  deriving DecidableEq, Repr

inductive TypeMsg where
  | failure
  | data
  | finish
  deriving DecidableEq, Repr

/-- `struct responseMsg` with as many bytes of `data` as the message carries. -/
structure ResponseMsg where
  mtype : TypeMsg
  data : Bytes
  deriving DecidableEq, Repr

/-- What the processes run in.  The clients are the elements of `ι`.  `fits sizes n` says that
`msgsnd` of `n` bytes does not block on a queue whose messages have these sizes. -/
structure Setting (ι : Type) where
  path : ι → Bytes
  plain : ∀ i, 0 ∉ path i ∧ (path i).length < pathMax
  /-- The identifier of the queue that the client creates; the kernel gives none twice. -/
  clientId : ι → Nat
  injective : Function.Injective clientId
  /-- What `open` finds. -/
  files : Bytes → Option Bytes
  fits : List Nat → Nat → Bool
  fits_nil : ∀ n ≤ respMsgSize, fits [] n = true

/-- What a child does next.  `rest` is the file from the current offset on. -/
inductive Stage where
  | opening
  | reading (rest : Bytes)
  | sending (data rest : Bytes)
  | ending
  | failing
  deriving DecidableEq, Repr

/-- A child in `serveRequest(&req)`. -/
structure Child where
  req : RequestMsg
  stage : Stage
  deriving DecidableEq, Repr

/-- Where a client is in `main`: before `msgget`, before `msgsnd`, at the first `msgrcv`, at the
`msgrcv` of the loop, behind the loop, or in the branch of a failure with the text it prints. -/
inductive Phase where
  | start
  | requesting
  | waiting
  | loop (totBytes : Nat) (numMsgs : Int)
  | left (totBytes : Nat) (numMsgs : Int)
  | failed (text : Bytes)
  deriving DecidableEq, Repr

/-- A client, with the messages it has received as a record of its run. -/
structure Client where
  phase : Phase
  received : List ResponseMsg
  deriving DecidableEq, Repr

structure State (ι : Type) where
  /-- The queue of the server. -/
  server : List RequestMsg
  /-- The request that the server has received and not yet forked for. -/
  req : Option RequestMsg
  children : List Child
  /-- The queues of the clients, `none` for one that does not exist. -/
  queue : Nat → Option (List ResponseMsg)
  client : ι → Client

def init (ι : Type) : State ι where
  server := []
  req := none
  children := []
  queue := fun _ => none
  client := fun _ => ⟨.start, []⟩

/-! ## The client -/

/-- `strncpy(req.pathname, path, sizeof(req.pathname) - 1)` and the NUL behind. -/
def pathnameField (path : Bytes) : Bytes :=
  (path ++ List.replicate (pathMax - 1 - path.length) 0).take (pathMax - 1) ++ [0]

variable {ι : Type}

def Setting.request (S : Setting ι) (i : ι) : RequestMsg where
  mtype := 1
  clientId := S.clientId i
  pathname := pathnameField (S.path i)

/-- The test of the loop. -/
def Phase.test (mtype : TypeMsg) (totBytes : Nat) (numMsgs : Int) : Phase :=
  if mtype = .data then .loop totBytes numMsgs else .left totBytes numMsgs

/-- A client receives `resp`.  A file is no longer than an `off_t` can say, so `totBytes` does
not overflow; `numMsgs` is an `int`. -/
def Phase.receive (p : Phase) (resp : ResponseMsg) : Phase :=
  match p with
  | .waiting =>
    if resp.mtype = .failure then .failed resp.data else .test resp.mtype resp.data.length 1
  | .loop totBytes numMsgs =>
    .test resp.mtype (totBytes + resp.data.length) (toInt (numMsgs + 1))
  | p => p

/-- At a `msgrcv`. -/
def Phase.receiving : Phase → Bool
  | .waiting | .loop _ _ => true
  | _ => false

/-- Behind the last `msgrcv`. -/
def Phase.finished : Phase → Bool
  | .left _ _ | .failed _ => true
  | _ => false

def Client.receive (c : Client) (resp : ResponseMsg) : Client where
  phase := c.phase.receive resp
  received := c.received ++ [resp]

/-! ## The child -/

def couldntOpen : Bytes := bytes "Couldn't open" ++ [0]

/-- `open(req->pathname, O_RDONLY)`. -/
def Setting.openStage (S : Setting ι) (req : RequestMsg) : Stage :=
  match S.files (cStr req.pathname) with
  | some file => .reading file
  | none => .failing

/-- `read` of `count` bytes, none of them only at the end of the file. -/
def readStage (rest : Bytes) (count : Nat) : Option Stage :=
  if count = 0 then if rest = [] then some .ending else none
  else if count ≤ respMsgSize ∧ count ≤ rest.length then
    some (.sending (rest.take count) (rest.drop count))
  else none

/-- The message that a child sends next, and where it is behind `msgsnd`; `none` when it
exits. -/
def Stage.post : Stage → Option (ResponseMsg × Option Stage)
  | .sending data rest => some (⟨.data, data⟩, some (.reading rest))
  | .ending => some (⟨.finish, []⟩, none)
  | .failing => some (⟨.failure, couldntOpen⟩, none)
  | _ => none

/-! ## The system -/

inductive Event (ι : Type) where
  /-- The client creates its queue. -/
  | msgget (i : ι)
  /-- The client sends its request. -/
  | request (i : ι)
  /-- The client receives a message. -/
  | receive (i : ι)
  /-- The client exits and removes its queue. -/
  | exit (i : ι)
  /-- The server receives a request. -/
  | serve
  | fork
  /-- The child with number `k` opens its file. -/
  | openFile (k : Nat)
  | read (k count : Nat)
  | send (k : Nat)
  deriving DecidableEq, Repr

/-- `msgsnd` to the queue `id`. -/
def msgsnd (S : Setting ι) (s : State ι) (id : Nat) (resp : ResponseMsg) :
    Option (Nat → Option (List ResponseMsg)) :=
  match s.queue id with
  | none => none
  | some msgs =>
    if S.fits (msgs.map (·.data.length)) resp.data.length then
      some (Function.update s.queue id (some (msgs ++ [resp])))
    else none

section

variable [DecidableEq ι] (S : Setting ι) (s : State ι)

def clientMsgget (i : ι) : Option (State ι) :=
  if (s.client i).phase = .start then
    some { s with
      queue := Function.update s.queue (S.clientId i) (some [])
      client := Function.update s.client i { s.client i with phase := .requesting } }
  else none

def clientRequest (i : ι) : Option (State ι) :=
  if (s.client i).phase = .requesting ∧
      S.fits (s.server.map fun _ => reqMsgSize) reqMsgSize = true then
    some { s with
      server := s.server ++ [S.request i]
      client := Function.update s.client i { s.client i with phase := .waiting } }
  else none

def clientReceive (i : ι) : Option (State ι) :=
  if (s.client i).phase.receiving = true then
    match s.queue (S.clientId i) with
    | some (resp :: rest) =>
      some { s with
        queue := Function.update s.queue (S.clientId i) (some rest)
        client := Function.update s.client i ((s.client i).receive resp) }
    | _ => none
  else none

/-- `removeQueue` at the exit.  In the branch of a failure the queue is removed before as well,
and the second `msgctl` finds none. -/
def clientExit (i : ι) : Option (State ι) :=
  if (s.client i).phase.finished = true ∧ (s.queue (S.clientId i)).isSome = true then
    some { s with queue := Function.update s.queue (S.clientId i) none }
  else none

omit [DecidableEq ι]

def serve : Option (State ι) :=
  match s.req, s.server with
  | none, req :: server => some { s with server := server, req := some req }
  | _, _ => none

def fork : Option (State ι) :=
  match s.req with
  | some req => some { s with req := none, children := s.children ++ [⟨req, .opening⟩] }
  | none => none

def childOpen (k : Nat) : Option (State ι) :=
  match s.children[k]? with
  | some ⟨req, .opening⟩ =>
    some { s with children := s.children.set k ⟨req, S.openStage req⟩ }
  | _ => none

def childRead (k count : Nat) : Option (State ι) :=
  match s.children[k]? with
  | some ⟨req, .reading rest⟩ =>
    (readStage rest count).map fun stage =>
      { s with children := s.children.set k ⟨req, stage⟩ }
  | _ => none

def childSend (k : Nat) : Option (State ι) :=
  match s.children[k]? with
  | some c =>
    c.stage.post.bind fun p =>
      (msgsnd S s c.req.clientId p.1).map fun queue =>
        { s with
          queue := queue
          children := match p.2 with
            | some stage => s.children.set k ⟨c.req, stage⟩
            | none => s.children.eraseIdx k }
  | none => none

end

/-- One step of one process. -/
def next [DecidableEq ι] (S : Setting ι) (s : State ι) : Event ι → Option (State ι)
  | .msgget i => clientMsgget S s i
  | .request i => clientRequest S s i
  | .receive i => clientReceive S s i
  | .exit i => clientExit S s i
  | .serve => serve s
  | .fork => fork s
  | .openFile k => childOpen S s k
  | .read k count => childRead s k count
  | .send k => childSend S s k

end FileServer
end LinuxPrograming
