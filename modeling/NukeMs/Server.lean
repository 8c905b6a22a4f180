import Mathlib.Logic.Function.Basic
import Mathlib.Logic.Function.Iterate
import NukeMs.Asio
import NukeMs.NearTypes
import NukeMs.ReceiveHeader
import NukeMs.ReferenceCounter

/-!
The broadcast server: `remotepeer.cpp`, `dispatcher.cpp` and `servevent.hpp`.
A step is one handler that `io_service.run()` invokes. The trace records what
the handlers do to the counters, the sockets and the list of peers.
-/

namespace NukeMs.Server

open SegmentationLayerBase

structure Peer where
  connectionId : ℤ
  headerBuffer : List Byte
  errorHappened : Bool
  referenceCount : Unsigned
  socketOpen : Bool
  pending : List Operation
  destroyed : Bool

inductive ServerEvent
  | msgReceived (connectionId : ℤ) (parm : SegmentationLayer SerializedData)
  | connectionError (connectionId : ℤ) (parm : String)
  | canDelete (connectionId : ℤ)

def ServerEvent.connectionId : ServerEvent → ℤ
  | .msgReceived id _ | .connectionError id _ | .canDelete id => id

inductive Status
  | running
  | stopped
  | threw (e : Exn)
  | undefined
  deriving DecidableEq

inductive Item
  | handler (u : ℕ)
  | lock (u : ℕ)
  | increment (u : ℕ)
  | decrement (u : ℕ) (before : Unsigned)
  | action (u : ℕ)
  | readCount (u : ℕ)
  | unlock (u : ℕ)
  | posted (u : ℕ) (evt : ServerEvent)
  | received (u : ℕ) (packet : List Byte)
  | asyncWrite (u : ℕ) (buffer : List Byte)
  | listed (u : ℕ)
  | erased (u : ℕ)
  | overwritten (u : ℕ)
  | distributeBegin
  | distributeEnd

end Server

open Server in
/-- The peers are numbered in the order in which they were accepted; `peersList` maps a connection
id to the number of the peer that the entry owns. -/
structure DispatchingServer where
  peer : ℕ → Peer
  created : ℕ
  peersList : Std.TreeMap ℤ ℕ compare
  currentConnId : ℤ
  accepting : Bool
  status : Status
  trace : List Item

namespace Server

open SegmentationLayerBase

abbrev noPeer : Peer := ⟨0, [], false, 0, false, [], true⟩

def init : DispatchingServer := ⟨fun _ => noPeer, 0, ∅, 0, true, .running, []⟩

def modify (u : ℕ) (f : Peer → Peer) (s : DispatchingServer) : DispatchingServer :=
  { s with peer := Function.update s.peer u (f (s.peer u)) }

def log (items : List Item) (s : DispatchingServer) : DispatchingServer :=
  { s with trace := s.trace ++ items }

/-- The branch for `ID_CAN_DELETE`: the entry owns the peer, so erasing it destroys the peer. -/
def eraseEntry (id : ℤ) (s : DispatchingServer) : DispatchingServer :=
  match s.peersList[id]? with
  | none => s
  | some v =>
    log [.erased v] (modify v (fun p => { p with destroyed := true })
      { s with peersList := s.peersList.erase id })

def increaseRefCount (u : ℕ) (s : DispatchingServer) : DispatchingServer :=
  log [.lock u, .increment u, .unlock u]
    (modify u (fun p => { p with referenceCount := ReferenceCounter.increase p.referenceCount }) s)

def canDelete (u : ℕ) (s : DispatchingServer) : DispatchingServer :=
  -- the callback gets the event while the counter is still locked
  if (s.peer u).referenceCount = 0 then
    let id := (s.peer u).connectionId
    eraseEntry id (log [.posted u (.canDelete id)] s)
  else s

def decreaseRefCount (u : ℕ) (s : DispatchingServer) : DispatchingServer :=
  let s := log [.lock u, .decrement u (s.peer u).referenceCount]
    (modify u (fun p => { p with referenceCount := ReferenceCounter.decrease p.referenceCount }) s)
  let s := if (s.peer u).referenceCount = 0 then canDelete u (log [.action u] s) else s
  -- the assertion reads the counter, then the scoped lock is released
  log [.readCount u, .unlock u] s

section
variable [HandlerCopies]

def startOperation (u : ℕ) (op : Operation) (s : DispatchingServer) : DispatchingServer :=
  let s := (increaseRefCount u)^[HandlerCopies.starting + 1] s
  (decreaseRefCount u)^[HandlerCopies.starting]
    (modify u (fun p => { p with pending := p.pending ++ [op] }) s)

def startReceive (u : ℕ) (s : DispatchingServer) : DispatchingServer :=
  startOperation u .readHeader s

variable [Host]

def sendMessage (msg : SegmentationLayer SerializedData) (u : ℕ) (s : DispatchingServer) :
    DispatchingServer :=
  let data := serializedBuffer msg
  startOperation u (.write data) (log [.asyncWrite u data] s)

def sendToEntry (msg : SegmentationLayer SerializedData) (s : DispatchingServer) (id : ℤ) :
    DispatchingServer :=
  match s.peersList[id]? with
  | none => s
  | some v => sendMessage msg v s

def distributeMessage (msg : SegmentationLayer SerializedData) (s : DispatchingServer) :
    DispatchingServer :=
  let ids := s.peersList.keys
  let t := log [.distributeEnd] (ids.foldl (sendToEntry msg) (log [.distributeBegin] s))
  -- an entry that has been erased on the way has taken the iterator with it
  { t with status := if ids.all (fun id => t.peersList.contains id) then t.status else .undefined }

def shutdownConnection (u : ℕ) (s : DispatchingServer) : DispatchingServer :=
  modify u (fun p => { p with socketOpen := false }) s

def handleServerEvent (evt : ServerEvent) (s : DispatchingServer) : DispatchingServer :=
  match s.peersList[evt.connectionId]? with
  | none => s
  | some v =>
    match evt with
    | .msgReceived _ parm => distributeMessage parm s
    | .connectionError _ _ => shutdownConnection v s
    | .canDelete id => eraseEntry id s

def postError (errmsg : String) (u : ℕ) (s : DispatchingServer) : DispatchingServer :=
  if (s.peer u).errorHappened then s
  else
    let evt := .connectionError (s.peer u).connectionId errmsg
    modify u (fun p => { p with errorHappened := true })
      (handleServerEvent evt (log [.posted u evt] s))

def sendHandler (result : Completion) (u : ℕ) (s : DispatchingServer) : DispatchingServer :=
  match result with
  | .ok _ => s
  | .error error => postError error.message u s

def rcvHeaderHandler (result : Completion) (u : ℕ) (s : DispatchingServer) : DispatchingServer :=
  match result with
  | .error error => postError error.message u s
  | .ok _ =>
    match admitHeader .invalidHeaderError (s.peer u).headerBuffer with
    | .ok body => startOperation u (.readBody body.length) s
    -- the clause names `InvalidHeaderError` only; anything else leaves `io_service.run()`
    | .error e => if e = .invalidHeaderError then postError e.what u s else { s with status := .threw e }

def rcvBodyHandler (result : Completion) (u : ℕ) (s : DispatchingServer) : DispatchingServer :=
  match result with
  | .error error => postError error.message u s
  | .ok body =>
    let evt := .msgReceived (s.peer u).connectionId ⟨SerializedData.ofBlock body⟩
    let s := log [.received u ((s.peer u).headerBuffer ++ body), .posted u evt] s
    startReceive u (handleServerEvent evt s)

def runHandler (op : Operation) (result : Completion) (u : ℕ) (s : DispatchingServer) :
    DispatchingServer :=
  match op with
  | .readHeader => rcvHeaderHandler result u s
  | .readBody _ => rcvBodyHandler result u s
  | .write _ => sendHandler result u s

def invoke (op : Operation) (result : Completion) (u : ℕ) (s : DispatchingServer) :
    DispatchingServer :=
  let s := (increaseRefCount u)^[HandlerCopies.calling] (log [.handler u] s)
  (decreaseRefCount u)^[HandlerCopies.calling + 1] (runHandler op result u s)

def Peer.taken (i : ℕ) (op : Operation) (result : Completion) (p : Peer) : Peer :=
  -- the operation leaves the queue; a header read has put its bytes into `header_buffer`
  { p with
    pending := p.pending.eraseIdx i
    headerBuffer := match op, result with
      | .readHeader, .ok bytes => bytes
      | _, _ => p.headerBuffer }

def getNextConnectionId (s : DispatchingServer) : ℤ := (s.currentConnId + 1).bmod (2 ^ 32)

def putEntry (id : ℤ) (u : ℕ) (s : DispatchingServer) : DispatchingServer :=
  -- assigning to an entry that exists destroys the peer that it owned
  let s := match s.peersList[id]? with
    | none => s
    | some v => log [.overwritten v] (modify v (fun p => { p with destroyed := true }) s)
  log [.listed u] { s with peersList := s.peersList.insert id u }

def acceptHandler (error : Option ErrorCode) (s : DispatchingServer) : DispatchingServer :=
  match error with
  | some _ => { s with accepting := false, status := .stopped }
  | none =>
    let u := s.created
    let id := getNextConnectionId s
    let s := { s with created := u + 1, currentConnId := id }
    let s := modify u (fun _ => ⟨id, List.replicate headerLength 0, false, 0, true, [], false⟩) s
    putEntry id u (startReceive u s)

inductive Input
  | accepted (error : Option ErrorCode)
  | completed (u i : ℕ) (result : Completion)

/-- The handler of an accept, or of the operation at place `i` of peer `u`. -/
def step (s : DispatchingServer) : Input → Option DispatchingServer
  | .accepted error =>
    if s.status = .running ∧ s.accepting then some (acceptHandler error s) else none
  | .completed u i result =>
    match (s.peer u).pending[i]? with
    | none => none
    | some op =>
      if s.status = .running ∧ op.admits result then
        if (s.peer u).destroyed then some (log [.handler u] { s with status := .undefined })
        else some (invoke op result u (modify u (Peer.taken i op result) s))
      else none

end

end Server

end NukeMs
