import NukeMs.Asio
import NukeMs.NearTypes
import NukeMs.ReceiveHeader

/-!
The client: `clientnode.cpp`, `sigtypes.hpp` and the state machine of
`statemachine.cpp`. A step is one call of the application, the completion of an
operation by the operating system, or the handler of a completed operation. The
effects record what a step does to the application, the machine and the socket.
-/

namespace NukeMs.Client

open SegmentationLayerBase

inductive MachineState
  | waiting
  | negotiating
  | connected
  deriving DecidableEq

inductive ConnectState
  | disconnected
  | connecting
  | connected
  deriving DecidableEq

inductive StatechangeReason
  | noReason
  | internalError
  | connectSuccessful
  | connectFailed
  | socketClosed
  | userRequested
  | busy
  deriving DecidableEq

structure ConnectionStatusReport where
  newstate : ConnectState
  statechangeReason : StatechangeReason
  msg : String
  deriving DecidableEq

inductive SendReportReason
  | sendOk
  | serverNotConnected
  | connectionError
  deriving DecidableEq

structure SendReport where
  messageId : Uint4b
  sendState : Bool
  reason : SendReportReason
  reasonStr : String
  deriving DecidableEq

structure Endpoint where
  address : String
  port : ℕ
  deriving DecidableEq

inductive OpKind
  | resolve (host service : List Char)
  | connect (endpoint : Endpoint) (rest : List Endpoint)
  | readHeader
  | readBody (size : ℕ)
  | write (buffer : List Byte)
  deriving DecidableEq

structure Outcome where
  error : Option ErrorCode
  endpoints : List Endpoint
  bytes : List Byte

namespace OpKind

def admits (kind : OpKind) (outcome : Outcome) : Bool :=
  match kind with
  | .resolve _ _ => outcome.bytes = []
  | .connect _ _ | .write _ => outcome.endpoints = [] && outcome.bytes = []
  | .readHeader =>
    outcome.endpoints = [] && (outcome.error.isSome || outcome.bytes.length = headerLength)
  | .readBody size => outcome.endpoints = [] && (outcome.error.isSome || outcome.bytes.length = size)

def onSocket : OpKind → Bool
  | .resolve _ _ => false
  | _ => true

end OpKind

/-- An operation whose handler has not run, under the number of the connection attempt that it
belongs to. It has an outcome once the operating system is done with it. -/
structure Op where
  attempt : ℕ
  kind : OpKind
  outcome : Option Outcome

inductive Effect
  | connectStatReport (rprt : ConnectionStatusReport)
  | sendReport (rprt : SendReport)
  | rcvMessage (usermsg : NearUserMessage)
  | transit (state : MachineState)
  | close
  | start (attempt : ℕ) (kind : OpKind)
  | resolved (attempt : ℕ) (endpoints : List Endpoint)
  | handedUp (payload : List Byte)

inductive ThreadStart
  | started
  | threw (what : String)
  | threwUnknown

def ThreadStart.errmsg : ThreadStart → Option String
  | .started => none
  | .threw what => some ("Internal error:" ++ what)
  | .threwUnknown => some "Unknown internal Error"

inductive Event
  | connectRequest (host service : List Char) (thread : ThreadStart)
  | connectReport (success : Bool) (message : String)
  | disconnectRequest
  | disconnected (msg : String)
  | sendMsg (data : NearUserMessage)
  | rcvdMessage (data : SegmentationLayer SerializedData)

end Client

open Client in
/-- `attempt` counts the connection requests that have left `StateWaiting`. -/
structure ClientNode where
  state : MachineState
  pending : List Op
  lastMsgId : Uint4b
  attempt : ℕ
  faulted : Bool
  effects : List Effect

namespace Client

open SegmentationLayerBase

def emit (effect : Effect) (c : ClientNode) : ClientNode := { c with effects := c.effects ++ [effect] }

def start (attempt : ℕ) (kind : OpKind) (c : ClientNode) : ClientNode :=
  emit (.start attempt kind) { c with pending := c.pending ++ [⟨attempt, kind, none⟩] }

def operationAborted : Outcome := ⟨some ⟨true, "Operation canceled"⟩, [], []⟩

def Op.abort (op : Op) : Op :=
  if op.kind.onSocket && op.outcome.isNone then { op with outcome := some operationAborted } else op

def closeSocket (c : ClientNode) : ClientNode :=
  emit .close { c with pending := c.pending.map Op.abort }

/-- The `io_service` is stopped and reset, which leaves the handlers queued for its next run. -/
def stopIOOperations (c : ClientNode) : ClientNode := closeSocket c

def transit (state : MachineState) (c : ClientNode) : ClientNode :=
  emit (.transit state) { c with state := state }

def enterWaiting (c : ClientNode) : ClientNode := stopIOOperations (transit .waiting c)

def init : ClientNode := enterWaiting ⟨.waiting, [], 0, 0, false, []⟩

def report (newstate : ConnectState) (reason : StatechangeReason) (msg : String) (c : ClientNode) :
    ClientNode :=
  emit (.connectStatReport ⟨newstate, reason, msg⟩) c

def sendReport (sendState : Bool) (reason : SendReportReason) (reasonStr : String) (c : ClientNode) :
    ClientNode :=
  -- `message_id` is left as `make_shared` has initialised it
  emit (.sendReport ⟨0, sendState, reason, reasonStr⟩) c

namespace StateNegotiating

def reactConnectReport (success : Bool) (message : String) (c : ClientNode) : ClientNode :=
  if success then transit .connected (report .connected .userRequested message c)
  else enterWaiting (report .disconnected .connectFailed message c)

def reactDisconnectRequest (c : ClientNode) : ClientNode :=
  enterWaiting (report .disconnected .userRequested "" c)

def reactConnectRequest (c : ClientNode) : ClientNode :=
  report .connecting .busy "Currently trying to connect" c

end StateNegotiating

namespace StateWaiting

def reactConnectRequest (host service : List Char) (thread : ThreadStart) (c : ClientNode) :
    ClientNode :=
  -- when the thread does not start, a report is posted and processed in the new state
  let attempt := c.attempt + 1
  let c := start attempt (.resolve host service) { c with attempt := attempt }
  let c := transit .negotiating c
  match thread.errmsg with
  | none => c
  | some errmsg => StateNegotiating.reactConnectReport false errmsg c

end StateWaiting

namespace StateConnected

def reactDisconnectRequest (c : ClientNode) : ClientNode :=
  enterWaiting (report .disconnected .userRequested "" c)

def reactDisconnected (msg : String) (c : ClientNode) : ClientNode :=
  enterWaiting (report .disconnected .socketClosed msg c)

def reactConnectRequest (c : ClientNode) : ClientNode :=
  report .connected .busy "Allready connected" c

section
variable [Host]

def reactSendMsg (data : NearUserMessage) (c : ClientNode) : ClientNode :=
  start c.attempt (.write (serializedBuffer (SegmentationLayer.mk data))) c

def reactRcvdMessage (data : SegmentationLayer SerializedData) (c : ClientNode) : ClientNode :=
  -- `*data.begin()` on a packet without a body reads past the end of the vector
  let data := data.innerLayer
  match data.memblock[data.beginIt]? with
  | none => { c with faulted := true }
  | some layerId =>
    if layerId = NearUserMessage.layerId then
      match NearUserMessage.ofSerializedData data with
      | .ok usermsg => emit (.rcvMessage usermsg) c
      | .error _ => c
    else c

end

end StateConnected

section
variable [Host]

def processEvent (evt : Event) (c : ClientNode) : ClientNode :=
  match c.state, evt with
  | .waiting, .connectRequest host service thread =>
    StateWaiting.reactConnectRequest host service thread c
  | .waiting, .sendMsg _ => sendReport false .serverNotConnected "Not Connected." c
  | .negotiating, .connectReport success message =>
    StateNegotiating.reactConnectReport success message c
  | .negotiating, .disconnectRequest => StateNegotiating.reactDisconnectRequest c
  | .negotiating, .sendMsg _ => sendReport false .serverNotConnected "Not yet Connected." c
  | .negotiating, .connectRequest _ _ _ => StateNegotiating.reactConnectRequest c
  | .connected, .disconnectRequest => StateConnected.reactDisconnectRequest c
  | .connected, .sendMsg data => StateConnected.reactSendMsg data c
  | .connected, .disconnected msg => StateConnected.reactDisconnected msg c
  | .connected, .rcvdMessage data => StateConnected.reactRcvdMessage data c
  | .connected, .connectRequest _ _ _ => StateConnected.reactConnectRequest c
  | _, _ => c

def resolveHandler (attempt : ℕ) (error : Option ErrorCode) (endpoints : List Endpoint)
    (c : ClientNode) : ClientNode :=
  match endpoints, error with
  | [], some error =>
    if error.operationAborted then c else processEvent (.connectReport false error.message) c
  | [], none => processEvent (.connectReport false "No hosts found.") c
  | endpoint :: rest, _ =>
    start attempt (.connect endpoint rest) (emit (.resolved attempt endpoints) c)

def connectHandler (attempt : ℕ) (error : Option ErrorCode) (rest : List Endpoint) (c : ClientNode) :
    ClientNode :=
  match error, rest with
  | none, _ => processEvent (.connectReport true "Connection succeeded.") (start attempt .readHeader c)
  | some _, next :: rest => start attempt (.connect next rest) (closeSocket c)
  | some error, [] =>
    if error.operationAborted then c else processEvent (.connectReport false error.message) c

def writeHandler (error : Option ErrorCode) (c : ClientNode) : ClientNode :=
  match error with
  | none => sendReport true .sendOk "" c
  | some error =>
    processEvent (.disconnected error.message) (sendReport false .connectionError error.message c)

def receiveSegmentationHeaderHandler (attempt : ℕ) (error : Option ErrorCode) (rcvbuf : List Byte)
    (c : ClientNode) : ClientNode :=
  match error with
  | some error =>
    if error.operationAborted then c else processEvent (.disconnected error.message) c
  | none =>
    match admitHeader (.msgLayerError "Oversized packet.") rcvbuf with
    | .ok body => start attempt (.readBody body.length) c
    -- every exception that can come out is a `std::exception`
    | .error e => processEvent (.disconnected e.what) c

def receiveSegmentationBodyHandler (attempt : ℕ) (error : Option ErrorCode) (rcvbuf : List Byte)
    (c : ClientNode) : ClientNode :=
  match error with
  | some error => processEvent (.disconnected error.message) c
  | none =>
    let c := emit (.handedUp rcvbuf) c
    let c := processEvent (.rcvdMessage ⟨SerializedData.ofBlock rcvbuf⟩) c
    if c.faulted then c else start attempt .readHeader c

def runHandler (op : Op) (outcome : Outcome) (c : ClientNode) : ClientNode :=
  match op.kind with
  | .resolve _ _ => resolveHandler op.attempt outcome.error outcome.endpoints c
  | .connect _ rest => connectHandler op.attempt outcome.error rest c
  | .readHeader => receiveSegmentationHeaderHandler op.attempt outcome.error outcome.bytes c
  | .readBody _ => receiveSegmentationBodyHandler op.attempt outcome.error outcome.bytes c
  | .write _ => writeHandler outcome.error c

end

def tokens (token : List Char) : List Char → List (List Char)
  | [] => if token = [] then [] else [token]
  | c :: cs =>
    if c = ' ' then
      if token = [] then tokens [] cs else token :: tokens [] cs
    else tokens (token ++ [c]) cs

def parseDestinationString (dest : List Char) : Option (List Char × List Char) :=
  match tokens [] dest with
  | [host, service] => some (host, service)
  | _ => none

section
variable [Host]

def connectTo (dest : List Char) (thread : ThreadStart) (c : ClientNode) : ClientNode :=
  match parseDestinationString dest with
  | some (host, service) => processEvent (.connectRequest host service thread) c
  | none => report .disconnected .connectFailed "Invalid remote site identifier" c

def disconnect (c : ClientNode) : ClientNode := processEvent .disconnectRequest c

def getNextMessageId (c : ClientNode) : Uint4b := c.lastMsgId + 1

def usermsg (msg : List Byte) (recipient : UniqueUserID) (c : ClientNode) : NearUserMessage :=
  ⟨getNextMessageId c, recipient, UniqueUserID.userIdNone, ⟨msg⟩⟩

def sendUserMessage (msg : List Byte) (recipient : UniqueUserID) (c : ClientNode) : ClientNode :=
  processEvent (.sendMsg (usermsg msg recipient c)) { c with lastMsgId := getNextMessageId c }

inductive Input
  | connectTo (dest : List Char) (thread : ThreadStart)
  | disconnect
  | sendUserMessage (msg : List Byte) (recipient : UniqueUserID)
  | complete (i : ℕ) (outcome : Outcome)
  | handler (i : ℕ)

def step (c : ClientNode) (input : Input) : Option ClientNode :=
  if c.faulted then none
  else match input with
    | .connectTo dest thread => some (connectTo dest thread c)
    | .disconnect => some (disconnect c)
    | .sendUserMessage msg recipient => some (sendUserMessage msg recipient c)
    | .complete i outcome =>
      match c.pending[i]? with
      | none => none
      | some op =>
        if op.outcome.isNone && op.kind.admits outcome then
          some { c with pending := c.pending.set i { op with outcome := some outcome } }
        else none
    | .handler i =>
      match c.pending[i]? with
      | none => none
      | some op =>
        match op.outcome with
        | none => none
        | some outcome => some (runHandler op outcome { c with pending := c.pending.eraseIdx i })

inductive Steps (c : ClientNode) : Input → ClientNode → Prop
  | connectTo (dest : List Char) (thread : ThreadStart) :
    Steps c (.connectTo dest thread) (connectTo dest thread c)
  | disconnect : Steps c .disconnect (disconnect c)
  | sendUserMessage (msg : List Byte) (recipient : UniqueUserID) :
    Steps c (.sendUserMessage msg recipient) (sendUserMessage msg recipient c)
  | complete (i : ℕ) (outcome : Outcome) (op : Op) (hop : c.pending[i]? = some op)
    (hnone : op.outcome = none) (hadm : op.kind.admits outcome = true) :
    Steps c (.complete i outcome)
      { c with pending := c.pending.set i { op with outcome := some outcome } }
  | handler (i : ℕ) (op : Op) (outcome : Outcome) (hop : c.pending[i]? = some op)
    (hsome : op.outcome = some outcome) :
    Steps c (.handler i) (runHandler op outcome { c with pending := c.pending.eraseIdx i })

theorem steps_of_step {c t : ClientNode} {input : Input} (h : step c input = some t) :
    c.faulted = false ∧ Steps c input t := by
  unfold step at h
  split at h
  · cases h
  next hf =>
    refine ⟨by simpa using hf, ?_⟩
    cases input with
    | connectTo dest thread => cases h; exact .connectTo dest thread
    | disconnect => cases h; exact .disconnect
    | sendUserMessage msg recipient => cases h; exact .sendUserMessage msg recipient
    | complete i outcome =>
      dsimp only at h
      split at h
      · cases h
      next op hop =>
        split at h
        next hadm =>
          cases h
          rw [Bool.and_eq_true, Option.isNone_iff_eq_none] at hadm
          exact .complete i outcome op hop hadm.1 hadm.2
        next => cases h
    | handler i =>
      dsimp only at h
      split at h
      · cases h
      next op hop =>
        split at h
        · cases h
        next outcome hsome =>
          cases h
          exact .handler i op outcome hop hsome

end

end Client

end NukeMs
