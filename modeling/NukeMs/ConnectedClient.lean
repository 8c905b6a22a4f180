import NukeMs.Asio
import NukeMs.NearTypes
import NukeMs.ReceiveHeader

/-!
`connected-client.cpp`: a client that is connected to a server node. The handlers
hold weak references; once the owner has dropped the client they do nothing.
-/

namespace NukeMs

open SegmentationLayerBase

inductive Signal
  | receivedMessage (connectionId : ℤ) (data : SerializedData)
  | disconnected (connectionId : ℤ)

structure ConnectedClient where
  connectionId : ℤ
  headerBuffer : List Byte
  pending : List Operation
  signals : List Signal
  written : List (List Byte)
  isShutdown : Bool
  owned : Bool
  escaped : Option Exn

namespace ConnectedClient

def start (op : Operation) (d : ConnectedClient) : ConnectedClient :=
  { d with pending := d.pending ++ [op] }

def signal (sig : Signal) (d : ConnectedClient) : ConnectedClient :=
  { d with signals := d.signals ++ [sig] }

def startReceive (d : ConnectedClient) : ConnectedClient := start .readHeader d

def asyncWrite (data : List Byte) (d : ConnectedClient) : ConnectedClient :=
  start (.write data) { d with written := d.written ++ [data] }

def sendPacket {α : Type} [Host] [BasicMessageLayer α] (packet : SegmentationLayer α)
    (d : ConnectedClient) : ConnectedClient :=
  asyncWrite (serializedBuffer packet) d

def makeInstance (connectionId : ℤ) : ConnectedClient :=
  startReceive ⟨connectionId, List.replicate headerLength 0, [], [], [], false, true, none⟩

def shutdown (d : ConnectedClient) : ConnectedClient := { d with isShutdown := true }

def disconnect (d : ConnectedClient) : ConnectedClient :=
  signal (.disconnected d.connectionId) (shutdown d)

def sendHandler (result : Completion) (d : ConnectedClient) : ConnectedClient :=
  match result with
  | .ok _ => d
  | .error _ => disconnect d

section
variable [Host]

def receiveHeaderHandler (result : Completion) (d : ConnectedClient) : ConnectedClient :=
  match result with
  | .error _ => disconnect d
  | .ok _ =>
    match admitHeader (.msgLayerError "Oversized packet.") d.headerBuffer with
    | .ok body => start (.readBody body.length) d
    | .error e => if e.isMsgLayerError then disconnect d else { d with escaped := some e }

def receiveBodyHandler (result : Completion) (d : ConnectedClient) : ConnectedClient :=
  match result with
  | .error _ => disconnect d
  | .ok body => startReceive (signal (.receivedMessage d.connectionId (SerializedData.ofBlock body)) d)

def runHandler (op : Operation) (result : Completion) (d : ConnectedClient) : ConnectedClient :=
  if d.owned then
    match op with
    | .readHeader => receiveHeaderHandler result d
    | .readBody _ => receiveBodyHandler result d
    | .write _ => sendHandler result d
  else d

def taken (i : ℕ) (op : Operation) (result : Completion) (d : ConnectedClient) : ConnectedClient :=
  { d with
    pending := d.pending.eraseIdx i
    headerBuffer := match op, result with
      | .readHeader, .ok bytes => bytes
      | _, _ => d.headerBuffer }

inductive Input
  | completed (i : ℕ) (result : Completion)
  | sendPacket (packet : SegmentationLayer SerializedData)
  | sendUserMessage (packet : SegmentationLayer NearUserMessage)
  | shutdown
  | dropped

def step (d : ConnectedClient) (input : Input) : Option ConnectedClient :=
  if d.escaped.isSome then none
  else match input with
    | .completed i result =>
      match d.pending[i]? with
      | none => none
      | some op =>
        if op.admits result then some (runHandler op result (taken i op result d)) else none
    | .sendPacket packet => if d.owned then some (sendPacket packet d) else none
    | .sendUserMessage packet => if d.owned then some (sendPacket packet d) else none
    | .shutdown => if d.owned then some (shutdown d) else none
    | .dropped => some { d with owned := false }

end

end ConnectedClient

end NukeMs
