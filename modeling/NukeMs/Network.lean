import NukeMs.ClientSession
import NukeMs.Runs
import NukeMs.ServerSteps

/-!
A server, its clients and the connections between them. The client with the number
of a peer is the one at the other end of the connection of that peer. A connection
takes each buffer that is written as a whole, in the order in which they are handed
over, and carries the bytes in order; an operation on it fails only when one of the two
ends has closed it or when the network has broken it. The clients send packets of at
most `0x8FFF` bytes.
-/

namespace NukeMs

open SegmentationLayerBase FramedStream

structure Network where
  server : DispatchingServer
  client : ℕ → ClientNode
  up : ℕ → List Byte
  down : ℕ → List Byte
  broken : ℕ → Bool
  /-- How many messages the server had received when it accepted the connection. -/
  joined : ℕ → ℕ
  sent : ℕ → List NearUserMessage

namespace Network

def begin (start : ℕ → ClientNode) : Network :=
  ⟨Server.init, start, fun _ => [], fun _ => [], fun _ => false, fun _ => 0, fun _ => []⟩

structure Connected (c : ClientNode) : Prop where
  state : c.state = .connected
  faulted : c.faulted = false
  pending : c.pending = [⟨c.attempt, .readHeader, none⟩]

inductive Event
  | breaks (k : ℕ)
  | server (input : Server.Input)
  | client (k : ℕ) (input : Client.Input)

def isOpen (k : ℕ) (s : Network) : Bool :=
  !(s.server.peer k).destroyed && (s.server.peer k).socketOpen

def lostToServer (k : ℕ) (s : Network) : Bool :=
  s.broken k || !(s.server.peer k).socketOpen || !decide ((s.client k).state = .connected)

def lostToClient (k : ℕ) (s : Network) : Bool :=
  s.broken k || decide (k < s.server.created) && !s.isOpen k

def toServer (s : Network) : Server.Input → Option (ℕ → List Byte)
  | .accepted _ => some s.up
  | .completed u _ (.error _) => if s.lostToServer u then some s.up else none
  | .completed u _ (.ok bytes) =>
    if bytes.isPrefixOf (s.up u) then some (Function.update s.up u ((s.up u).drop bytes.length))
    else none

def fromServer (v : ℕ) (s : Network) (t : DispatchingServer) : List Byte :=
  if (s.server.peer v).socketOpen then
    ((Server.writesTo v t.trace).drop (Server.writesTo v s.server.trace).length).flatten
  else []

def joining (s : Network) : Server.Input → ℕ → ℕ
  | .accepted none =>
    Function.update s.joined s.server.created (Server.handedUp s.server.trace).length
  | _ => s.joined

section
variable [HandlerCopies] [Host]

def toClient (k : ℕ) (s : Network) : Client.Input → Option (List Byte)
  | .complete _ outcome =>
    match outcome.error with
    | none =>
      if outcome.bytes.isPrefixOf (s.down k) then some ((s.down k).drop outcome.bytes.length) else none
    | some error =>
      if s.lostToClient k && !error.operationAborted then some (s.down k) else none
  | .sendUserMessage msg recipient =>
    if (serializedBuffer (SegmentationLayer.mk (Client.usermsg msg recipient (s.client k)))).length ≤
        0x8FFF then some (s.down k)
    else none
  | _ => some (s.down k)

def fromClient (c t : ClientNode) : List Byte :=
  ((Client.writes c.attempt t).drop (Client.writes c.attempt c).length).flatten

def step (s : Network) : Event → Option Network
  | .breaks k => some { s with broken := Function.update s.broken k true }
  | .server input =>
    match s.toServer input, Server.step s.server input with
    | some up, some t =>
      some { s with
        server := t
        up := up
        down := fun v => s.down v ++ s.fromServer v t
        joined := s.joining input }
    | _, _ => none
  | .client k input =>
    if (s.client k).state = .connected then
      match s.toClient k input, Client.step (s.client k) input with
      | some down, some t =>
        some { s with
          client := Function.update s.client k t
          up := Function.update s.up k (s.up k ++ fromClient (s.client k) t)
          down := Function.update s.down k down
          sent := Function.update s.sent k (s.sent k ++ (Client.asked (s.client k) input).toList) }
      | _, _ => none
    else none

end

end Network

end NukeMs
