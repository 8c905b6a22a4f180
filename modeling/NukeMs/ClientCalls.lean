import NukeMs.ClientNode

namespace NukeMs.Client

inductive Call
  | processEvent (evt : Event)
  | connectStatReport (rprt : ConnectionStatusReport)
  | start (kind : OpKind)
  | closeSocket
  | resolved (endpoints : List Endpoint)

section
variable [Host]

def Call.perform (attempt : ℕ) (c : ClientNode) : Call → ClientNode
  | .processEvent evt => Client.processEvent evt c
  | .connectStatReport rprt => emit (.connectStatReport rprt) c
  | .start kind => Client.start attempt kind c
  | .closeSocket => Client.closeSocket c
  | .resolved endpoints => emit (.resolved attempt endpoints) c

def performAll (attempt : ℕ) (calls : List Call) (c : ClientNode) : ClientNode :=
  calls.foldl (Call.perform attempt) c

end

def invalidSite : ConnectionStatusReport :=
  ⟨.disconnected, .connectFailed, "Invalid remote site identifier"⟩

def connectToCalls (dest : List Char) (thread : ThreadStart) : List Call :=
  match parseDestinationString dest with
  | some (host, service) => [.processEvent (.connectRequest host service thread)]
  | none => [.connectStatReport invalidSite]

def resolveHandlerCalls (error : Option ErrorCode) (endpoints : List Endpoint) : List Call :=
  match endpoints, error with
  | [], some error =>
    if error.operationAborted then [] else [.processEvent (.connectReport false error.message)]
  | [], none => [.processEvent (.connectReport false "No hosts found.")]
  | endpoint :: rest, _ => [.resolved endpoints, .start (.connect endpoint rest)]

def connectHandlerCalls (error : Option ErrorCode) (rest : List Endpoint) : List Call :=
  match error, rest with
  | none, _ => [.start .readHeader, .processEvent (.connectReport true "Connection succeeded.")]
  | some _, next :: rest => [.closeSocket, .start (.connect next rest)]
  | some error, [] =>
    if error.operationAborted then [] else [.processEvent (.connectReport false error.message)]

section
variable [Host] (attempt : ℕ) (c : ClientNode)

theorem connectTo_eq (dest : List Char) (thread : ThreadStart) :
    connectTo dest thread c = performAll attempt (connectToCalls dest thread) c := by
  unfold connectTo connectToCalls
  cases parseDestinationString dest with
  | none => rfl
  | some site => rfl

theorem resolveHandler_eq (error : Option ErrorCode) (endpoints : List Endpoint) :
    resolveHandler attempt error endpoints c =
      performAll attempt (resolveHandlerCalls error endpoints) c := by
  cases endpoints with
  | cons endpoint rest => cases error <;> rfl
  | nil =>
    cases error with
    | none => rfl
    | some error =>
      unfold resolveHandler resolveHandlerCalls
      by_cases h : error.operationAborted = true <;> simp [h, performAll, Call.perform]

theorem connectHandler_eq (error : Option ErrorCode) (rest : List Endpoint) :
    connectHandler attempt error rest c = performAll attempt (connectHandlerCalls error rest) c := by
  cases error with
  | none => cases rest <;> rfl
  | some error =>
    cases rest with
    | cons next rest => rfl
    | nil =>
      unfold connectHandler connectHandlerCalls
      by_cases h : error.operationAborted = true <;> simp [h, performAll, Call.perform]

end

end NukeMs.Client
