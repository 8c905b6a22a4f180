import NukeMs.ClientSteps

namespace NukeMs.Client

def Gives : ConnectState → StatechangeReason → Prop
  | .disconnected, .connectFailed | .disconnected, .socketClosed | .disconnected, .userRequested => True
  | .connecting, .busy | .connected, .userRequested | .connected, .busy => True
  | _, _ => False

def Effect.Usual : Effect → Prop
  | .connectStatReport rprt => Gives rprt.newstate rprt.statechangeReason
  | _ => True

def Adds (c t : ClientNode) : Prop :=
  ∃ new, t.effects = c.effects ++ new ∧ ∀ effect ∈ new, effect.Usual

def Effect.connection : Effect → Option Bool
  | .connectStatReport rprt =>
    match rprt.newstate with
    | .disconnected => some false
    | .connecting => none
    | .connected => some true
  | _ => none

def lastConnection (c : ClientNode) : Option Bool := (c.effects.filterMap Effect.connection).getLast?

def Tells (c : ClientNode) : Prop := lastConnection c = some true ↔ c.state = .connected

def Misreports (c : ClientNode) : Input → Prop
  | .connectTo dest _ => parseDestinationString dest = none ∧ c.state = .connected
  | _ => False

section
variable {c t u : ClientNode}

theorem Adds.refl (c : ClientNode) : Adds c c := ⟨[], (List.append_nil _).symm, nofun⟩

theorem Adds.trans (h : Adds c t) (h' : Adds t u) : Adds c u := by
  obtain ⟨new, hnew, husual⟩ := h
  obtain ⟨new', hnew', husual'⟩ := h'
  refine ⟨new ++ new', by rw [hnew', hnew, List.append_assoc], ?_⟩
  intro effect heffect
  exact (List.mem_append.mp heffect).elim (husual effect) (husual' effect)

theorem adds_emit (c : ClientNode) {effect : Effect} (h : effect.Usual) : Adds c (emit effect c) :=
  ⟨[effect], rfl, by simpa using h⟩

theorem adds_report (c : ClientNode) {newstate : ConnectState} {reason : StatechangeReason}
    (h : Gives newstate reason) (msg : String) : Adds c (report newstate reason msg c) := adds_emit c h

theorem adds_sendReport (sendState : Bool) (reason : SendReportReason) (reasonStr : String)
    (c : ClientNode) : Adds c (sendReport sendState reason reasonStr c) := adds_emit c trivial

theorem adds_transit (state : MachineState) (c : ClientNode) : Adds c (transit state c) :=
  adds_emit { c with state := state } trivial

theorem adds_closeSocket (c : ClientNode) : Adds c (closeSocket c) :=
  adds_emit { c with pending := c.pending.map Op.abort } trivial

theorem adds_start (attempt : ℕ) (kind : OpKind) (c : ClientNode) : Adds c (start attempt kind c) :=
  adds_emit { c with pending := c.pending ++ [⟨attempt, kind, none⟩] } trivial

theorem adds_ending (c : ClientNode) {reason : StatechangeReason} (h : Gives .disconnected reason)
    (msg : String) : Adds c (enterWaiting (report .disconnected reason msg c)) :=
  ((adds_report c h msg).trans (adds_transit .waiting _)).trans (adds_closeSocket _)

theorem adds_connectReport (success : Bool) (message : String) (c : ClientNode) :
    Adds c (StateNegotiating.reactConnectReport success message c) := by
  unfold StateNegotiating.reactConnectReport
  split
  · exact (adds_report c (by trivial) _).trans (adds_transit _ _)
  · exact adds_ending c (by trivial) _

theorem adds_connectRequest (host service : List Char) (thread : ThreadStart) (c : ClientNode) :
    Adds c (StateWaiting.reactConnectRequest host service thread c) := by
  have hnext : Adds c (transit .negotiating (start (c.attempt + 1) (.resolve host service)
      { c with attempt := c.attempt + 1 })) :=
    (adds_start (c.attempt + 1) (.resolve host service) { c with attempt := c.attempt + 1 }).trans
      (adds_transit _ _)
  unfold StateWaiting.reactConnectRequest
  cases thread.errmsg with
  | none => exact hnext
  | some errmsg => exact hnext.trans (adds_connectReport false errmsg _)

section
variable [Host]

theorem adds_rcvdMessage (data : SegmentationLayer SerializedData) (c : ClientNode) :
    Adds c (StateConnected.reactRcvdMessage data c) := by
  unfold StateConnected.reactRcvdMessage
  dsimp only
  split
  · exact Adds.refl c
  · split
    · split
      · exact adds_emit c trivial
      · exact Adds.refl c
    · exact Adds.refl c

theorem adds_processEvent (evt : Event) (c : ClientNode) : Adds c (processEvent evt c) := by
  unfold processEvent
  split
  next => exact adds_connectRequest _ _ _ c
  next => exact adds_sendReport _ _ _ c
  next => exact adds_connectReport _ _ c
  next => exact adds_ending c (by trivial) _
  next => exact adds_sendReport _ _ _ c
  next => exact adds_report c (by trivial) _
  next => exact adds_ending c (by trivial) _
  next => exact adds_start _ _ c
  next => exact adds_ending c (by trivial) _
  next => exact adds_rcvdMessage _ c
  next => exact adds_report c (by trivial) _
  next => exact Adds.refl c

theorem keeps_adds (c : ClientNode) : Keeps (Adds c) where
  processEvent evt t _ h := h.trans (adds_processEvent evt t)
  start attempt kind t _ h := h.trans (adds_start attempt kind t)
  closeSocket t h := h.trans (adds_closeSocket t)
  resolved _ _ t h := h.trans (adds_emit t trivial)
  handedUp _ t h := h.trans (adds_emit t trivial)

theorem step_adds {input : Input} (h : step c input = some t) : Adds c t := by
  cases (steps_of_step h).2 with
  | connectTo dest thread =>
    unfold connectTo
    split
    · exact adds_processEvent _ c
    · exact adds_report c (by trivial) _
  | disconnect => exact adds_processEvent _ c
  | sendUserMessage msg recipient => exact adds_processEvent _ { c with lastMsgId := getNextMessageId c }
  | complete i outcome op => exact Adds.refl c
  | handler i op outcome =>
    exact (keeps_adds c).runHandler (fun _ _ _ t h => h.trans (adds_sendReport _ _ _ t)) op outcome
      (Adds.refl c)

end

theorem lastConnection_emit (effect : Effect) (c : ClientNode) :
    lastConnection (emit effect c) = effect.connection.or (lastConnection c) := by
  rw [lastConnection, emit, List.filterMap_append]
  cases h : effect.connection <;> simp [h, lastConnection]

theorem tells_init : Tells init := by
  refine iff_of_false ?_ nofun
  nofun

theorem Tells.keep (h : Tells c) (hlast : lastConnection t = lastConnection c)
    (hstate : t.state = c.state) : Tells t := by
  rw [Tells, hlast, hstate]
  exact h

theorem Tells.silent (h : Tells c) {effect : Effect} (he : effect.connection = none) :
    Tells (emit effect c) := by
  refine h.keep ?_ rfl
  rw [lastConnection_emit, he, Option.none_or]

theorem Tells.start (h : Tells c) (attempt : ℕ) (kind : OpKind) : Tells (start attempt kind c) :=
  Tells.silent (c := { c with pending := c.pending ++ [⟨attempt, kind, none⟩] }) (h.keep rfl rfl) rfl

theorem tells_ending (reason : StatechangeReason) (msg : String) (c : ClientNode) :
    Tells (enterWaiting (report .disconnected reason msg c)) := by
  have hlast : lastConnection (enterWaiting (report .disconnected reason msg c)) = some false := by
    rw [enterWaiting, stopIOOperations, closeSocket, lastConnection_emit]
    exact (lastConnection_emit _ _).trans (lastConnection_emit _ c)
  constructor
  · rw [hlast]
    nofun
  · nofun

theorem tells_connectReport (success : Bool) (message : String) (c : ClientNode) :
    Tells (StateNegotiating.reactConnectReport success message c) := by
  unfold StateNegotiating.reactConnectReport
  split
  · refine iff_of_true ?_ rfl
    exact (lastConnection_emit _ _).trans (lastConnection_emit _ c)
  · exact tells_ending _ _ c

theorem Tells.connectRequest (h : Tells c) (hs : c.state = .waiting) (host service : List Char)
    (thread : ThreadStart) : Tells (StateWaiting.reactConnectRequest host service thread c) := by
  unfold StateWaiting.reactConnectRequest
  cases thread.errmsg with
  | some errmsg => exact tells_connectReport false errmsg _
  | none =>
    have hlast : lastConnection (transit .negotiating (Client.start (c.attempt + 1)
        (.resolve host service) { c with attempt := c.attempt + 1 })) = lastConnection c :=
      (lastConnection_emit _ _).trans (lastConnection_emit _ _)
    refine iff_of_false ?_ nofun
    rw [hlast]
    exact fun hlast => MachineState.noConfusion (hs.symm.trans (h.mp hlast))

theorem Tells.again (h : Tells c) {newstate : ConnectState} (reason : StatechangeReason) (msg : String)
    (hnew : newstate = .connected ∧ c.state = .connected ∨ newstate = .connecting ∨
      newstate = .disconnected ∧ c.state ≠ .connected) : Tells (report newstate reason msg c) := by
  have hlast := lastConnection_emit (.connectStatReport ⟨newstate, reason, msg⟩) c
  obtain ⟨rfl, hs⟩ | rfl | ⟨rfl, hs⟩ := hnew
  · exact iff_of_true hlast hs
  · exact h.silent rfl
  · refine iff_of_false ?_ hs
    rw [report, hlast]
    nofun

section
variable [Host]

theorem Tells.rcvdMessage (h : Tells c) (data : SegmentationLayer SerializedData) :
    Tells (StateConnected.reactRcvdMessage data c) := by
  unfold StateConnected.reactRcvdMessage
  dsimp only
  split
  · exact h.keep rfl rfl
  · split
    · split
      · exact h.silent rfl
      · exact h
    · exact h

theorem Tells.processEvent (h : Tells c) (evt : Event) : Tells (processEvent evt c) := by
  unfold Client.processEvent
  split
  next hs => exact h.connectRequest hs _ _ _
  next => exact h.silent rfl
  next => exact tells_connectReport _ _ c
  next => exact tells_ending _ _ c
  next => exact h.silent rfl
  next => exact h.again _ _ (.inr (.inl rfl))
  next => exact tells_ending _ _ c
  next => exact h.start _ _
  next => exact tells_ending _ _ c
  next => exact h.rcvdMessage _
  next hs => exact h.again _ _ (.inl ⟨rfl, hs⟩)
  next => exact h

theorem keeps_tells : Keeps Tells where
  processEvent evt _ _ h := h.processEvent evt
  start attempt kind _ _ h := h.start attempt kind
  closeSocket c h := Tells.silent (c := { c with pending := c.pending.map Op.abort }) (h.keep rfl rfl) rfl
  resolved _ _ _ h := h.silent rfl
  handedUp _ _ h := h.silent rfl

theorem tells_step {input : Input} (h : Tells c) (hstep : step c input = some t)
    (hinput : ¬ Misreports c input) : Tells t := by
  cases (steps_of_step hstep).2 with
  | connectTo dest thread =>
    unfold Client.connectTo
    cases hparse : parseDestinationString dest with
    | some parsed => exact h.processEvent _
    | none => exact h.again _ _ (.inr (.inr ⟨rfl, fun hs => hinput ⟨hparse, hs⟩⟩))
  | disconnect => exact h.processEvent _
  | sendUserMessage msg recipient =>
    exact Tells.processEvent (c := { c with lastMsgId := getNextMessageId c }) (h.keep rfl rfl) _
  | complete i outcome op => exact h.keep rfl rfl
  | handler i op outcome =>
    have htaken : Tells { c with pending := c.pending.eraseIdx i } := h.keep rfl rfl
    exact keeps_tells.runHandler (fun _ _ _ _ h => h.silent rfl) op outcome htaken

end

end

end NukeMs.Client
