import NukeMs.ClientNode

namespace NukeMs.Client

open SegmentationLayerBase

namespace OpKind

def negotiates : OpKind → Bool
  | .resolve _ _ | .connect _ _ => true
  | _ => false

def receives : OpKind → Bool
  | .readHeader | .readBody _ => true
  | _ => false

def isWrite : OpKind → Bool
  | .write _ => true
  | _ => false

def emptyBody (kind : OpKind) (outcome : Outcome) : Bool :=
  match kind with
  | .readBody _ => outcome.error.isNone && outcome.bytes.isEmpty
  | _ => false

end OpKind

def Outcome.aborted (outcome : Outcome) : Bool :=
  match outcome.error with
  | some error => error.operationAborted
  | none => false

def Op.live (op : Op) : Bool :=
  match op.outcome with
  | none => true
  | some outcome => !outcome.aborted

section
variable (c : ClientNode)

@[simp] theorem emit_state (effect : Effect) : (emit effect c).state = c.state := rfl
@[simp] theorem emit_pending (effect : Effect) : (emit effect c).pending = c.pending := rfl
@[simp] theorem emit_faulted (effect : Effect) : (emit effect c).faulted = c.faulted := rfl

@[simp] theorem start_state (attempt : ℕ) (kind : OpKind) :
    (start attempt kind c).state = c.state := rfl

@[simp] theorem start_pending (attempt : ℕ) (kind : OpKind) :
    (start attempt kind c).pending = c.pending ++ [⟨attempt, kind, none⟩] := rfl

@[simp] theorem start_faulted (attempt : ℕ) (kind : OpKind) :
    (start attempt kind c).faulted = c.faulted := rfl

end

inductive Called [Host] (c : ClientNode) (sent : Option NearUserMessage) : ClientNode → Prop
  | stay {t : ClientNode} (hsent : sent = none ∨ c.state ≠ .connected) (hs : t.state = c.state)
    (hp : t.pending = c.pending) : Called c sent t
  | wait {t : ClientNode} (hsent : sent = none) (started : List Op) (hs : t.state = .waiting)
    (hstarted : ∀ op ∈ started, op.kind.negotiates = true)
    (hp : t.pending = (c.pending ++ started).map Op.abort) : Called c sent t
  | request {t : ClientNode} (hsent : sent = none) (attempt : ℕ) (host service : List Char)
    (hs : t.state = .negotiating)
    (hp : t.pending = c.pending ++ [⟨attempt, .resolve host service, none⟩]) : Called c sent t
  | write {t : ClientNode} (data : NearUserMessage) (hsent : sent = some data) (attempt : ℕ)
    (hc : c.state = .connected) (hs : t.state = .connected)
    (hp : t.pending = c.pending ++
      [⟨attempt, .write (serializedBuffer (SegmentationLayer.mk data)), none⟩]) : Called c sent t

inductive Handled (c : ClientNode) (op : Op) (outcome : Outcome) : ClientNode → Prop
  | stay {t : ClientNode} (hs : t.state = c.state) (hp : t.pending = c.pending)
    (hn : c.state = .negotiating → op.kind.negotiates = true → outcome.aborted = true)
    (hr : c.state = .connected → op.kind.receives = true →
      outcome.aborted = true ∨ op.kind.emptyBody outcome = true) : Handled c op outcome t
  | wait {t : ClientNode} (hs : t.state = .waiting) (hp : t.pending = c.pending.map Op.abort) :
    Handled c op outcome t
  | connected {t : ClientNode} (endpoint : Endpoint) (rest : List Endpoint)
    (hkind : op.kind = .connect endpoint rest) (herror : outcome.error = none)
    (hs : t.state = if c.state = .negotiating then .connected else c.state)
    (hp : t.pending = c.pending ++ [⟨op.attempt, .readHeader, none⟩]) : Handled c op outcome t
  | next {t : ClientNode} (kind : OpKind) (hs : t.state = c.state)
    (hp : t.pending = c.pending ++ [⟨op.attempt, kind, none⟩])
    (hn : kind.negotiates = op.kind.negotiates) (hr : kind.receives = op.kind.receives)
    (hb : op.kind.receives = true → outcome.error = none)
    (hk : kind.negotiates = true ∨ kind.receives = true) : Handled c op outcome t
  | retry {t : ClientNode} (endpoint next : Endpoint) (rest : List Endpoint)
    (hkind : op.kind = .connect endpoint (next :: rest)) (herror : outcome.error.isSome)
    (hs : t.state = c.state)
    (hp : t.pending = c.pending.map Op.abort ++ [⟨op.attempt, .connect next rest, none⟩]) :
    Handled c op outcome t

section
variable [Host] (c : ClientNode)

theorem processEvent_connectReport (success : Bool) (message : String) (c : ClientNode) :
    processEvent (.connectReport success message) c =
      if c.state = .negotiating then StateNegotiating.reactConnectReport success message c else c := by
  unfold processEvent
  cases h : c.state <;> simp

theorem processEvent_disconnected (msg : String) (c : ClientNode) :
    processEvent (.disconnected msg) c =
      if c.state = .connected then StateConnected.reactDisconnected msg c else c := by
  unfold processEvent
  cases h : c.state <;> simp

theorem processEvent_rcvdMessage (data : SegmentationLayer SerializedData) (c : ClientNode) :
    processEvent (.rcvdMessage data) c =
      if c.state = .connected then StateConnected.reactRcvdMessage data c else c := by
  unfold processEvent
  cases h : c.state <;> simp

theorem called_disconnect : Called c none (disconnect c) := by
  unfold disconnect processEvent
  cases c.state with
  | waiting => exact .stay (.inl rfl) rfl rfl
  | negotiating =>
    refine .wait rfl [] rfl nofun ?_
    rw [List.append_nil]
    rfl
  | connected =>
    refine .wait rfl [] rfl nofun ?_
    rw [List.append_nil]
    rfl

theorem called_connectRequest (host service : List Char) (thread : ThreadStart) :
    Called c none (processEvent (.connectRequest host service thread) c) := by
  unfold processEvent
  cases hs : c.state with
  | waiting =>
    dsimp only
    unfold StateWaiting.reactConnectRequest
    cases thread.errmsg with
    | none => exact .request rfl (c.attempt + 1) host service rfl rfl
    | some errmsg =>
      refine .wait rfl [⟨c.attempt + 1, .resolve host service, none⟩] rfl ?_ rfl
      intro op hop
      rw [List.mem_singleton.mp hop]
      rfl
  | negotiating => exact .stay (.inl rfl) rfl rfl
  | connected => exact .stay (.inl rfl) rfl rfl

theorem called_connectTo (dest : List Char) (thread : ThreadStart) :
    Called c none (connectTo dest thread c) := by
  unfold connectTo
  split
  · exact called_connectRequest c _ _ _
  · exact .stay (.inl rfl) rfl rfl

theorem called_sendUserMessage (msg : List Byte) (recipient : UniqueUserID) :
    Called c (some (usermsg msg recipient c)) (sendUserMessage msg recipient c) := by
  unfold sendUserMessage processEvent
  cases hs : c.state with
  | waiting => exact .stay (.inr (by rw [hs]; nofun)) hs.symm rfl
  | negotiating => exact .stay (.inr (by rw [hs]; nofun)) hs.symm rfl
  | connected => exact .write _ rfl c.attempt hs rfl rfl

variable {c}

theorem handled_connectReport (op : Op) (outcome : Outcome) (message : String)
    (hop : op.kind.receives = false) :
    Handled c op outcome (processEvent (.connectReport false message) c) := by
  rw [processEvent_connectReport]
  split
  · exact .wait rfl rfl
  next hs =>
    refine .stay rfl rfl (fun h => absurd h hs) ?_
    intro _ hr
    rw [hop] at hr
    cases hr

theorem handled_disconnected (op : Op) (outcome : Outcome) (msg : String)
    (hop : op.kind.negotiates = false) :
    Handled c op outcome (processEvent (.disconnected msg) c) := by
  rw [processEvent_disconnected]
  split
  · exact .wait rfl rfl
  next hs =>
    refine .stay rfl rfl ?_ (fun h => absurd h hs)
    intro _ hn
    rw [hop] at hn
    cases hn

omit [Host] in
theorem handled_aborted (op : Op) (outcome : Outcome) (h : outcome.aborted = true) :
    Handled c op outcome c :=
  .stay rfl rfl (fun _ _ => h) (fun _ _ => .inl h)

theorem handled_resolveHandler (attempt : ℕ) (host service : List Char) (o : Option Outcome)
    (outcome : Outcome) : Handled c ⟨attempt, .resolve host service, o⟩ outcome
      (resolveHandler attempt outcome.error outcome.endpoints c) := by
  obtain ⟨error, endpoints, bytes⟩ := outcome
  unfold resolveHandler
  cases endpoints with
  | cons endpoint rest => exact .next (.connect endpoint rest) rfl rfl rfl rfl nofun (.inl rfl)
  | nil =>
    cases error with
    | none => exact handled_connectReport _ _ _ rfl
    | some error =>
      dsimp only
      split
      next ha => exact handled_aborted _ _ ha
      next => exact handled_connectReport _ _ _ rfl

theorem handled_connectHandler (attempt : ℕ) (endpoint : Endpoint) (rest : List Endpoint)
    (o : Option Outcome) (outcome : Outcome) : Handled c ⟨attempt, .connect endpoint rest, o⟩ outcome
      (connectHandler attempt outcome.error rest c) := by
  obtain ⟨error, endpoints, bytes⟩ := outcome
  unfold connectHandler
  cases error with
  | none =>
    dsimp only
    rw [processEvent_connectReport, start_state]
    refine .connected endpoint rest rfl rfl ?_ ?_
    · split <;> rfl
    · split <;> rfl
  | some error =>
    cases rest with
    | cons next rest => exact .retry endpoint next rest rfl rfl rfl rfl
    | nil =>
      dsimp only
      split
      next ha => exact handled_aborted _ _ ha
      next => exact handled_connectReport _ _ _ rfl

theorem handled_headerHandler (attempt : ℕ) (o : Option Outcome) (outcome : Outcome) :
    Handled c ⟨attempt, .readHeader, o⟩ outcome
      (receiveSegmentationHeaderHandler attempt outcome.error outcome.bytes c) := by
  obtain ⟨error, endpoints, bytes⟩ := outcome
  unfold receiveSegmentationHeaderHandler
  cases error with
  | some error =>
    dsimp only
    split
    next ha => exact handled_aborted _ _ ha
    next => exact handled_disconnected _ _ _ rfl
  | none =>
    dsimp only
    cases admitHeader (.msgLayerError "Oversized packet.") bytes with
    | ok body => exact .next (.readBody body.length) rfl rfl rfl rfl (fun _ => rfl) (.inr rfl)
    | error e => exact handled_disconnected _ _ _ rfl

theorem rcvdMessage_faulted (rcvbuf : List Byte) (hf : c.faulted = false) :
    (processEvent (.rcvdMessage ⟨SerializedData.ofBlock rcvbuf⟩) c).faulted = true ↔
      c.state = .connected ∧ rcvbuf = [] := by
  rw [processEvent_rcvdMessage]
  split
  next hs =>
    unfold StateConnected.reactRcvdMessage
    cases rcvbuf with
    | nil => exact iff_of_true rfl ⟨hs, rfl⟩
    | cons b bs =>
      refine iff_of_false ?_ (fun h => nomatch h.2)
      dsimp only [SerializedData.ofBlock]
      rw [List.getElem?_cons_zero]
      dsimp only
      split
      · split <;> simp [hf]
      · simp [hf]
  next hs => exact iff_of_false (by simp [hf]) (fun h => hs h.1)

theorem rcvdMessage_state (data : SegmentationLayer SerializedData) :
    (processEvent (.rcvdMessage data) c).state = c.state ∧
      (processEvent (.rcvdMessage data) c).pending = c.pending := by
  rw [processEvent_rcvdMessage]
  split
  · unfold StateConnected.reactRcvdMessage
    dsimp only
    split
    · exact ⟨rfl, rfl⟩
    · split
      · split <;> exact ⟨rfl, rfl⟩
      · exact ⟨rfl, rfl⟩
  · exact ⟨rfl, rfl⟩

theorem handled_bodyHandler (attempt size : ℕ) (o : Option Outcome) (outcome : Outcome)
    (hf : c.faulted = false) : Handled c ⟨attempt, .readBody size, o⟩ outcome
      (receiveSegmentationBodyHandler attempt outcome.error outcome.bytes c) := by
  obtain ⟨error, endpoints, bytes⟩ := outcome
  unfold receiveSegmentationBodyHandler
  cases error with
  | some error => exact handled_disconnected _ _ _ rfl
  | none =>
    have hrcvd := rcvdMessage_state (c := emit (.handedUp bytes) c) ⟨SerializedData.ofBlock bytes⟩
    dsimp only
    split
    next hfault =>
      have hempty := (rcvdMessage_faulted (c := emit (.handedUp bytes) c) bytes hf).mp hfault
      exact .stay hrcvd.1 hrcvd.2 nofun (fun _ _ => .inr (by simp [OpKind.emptyBody, hempty.2]))
    next =>
      refine .next .readHeader hrcvd.1 ?_ rfl rfl (fun _ => rfl) (.inr rfl)
      rw [start_pending, hrcvd.2]
      rfl

theorem handled_writeHandler (attempt : ℕ) (buffer : List Byte) (o : Option Outcome)
    (outcome : Outcome) :
    Handled c ⟨attempt, .write buffer, o⟩ outcome (writeHandler outcome.error c) := by
  obtain ⟨error, endpoints, bytes⟩ := outcome
  unfold writeHandler
  cases error with
  | none => exact .stay rfl rfl nofun nofun
  | some error =>
    dsimp only
    rw [processEvent_disconnected]
    split
    · exact .wait rfl rfl
    · exact .stay rfl rfl nofun nofun

theorem handled_runHandler (op : Op) (outcome : Outcome) (hf : c.faulted = false) :
    Handled c op outcome (runHandler op outcome c) := by
  obtain ⟨attempt, kind, o⟩ := op
  cases kind with
  | resolve host service => exact handled_resolveHandler attempt host service o outcome
  | connect endpoint rest => exact handled_connectHandler attempt endpoint rest o outcome
  | readHeader => exact handled_headerHandler attempt o outcome
  | readBody size => exact handled_bodyHandler attempt size o outcome hf
  | write buffer => exact handled_writeHandler attempt buffer o outcome

theorem processEvent_faulted (evt : Event) (hevt : ∀ data, evt ≠ .rcvdMessage data) :
    (processEvent evt c).faulted = c.faulted := by
  unfold processEvent
  split
  next host service thread _ =>
    unfold StateWaiting.reactConnectRequest
    cases thread.errmsg <;> rfl
  next => rfl
  next success message _ => cases success <;> rfl
  next => rfl
  next => rfl
  next => rfl
  next => rfl
  next => rfl
  next => rfl
  next data _ => exact absurd rfl (hevt data)
  next => rfl
  next => rfl

theorem connectTo_faulted (dest : List Char) (thread : ThreadStart) :
    (connectTo dest thread c).faulted = c.faulted := by
  unfold connectTo
  split
  · exact processEvent_faulted _ nofun
  · rfl

theorem runHandler_faulted (op : Op) (outcome : Outcome) (hf : c.faulted = false)
    (h : (runHandler op outcome c).faulted = true) : (runHandler op outcome c).state = .connected := by
  obtain ⟨attempt, kind, o⟩ := op
  obtain ⟨error, endpoints, bytes⟩ := outcome
  have hkeep : (runHandler ⟨attempt, kind, o⟩ ⟨error, endpoints, bytes⟩ c).faulted = c.faulted →
      False := fun hsame => by
    rw [h, hf] at hsame
    cases hsame
  cases kind with
  | resolve host service =>
    refine (hkeep ?_).elim
    change (resolveHandler attempt error endpoints c).faulted = _
    unfold resolveHandler
    split
    · split
      · rfl
      · exact processEvent_faulted _ nofun
    · exact processEvent_faulted _ nofun
    · rfl
  | connect endpoint rest =>
    refine (hkeep ?_).elim
    change (connectHandler attempt error rest c).faulted = _
    unfold connectHandler
    split
    · exact processEvent_faulted (c := start attempt .readHeader c) _ nofun
    · rfl
    · split
      · rfl
      · exact processEvent_faulted _ nofun
  | readHeader =>
    refine (hkeep ?_).elim
    change (receiveSegmentationHeaderHandler attempt error bytes c).faulted = _
    unfold receiveSegmentationHeaderHandler
    split
    · split
      · rfl
      · exact processEvent_faulted _ nofun
    · split
      · rfl
      · exact processEvent_faulted _ nofun
  | readBody size =>
    change (receiveSegmentationBodyHandler attempt error bytes c).faulted = _ at h
    change (receiveSegmentationBodyHandler attempt error bytes c).state = _
    unfold receiveSegmentationBodyHandler at h ⊢
    cases error with
    | some error =>
      rw [processEvent_faulted (.disconnected error.message) nofun, hf] at h
      cases h
    | none =>
      have hrcvd := rcvdMessage_state (c := emit (.handedUp bytes) c) ⟨SerializedData.ofBlock bytes⟩
      have hfault := rcvdMessage_faulted (c := emit (.handedUp bytes) c) bytes hf
      dsimp only at h ⊢
      split at h
      next hrc =>
        rw [if_pos hrc, hrcvd.1]
        exact (hfault.mp hrc).1
      next hrc => exact absurd h hrc
  | write buffer =>
    refine (hkeep ?_).elim
    change (writeHandler error c).faulted = _
    unfold writeHandler
    split
    · rfl
    · exact processEvent_faulted (c := sendReport _ _ _ c) _ nofun

theorem processEvent_lastMsgId (evt : Event) (c : ClientNode) :
    (processEvent evt c).lastMsgId = c.lastMsgId := by
  unfold processEvent
  split
  next host service thread _ =>
    unfold StateWaiting.reactConnectRequest
    cases thread.errmsg <;> rfl
  next => rfl
  next success message _ => cases success <;> rfl
  next => rfl
  next => rfl
  next => rfl
  next => rfl
  next => rfl
  next => rfl
  next =>
    unfold StateConnected.reactRcvdMessage
    dsimp only
    split
    · rfl
    · split
      · split <;> rfl
      · rfl
  next => rfl
  next => rfl

structure Keeps (P : ClientNode → Prop) : Prop where
  processEvent : ∀ evt c, (∀ data, evt ≠ .sendMsg data) → P c → P (processEvent evt c)
  start : ∀ attempt kind c, (∀ buffer, kind ≠ .write buffer) → P c → P (start attempt kind c)
  closeSocket : ∀ c, P c → P (closeSocket c)
  resolved : ∀ attempt endpoints c, P c → P (emit (.resolved attempt endpoints) c)
  handedUp : ∀ payload c, P c → P (emit (.handedUp payload) c)

section
variable {P : ClientNode → Prop}

theorem Keeps.resolveHandler (hk : Keeps P) (attempt : ℕ) (error : Option ErrorCode)
    (endpoints : List Endpoint) (h : P c) : P (resolveHandler attempt error endpoints c) := by
  unfold Client.resolveHandler
  split
  · split
    · exact h
    · exact hk.processEvent _ c (by simp) h
  · exact hk.processEvent _ c (by simp) h
  · apply hk.start _ _ _ (by simp)
    exact hk.resolved _ _ c h

theorem Keeps.connectHandler (hk : Keeps P) (attempt : ℕ) (error : Option ErrorCode)
    (rest : List Endpoint) (h : P c) : P (connectHandler attempt error rest c) := by
  unfold Client.connectHandler
  split
  · apply hk.processEvent _ _ (by simp)
    exact hk.start _ _ c (by simp) h
  · apply hk.start _ _ _ (by simp)
    exact hk.closeSocket c h
  · split
    · exact h
    · exact hk.processEvent _ c (by simp) h

theorem Keeps.headerHandler (hk : Keeps P) (attempt : ℕ) (error : Option ErrorCode)
    (rcvbuf : List Byte) (h : P c) : P (receiveSegmentationHeaderHandler attempt error rcvbuf c) := by
  unfold receiveSegmentationHeaderHandler
  split
  · split
    · exact h
    · exact hk.processEvent _ c (by simp) h
  · split
    · exact hk.start _ _ c (by simp) h
    · exact hk.processEvent _ c (by simp) h

theorem Keeps.bodyHandler (hk : Keeps P) (attempt : ℕ) (error : Option ErrorCode)
    (rcvbuf : List Byte) (h : P c) : P (receiveSegmentationBodyHandler attempt error rcvbuf c) := by
  unfold receiveSegmentationBodyHandler
  split
  · exact hk.processEvent _ c (by simp) h
  · have hhanded := hk.handedUp rcvbuf c h
    have hrcvd := hk.processEvent (.rcvdMessage ⟨SerializedData.ofBlock rcvbuf⟩) _ (by simp) hhanded
    dsimp only
    split
    · exact hrcvd
    · exact hk.start _ _ _ (by simp) hrcvd

theorem Keeps.writeHandler (hk : Keeps P)
    (hreport : ∀ sendState reason reasonStr c, P c → P (sendReport sendState reason reasonStr c))
    (error : Option ErrorCode) (h : P c) : P (writeHandler error c) := by
  unfold Client.writeHandler
  split
  · exact hreport _ _ _ c h
  · apply hk.processEvent _ _ (by simp)
    exact hreport _ _ _ c h

theorem Keeps.runHandler (hk : Keeps P)
    (hreport : ∀ sendState reason reasonStr c, P c → P (sendReport sendState reason reasonStr c))
    (op : Op) (outcome : Outcome) (h : P c) : P (runHandler op outcome c) := by
  unfold Client.runHandler
  split
  · exact hk.resolveHandler _ _ _ h
  · exact hk.connectHandler _ _ _ h
  · exact hk.headerHandler _ _ _ h
  · exact hk.bodyHandler _ _ _ h
  · exact hk.writeHandler hreport _ h

end

theorem keeps_lastMsgId (id : Uint4b) : Keeps (fun c => c.lastMsgId = id) where
  processEvent evt c _ h := (processEvent_lastMsgId evt c).trans h
  start _ _ _ _ h := h
  closeSocket _ h := h
  resolved _ _ _ h := h
  handedUp _ _ h := h

theorem runHandler_lastMsgId (op : Op) (outcome : Outcome) (c : ClientNode) :
    (runHandler op outcome c).lastMsgId = c.lastMsgId :=
  (keeps_lastMsgId c.lastMsgId).runHandler (fun _ _ _ _ h => h) op outcome rfl

theorem emptyBody_stays {op : Op} {outcome : Outcome} (hf : c.faulted = false)
    (hs : c.state = .connected) (h : op.kind.emptyBody outcome = true) :
    (runHandler op outcome c).state = .connected ∧ (runHandler op outcome c).pending = c.pending := by
  obtain ⟨attempt, kind, o⟩ := op
  obtain ⟨error, endpoints, bytes⟩ := outcome
  cases kind with
  | readBody size =>
    simp only [OpKind.emptyBody, Bool.and_eq_true, Option.isNone_iff_eq_none,
      List.isEmpty_iff] at h
    obtain ⟨rfl, rfl⟩ := h
    have hrcvd := rcvdMessage_state (c := emit (.handedUp []) c) ⟨SerializedData.ofBlock []⟩
    have hfault := (rcvdMessage_faulted (c := emit (.handedUp []) c) [] hf).mpr ⟨hs, rfl⟩
    change (receiveSegmentationBodyHandler attempt none [] c).state = _ ∧
      (receiveSegmentationBodyHandler attempt none [] c).pending = _
    unfold receiveSegmentationBodyHandler
    dsimp only
    rw [if_pos hfault]
    exact ⟨hrcvd.1.trans hs, hrcvd.2⟩
  | resolve host service => cases h
  | connect endpoint rest => cases h
  | readHeader => cases h
  | write buffer => cases h

end

end NukeMs.Client
