import NukeMs.ClientEffects
import NukeMs.FramedStream
import NukeMs.Outstanding
import NukeMs.SendAnswers

namespace NukeMs

open SegmentationLayerBase FramedStream

theorem header_inj (m n : ℕ) (hm : m ≤ 0x8FFF - headerLength) (hn : n ≤ 0x8FFF - headerLength)
    (h : SegmentationLayer.header (m + headerLength) = SegmentationLayer.header (n + headerLength)) :
    m = n := by
  have hannounced := congrArg (@announced littleEndianHost) h
  simp only [headerLength] at hm hn hannounced
  rw [@announced_header littleEndianHost _ (by omega),
    @announced_header littleEndianHost _ (by omega)] at hannounced
  exact Nat.add_right_cancel (Option.some.inj hannounced)

def packetLayout : Layout Byte where
  headerLength := headerLength
  headerLength_pos := headerLength_pos
  header n := SegmentationLayer.header (n + headerLength)
  header_length n := SegmentationLayer.header_length (n + headerLength)
  longest := 0x8FFF - headerLength
  header_inj := header_inj

def Operation.phase : Operation → Option Phase
  | .readHeader => some .header
  | .readBody n => some (.body n)
  | .write _ => none

namespace Client

def OpKind.phase : OpKind → Option Phase
  | .readHeader => some .header
  | .readBody n => some (.body n)
  | _ => none

def Outcome.received (outcome : Outcome) : List Byte :=
  if outcome.error.isNone then outcome.bytes else []

def Op.filled (op : Op) : List Byte :=
  match op.outcome with
  | some outcome => outcome.received
  | none => []

def Effect.message : Effect → Option NearUserMessage
  | .rcvMessage usermsg => some usermsg
  | _ => none

def rcvMessages (c : ClientNode) : List NearUserMessage := c.effects.filterMap Effect.message

structure Session (c : ClientNode) (down : List Byte) (bodies : List (List Byte)) : Prop where
  state : c.state = .connected
  faulted : c.faulted = false
  kinds : ∀ op ∈ c.pending, op.kind.negotiates = false
  single : c.pending.countP (fun op => op.kind.receives) = 1
  completed : ∀ op ∈ c.pending, ∀ outcome, op.outcome = some outcome →
    op.kind.admits outcome = true ∧ outcome.aborted = false
  sees : ∀ op ∈ c.pending, ∀ phase, op.kind.phase = some phase →
    packetLayout.Sees phase (op.filled ++ down) bodies

section
variable {c t : ClientNode} {down : List Byte} {bodies : List (List Byte)} {op : Op} {i : ℕ}

theorem receives_of_phase {kind : OpKind} {phase : Phase} (h : kind.phase = some phase) :
    kind.receives = true := by
  cases kind with
  | readHeader => rfl
  | readBody n => rfl
  | _ => cases h

theorem Session.of_pending (hc : Session c down bodies) (hs : t.state = .connected)
    (hf : t.faulted = false) (hp : t.pending = c.pending) : Session t down bodies where
  state := hs
  faulted := hf
  kinds := hp ▸ hc.kinds
  single := hp ▸ hc.single
  completed := hp ▸ hc.completed
  sees := hp ▸ hc.sees

theorem Session.arrive (more : List (List Byte)) (hc : Session c down bodies)
    (hfits : ∀ body ∈ more, body.length ≤ packetLayout.longest) :
    Session c (down ++ packetLayout.stream more) (bodies ++ more) := by
  refine ⟨hc.state, hc.faulted, hc.kinds, hc.single, hc.completed, ?_⟩
  intro op hop phase hphase
  rw [← List.append_assoc]
  exact (hc.sees op hop phase hphase).sendAll more hfits

theorem Session.push (hc : Session c down bodies) (hs : t.state = .connected) (hf : t.faulted = false)
    (attempt : ℕ) (buffer : List Byte)
    (hp : t.pending = c.pending ++ [⟨attempt, .write buffer, none⟩]) : Session t down bodies := by
  have hnew : ∀ op ∈ t.pending, op ∈ c.pending ∨ op = ⟨attempt, .write buffer, none⟩ := by
    intro op hop
    rw [hp, List.mem_append, List.mem_singleton] at hop
    exact hop
  refine ⟨hs, hf, ?_, ?_, ?_, ?_⟩
  · intro op hop
    obtain hold | rfl := hnew op hop
    · exact hc.kinds op hold
    · rfl
  · rw [hp, List.countP_append, hc.single]
    rfl
  · intro op hop outcome hout
    obtain hold | rfl := hnew op hop
    · exact hc.completed op hold outcome hout
    · cases hout
  · intro op hop phase hphase
    obtain hold | rfl := hnew op hop
    · exact hc.sees op hold phase hphase
    · cases hphase

theorem Session.drop (hc : Session c down bodies) (hop : c.pending[i]? = some op)
    (hkind : op.kind.receives = false) (hs : t.state = .connected) (hf : t.faulted = false)
    (hp : t.pending = c.pending.eraseIdx i) : Session t down bodies := by
  have hold : ∀ other ∈ t.pending, other ∈ c.pending := by
    intro other hother
    rw [hp] at hother
    exact List.mem_of_mem_eraseIdx hother
  refine ⟨hs, hf, fun other h => hc.kinds other (hold other h), ?_,
    fun other h => hc.completed other (hold other h), fun other h => hc.sees other (hold other h)⟩
  have hcount := Outstanding.countP_eraseIdx (fun op => op.kind.receives) hop
  rw [hc.single] at hcount
  simpa [hp, hkind] using hcount

theorem Session.others (hc : Session c down bodies) (hop : c.pending[i]? = some op)
    (hkind : op.kind.receives = true) :
    ∀ other ∈ c.pending.eraseIdx i, other.kind.receives = false := by
  intro other hother
  have hzero : (c.pending.eraseIdx i).countP (fun op => op.kind.receives) = 0 :=
    Outstanding.countP_eraseIdx_single hop hkind hc.single.le
  exact Bool.eq_false_iff.mpr (List.countP_eq_zero.mp hzero other hother)

theorem Session.next {kind : OpKind} {phase : Phase} {more : List (List Byte)} (attempt : ℕ)
    (hc : Session c down bodies) (hop : c.pending[i]? = some op) (hkind : op.kind.receives = true)
    (hphase : kind.phase = some phase) (hsees : packetLayout.Sees phase down more)
    (hs : t.state = .connected) (hf : t.faulted = false)
    (hp : t.pending = c.pending.eraseIdx i ++ [⟨attempt, kind, none⟩]) : Session t down more := by
  have hothers := hc.others hop hkind
  have hnew : ∀ op ∈ t.pending, op ∈ c.pending.eraseIdx i ∨ op = ⟨attempt, kind, none⟩ := by
    intro op hmem
    rw [hp, List.mem_append, List.mem_singleton] at hmem
    exact hmem
  refine ⟨hs, hf, ?_, ?_, ?_, ?_⟩
  · intro other h
    obtain hold | rfl := hnew other h
    · exact hc.kinds other (List.mem_of_mem_eraseIdx hold)
    · cases kind with
      | resolve host service => cases hphase
      | connect endpoint rest => cases hphase
      | _ => rfl
  · have hzero : (c.pending.eraseIdx i).countP (fun op => op.kind.receives) = 0 :=
      List.countP_eq_zero.mpr fun other hother => Bool.eq_false_iff.mp (hothers other hother)
    rw [hp, List.countP_append, hzero, List.countP_singleton, receives_of_phase hphase]
    rfl
  · intro other h outcome hout
    obtain hold | rfl := hnew other h
    · exact hc.completed other (List.mem_of_mem_eraseIdx hold) outcome hout
    · cases hout
  · intro other h p hother
    obtain hold | rfl := hnew other h
    · have hreceives := receives_of_phase hother
      rw [hothers other hold] at hreceives
      cases hreceives
    · cases hphase.symm.trans hother
      exact hsees

theorem received_of_admits {kind : OpKind} {outcome : Outcome} (hn : kind.negotiates = false)
    (hr : kind.receives = false) (hadm : kind.admits outcome = true) : outcome.received = [] := by
  cases kind with
  | write buffer =>
    have hbytes : outcome.bytes = [] := by
      have hboth := hadm
      simp only [OpKind.admits, Bool.and_eq_true, decide_eq_true_eq] at hboth
      exact hboth.2
    rw [Outcome.received, hbytes, ite_self]
  | readHeader => cases hr
  | readBody n => cases hr
  | _ => cases hn

theorem Session.complete {outcome : Outcome} (hc : Session c (outcome.received ++ down) bodies)
    (hop : c.pending[i]? = some op) (hnone : op.outcome = none)
    (hadm : op.kind.admits outcome = true) (habort : outcome.aborted = false) :
    Session { c with pending := c.pending.set i { op with outcome := some outcome } } down bodies := by
  have hmem := List.mem_of_getElem? hop
  refine ⟨hc.state, hc.faulted, ?_, ?_, ?_, ?_⟩
  · intro other h
    obtain rfl | hold := Outstanding.mem_of_mem_set h
    · exact hc.kinds op hmem
    · exact hc.kinds other (List.mem_of_mem_eraseIdx hold)
  · have hcount : (c.pending.set i { op with outcome := some outcome }).countP
        (fun op => op.kind.receives) = c.pending.countP (fun op => op.kind.receives) :=
      Outstanding.countP_set _ hop rfl
    exact hcount.trans hc.single
  · intro other h result hresult
    obtain rfl | hold := Outstanding.mem_of_mem_set h
    · cases hresult
      exact ⟨hadm, habort⟩
    · exact hc.completed other (List.mem_of_mem_eraseIdx hold) result hresult
  · intro other h phase hphase
    obtain rfl | hold := Outstanding.mem_of_mem_set h
    · have hsees := hc.sees op hmem phase hphase
      rw [Op.filled, hnone] at hsees
      exact hsees
    · have hsees := hc.sees other (List.mem_of_mem_eraseIdx hold) phase hphase
      cases hkind : op.kind.receives with
      | true =>
        have hnot := hc.others hop hkind other hold
        rw [receives_of_phase hphase] at hnot
        cases hnot
      | false =>
        rw [received_of_admits (hc.kinds op hmem) hkind hadm] at hsees
        exact hsees

end

section
variable {c t : ClientNode} {down : List Byte}

theorem quiet_message : Quiet Effect.message where
  report _ := rfl
  transit _ := rfl
  close := rfl
  start _ _ _ := rfl
  resolved _ _ := rfl
  handedUp _ := rfl

theorem rcvMessages_emit (effect : Effect) (c : ClientNode) :
    rcvMessages (emit effect c) = rcvMessages c ++ effect.message.toList := picked_emit c effect

theorem rcvMessages_emit_of_none {effect : Effect} (c : ClientNode) (h : effect.message = none) :
    rcvMessages (emit effect c) = rcvMessages c := picked_emit_of_none c h

theorem rcvMessages_start (attempt : ℕ) (kind : OpKind) (c : ClientNode) :
    rcvMessages (start attempt kind c) = rcvMessages c :=
  rcvMessages_emit_of_none { c with pending := c.pending ++ [⟨attempt, kind, none⟩] } rfl

theorem rcvMessages_enterWaiting (c : ClientNode) : rcvMessages (enterWaiting c) = rcvMessages c :=
  picked_enterWaiting c quiet_message

theorem reactRcvdMessage_message [Host] (m : NearUserMessage) (c : ClientNode) :
    StateConnected.reactRcvdMessage ⟨SerializedData.ofBlock m.bytes⟩ c = emit (.rcvMessage m) c := by
  have hdecoded := NearUserMessage.ofSerializedData_bytes m (SerializedData.ofBlock m.bytes)
    (SerializedData.bytes_ofBlock _)
  have hfirst : (SerializedData.ofBlock m.bytes).memblock[(SerializedData.ofBlock m.bytes).beginIt]? =
    some NearUserMessage.layerId := rfl
  simp only [StateConnected.reactRcvdMessage, hfirst, if_true, hdecoded]

variable [Host]

def Proceeds (c t : ClientNode) (down : List Byte) (messages sending : List NearUserMessage) : Prop :=
  ∃ heard toCome, messages = heard ++ toCome ∧ rcvMessages t = rcvMessages c ++ heard ∧
    (t.state = .connected → Session t down (toCome.map NearUserMessage.bytes)) ∧
    writes c.attempt t = writes c.attempt c ++
      sending.map fun m => SegmentationLayer.packet m.bytes

variable {messages : List NearUserMessage} {op : Op} {outcome : Outcome} {i : ℕ}

omit [Host] in
theorem Proceeds.silent (hr : rcvMessages t = rcvMessages c) (hw : writes c.attempt t = writes c.attempt c)
    (hs : t.state = .connected → Session t down (messages.map NearUserMessage.bytes)) :
    Proceeds c t down messages [] := by
  refine ⟨[], messages, rfl, ?_, hs, ?_⟩
  · rw [hr, List.append_nil]
  · rw [hw, List.map_nil, List.append_nil]

theorem leaves_proceeds (msg : String) (hs : c.state = .connected) :
    Proceeds c (processEvent (.disconnected msg) c) down messages [] := by
  refine Proceeds.silent ?_ (writes_processEvent _ c nofun) ?_
  · rw [processEvent_disconnected, if_pos hs, StateConnected.reactDisconnected,
      rcvMessages_enterWaiting]
    exact rcvMessages_emit_of_none c rfl
  · intro hstate
    rw [processEvent_disconnected, if_pos hs] at hstate
    cases hstate

theorem writeHandler_proceeds {attempt : ℕ} {buffer : List Byte} {o : Option Outcome}
    (hc : Session c down (messages.map NearUserMessage.bytes))
    (hop : c.pending[i]? = some ⟨attempt, .write buffer, o⟩) (error : Option ErrorCode) :
    Proceeds c (writeHandler error { c with pending := c.pending.eraseIdx i }) down messages [] := by
  have hsilent (state : Bool) (reason : SendReportReason) (text : String) :
      rcvMessages (sendReport state reason text { c with pending := c.pending.eraseIdx i }) =
        rcvMessages c := rcvMessages_emit_of_none { c with pending := c.pending.eraseIdx i } rfl
  have hwrites (state : Bool) (reason : SendReportReason) (text : String) : writes c.attempt
      (sendReport state reason text { c with pending := c.pending.eraseIdx i }) = writes c.attempt c :=
    writes_emit_of_none c.attempt { c with pending := c.pending.eraseIdx i } rfl
  unfold writeHandler
  cases error with
  | none =>
    apply Proceeds.silent (hsilent _ _ _) (hwrites _ _ _)
    intro hs
    exact hc.drop hop rfl hs hc.faulted rfl
  | some error =>
    obtain ⟨heard, toCome, hsplit, hheard, hs, hw⟩ : Proceeds
        (sendReport false .connectionError error.message { c with pending := c.pending.eraseIdx i })
        (processEvent (.disconnected error.message) (sendReport false .connectionError error.message
          { c with pending := c.pending.eraseIdx i })) down messages [] :=
      leaves_proceeds error.message hc.state
    rw [hsilent] at hheard
    refine ⟨heard, toCome, hsplit, hheard, hs, hw.trans ?_⟩
    exact congrArg (· ++ _) (hwrites _ _ _)

theorem headerHandler_eq {attempt : ℕ} {endpoints : List Endpoint} {bytes : List Byte}
    {bodies : List (List Byte)} (hc : Session c down bodies)
    (hop : c.pending[i]? = some ⟨attempt, .readHeader, some ⟨none, endpoints, bytes⟩⟩) :
    ∃ n, packetLayout.Sees (.body n) down bodies ∧
      receiveSegmentationHeaderHandler attempt none bytes { c with pending := c.pending.eraseIdx i } =
        start attempt (.readBody n) { c with pending := c.pending.eraseIdx i } := by
  have hmem := List.mem_of_getElem? hop
  obtain ⟨hadm, -⟩ := hc.completed _ hmem ⟨none, endpoints, bytes⟩ rfl
  simp only [OpKind.admits, Option.isSome_none, Bool.false_or, Bool.and_eq_true,
    decide_eq_true_eq] at hadm
  obtain ⟨body, more, -, hheader, hrest⟩ := (hc.sees _ hmem .header rfl).takeHeader hadm.2
  have hbytes : bytes = SegmentationLayer.header (body.length + headerLength) := hheader
  have hlong := hrest.admitted _ rfl
  simp only [packetLayout, headerLength] at hlong
  have hchecked : admitHeader (.msgLayerError "Oversized packet.") bytes =
      .ok (List.replicate body.length 0) := by
    rw [hbytes]
    exact admitHeader_header _ (by simp only [headerLength]; omega)
  refine ⟨body.length, hrest, ?_⟩
  unfold receiveSegmentationHeaderHandler
  dsimp only
  rw [hchecked]
  dsimp only
  rw [List.length_replicate]

theorem bodyHandler_eq {attempt n : ℕ} {endpoints : List Endpoint} {bytes : List Byte}
    (hc : Session c down (messages.map NearUserMessage.bytes))
    (hop : c.pending[i]? = some ⟨attempt, .readBody n, some ⟨none, endpoints, bytes⟩⟩) :
    ∃ m toCome, messages = m :: toCome ∧
      packetLayout.Sees .header down (toCome.map NearUserMessage.bytes) ∧
      receiveSegmentationBodyHandler attempt none bytes { c with pending := c.pending.eraseIdx i } =
        start attempt .readHeader (emit (.rcvMessage m) (emit (.handedUp m.bytes)
          { c with pending := c.pending.eraseIdx i })) := by
  have hmem := List.mem_of_getElem? hop
  obtain ⟨hadm, -⟩ := hc.completed _ hmem ⟨none, endpoints, bytes⟩ rfl
  simp only [OpKind.admits, Option.isSome_none, Bool.false_or, Bool.and_eq_true,
    decide_eq_true_eq] at hadm
  obtain ⟨more, hbodies, hrest⟩ := (hc.sees _ hmem (.body n) rfl).takeBody hadm.2
  obtain ⟨m, toCome, rfl, hm, rfl⟩ := List.map_eq_cons_iff.mp hbodies
  have hbytes : bytes = m.bytes := hm.symm
  subst hbytes
  have hreact : processEvent (.rcvdMessage ⟨SerializedData.ofBlock m.bytes⟩)
      (emit (.handedUp m.bytes) { c with pending := c.pending.eraseIdx i }) =
      emit (.rcvMessage m) (emit (.handedUp m.bytes) { c with pending := c.pending.eraseIdx i }) := by
    have hstate : (emit (.handedUp m.bytes) { c with pending := c.pending.eraseIdx i }).state =
        .connected := hc.state
    rw [processEvent_rcvdMessage, if_pos hstate, reactRcvdMessage_message]
  have hfine : (emit (.rcvMessage m) (emit (.handedUp m.bytes)
      { c with pending := c.pending.eraseIdx i })).faulted ≠ true := by
    rw [emit_faulted, emit_faulted, hc.faulted]
    decide
  refine ⟨m, toCome, rfl, hrest, ?_⟩
  unfold receiveSegmentationBodyHandler
  dsimp only
  rw [hreact, if_neg hfine]

theorem headerHandler_proceeds {attempt : ℕ} (hc : Session c down (messages.map NearUserMessage.bytes))
    (hop : c.pending[i]? = some ⟨attempt, .readHeader, some outcome⟩) :
    Proceeds c (receiveSegmentationHeaderHandler attempt outcome.error outcome.bytes
      { c with pending := c.pending.eraseIdx i }) down messages [] := by
  obtain ⟨-, habort⟩ := hc.completed _ (List.mem_of_getElem? hop) outcome rfl
  obtain ⟨error, endpoints, bytes⟩ := outcome
  cases error with
  | some error =>
    have hne : error.operationAborted = false := habort
    unfold receiveSegmentationHeaderHandler
    dsimp only
    rw [if_neg (by simp [hne])]
    exact leaves_proceeds (c := { c with pending := c.pending.eraseIdx i }) error.message hc.state
  | none =>
    obtain ⟨n, hsees, heq⟩ := headerHandler_eq hc hop
    rw [heq]
    apply Proceeds.silent
    · exact rcvMessages_start attempt _ { c with pending := c.pending.eraseIdx i }
    · exact writes_start c.attempt { c with pending := c.pending.eraseIdx i } attempt nofun
    · intro hs
      exact hc.next attempt hop rfl rfl hsees hs hc.faulted rfl

theorem bodyHandler_proceeds {attempt n : ℕ} (hc : Session c down (messages.map NearUserMessage.bytes))
    (hop : c.pending[i]? = some ⟨attempt, .readBody n, some outcome⟩) :
    Proceeds c (receiveSegmentationBodyHandler attempt outcome.error outcome.bytes
      { c with pending := c.pending.eraseIdx i }) down messages [] := by
  obtain ⟨error, endpoints, bytes⟩ := outcome
  cases error with
  | some error =>
    exact leaves_proceeds (c := { c with pending := c.pending.eraseIdx i }) error.message hc.state
  | none =>
    obtain ⟨m, toCome, rfl, hsees, heq⟩ := bodyHandler_eq hc hop
    rw [heq]
    refine ⟨[m], toCome, rfl, ?_, ?_, ?_⟩
    · rw [rcvMessages_start, rcvMessages_emit, rcvMessages_emit_of_none _ rfl]
      rfl
    · intro hs
      exact hc.next attempt hop rfl rfl hsees hs hc.faulted rfl
    · have hread : ∀ buffer, OpKind.readHeader ≠ .write buffer := nofun
      rw [writes_start _ _ _ hread, writes_emit_of_none _ _ rfl, writes_emit_of_none _ _ rfl]
      exact (List.append_nil _).symm

theorem runHandler_proceeds (hc : Session c down (messages.map NearUserMessage.bytes))
    (hop : c.pending[i]? = some op) (hout : op.outcome = some outcome) :
    Proceeds c (runHandler op outcome { c with pending := c.pending.eraseIdx i }) down messages [] := by
  have hkind := hc.kinds op (List.mem_of_getElem? hop)
  obtain ⟨attempt, kind, o⟩ := op
  cases hout
  cases kind with
  | resolve host service => cases hkind
  | connect endpoint rest => cases hkind
  | write buffer => exact writeHandler_proceeds hc hop outcome.error
  | readHeader => exact headerHandler_proceeds hc hop
  | readBody n => exact bodyHandler_proceeds hc hop

theorem connectTo_proceeds (hc : Session c down (messages.map NearUserMessage.bytes))
    (dest : List Char) (thread : ThreadStart) :
    Proceeds c (connectTo dest thread c) down messages [] := by
  obtain ⟨rprt, hrprt⟩ : ∃ rprt, connectTo dest thread c = emit (.connectStatReport rprt) c := by
    unfold connectTo
    split
    · refine ⟨⟨.connected, .busy, "Allready connected"⟩, ?_⟩
      simp only [processEvent, hc.state, StateConnected.reactConnectRequest, report]
    · exact ⟨_, rfl⟩
  rw [hrprt]
  apply Proceeds.silent (rcvMessages_emit_of_none c rfl) (writes_emit_of_none _ c rfl)
  intro hs
  exact hc.of_pending hs hc.faulted rfl

theorem disconnect_proceeds (hs : c.state = .connected) :
    Proceeds c (disconnect c) down messages [] := by
  have hdisconnect : disconnect c = enterWaiting (report .disconnected .userRequested "" c) := by
    simp only [disconnect, processEvent, hs, StateConnected.reactDisconnectRequest]
  refine Proceeds.silent ?_ (writes_processEvent _ c (by simp)) ?_
  · rw [hdisconnect, rcvMessages_enterWaiting]
    exact rcvMessages_emit_of_none c rfl
  · intro hstate
    rw [hdisconnect] at hstate
    cases hstate

theorem sendUserMessage_proceeds (hc : Session c down (messages.map NearUserMessage.bytes))
    (msg : List Byte) (recipient : UniqueUserID) :
    Proceeds c (sendUserMessage msg recipient c) down messages [usermsg msg recipient c] := by
  have hsend : sendUserMessage msg recipient c = start c.attempt
      (.write (serializedBuffer (SegmentationLayer.mk (usermsg msg recipient c))))
      { c with lastMsgId := getNextMessageId c } := by
    simp only [sendUserMessage, processEvent, hc.state, StateConnected.reactSendMsg]
  refine ⟨[], messages, rfl, ?_, ?_, ?_⟩
  · rw [hsend, rcvMessages_start, List.append_nil]
    rfl
  · intro hs
    refine hc.push hs ?_ c.attempt
      (serializedBuffer (SegmentationLayer.mk (usermsg msg recipient c))) ?_
    · rw [hsend]
      exact hc.faulted
    · rw [hsend]
      rfl
  · have hwritten := writes_sendMsg c.attempt { c with lastMsgId := getNextMessageId c }
      (usermsg msg recipient c)
    rw [if_pos ⟨hc.state, rfl⟩] at hwritten
    exact hwritten

theorem step_proceeds {input : Input} {rest : List Byte}
    (hc : Session c down (messages.map NearUserMessage.bytes)) (h : step c input = some t)
    (hcomplete : ∀ i outcome, input = .complete i outcome →
      outcome.aborted = false ∧ down = outcome.received ++ rest)
    (hother : (∀ i outcome, input ≠ .complete i outcome) → down = rest) :
    Proceeds c t rest messages (asked c input).toList := by
  cases (steps_of_step h).2 with
  | connectTo dest thread => exact hother nofun ▸ connectTo_proceeds hc dest thread
  | disconnect => exact disconnect_proceeds hc.state
  | sendUserMessage msg recipient => exact hother nofun ▸ sendUserMessage_proceeds hc msg recipient
  | handler i op outcome hop hsome => exact hother nofun ▸ runHandler_proceeds hc hop hsome
  | complete i outcome op hop hnone hadm =>
    obtain ⟨habort, hdown⟩ := hcomplete i outcome rfl
    exact Proceeds.silent rfl rfl fun _ => (hdown ▸ hc).complete hop hnone hadm habort

def Unfailed (c : ClientNode) : Prop :=
  ∀ op ∈ c.pending, ∀ outcome, op.outcome = some outcome → outcome.error = none

omit [Host] in
theorem Unfailed.push (hfine : Unfailed c) {attempt : ℕ} {kind : OpKind}
    (hp : t.pending = c.pending ++ [⟨attempt, kind, none⟩]) : Unfailed t := by
  intro op hop outcome hout
  rw [hp, List.mem_append, List.mem_singleton] at hop
  obtain hold | rfl := hop
  · exact hfine op hold outcome hout
  · cases hout

omit [Host] in
theorem Unfailed.erase (hfine : Unfailed c) (i : ℕ) :
    Unfailed { c with pending := c.pending.eraseIdx i } :=
  fun op hop => hfine op (List.mem_of_mem_eraseIdx hop)

theorem Unfailed.called {sent : Option NearUserMessage} (hfine : Unfailed c) (h : Called c sent t)
    (ht : t.state = .connected) : Unfailed t := by
  cases h with
  | stay hsent hs hp =>
    intro op hop
    rw [hp] at hop
    exact hfine op hop
  | wait hsent started hs => cases hs.symm.trans ht
  | request hsent attempt host service hs => cases hs.symm.trans ht
  | write data hsent attempt hc hs hp => exact hfine.push hp

omit [Host] in
theorem Unfailed.handled (hfine : Unfailed c) (h : Handled c op outcome t)
    (hkind : op.kind.negotiates = false) (ht : t.state = .connected) : Unfailed t := by
  cases h with
  | stay hs hp =>
    intro op hop
    rw [hp] at hop
    exact hfine op hop
  | wait hs => cases hs.symm.trans ht
  | connected endpoint rest hconnect herror hs hp => exact hfine.push hp
  | next kind hs hp => exact hfine.push hp
  | retry endpoint next rest hconnect =>
    rw [hconnect] at hkind
    cases hkind

theorem step_unfailed {input : Input} (hc : Session c down (messages.map NearUserMessage.bytes))
    (hfine : Unfailed c) (h : step c input = some t) (ht : t.state = .connected)
    (hcomplete : ∀ i outcome, input = .complete i outcome → outcome.error = none) : Unfailed t := by
  cases (steps_of_step h).2 with
  | connectTo dest thread => exact hfine.called (called_connectTo c dest thread) ht
  | disconnect => exact hfine.called (called_disconnect c) ht
  | sendUserMessage msg recipient => exact hfine.called (called_sendUserMessage c msg recipient) ht
  | complete i outcome op hop =>
    intro other hother result hresult
    obtain rfl | hold := Outstanding.mem_of_mem_set hother
    · cases hresult
      exact hcomplete i outcome rfl
    · exact hfine other (List.mem_of_mem_eraseIdx hold) result hresult
  | handler i op outcome hop hsome =>
    have hkind := hc.kinds op (List.mem_of_getElem? hop)
    exact (hfine.erase i).handled (handled_runHandler op outcome hc.faulted) hkind ht

def Delivers (input : Input) (down rest : List Byte) : Prop :=
  (∃ i, input = .handler i ∧ down = rest) ∨
    ∃ i bytes, input = .complete i ⟨none, [], bytes⟩ ∧ down = bytes ++ rest

def deliveries (c : ClientNode) (down : List Byte) : ℕ :=
  2 * down.length + c.pending.countP fun op => op.kind.receives && op.outcome.isSome

omit [Host] in
theorem Session.read (hc : Session c down (messages.map NearUserMessage.bytes)) :
    ∃ (i attempt : ℕ) (o : Option Outcome), c.pending[i]? = some ⟨attempt, .readHeader, o⟩ ∨
      ∃ n, c.pending[i]? = some ⟨attempt, .readBody n, o⟩ := by
  have hpos : 0 < c.pending.countP (fun op => op.kind.receives) := by
    rw [hc.single]
    decide
  obtain ⟨op, hmem, hkind⟩ := List.countP_pos_iff.mp hpos
  obtain ⟨i, hop⟩ := List.mem_iff_getElem?.mp hmem
  obtain ⟨attempt, kind, o⟩ := op
  cases kind with
  | readHeader => exact ⟨i, attempt, o, .inl hop⟩
  | readBody n => exact ⟨i, attempt, o, .inr ⟨n, hop⟩⟩
  | _ => cases hkind

theorem Session.fill {down : List Byte} {bodies : List (List Byte)} {attempt : ℕ} {kind : OpKind}
    {phase : Phase} (hc : Session c down bodies) (hfine : Unfailed c)
    (hop : c.pending[i]? = some ⟨attempt, kind, none⟩) (hphase : kind.phase = some phase)
    (hpos : 0 < packetLayout.wanted phase) (hle : packetLayout.wanted phase ≤ down.length) :
    ∃ input t rest, Delivers input down rest ∧ step c input = some t ∧ t.state = .connected ∧
      Unfailed t ∧ deliveries t rest < deliveries c down := by
  let outcome : Outcome := ⟨none, [], down.take (packetLayout.wanted phase)⟩
  have hlen : (down.take (packetLayout.wanted phase)).length = packetLayout.wanted phase :=
    List.length_take_of_le hle
  have hadm : kind.admits outcome = true := by
    cases kind with
    | readHeader =>
      cases hphase
      have hfull : outcome.bytes.length = headerLength := hlen
      simp only [OpKind.admits, hfull, decide_true, Bool.or_true, Bool.and_true, outcome]
    | readBody n =>
      cases hphase
      have hfull : outcome.bytes.length = n := hlen
      simp only [OpKind.admits, hfull, decide_true, Bool.or_true, Bool.and_true, outcome]
    | _ => cases hphase
  have hstep : step c (.complete i outcome) =
      some { c with pending := c.pending.set i ⟨attempt, kind, some outcome⟩ } := by
    simp [step, hc.faulted, hop, hadm]
  refine ⟨_, _, down.drop (packetLayout.wanted phase), .inr ⟨i, _, rfl, ?_⟩, hstep, hc.state, ?_, ?_⟩
  · exact (List.take_append_drop _ down).symm
  · intro op hmem result hresult
    obtain rfl | hold := Outstanding.mem_of_mem_set hmem
    · cases hresult
      rfl
    · exact hfine op (List.mem_of_mem_eraseIdx hold) result hresult
  · obtain ⟨hi, hget⟩ := List.getElem?_eq_some_iff.mp hop
    have hcount := List.countP_set (p := fun op : Op => op.kind.receives && op.outcome.isSome)
      (a := ⟨attempt, kind, some outcome⟩) hi
    rw [hget, receives_of_phase hphase] at hcount
    simp only [deliveries, List.length_drop]
    simp only [Option.isSome_none, Option.isSome_some, Bool.and_false, Bool.and_true,
      Bool.false_eq_true, if_false, if_true, Nat.sub_zero] at hcount
    omega

theorem Session.renew {attempt attempt' : ℕ} {kind next : OpKind} {outcome : Outcome} {t : ClientNode}
    (hc : Session c down (messages.map NearUserMessage.bytes)) (hfine : Unfailed c)
    (hop : c.pending[i]? = some ⟨attempt, kind, some outcome⟩) (hkind : kind.receives = true)
    (ht : runHandler ⟨attempt, kind, some outcome⟩ outcome { c with pending := c.pending.eraseIdx i } = t)
    (hs : t.state = .connected) (hp : t.pending = c.pending.eraseIdx i ++ [⟨attempt', next, none⟩]) :
    ∃ input t rest, Delivers input down rest ∧ step c input = some t ∧ t.state = .connected ∧
      Unfailed t ∧ deliveries t rest < deliveries c down := by
  have hstep : step c (.handler i) = some t := by
    rw [← ht]
    simp [step, hc.faulted, hop]
  refine ⟨_, t, down, .inl ⟨i, rfl, rfl⟩, hstep, hs, ?_, ?_⟩
  · intro op hmem result hresult
    rw [hp, List.mem_append, List.mem_singleton] at hmem
    obtain hold | rfl := hmem
    · exact hfine op (List.mem_of_mem_eraseIdx hold) result hresult
    · cases hresult
  · have hcount := Outstanding.countP_eraseIdx
      (fun op : Op => op.kind.receives && op.outcome.isSome) hop
    rw [hkind] at hcount
    simp only [Option.isSome_some, Bool.and_true, if_true] at hcount
    simp only [deliveries, hp, List.countP_append, List.countP_singleton, Option.isSome_none,
      Bool.and_false, Bool.false_eq_true, if_false]
    omega

theorem Session.delivery (hc : Session c down (messages.map NearUserMessage.bytes))
    (hfine : Unfailed c) (hne : messages ≠ []) :
    ∃ input t rest, Delivers input down rest ∧ step c input = some t ∧ t.state = .connected ∧
      Unfailed t ∧ deliveries t rest < deliveries c down := by
  have hbodies : messages.map NearUserMessage.bytes ≠ [] := fun h => hne (List.map_eq_nil_iff.mp h)
  obtain ⟨i, attempt, o, hop | ⟨n, hop⟩⟩ := hc.read
  · have hmem := List.mem_of_getElem? hop
    cases o with
    | none =>
      have hsees := hc.sees _ hmem .header rfl
      exact hc.fill hfine hop rfl packetLayout.headerLength_pos (hsees.wanted_le hbodies)
    | some outcome =>
      have herror := hfine _ hmem outcome rfl
      obtain ⟨error, endpoints, bytes⟩ := outcome
      cases herror
      obtain ⟨n, -, heq⟩ := headerHandler_eq hc hop
      exact hc.renew hfine hop rfl heq hc.state rfl
  · have hmem := List.mem_of_getElem? hop
    cases o with
    | none =>
      have hsees := hc.sees _ hmem (.body n) rfl
      have hle : n ≤ down.length := hsees.wanted_le hbodies
      have hsplit : Op.filled ⟨attempt, .readBody n, none⟩ ++ down = down.take n ++ down.drop n :=
        (List.take_append_drop n down).symm
      rw [hsplit] at hsees
      obtain ⟨more, hmore, -⟩ := hsees.takeBody (List.length_take_of_le hle)
      obtain ⟨m, toCome, -, hm, -⟩ := List.map_eq_cons_iff.mp hmore
      have hpos : 0 < n := by
        have hlength := congrArg List.length hm
        rw [NearUserMessage.bytes_length, List.length_take_of_le hle,
          NearUserMessage.headerLength] at hlength
        omega
      exact hc.fill hfine hop rfl hpos hle
    | some outcome =>
      have herror := hfine _ hmem outcome rfl
      obtain ⟨error, endpoints, bytes⟩ := outcome
      cases herror
      obtain ⟨m, toCome, -, -, heq⟩ := bodyHandler_eq hc hop
      exact hc.renew hfine hop rfl heq hc.state rfl

end

end Client

end NukeMs
