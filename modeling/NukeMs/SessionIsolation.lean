import NukeMs.ClientSteps
import NukeMs.Runs

namespace NukeMs.Client

open Runs SegmentationLayerBase

def Ended (attempt : ℕ) (c : ClientNode) : Prop := attempt < c.attempt ∨ c.state = .waiting

def Effect.touches : Effect → Bool
  | .connectStatReport _ | .rcvMessage _ | .transit _ | .close | .start _ _ => true
  | .sendReport _ | .resolved _ _ | .handedUp _ => false

def newEffects (s t : ClientNode) : List Effect := t.effects.drop s.effects.length

/-- A step has an effect on the machine, the socket or the application's view of the connection.
Reading past the end of a body counts as one. -/
def Disturbs (s t : ClientNode) : Prop :=
  t.faulted = true ∨ ∃ effect ∈ newEffects s t, effect.touches = true

structure Isolated [Host] (s : ClientNode) (input : Input) (t : ClientNode) : Prop where
  ended : ∀ i op, input = .handler i → s.pending[i]? = some op → Ended op.attempt s → ¬ Disturbs s t
  connected : s.state ≠ .connected → t.state = .connected → ∃ i op endpoint rest endpoints,
    input = .handler i ∧ s.pending[i]? = some op ∧ op.kind = .connect endpoint rest ∧
      .resolved s.attempt endpoints ∈ s.effects ∧ endpoint ∈ endpoints

def OpKind.harmless [Host] (kind : OpKind) (outcome : Outcome) (state : MachineState) : Bool :=
  match kind, outcome.error with
  | .resolve _ _, none => outcome.endpoints.isEmpty && state ≠ .negotiating
  | .resolve _ _, some error =>
    outcome.endpoints.isEmpty && (error.operationAborted || state ≠ .negotiating)
  | .connect _ _, none => false
  | .connect _ rest, some error => rest.isEmpty && (error.operationAborted || state ≠ .negotiating)
  | .readHeader, none =>
    match admitHeader (.msgLayerError "Oversized packet.") outcome.bytes with
    | .ok _ => false
    | .error _ => state ≠ .connected
  | .readHeader, some error => error.operationAborted || state ≠ .connected
  | .readBody _, none => false
  | .readBody _, some _ => state ≠ .connected
  | .write _, none => true
  | .write _, some _ => state ≠ .connected

section
variable {c t : ClientNode}

theorem newEffects_append {es : List Effect} (h : t.effects = c.effects ++ es) :
    newEffects c t = es := by
  rw [newEffects, h, List.drop_left]

theorem disturbs_emit {effect : Effect} (hp : c.effects <+: t.effects) (he : effect.touches = true) :
    Disturbs c (emit effect t) := by
  obtain ⟨es, hes⟩ := hp
  refine .inr ⟨effect, ?_, he⟩
  have happend : (emit effect t).effects = c.effects ++ (es ++ [effect]) := by
    rw [← List.append_assoc, hes]
    rfl
  rw [newEffects_append happend]
  exact List.mem_append_right _ (List.mem_singleton_self _)

theorem disturbs_start (hp : c.effects <+: t.effects) (attempt : ℕ) (kind : OpKind) :
    Disturbs c (start attempt kind t) :=
  disturbs_emit (t := { t with pending := t.pending ++ [⟨attempt, kind, none⟩] }) hp rfl

theorem disturbs_transit (hp : c.effects <+: t.effects) (state : MachineState) :
    Disturbs c (transit state t) :=
  disturbs_emit (t := { t with state := state }) hp rfl

theorem disturbs_enterWaiting (hp : c.effects <+: t.effects) : Disturbs c (enterWaiting t) := by
  refine disturbs_emit ?_ rfl
  exact hp.trans (List.prefix_append _ _)

theorem not_disturbs_self (hf : c.faulted = false) : ¬ Disturbs c c := by
  rintro (h | ⟨effect, he, -⟩)
  · rw [hf] at h
    cases h
  · rw [newEffects_append (List.append_nil _).symm] at he
    cases he

theorem not_disturbs_emit {effect : Effect} (hf : c.faulted = false) (he : effect.touches = false) :
    ¬ Disturbs c (emit effect c) := by
  rintro (h | ⟨other, ho, ht⟩)
  · exact not_disturbs_self hf (.inl h)
  · rw [newEffects_append rfl, List.mem_singleton] at ho
    rw [ho, he] at ht
    cases ht

theorem disturbs_reactConnectReport (success : Bool) (message : String) (c : ClientNode) :
    Disturbs c (StateNegotiating.reactConnectReport success message c) := by
  unfold StateNegotiating.reactConnectReport
  split
  · exact disturbs_transit (List.prefix_append _ _) _
  · exact disturbs_enterWaiting (List.prefix_append _ _)

end

section
variable [Host] {c : ClientNode}

theorem disturbs_connectReport (hf : c.faulted = false) (success : Bool) (message : String) :
    Disturbs c (processEvent (.connectReport success message) c) ↔ c.state = .negotiating := by
  rw [processEvent_connectReport]
  split
  next hs => exact iff_of_true (disturbs_reactConnectReport success message c) hs
  next hs => exact iff_of_false (not_disturbs_self hf) hs

theorem disturbs_disconnected (hf : c.faulted = false) (msg : String) :
    Disturbs c (processEvent (.disconnected msg) c) ↔ c.state = .connected := by
  rw [processEvent_disconnected]
  split
  next hs => exact iff_of_true (disturbs_enterWaiting (List.prefix_append _ _)) hs
  next hs => exact iff_of_false (not_disturbs_self hf) hs

theorem effects_rcvdMessage (data : SegmentationLayer SerializedData) (c : ClientNode) :
    c.effects <+: (processEvent (.rcvdMessage data) c).effects := by
  rw [processEvent_rcvdMessage]
  split
  · unfold StateConnected.reactRcvdMessage
    dsimp only
    split
    · exact List.prefix_rfl
    · split
      · split
        · exact List.prefix_append _ _
        · exact List.prefix_rfl
      · exact List.prefix_rfl
  · exact List.prefix_rfl

theorem disturbs_resolveHandler (hf : c.faulted = false) (attempt : ℕ) (host service : List Char)
    (outcome : Outcome) :
    Disturbs c (resolveHandler attempt outcome.error outcome.endpoints c) ↔
      (OpKind.resolve host service).harmless outcome c.state = false := by
  obtain ⟨error, endpoints, bytes⟩ := outcome
  unfold resolveHandler OpKind.harmless
  cases endpoints with
  | cons endpoint rest =>
    apply iff_of_true (disturbs_start (List.prefix_append _ _) _ _)
    cases error <;> rfl
  | nil =>
    cases error with
    | none => simp [disturbs_connectReport hf]
    | some error =>
      dsimp only
      split
      next ha => exact iff_of_false (not_disturbs_self hf) (by simp [ha])
      next ha => simp [disturbs_connectReport hf, ha]

theorem disturbs_connectHandler (hf : c.faulted = false) (attempt : ℕ) (endpoint : Endpoint)
    (rest : List Endpoint) (outcome : Outcome) :
    Disturbs c (connectHandler attempt outcome.error rest c) ↔
      (OpKind.connect endpoint rest).harmless outcome c.state = false := by
  obtain ⟨error, endpoints, bytes⟩ := outcome
  unfold connectHandler OpKind.harmless
  cases error with
  | none =>
    refine iff_of_true ?_ rfl
    dsimp only
    rw [processEvent_connectReport]
    split
    · refine disturbs_transit ?_ _
      exact (List.prefix_append _ _).trans (List.prefix_append _ _)
    · exact disturbs_start List.prefix_rfl _ _
  | some error =>
    cases rest with
    | cons next rest => exact iff_of_true (disturbs_start (List.prefix_append _ _) _ _) rfl
    | nil =>
      dsimp only
      split
      next ha => exact iff_of_false (not_disturbs_self hf) (by simp [ha])
      next ha => simp [disturbs_connectReport hf, ha]

theorem disturbs_headerHandler (hf : c.faulted = false) (attempt : ℕ) (outcome : Outcome) :
    Disturbs c (receiveSegmentationHeaderHandler attempt outcome.error outcome.bytes c) ↔
      OpKind.readHeader.harmless outcome c.state = false := by
  obtain ⟨error, endpoints, bytes⟩ := outcome
  unfold receiveSegmentationHeaderHandler OpKind.harmless
  cases error with
  | some error =>
    dsimp only
    split
    next ha => exact iff_of_false (not_disturbs_self hf) (by simp [ha])
    next ha => simp [disturbs_disconnected hf, ha]
  | none =>
    dsimp only
    cases admitHeader (.msgLayerError "Oversized packet.") bytes with
    | ok body => exact iff_of_true (disturbs_start List.prefix_rfl _ _) rfl
    | error e => simp [disturbs_disconnected hf]

theorem disturbs_bodyHandler (hf : c.faulted = false) (attempt : ℕ) (size : ℕ)
    (outcome : Outcome) :
    Disturbs c (receiveSegmentationBodyHandler attempt outcome.error outcome.bytes c) ↔
      (OpKind.readBody size).harmless outcome c.state = false := by
  obtain ⟨error, endpoints, bytes⟩ := outcome
  unfold receiveSegmentationBodyHandler OpKind.harmless
  cases error with
  | some error => simp [disturbs_disconnected hf]
  | none =>
    refine iff_of_true ?_ rfl
    dsimp only
    split
    next hfault => exact .inl hfault
    next =>
      refine disturbs_start ?_ _ _
      have hhanded : c.effects <+: (emit (.handedUp bytes) c).effects := List.prefix_append _ _
      exact hhanded.trans (effects_rcvdMessage _ _)

theorem disturbs_writeHandler (hf : c.faulted = false) (buffer : List Byte) (outcome : Outcome) :
    Disturbs c (writeHandler outcome.error c) ↔ (OpKind.write buffer).harmless outcome c.state = false := by
  obtain ⟨error, endpoints, bytes⟩ := outcome
  unfold writeHandler OpKind.harmless
  cases error with
  | none => exact iff_of_false (not_disturbs_emit hf rfl) (by simp)
  | some error =>
    have hstate (reasonStr : String) :
        (sendReport false .connectionError reasonStr c).state = c.state := rfl
    dsimp only
    rw [processEvent_disconnected, hstate]
    split
    next hs =>
      refine iff_of_true (disturbs_enterWaiting ?_) (by simpa using hs)
      exact (List.prefix_append _ _).trans (List.prefix_append _ _)
    next hs => exact iff_of_false (not_disturbs_emit hf rfl) (by simpa using hs)

theorem disturbs_runHandler (hf : c.faulted = false) (op : Op) (outcome : Outcome) :
    Disturbs c (runHandler op outcome c) ↔ op.kind.harmless outcome c.state = false := by
  obtain ⟨attempt, kind, o⟩ := op
  cases kind with
  | resolve host service => exact disturbs_resolveHandler hf attempt host service outcome
  | connect endpoint rest => exact disturbs_connectHandler hf attempt endpoint rest outcome
  | readHeader => exact disturbs_headerHandler hf attempt outcome
  | readBody size => exact disturbs_bodyHandler hf attempt size outcome
  | write buffer => exact disturbs_writeHandler hf buffer outcome

theorem success_of_connected {evt : Event} (hs : c.state ≠ .connected)
    (ht : (processEvent evt c).state = .connected) : ∃ message, evt = .connectReport true message := by
  unfold processEvent at ht
  split at ht
  next host service thread _ =>
    unfold StateWaiting.reactConnectRequest at ht
    cases hthread : thread.errmsg <;> rw [hthread] at ht <;> cases ht
  next hw => cases hw.symm.trans ht
  next success message _ =>
    cases success with
    | true => exact ⟨message, rfl⟩
    | false => cases ht
  next => cases ht
  next hn => cases hn.symm.trans ht
  next hn => cases hn.symm.trans ht
  next hc => exact absurd hc hs
  next hc => exact absurd hc hs
  next hc => exact absurd hc hs
  next hc => exact absurd hc hs
  next hc => exact absurd hc hs
  next => exact absurd ht hs

theorem connect_of_connected (hs : c.state ≠ .connected) {op : Op} {outcome : Outcome}
    (ht : (runHandler op outcome c).state = .connected) :
    outcome.error = none ∧ ∃ endpoint rest, op.kind = .connect endpoint rest := by
  obtain ⟨attempt, kind, o⟩ := op
  obtain ⟨error, endpoints, bytes⟩ := outcome
  cases kind with
  | resolve host service =>
    change (resolveHandler attempt error endpoints c).state = _ at ht
    unfold resolveHandler at ht
    split at ht
    · split at ht
      · exact absurd ht hs
      · cases success_of_connected hs ht with | intro _ h => cases h
    · cases success_of_connected hs ht with | intro _ h => cases h
    · exact absurd ht hs
  | connect endpoint rest =>
    refine ⟨?_, endpoint, rest, rfl⟩
    change (connectHandler attempt error rest c).state = _ at ht
    unfold connectHandler at ht
    split at ht
    · rfl
    · exact absurd ht hs
    · split at ht
      · exact absurd ht hs
      · cases success_of_connected hs ht with | intro _ h => cases h
  | readHeader =>
    change (receiveSegmentationHeaderHandler attempt error bytes c).state = _ at ht
    unfold receiveSegmentationHeaderHandler at ht
    split at ht
    · split at ht
      · exact absurd ht hs
      · cases success_of_connected hs ht with | intro _ h => cases h
    · split at ht
      · exact absurd ht hs
      · cases success_of_connected hs ht with | intro _ h => cases h
  | readBody size =>
    change (receiveSegmentationBodyHandler attempt error bytes c).state = _ at ht
    unfold receiveSegmentationBodyHandler at ht
    split at ht
    · cases success_of_connected hs ht with | intro _ h => cases h
    · dsimp only at ht
      split at ht
      · cases success_of_connected (c := emit _ c) hs ht with | intro _ h => cases h
      · cases success_of_connected (c := emit _ c) hs ht with | intro _ h => cases h
  | write buffer =>
    change (writeHandler error c).state = _ at ht
    unfold writeHandler at ht
    split at ht
    · exact absurd ht hs
    · cases success_of_connected (c := sendReport _ _ _ c) hs ht with | intro _ h => cases h

end

def Rooted (c : ClientNode) (attempt : ℕ) (kind : OpKind) : Prop :=
  attempt ≤ c.attempt ∧ match kind with
    | .connect endpoint rest =>
      ∃ endpoints, .resolved attempt endpoints ∈ c.effects ∧ endpoint :: rest ⊆ endpoints
    | _ => True

def AllRooted (c : ClientNode) : Prop := ∀ op ∈ c.pending, Rooted c op.attempt op.kind

section
variable {c t : ClientNode}

theorem Rooted.mono {attempt : ℕ} {kind : OpKind} (h : Rooted c attempt kind)
    (ha : c.attempt ≤ t.attempt) (he : c.effects ⊆ t.effects) : Rooted t attempt kind := by
  refine ⟨h.1.trans ha, ?_⟩
  have hkind := h.2
  cases kind with
  | connect endpoint rest =>
    obtain ⟨endpoints, hr, hsub⟩ := hkind
    exact ⟨endpoints, he hr, hsub⟩
  | resolve host service => trivial
  | readHeader => trivial
  | readBody size => trivial
  | write buffer => trivial

theorem AllRooted.mono (h : AllRooted c) (hp : ∀ op ∈ t.pending, ∃ op' ∈ c.pending,
    op'.attempt = op.attempt ∧ op'.kind = op.kind) (ha : c.attempt ≤ t.attempt)
    (he : c.effects ⊆ t.effects) : AllRooted t := by
  intro op hop
  obtain ⟨op', hop', hattempt, hkind⟩ := hp op hop
  have hrooted := (h op' hop').mono ha he
  rwa [hattempt, hkind] at hrooted

theorem allRooted_init : AllRooted init := by
  intro op hop
  cases hop

theorem AllRooted.emit (h : AllRooted c) (effect : Effect) : AllRooted (emit effect c) :=
  h.mono (fun op hop => ⟨op, hop, rfl, rfl⟩) le_rfl (List.subset_append_left _ _)

theorem AllRooted.transit (h : AllRooted c) (state : MachineState) : AllRooted (transit state c) :=
  h.mono (fun op hop => ⟨op, hop, rfl, rfl⟩) le_rfl (List.subset_append_left _ _)

theorem AllRooted.closeSocket (h : AllRooted c) : AllRooted (closeSocket c) := by
  refine h.mono ?_ le_rfl (List.subset_append_left _ _)
  intro op hop
  obtain ⟨op', hop', rfl⟩ := List.mem_map.mp hop
  refine ⟨op', hop', ?_⟩
  unfold Op.abort
  split <;> exact ⟨rfl, rfl⟩

theorem AllRooted.enterWaiting (h : AllRooted c) : AllRooted (enterWaiting c) :=
  (h.transit .waiting).closeSocket

theorem AllRooted.start (h : AllRooted c) {attempt : ℕ} {kind : OpKind}
    (hop : Rooted c attempt kind) : AllRooted (start attempt kind c) := by
  intro op hmem
  rcases List.mem_append.mp hmem with hold | hnew
  · exact (h op hold).mono le_rfl (List.subset_append_left _ _)
  · rw [List.mem_singleton] at hnew
    rw [hnew]
    exact hop.mono le_rfl (List.subset_append_left _ _)

theorem AllRooted.connectReport (h : AllRooted c) (success : Bool) (message : String) :
    AllRooted (StateNegotiating.reactConnectReport success message c) := by
  unfold StateNegotiating.reactConnectReport
  split
  · exact (h.emit _).transit _
  · exact (h.emit _).enterWaiting

theorem AllRooted.connectRequest (h : AllRooted c) (host service : List Char) (thread : ThreadStart) :
    AllRooted (StateWaiting.reactConnectRequest host service thread c) := by
  have hnext : AllRooted { c with attempt := c.attempt + 1 } :=
    h.mono (fun op hop => ⟨op, hop, rfl, rfl⟩) (Nat.le_succ _) (List.Subset.refl _)
  have hresolve : Rooted { c with attempt := c.attempt + 1 } (c.attempt + 1) (.resolve host service) :=
    ⟨le_rfl, trivial⟩
  have hstart := (hnext.start hresolve).transit .negotiating
  unfold StateWaiting.reactConnectRequest
  cases thread.errmsg with
  | none => exact hstart
  | some errmsg => exact hstart.connectReport false errmsg

end

section
variable [Host] {c t : ClientNode}

theorem AllRooted.processEvent (h : AllRooted c) (evt : Event) : AllRooted (processEvent evt c) := by
  unfold Client.processEvent
  split
  next => exact h.connectRequest _ _ _
  next => exact h.emit _
  next => exact h.connectReport _ _
  next => exact (h.emit _).enterWaiting
  next => exact h.emit _
  next => exact h.emit _
  next => exact (h.emit _).enterWaiting
  next => exact h.start ⟨le_rfl, trivial⟩
  next => exact (h.emit _).enterWaiting
  next =>
    unfold StateConnected.reactRcvdMessage
    dsimp only
    split
    · exact h
    · split
      · split
        · exact h.emit _
        · exact h
      · exact h
  next => exact h.emit _
  next => exact h

theorem Rooted.rcvdMessage {attempt : ℕ} {kind : OpKind}
    (hop : Rooted c attempt kind) (data : SegmentationLayer SerializedData) :
    Rooted (Client.processEvent (.rcvdMessage data) c) attempt kind := by
  refine hop.mono (le_of_eq ?_) (effects_rcvdMessage data c).subset
  rw [processEvent_rcvdMessage]
  split
  · unfold StateConnected.reactRcvdMessage
    dsimp only
    split
    · rfl
    · split
      · split <;> rfl
      · rfl
  · rfl

theorem AllRooted.runHandler (h : AllRooted c) {op : Op} (hop : Rooted c op.attempt op.kind)
    (outcome : Outcome) : AllRooted (runHandler op outcome c) := by
  obtain ⟨attempt, kind, o⟩ := op
  obtain ⟨error, endpoints, bytes⟩ := outcome
  cases kind with
  | resolve host service =>
    change AllRooted (resolveHandler attempt error endpoints c)
    unfold resolveHandler
    split
    · split
      · exact h
      · exact h.processEvent _
    · exact h.processEvent _
    next endpoint rest =>
      refine (h.emit _).start ⟨hop.1, endpoint :: rest, ?_, List.Subset.refl _⟩
      exact List.mem_append_right _ (List.mem_singleton_self _)
  | connect endpoint rest =>
    change AllRooted (connectHandler attempt error rest c)
    obtain ⟨hle, endpoints, hr, hsub⟩ := hop
    unfold connectHandler
    split
    · exact (h.start ⟨hle, trivial⟩).processEvent _
    next next rest =>
      refine h.closeSocket.start ⟨hle, endpoints, List.subset_append_left _ _ hr, ?_⟩
      exact fun x hx => hsub (List.mem_cons_of_mem _ hx)
    · split
      · exact h
      · exact h.processEvent _
  | readHeader =>
    change AllRooted (receiveSegmentationHeaderHandler attempt error bytes c)
    unfold receiveSegmentationHeaderHandler
    split
    · split
      · exact h
      · exact h.processEvent _
    · split
      · exact h.start ⟨hop.1, trivial⟩
      · exact h.processEvent _
  | readBody size =>
    change AllRooted (receiveSegmentationBodyHandler attempt error bytes c)
    unfold receiveSegmentationBodyHandler
    split
    · exact h.processEvent _
    · have hnext : Rooted (Client.emit (.handedUp bytes) c) attempt .readHeader := ⟨hop.1, trivial⟩
      have hrcvd := (h.emit (Effect.handedUp bytes)).processEvent
        (.rcvdMessage ⟨SerializedData.ofBlock bytes⟩)
      dsimp only
      split
      · exact hrcvd
      · exact hrcvd.start (hnext.rcvdMessage _)
  | write buffer =>
    change AllRooted (writeHandler error c)
    unfold writeHandler
    split
    · exact h.emit _
    · exact (h.emit _).processEvent _

theorem allRooted_step (input : Input) (h : AllRooted c) (hstep : step c input = some t) :
    AllRooted t := by
  cases (steps_of_step hstep).2 with
  | connectTo dest thread =>
    unfold connectTo
    split
    · exact h.processEvent _
    · exact h.emit _
  | disconnect => exact h.processEvent _
  | sendUserMessage msg recipient =>
    have hnext : AllRooted { c with lastMsgId := getNextMessageId c } := h
    exact hnext.processEvent _
  | complete i outcome op hop =>
    refine h.mono ?_ le_rfl (List.Subset.refl _)
    intro op' hop'
    rcases List.mem_or_eq_of_mem_set hop' with hmem | rfl
    · exact ⟨op', hmem, rfl, rfl⟩
    · exact ⟨op, List.mem_of_getElem? hop, rfl, rfl⟩
  | handler i op outcome hop =>
    have htaken : AllRooted { c with pending := c.pending.eraseIdx i } :=
      h.mono (fun op' hop' => ⟨op', List.mem_of_mem_eraseIdx hop', rfl, rfl⟩) le_rfl
        (List.Subset.refl _)
    exact htaken.runHandler (h op (List.mem_of_getElem? hop)) outcome

def HarmlessIfEnded (c : ClientNode) (input : Input) : Prop :=
  ∀ i op outcome, input = .handler i → c.pending[i]? = some op → op.outcome = some outcome →
    Ended op.attempt c → op.kind.harmless outcome c.state = true

theorem connect_of_step {input : Input} (hs : c.state ≠ .connected) (hstep : step c input = some t)
    (ht : t.state = .connected) : ∃ i op outcome endpoint rest, input = .handler i ∧
      c.pending[i]? = some op ∧ op.outcome = some outcome ∧ outcome.error = none ∧
      op.kind = .connect endpoint rest := by
  cases (steps_of_step hstep).2 with
  | connectTo dest thread =>
    unfold connectTo at ht
    split at ht
    · cases success_of_connected hs ht with | intro _ h => cases h
    · exact absurd ht hs
  | disconnect => cases success_of_connected hs ht with | intro _ h => cases h
  | sendUserMessage msg recipient =>
    cases success_of_connected (c := { c with lastMsgId := getNextMessageId c }) hs ht with
    | intro _ h => cases h
  | complete i outcome op hop => exact absurd ht hs
  | handler i op outcome hop hsome =>
    obtain ⟨herror, endpoint, rest, hkind⟩ :=
      connect_of_connected (c := { c with pending := c.pending.eraseIdx i }) hs ht
    exact ⟨i, op, outcome, endpoint, rest, rfl, hop, hsome, herror, hkind⟩

theorem disturbs_handler (hf : c.faulted = false) (i : ℕ) (op : Op) (outcome : Outcome) :
    Disturbs c (runHandler op outcome { c with pending := c.pending.eraseIdx i }) ↔
      op.kind.harmless outcome c.state = false :=
  disturbs_runHandler (c := { c with pending := c.pending.eraseIdx i }) hf op outcome

theorem isolated_iff (input : Input) (h : AllRooted c) (hstep : step c input = some t) :
    Isolated c input t ↔ HarmlessIfEnded c input := by
  have hcases := steps_of_step hstep
  constructor
  · rintro hiso i op outcome rfl hop hsome hended
    cases hcases.2 with
    | handler _ op' outcome' hop' hsome' =>
      cases hop.symm.trans hop'
      cases hsome.symm.trans hsome'
      have hno := hiso.ended i op rfl hop hended
      rw [← Bool.not_eq_false]
      exact mt (disturbs_handler hcases.1 i op outcome).mpr hno
  · refine fun hharm => ⟨?_, ?_⟩
    · rintro i op rfl hop hended
      cases hcases.2 with
      | handler _ op' outcome hop' hsome =>
        cases hop.symm.trans hop'
        have hharmless := hharm i op outcome rfl hop hsome hended
        apply mt (disturbs_handler hcases.1 i op outcome).mp
        rw [Bool.not_eq_false]
        exact hharmless
    · intro hs ht
      obtain ⟨i, op, outcome, endpoint, rest, rfl, hop, hsome, herror, hkind⟩ :=
        connect_of_step hs hstep ht
      obtain ⟨hle, hroot⟩ := h op (List.mem_of_getElem? hop)
      rw [hkind] at hroot
      obtain ⟨endpoints, hr, hsub⟩ := hroot
      have hcurrent : op.attempt = c.attempt := by
        by_contra hne
        have hharmless := hharm i op outcome rfl hop hsome (.inl (lt_of_le_of_ne hle hne))
        rw [hkind] at hharmless
        unfold OpKind.harmless at hharmless
        rw [herror] at hharmless
        cases hharmless
      exact ⟨i, op, endpoint, rest, endpoints, rfl, hop, hkind, hcurrent ▸ hr,
        hsub List.mem_cons_self⟩

theorem isolated_run (es : List Input) : Along step Isolated init es ↔
    Along step (fun s input _ => HarmlessIfEnded s input) init es :=
  along_congr (I := AllRooted) (fun _ input _ h _ hstep => allRooted_step input h hstep)
    (fun _ input _ h hstep => isolated_iff input h hstep) allRooted_init es

end

def lateResolve : List Input :=
  let endpoint : Endpoint := ⟨"127.0.0.1", 34443⟩
  [.connectTo ['a', ' ', 'b'] .started, .disconnect, .connectTo ['c', ' ', 'd'] .started,
    .complete 0 ⟨none, [endpoint], []⟩, .handler 0, .complete 1 ⟨none, [], []⟩]

theorem lateResolve_connects : ∃ s t, exec (@step littleEndianHost) init lateResolve = some s ∧
    @step littleEndianHost s (.handler 1) = some t ∧ s.attempt = 2 ∧ t.state = .connected ∧
    ¬ @Isolated littleEndianHost s (.handler 1) t := by
  refine ⟨_, _, rfl, rfl, rfl, rfl, ?_⟩
  intro h
  have hno := @Isolated.ended littleEndianHost _ _ _ h 1 _ rfl rfl (.inl Nat.one_lt_two)
  exact hno (.inr ⟨.transit .connected, .tail _ (.tail _ (.head _)), rfl⟩)

end NukeMs.Client
