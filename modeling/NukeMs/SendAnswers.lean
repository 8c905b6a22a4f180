import NukeMs.ClientEffects
import NukeMs.Outstanding
import NukeMs.Runs

namespace NukeMs.Client

open Runs

def Effect.answer : Effect → Option SendReport
  | .sendReport rprt => some rprt
  | _ => none

def sendReports (c : ClientNode) : List SendReport := c.effects.filterMap Effect.answer

def newReports (s t : ClientNode) : List SendReport := (sendReports t).drop (sendReports s).length

def unanswered (c : ClientNode) : ℕ := c.pending.countP (fun op => op.kind.isWrite)

def Input.isSend : Input → Bool
  | .sendUserMessage _ _ => true
  | _ => false

def asked (c : ClientNode) : Input → Option NearUserMessage
  | .sendUserMessage msg recipient => some (usermsg msg recipient c)
  | _ => none

section
variable [Host]

def sentMessages (c : ClientNode) : List Input → List NearUserMessage
  | [] => []
  | input :: es =>
    match step c input with
    | none => []
    | some t => (asked c input).toList ++ sentMessages t es

end

section
variable (c : ClientNode)

theorem quiet_answer : Quiet Effect.answer where
  report _ := rfl
  transit _ := rfl
  close := rfl
  start _ _ _ := rfl
  resolved _ _ := rfl
  handedUp _ := rfl

theorem sendReports_emit (effect : Effect) :
    sendReports (emit effect c) = sendReports c ++ effect.answer.toList := picked_emit c effect

def refusal : MachineState → List SendReport
  | .waiting => [⟨0, false, .serverNotConnected, "Not Connected."⟩]
  | .negotiating => [⟨0, false, .serverNotConnected, "Not yet Connected."⟩]
  | .connected => []

def OpKind.answer (kind : OpKind) (outcome : Outcome) : List SendReport :=
  match kind, outcome.error with
  | .write _, none => [⟨0, true, .sendOk, ""⟩]
  | .write _, some error => [⟨0, false, .connectionError, error.message⟩]
  | _, _ => []

end

section
variable [Host] (c : ClientNode)

theorem sendReports_processEvent (evt : Event) (hevt : ∀ data, evt ≠ .sendMsg data) :
    sendReports (processEvent evt c) = sendReports c :=
  picked_processEvent c quiet_answer (fun _ => rfl) hevt

theorem sendReports_sendMsg (data : NearUserMessage) :
    sendReports (processEvent (.sendMsg data) c) = sendReports c ++ refusal c.state := by
  unfold processEvent
  cases c.state with
  | waiting => exact sendReports_emit c _
  | negotiating => exact sendReports_emit c _
  | connected => exact sendReports_emit { c with pending := _ } _

theorem sendReports_writeHandler (buffer : List Byte) (outcome : Outcome) :
    sendReports (writeHandler outcome.error c) =
      sendReports c ++ (OpKind.write buffer).answer outcome := by
  obtain ⟨error, endpoints, bytes⟩ := outcome
  unfold writeHandler
  cases error with
  | none => exact sendReports_emit c _
  | some error =>
    exact (sendReports_processEvent _ (.disconnected _) nofun).trans (sendReports_emit c _)

theorem sendReports_runHandler (op : Op) (outcome : Outcome) :
    sendReports (runHandler op outcome c) = sendReports c ++ op.kind.answer outcome := by
  have hk := keeps_picked quiet_answer (fun _ => rfl) (sendReports c)
  obtain ⟨attempt, kind, o⟩ := op
  cases kind with
  | resolve host service =>
    exact (hk.resolveHandler attempt _ _ rfl).trans (List.append_nil _).symm
  | connect endpoint rest =>
    exact (hk.connectHandler attempt _ rest rfl).trans (List.append_nil _).symm
  | readHeader => exact (hk.headerHandler attempt _ _ rfl).trans (List.append_nil _).symm
  | readBody size => exact (hk.bodyHandler attempt _ _ rfl).trans (List.append_nil _).symm
  | write buffer => exact sendReports_writeHandler c buffer outcome

def answersOf (c : ClientNode) : Input → List SendReport
  | .sendUserMessage _ _ => refusal c.state
  | .handler i =>
    match c.pending[i]? with
    | some ⟨_, kind, some outcome⟩ => kind.answer outcome
    | _ => []
  | _ => []

variable {c} {t : ClientNode}

omit [Host] in
theorem answersOf_handler {i : ℕ} {op : Op} {outcome : Outcome} (hop : c.pending[i]? = some op)
    (hsome : op.outcome = some outcome) : answersOf c (.handler i) = op.kind.answer outcome := by
  obtain ⟨attempt, kind, o⟩ := op
  cases hsome
  simp only [answersOf, hop]

theorem sendReports_step (input : Input) (hstep : step c input = some t) :
    sendReports t = sendReports c ++ answersOf c input := by
  cases (steps_of_step hstep).2 with
  | connectTo dest thread =>
    refine Eq.trans ?_ (List.append_nil _).symm
    unfold connectTo
    split
    · exact sendReports_processEvent c (.connectRequest _ _ _) nofun
    · exact picked_report c quiet_answer _ _ _
  | disconnect =>
    exact (sendReports_processEvent c .disconnectRequest nofun).trans (List.append_nil _).symm
  | sendUserMessage msg recipient =>
    exact sendReports_sendMsg { c with lastMsgId := getNextMessageId c } (usermsg msg recipient c)
  | complete i outcome op => exact (List.append_nil _).symm
  | handler i op outcome hop hsome =>
    rw [answersOf_handler hop hsome]
    exact sendReports_runHandler { c with pending := c.pending.eraseIdx i } op outcome

theorem newReports_step {input : Input} (hstep : step c input = some t) :
    newReports c t = answersOf c input := by
  rw [newReports, sendReports_step input hstep, List.drop_left]

end

section
variable {c t : ClientNode}

theorem isWrite_abort (op : Op) : op.abort.kind = op.kind := by
  unfold Op.abort
  split <;> rfl

theorem countP_aborted (ops : List Op) : (ops.map Op.abort).countP (fun op => op.kind.isWrite) =
    ops.countP (fun op => op.kind.isWrite) := by
  rw [List.countP_map]
  exact List.countP_congr fun op _ => by rw [Function.comp_apply, isWrite_abort]

theorem isWrite_of_other {kind : OpKind} (h : kind.negotiates = true ∨ kind.receives = true) :
    kind.isWrite = false := by
  cases kind <;> simp [OpKind.negotiates, OpKind.receives, OpKind.isWrite] at *

theorem Called.unanswered [Host] {sent : Option NearUserMessage} (h : Called c sent t) :
    unanswered t = unanswered c + if sent.isSome ∧ c.state = .connected then 1 else 0 := by
  cases h with
  | stay hsent hs hp =>
    rw [Client.unanswered, hp, if_neg]
    · rfl
    · rintro ⟨hsome, hc⟩
      rcases hsent with rfl | hne
      · cases hsome
      · exact hne hc
  | wait hsent started hs hstarted hp =>
    have hnone : started.countP (fun op => op.kind.isWrite) = 0 := by
      apply List.countP_eq_zero.mpr
      intro op hop
      rw [isWrite_of_other (.inl (hstarted op hop))]
      exact nofun
    rw [Client.unanswered, hp, countP_aborted, List.countP_append, hnone, hsent]
    rfl
  | request hsent attempt host service hs hp =>
    rw [Client.unanswered, hp, List.countP_append, hsent]
    rfl
  | write data hsent attempt hc hs hp =>
    rw [Client.unanswered, hp, List.countP_append, hsent, if_pos ⟨rfl, hc⟩]
    rfl

theorem Handled.unanswered {op : Op} {outcome : Outcome} (h : Handled c op outcome t) :
    unanswered t = unanswered c := by
  cases h with
  | stay hs hp => rw [Client.unanswered, hp, Client.unanswered]
  | wait hs hp => rw [Client.unanswered, hp, countP_aborted, Client.unanswered]
  | connected endpoint rest hkind herror hs hp =>
    rw [Client.unanswered, hp, List.countP_append]
    rfl
  | next kind hs hp hn hr hb hk =>
    rw [Client.unanswered, hp, List.countP_append, List.countP_singleton, isWrite_of_other hk]
    rfl
  | retry endpoint next rest hkind herror hs hp =>
    rw [Client.unanswered, hp, List.countP_append, countP_aborted]
    rfl

theorem refusal_length (state : MachineState) :
    (refusal state).length + (if state = .connected then 1 else 0) = 1 := by
  cases state <;> rfl

theorem eq_of_mem_refusal {state : MachineState} {rprt : SendReport} (h : rprt ∈ refusal state) :
    rprt.sendState = false ∧ rprt.messageId = 0 := by
  cases state with
  | waiting =>
    rw [List.mem_singleton.mp h]
    exact ⟨rfl, rfl⟩
  | negotiating =>
    rw [List.mem_singleton.mp h]
    exact ⟨rfl, rfl⟩
  | connected => cases h

theorem eq_of_mem_answer {kind : OpKind} {outcome : Outcome} {rprt : SendReport}
    (h : rprt ∈ kind.answer outcome) : (∃ buffer, kind = .write buffer) ∧
      (rprt.sendState = true → outcome.error = none) ∧ rprt.messageId = 0 := by
  obtain ⟨error, endpoints, bytes⟩ := outcome
  cases kind with
  | write buffer =>
    cases error with
    | none =>
      rw [List.mem_singleton.mp h]
      exact ⟨⟨buffer, rfl⟩, fun _ => rfl, rfl⟩
    | some error =>
      rw [List.mem_singleton.mp h]
      exact ⟨⟨buffer, rfl⟩, nofun, rfl⟩
  | resolve host service => cases h
  | connect endpoint rest => cases h
  | readHeader => cases h
  | readBody size => cases h

theorem answer_length (kind : OpKind) (outcome : Outcome) :
    (kind.answer outcome).length = if kind.isWrite then 1 else 0 := by
  obtain ⟨error, endpoints, bytes⟩ := outcome
  cases kind <;> cases error <;> rfl

end

def Accounted (c : ClientNode) (calls : ℕ) : Prop :=
  (sendReports c).length + unanswered c = calls

section
variable [Host] {c t : ClientNode}

theorem accounted_step (input : Input) {calls : ℕ} (h : Accounted c calls)
    (hstep : step c input = some t) :
    Accounted t (calls + if input.isSend then 1 else 0) := by
  have hreports := sendReports_step input hstep
  obtain ⟨hf, hcases⟩ := steps_of_step hstep
  rw [Accounted, hreports, List.length_append, ← h]
  cases hcases with
  | connectTo dest thread =>
    rw [(called_connectTo c dest thread).unanswered]
    rfl
  | disconnect =>
    rw [(called_disconnect c).unanswered]
    rfl
  | sendUserMessage msg recipient =>
    have hone := refusal_length c.state
    rw [(called_sendUserMessage c msg recipient).unanswered]
    simp only [answersOf, Input.isSend, Option.isSome_some, true_and, if_true]
    omega
  | complete i outcome op hop =>
    have hsame : (c.pending.set i { op with outcome := some outcome }).countP
        (fun op => op.kind.isWrite) = unanswered c :=
      Outstanding.countP_set (fun op : Op => op.kind.isWrite) hop rfl
    rw [unanswered, hsame]
    rfl
  | handler i op outcome hop hsome =>
    have hhandled := handled_runHandler (c := { c with pending := c.pending.eraseIdx i }) op outcome hf
    have hcount := Outstanding.countP_eraseIdx (fun op => op.kind.isWrite) hop
    rw [hhandled.unanswered, answersOf_handler hop hsome, answer_length, unanswered, unanswered,
      ← hcount]
    simp only [Input.isSend, Bool.false_eq_true, if_false]
    omega

theorem accounted_run (es : List Input) {calls : ℕ} (h : Accounted c calls)
    (hrun : exec step c es = some t) : Accounted t (calls + es.countP Input.isSend) := by
  induction es generalizing c calls with
  | nil =>
    cases hrun
    exact h
  | cons input es ih =>
    obtain ⟨u, hu, ht⟩ := exec_cons.mp hrun
    have hnext := ih (accounted_step input h hu) ht
    rw [List.countP_cons, Nat.add_comm (es.countP _), ← Nat.add_assoc]
    exact hnext

def WritesSent (ms : List NearUserMessage) (c : ClientNode) : Prop :=
  ∀ op ∈ c.pending, ∀ buffer, op.kind = .write buffer →
    ∃ m ∈ ms, buffer = serializedBuffer (SegmentationLayer.mk m)

theorem WritesSent.of_kinds {ms : List NearUserMessage} (h : WritesSent ms c)
    (hp : ∀ op ∈ t.pending, op.kind.isWrite = true → ∃ op' ∈ c.pending, op'.kind = op.kind) :
    WritesSent ms t := by
  intro op hop buffer hkind
  have hwrite : op.kind.isWrite = true := by
    rw [hkind]
    rfl
  obtain ⟨op', hop', hsame⟩ := hp op hop hwrite
  exact h op' hop' buffer (hsame.trans hkind)

theorem WritesSent.called {ms : List NearUserMessage} {sent : Option NearUserMessage}
    (h : WritesSent ms c) (hcalled : Called c sent t) : WritesSent (ms ++ sent.toList) t := by
  have hmore : WritesSent (ms ++ sent.toList) c := by
    intro op hop buffer hkind
    obtain ⟨m, hm, hbuffer⟩ := h op hop buffer hkind
    exact ⟨m, List.mem_append_left _ hm, hbuffer⟩
  cases hcalled with
  | stay hsent hs hp =>
    apply hmore.of_kinds
    intro op hop hwrite
    rw [hp] at hop
    exact ⟨op, hop, rfl⟩
  | wait hsent started hs hstarted hp =>
    apply hmore.of_kinds
    intro op hop hwrite
    rw [hp] at hop
    obtain ⟨op', hop', rfl⟩ := List.mem_map.mp hop
    rcases List.mem_append.mp hop' with hold | hnew
    · exact ⟨op', hold, (isWrite_abort op').symm⟩
    · rw [isWrite_abort, isWrite_of_other (.inl (hstarted op' hnew))] at hwrite
      cases hwrite
  | request hsent attempt host service hs hp =>
    apply hmore.of_kinds
    intro op hop hwrite
    rw [hp] at hop
    rcases List.mem_append.mp hop with hold | hnew
    · exact ⟨op, hold, rfl⟩
    · rw [List.mem_singleton.mp hnew] at hwrite
      cases hwrite
  | write data hsent attempt hc hs hp =>
    intro op hop buffer hkind
    rw [hp] at hop
    rcases List.mem_append.mp hop with hold | hnew
    · exact hmore op hold buffer hkind
    · rw [List.mem_singleton.mp hnew] at hkind
      cases hkind
      refine ⟨data, List.mem_append_right _ ?_, rfl⟩
      rw [hsent]
      exact List.mem_singleton_self _

theorem WritesSent.handled {ms : List NearUserMessage} {op : Op} {outcome : Outcome}
    (h : WritesSent ms c) (hhandled : Handled c op outcome t) : WritesSent ms t := by
  apply h.of_kinds
  intro op' hop' hwrite
  have hfresh {attempt : ℕ} {kind : OpKind} (hk : kind.negotiates = true ∨ kind.receives = true)
      (hnew : op' ∈ [(⟨attempt, kind, none⟩ : Op)]) : ∃ op ∈ c.pending, op.kind = op'.kind := by
    rw [List.mem_singleton.mp hnew, isWrite_of_other hk] at hwrite
    cases hwrite
  have haborted (hold : op' ∈ c.pending.map Op.abort) : ∃ op ∈ c.pending, op.kind = op'.kind := by
    obtain ⟨other, hother, rfl⟩ := List.mem_map.mp hold
    exact ⟨other, hother, (isWrite_abort other).symm⟩
  cases hhandled with
  | stay hs hp => exact ⟨op', hp ▸ hop', rfl⟩
  | wait hs hp => exact haborted (hp ▸ hop')
  | connected endpoint rest hkind herror hs hp =>
    rw [hp] at hop'
    rcases List.mem_append.mp hop' with hold | hnew
    · exact ⟨op', hold, rfl⟩
    · exact hfresh (.inr rfl) hnew
  | next kind hs hp hn hr hb hk =>
    rw [hp] at hop'
    rcases List.mem_append.mp hop' with hold | hnew
    · exact ⟨op', hold, rfl⟩
    · exact hfresh hk hnew
  | retry endpoint next rest hkind herror hs hp =>
    rw [hp] at hop'
    rcases List.mem_append.mp hop' with hold | hnew
    · exact haborted hold
    · exact hfresh (.inl rfl) hnew

theorem writesSent_step (input : Input) {ms : List NearUserMessage} (h : WritesSent ms c)
    (hstep : step c input = some t) : WritesSent (ms ++ (asked c input).toList) t := by
  obtain ⟨hf, hcases⟩ := steps_of_step hstep
  cases hcases with
  | connectTo dest thread => exact h.called (called_connectTo c dest thread)
  | disconnect => exact h.called (called_disconnect c)
  | sendUserMessage msg recipient => exact h.called (called_sendUserMessage c msg recipient)
  | complete i outcome op hop =>
    have hsame : ms ++ (asked c (.complete i outcome)).toList = ms := List.append_nil ms
    rw [hsame]
    apply h.of_kinds
    intro op' hop' hwrite
    rcases List.mem_or_eq_of_mem_set hop' with hmem | rfl
    · exact ⟨op', hmem, rfl⟩
    · exact ⟨op, List.mem_of_getElem? hop, rfl⟩
  | handler i op outcome hop hsome =>
    have hsame : ms ++ (asked c (.handler i)).toList = ms := List.append_nil ms
    rw [hsame]
    have htaken : WritesSent ms { c with pending := c.pending.eraseIdx i } :=
      fun op' hop' => h op' (List.mem_of_mem_eraseIdx hop')
    exact htaken.handled (handled_runHandler op outcome hf)

theorem writesSent_run (es : List Input) {ms : List NearUserMessage} (h : WritesSent ms c)
    (hrun : exec step c es = some t) : WritesSent (ms ++ sentMessages c es) t := by
  induction es generalizing c ms with
  | nil =>
    cases hrun
    rw [sentMessages, List.append_nil]
    exact h
  | cons input es ih =>
    obtain ⟨u, hu, ht⟩ := exec_cons.mp hrun
    have hnext := ih (writesSent_step input h hu) ht
    simp only [sentMessages, hu]
    rw [← List.append_assoc]
    exact hnext

omit [Host] in
theorem accounted_init : Accounted init 0 := rfl

theorem writesSent_init : WritesSent [] init := nofun

structure SendsAnswered (es : List Input) (t : ClientNode) : Prop where
  once : (sendReports t).length + unanswered t = es.countP Input.isSend
  written : ∀ input u rprt, step t input = some u → rprt ∈ newReports t u → rprt.sendState = true →
    ∃ i op outcome m, input = .handler i ∧ t.pending[i]? = some op ∧ op.outcome = some outcome ∧
      outcome.error = none ∧ m ∈ sentMessages init es ∧
      op.kind = .write (serializedBuffer (SegmentationLayer.mk m))

theorem written_of_sendState {t u : ClientNode} {input : Input} (hstep : step t input = some u)
    {rprt : SendReport} (hrprt : rprt ∈ newReports t u) (htrue : rprt.sendState = true) :
    ∃ i op outcome buffer, input = .handler i ∧ t.pending[i]? = some op ∧
      op.outcome = some outcome ∧ outcome.error = none ∧ op.kind = .write buffer := by
  rw [newReports_step hstep] at hrprt
  cases (steps_of_step hstep).2 with
  | connectTo dest thread => cases hrprt
  | disconnect => cases hrprt
  | sendUserMessage msg recipient =>
    have hfalse := (eq_of_mem_refusal hrprt).1
    rw [htrue] at hfalse
    cases hfalse
  | complete i outcome op => cases hrprt
  | handler i op outcome hop hsome =>
    rw [answersOf_handler hop hsome] at hrprt
    obtain ⟨⟨buffer, hkind⟩, herror, -⟩ := eq_of_mem_answer hrprt
    exact ⟨i, op, outcome, buffer, rfl, hop, hsome, herror htrue, hkind⟩

theorem sendsAnswered_run (es : List Input) {t : ClientNode} (hrun : exec step init es = some t) :
    SendsAnswered es t := by
  constructor
  · have hall := accounted_run es accounted_init hrun
    rw [Nat.zero_add] at hall
    exact hall
  · intro input u rprt hstep hrprt htrue
    obtain ⟨i, op, outcome, buffer, hinput, hop, hsome, herror, hkind⟩ :=
      written_of_sendState hstep hrprt htrue
    have hsent := writesSent_run es writesSent_init hrun
    obtain ⟨m, hm, rfl⟩ := hsent op (List.mem_of_getElem? hop) buffer hkind
    exact ⟨i, op, outcome, m, hinput, hop, hsome, herror, hm, hkind⟩

end

def twoSends : List Input :=
  let endpoint : Endpoint := ⟨"127.0.0.1", 34443⟩
  [.sendUserMessage [0x61] UniqueUserID.userIdNone, .connectTo ['a', ' ', 'b'] .started,
    .complete 0 ⟨none, [endpoint], []⟩, .handler 0, .complete 0 ⟨none, [], []⟩, .handler 0,
    .sendUserMessage [0x62] UniqueUserID.userIdNone, .complete 1 ⟨none, [], []⟩, .handler 1]

theorem sendsAnswered_twoSends : ∃ t, exec (@step littleEndianHost) init twoSends = some t ∧
    (sendReports t).length = 2 ∧ @SendsAnswered littleEndianHost twoSends t :=
  ⟨_, rfl, rfl, @sendsAnswered_run littleEndianHost twoSends _ rfl⟩

end NukeMs.Client
