import NukeMs.SendAnswers

namespace NukeMs.Client

open Runs

section
variable [Host]

inductive Answers (s : ClientNode) (input : Input) (t : ClientNode) :
    NearUserMessage → SendReport → Prop
  | refused (msg : List Byte) (recipient : UniqueUserID) (rprt : SendReport)
    (hinput : input = .sendUserMessage msg recipient) (hrprt : rprt ∈ newReports s t) :
    Answers s input t (usermsg msg recipient s) rprt
  | written (i : ℕ) (op : Op) (m : NearUserMessage) (rprt : SendReport) (hinput : input = .handler i)
    (hop : s.pending[i]? = some op)
    (hkind : op.kind = .write (serializedBuffer (SegmentationLayer.mk m)))
    (hrprt : rprt ∈ newReports s t) : Answers s input t m rprt

variable {c t : ClientNode}

theorem lastMsgId_step (input : Input) (hstep : step c input = some t) :
    t.lastMsgId = c.lastMsgId + if input.isSend then 1 else 0 := by
  cases (steps_of_step hstep).2 with
  | connectTo dest thread =>
    refine Eq.trans ?_ (BitVec.add_zero _).symm
    unfold connectTo
    split
    · exact processEvent_lastMsgId _ c
    · rfl
  | disconnect => exact (processEvent_lastMsgId _ c).trans (BitVec.add_zero _).symm
  | sendUserMessage msg recipient => exact processEvent_lastMsgId _ _
  | complete i outcome op hop => exact (BitVec.add_zero _).symm
  | handler i op outcome hop hsome =>
    exact (runHandler_lastMsgId op outcome _).trans (BitVec.add_zero _).symm

omit [Host] in
theorem asked_eq (c : ClientNode) (input : Input) : (asked c input = none ∧ input.isSend = false) ∨
    ∃ m, asked c input = some m ∧ m.msgId = c.lastMsgId + 1 ∧ input.isSend = true := by
  cases input with
  | sendUserMessage msg recipient => exact .inr ⟨_, rfl, rfl, rfl⟩
  | connectTo dest thread => exact .inl ⟨rfl, rfl⟩
  | disconnect => exact .inl ⟨rfl, rfl⟩
  | complete i outcome => exact .inl ⟨rfl, rfl⟩
  | handler i => exact .inl ⟨rfl, rfl⟩

omit [Host] in
theorem next_id (n : ℕ) : (1 : Uint4b) + BitVec.ofNat 32 n = BitVec.ofNat 32 (n + 1) := by
  rw [Nat.add_comm, BitVec.ofNat_add]
  rfl

theorem msgId_of_call (es : List Input) {call : ℕ} {m : NearUserMessage}
    (h : (sentMessages c es)[call]? = some m) :
    m.msgId = c.lastMsgId + BitVec.ofNat 32 (call + 1) := by
  induction es generalizing c call with
  | nil => cases h
  | cons input es ih =>
    rw [sentMessages] at h
    cases hstep : step c input with
    | none =>
      rw [hstep] at h
      cases h
    | some u =>
      have hid := lastMsgId_step input hstep
      rw [hstep] at h
      rcases asked_eq c input with ⟨hnone, hsend⟩ | ⟨m', hsome, hm', hsend⟩
      · rw [hnone] at h
        rw [ih h, hid, hsend]
        simp
      · rw [hsome] at h
        cases call with
        | zero =>
          cases h
          exact hm'
        | succ call =>
          rw [ih h, hid, hsend, if_pos rfl, BitVec.add_assoc, next_id]

theorem sentMessages_concat (es : List Input) (hrun : exec step c es = some t) (input : Input)
    (hstep : (step t input).isSome) :
    sentMessages c (es ++ [input]) = sentMessages c es ++ (asked t input).toList := by
  induction es generalizing c with
  | nil =>
    cases hrun
    obtain ⟨u, hu⟩ := Option.isSome_iff_exists.mp hstep
    simp [sentMessages, hu]
  | cons first es ih =>
    obtain ⟨u, hu, ht⟩ := exec_cons.mp hrun
    simp only [List.cons_append, sentMessages, hu, ih ht, List.append_assoc]

theorem messageId_of_newReports {t u : ClientNode} {input : Input} (hstep : step t input = some u)
    {rprt : SendReport} (hrprt : rprt ∈ newReports t u) : rprt.messageId = 0 := by
  rw [newReports_step hstep] at hrprt
  cases (steps_of_step hstep).2 with
  | connectTo dest thread => cases hrprt
  | disconnect => cases hrprt
  | sendUserMessage msg recipient => exact (eq_of_mem_refusal hrprt).2
  | complete i outcome op => cases hrprt
  | handler i op outcome hop hsome =>
    rw [answersOf_handler hop hsome] at hrprt
    exact (eq_of_mem_answer hrprt).2.2

theorem eq_of_serializedBuffer {m m' : NearUserMessage}
    (h : serializedBuffer (SegmentationLayer.mk m) = serializedBuffer (SegmentationLayer.mk m')) :
    m = m' := by
  rw [(SegmentationLayer.serializes m.serializes).buffer_eq,
    (SegmentationLayer.serializes m'.serializes).buffer_eq] at h
  have hbytes : m.bytes = m'.bytes := (List.append_inj h rfl).2
  have hread := NearUserMessage.ofSerializedData_bytes m (SerializedData.ofBlock m.bytes)
    (SerializedData.bytes_ofBlock _)
  have hread' := NearUserMessage.ofSerializedData_bytes m' (SerializedData.ofBlock m.bytes)
    ((SerializedData.bytes_ofBlock _).trans hbytes)
  cases hread.symm.trans hread'
  rfl

theorem sent_of_answers {es : List Input} {s t : ClientNode} {input : Input}
    (hrun : exec step init es = some s) (hstep : step s input = some t) {m : NearUserMessage}
    {rprt : SendReport} (h : Answers s input t m rprt) : m ∈ sentMessages init (es ++ [input]) := by
  rw [sentMessages_concat es hrun input (by rw [hstep]; rfl)]
  cases h with
  | refused msg recipient _ hinput hrprt =>
    apply List.mem_append_right
    rw [hinput]
    exact List.mem_singleton_self _
  | written i op _ _ hinput hop hkind hrprt =>
    apply List.mem_append_left
    obtain ⟨m', hm', hsame⟩ := writesSent_run es writesSent_init hrun op (List.mem_of_getElem? hop) _ hkind
    rw [eq_of_serializedBuffer hsame]
    exact hm'

omit [Host] in
theorem ofNat_eq_zero_iff (n : ℕ) : (0 : Uint4b) = BitVec.ofNat 32 n ↔ 2 ^ 32 ∣ n := by
  rw [Nat.dvd_iff_mod_eq_zero, ← BitVec.toNat_inj, BitVec.toNat_ofNat]
  exact eq_comm

theorem named_iff (es : List Input) (input : Input) {s t : ClientNode}
    (hrun : exec step init es = some s) (hstep : step s input = some t) (m : NearUserMessage)
    (rprt : SendReport) (h : Answers s input t m rprt) :
    ∃ call, (sentMessages init (es ++ [input]))[call]? = some m ∧
      (rprt.messageId = m.msgId ↔ 2 ^ 32 ∣ call + 1) := by
  obtain ⟨call, hcall⟩ := List.mem_iff_getElem?.mp (sent_of_answers hrun hstep h)
  refine ⟨call, hcall, ?_⟩
  have hrprt : rprt ∈ newReports s t := by
    cases h with
    | refused msg recipient _ hinput hrprt => exact hrprt
    | written i op _ _ hinput hop hkind hrprt => exact hrprt
  have hid : m.msgId = BitVec.ofNat 32 (call + 1) :=
    (msgId_of_call (es ++ [input]) hcall).trans (BitVec.zero_add _)
  rw [messageId_of_newReports hstep hrprt, hid]
  exact ofNat_eq_zero_iff (call + 1)

end

def firstCall : Input := .sendUserMessage [0x61] UniqueUserID.userIdNone

def firstMessage : NearUserMessage := usermsg [0x61] UniqueUserID.userIdNone init

def firstReport : SendReport := ⟨0, false, .serverNotConnected, "Not Connected."⟩

theorem firstReport_answers {t : ClientNode} (h : @step littleEndianHost init firstCall = some t) :
    @Answers littleEndianHost init firstCall t firstMessage firstReport := by
  cases h
  exact @Answers.refused littleEndianHost init _ _ [0x61] UniqueUserID.userIdNone _ rfl
    (List.mem_singleton_self _)

theorem firstReport_unnamed : ∃ t, @step littleEndianHost init firstCall = some t ∧
    @Answers littleEndianHost init firstCall t firstMessage firstReport ∧
      firstMessage.msgId = 1 ∧ firstReport.messageId ≠ firstMessage.msgId :=
  ⟨_, rfl, firstReport_answers rfl, rfl, by decide⟩

theorem named_iff_firstCall :
    ∃ call, (@sentMessages littleEndianHost init [firstCall])[call]? = some firstMessage ∧
      (firstReport.messageId = firstMessage.msgId ↔ 2 ^ 32 ∣ call + 1) :=
  @named_iff littleEndianHost [] firstCall _ _ rfl rfl firstMessage firstReport (firstReport_answers rfl)

end NukeMs.Client
