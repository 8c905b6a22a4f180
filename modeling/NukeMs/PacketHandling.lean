import NukeMs.ClientSession
import NukeMs.Decoding

namespace NukeMs.Client

open SegmentationLayerBase

/-- What leaves a `try` block that is followed by `catch(const MsgLayerError&)`. -/
def catchMsgLayerError {α : Type} (handled : α) : Except Exn α → Except Exn α
  | .ok a => .ok a
  | .error e => if e.isMsgLayerError then .ok handled else .error e

def signalled : Option NearUserMessage → ClientNode → ClientNode
  | some usermsg, c => emit (.rcvMessage usermsg) c
  | none, c => c

section
variable [Host]

def tryRcvdMessage (beginIt datasize : ℕ) : Reading Byte (Except Exn (Option NearUserMessage)) := do
  let first ← Reading.fetch beginIt
  if first = NearUserMessage.layerId then do
    let usermsg ← NearUserMessage.fetch beginIt datasize
    pure (usermsg.map some)
  else pure (.ok none)

/-- `react(const EvtRcvdMessage&)` on a view of a memory block: the message that it signals, if
any, or the exception that it lets out. -/
def fetchRcvdMessage (beginIt datasize : ℕ) :
    Reading Byte (Except Exn (Option NearUserMessage)) := do
  let result ← tryRcvdMessage beginIt datasize
  pure (catchMsgLayerError none result)

def LetsThrough (headerbuf : List Byte) (n : ℕ) : Prop :=
  ∀ attempt c, receiveSegmentationHeaderHandler attempt none headerbuf c = start attempt (.readBody n) c

structure HandledSafely (body : List Byte) (c : ClientNode) : Prop where
  reads : ∀ i ∈ (fetchRcvdMessage 0 body.length).reads (memory body), i < body.length
  returns : ∃ signal, (fetchRcvdMessage 0 body.length).run (memory body) = .ok signal ∧
    processEvent (.rcvdMessage ⟨SerializedData.ofBlock body⟩) c = signalled signal c
  state : (processEvent (.rcvdMessage ⟨SerializedData.ofBlock body⟩) c).state = .connected
  message : 21 ≤ body.length → body.head? = some 0x41 → ∃ m,
    rcvMessages (processEvent (.rcvdMessage ⟨SerializedData.ofBlock body⟩) c) = rcvMessages c ++ [m] ∧
      m.bytes = body
  nothing : body.length < 21 ∨ body.head? ≠ some 0x41 →
    rcvMessages (processEvent (.rcvdMessage ⟨SerializedData.ofBlock body⟩) c) = rcvMessages c

theorem within_fetchRcvdMessage {beginIt datasize : ℕ} (h : 0 < datasize) :
    (fetchRcvdMessage beginIt datasize).Within beginIt (beginIt + datasize) := by
  have hfirst : (Reading.fetch beginIt : Reading Byte Byte).Within beginIt (beginIt + datasize) :=
    .fetch (Nat.le_refl _) (by omega)
  have htry : (tryRcvdMessage beginIt datasize).Within beginIt (beginIt + datasize) := by
    apply hfirst.bind
    intro first
    split
    · exact (NearUserMessage.within_fetch beginIt datasize).bind (fun _ => .pure _)
    · exact .pure _
  exact htry.bind (fun _ => .pure _)

theorem run_fetchRcvdMessage (data : SerializedData) :
    (fetchRcvdMessage data.beginIt data.datasize).run (memory data.memblock) =
      catchMsgLayerError none
        (if data.memblock.getD data.beginIt 0 = NearUserMessage.layerId then
          (NearUserMessage.ofSerializedData data).map some
        else .ok none) := by
  have htry : (tryRcvdMessage data.beginIt data.datasize).run (memory data.memblock) =
      if data.memblock.getD data.beginIt 0 = NearUserMessage.layerId then
        (NearUserMessage.ofSerializedData data).map some
      else .ok none := by
    rw [tryRcvdMessage, Reading.run_bind, Reading.run_fetch, memory]
    by_cases hfirst : data.memblock.getD data.beginIt 0 = NearUserMessage.layerId
    · rw [if_pos hfirst, if_pos hfirst, Reading.run_bind, NearUserMessage.run_fetch, Reading.run_pure]
    · rw [if_neg hfirst, if_neg hfirst, Reading.run_pure]
  rw [fetchRcvdMessage, Reading.run_bind, Reading.run_pure, htry]

theorem letsThrough_iff (headerbuf : List Byte) (n : ℕ) : LetsThrough headerbuf n ↔
    ∃ body, admitHeader (.msgLayerError "Oversized packet.") headerbuf = .ok body ∧ body.length = n := by
  unfold LetsThrough receiveSegmentationHeaderHandler
  cases hadm : admitHeader (.msgLayerError "Oversized packet.") headerbuf with
  | error e =>
    constructor
    · intro h
      have hpending := congrArg (fun c => c.pending.length) (h 0 init)
      simp [processEvent, init, enterWaiting, stopIOOperations, closeSocket, transit, start, emit] at hpending
    · rintro ⟨body, hbody, -⟩
      cases hbody
  | ok body =>
    constructor
    · intro h
      have hpending := congrArg (fun c => c.pending) (h 0 init)
      refine ⟨body, rfl, ?_⟩
      simpa using hpending
    · rintro ⟨body, hbody, rfl⟩ attempt c
      cases hbody
      rfl

theorem announced_of_letsThrough {headerbuf : List Byte} {n : ℕ} (h : LetsThrough headerbuf n) :
    announced headerbuf = some (n + headerLength) := by
  obtain ⟨body, hadm, hlen⟩ := (letsThrough_iff headerbuf n).mp h
  rw [admitHeader_eq] at hadm
  cases ha : announced headerbuf with
  | none => rw [ha] at hadm; cases hadm
  | some packetsize =>
    rw [ha] at hadm
    dsimp only at hadm
    split at hadm
    · cases hadm
    · split at hadm
      · cases hadm
      · cases hadm
        rw [List.length_replicate] at hlen
        rw [← hlen, Nat.sub_add_cancel (by omega)]

def IsUserMessage (body : List Byte) : Prop :=
  NearUserMessage.headerLength ≤ body.length ∧ body.head? = some NearUserMessage.layerId

instance (body : List Byte) : Decidable (IsUserMessage body) := inferInstanceAs (Decidable (_ ∧ _))

theorem reactRcvdMessage_eq (data : SerializedData) (hsize : 0 < data.datasize) (c : ClientNode) :
    (fetchRcvdMessage data.beginIt data.datasize).run (memory data.memblock) = .ok
        (if IsUserMessage data.bytes then some (NearUserMessage.ofBytes data.bytes) else none) ∧
      StateConnected.reactRcvdMessage ⟨data⟩ c = signalled
        (if IsUserMessage data.bytes then some (NearUserMessage.ofBytes data.bytes) else none) c := by
  have hin := data.inBlock
  have hlt : data.beginIt < data.memblock.length := by omega
  have hhead := NearUserMessage.head?_view data hsize
  have hget : data.memblock[data.beginIt]? = data.bytes.head? := by
    rw [hhead, List.getD_eq_getElem?_getD, List.getElem?_eq_getElem hlt, Option.getD_some]
  have hmessage : IsUserMessage data.bytes ↔ NearUserMessage.headerLength ≤ data.bytes.length ∧
      data.memblock.getD data.beginIt 0 = NearUserMessage.layerId := by
    rw [IsUserMessage, hhead, Option.some_inj]
  rw [run_fetchRcvdMessage]
  unfold StateConnected.reactRcvdMessage
  dsimp only
  rw [hget, hhead]
  have hdecoded := NearUserMessage.ofSerializedData_eq data
  rw [hhead] at hdecoded
  generalize data.memblock.getD data.beginIt 0 = first at *
  by_cases hfirst : first = NearUserMessage.layerId
  · have heq : ¬ some first ≠ some NearUserMessage.layerId := not_not.mpr (congrArg some hfirst)
    rw [if_neg heq] at hdecoded
    by_cases hshort : data.bytes.length < NearUserMessage.headerLength
    · have hnone : ¬ IsUserMessage data.bytes := fun h => absurd (hmessage.mp h).1 (Nat.not_le.mpr hshort)
      rw [if_pos hshort] at hdecoded
      rw [if_pos hfirst, hdecoded, if_neg hnone]
      exact ⟨rfl, if_pos hfirst⟩
    · have hsome : IsUserMessage data.bytes := hmessage.mpr ⟨Nat.le_of_not_lt hshort, hfirst⟩
      rw [if_neg hshort] at hdecoded
      rw [if_pos hfirst, hdecoded, if_pos hsome]
      exact ⟨rfl, if_pos hfirst⟩
  · have hnone : ¬ IsUserMessage data.bytes := fun h => hfirst (hmessage.mp h).2
    rw [if_neg hfirst, if_neg hnone]
    exact ⟨rfl, if_neg hfirst⟩

theorem handledSafely {body : List Byte} (hbody : body ≠ []) {c : ClientNode}
    (hstate : c.state = .connected) : HandledSafely body c := by
  have hsize : 0 < (SerializedData.ofBlock body).datasize := List.length_pos_iff.mpr hbody
  have hevent : processEvent (.rcvdMessage ⟨SerializedData.ofBlock body⟩) c =
      StateConnected.reactRcvdMessage ⟨SerializedData.ofBlock body⟩ c := by
    unfold processEvent
    rw [hstate]
  obtain ⟨hrun, hreact⟩ := reactRcvdMessage_eq (SerializedData.ofBlock body) hsize c
  rw [SerializedData.bytes_ofBlock] at hrun hreact
  rw [hreact] at hevent
  refine {
    reads := fun i hi => ?_
    returns := ⟨_, hrun, hevent⟩
    state := ?_
    message := fun hlong hfirst => ?_
    nothing := fun hother => ?_ }
  · have hwithin : i < 0 + body.length := (within_fetchRcvdMessage hsize (memory body) i hi).2
    omega
  · rw [hevent]
    by_cases hm : IsUserMessage body <;> simp [hm, signalled, hstate]
  · have hm : IsUserMessage body := ⟨hlong, hfirst⟩
    refine ⟨NearUserMessage.ofBytes body, ?_, NearUserMessage.bytes_ofBytes hlong hfirst⟩
    rw [hevent, if_pos hm]
    exact rcvMessages_emit _ c
  · have hm : ¬ IsUserMessage body := by
      rintro ⟨hlong, hfirst⟩
      exact hother.elim (Nat.not_lt.mpr hlong) (fun hne => hne hfirst)
    rw [hevent, if_neg hm]
    rfl

/-- The reaction looks at the first byte of the body before anything has checked that there is one. -/
theorem handledSafely_iff (headerbuf body : List Byte) (c : ClientNode)
    (hadmitted : LetsThrough headerbuf body.length) (hstate : c.state = .connected) :
    HandledSafely body c ↔ announced headerbuf ≠ some headerLength := by
  rw [announced_of_letsThrough hadmitted]
  constructor
  · intro h hempty
    have hlen : body.length = 0 := by
      have := Option.some_inj.mp hempty
      omega
    have hreads : 0 ∈ (fetchRcvdMessage 0 body.length).reads (memory body) := by
      rw [fetchRcvdMessage, tryRcvdMessage, Reading.reads_bind, Reading.reads_bind, Reading.reads_fetch]
      simp
    have := h.reads 0 hreads
    omega
  · intro hne
    apply handledSafely _ hstate
    rintro rfl
    exact hne rfl

end

def connectedClient : ClientNode := ⟨.connected, [], 0, 0, false, []⟩

theorem headerOnlyPacket_strays : @LetsThrough littleEndianHost [0x80, 4, 0, 0] 0 ∧
    connectedClient.state = .connected ∧ ¬ @HandledSafely littleEndianHost [] connectedClient := by
  have hadmitted : @LetsThrough littleEndianHost [0x80, 4, 0, 0] 0 :=
    (@letsThrough_iff littleEndianHost _ _).mpr ⟨[], by decide, rfl⟩
  refine ⟨hadmitted, rfl, ?_⟩
  intro h
  have hread := @HandledSafely.reads littleEndianHost _ _ h 0 (by decide)
  exact absurd hread (Nat.lt_irrefl 0)

theorem shortPacket_handledSafely : @HandledSafely littleEndianHost [0x41] connectedClient :=
  (@handledSafely_iff littleEndianHost [0x80, 5, 0, 0] [0x41] connectedClient
    ((@letsThrough_iff littleEndianHost _ _).mpr ⟨[0], by decide, rfl⟩) rfl).mpr (by decide)

end NukeMs.Client
