import NukeMs.ConnectedClient
import NukeMs.Runs

namespace NukeMs

open SegmentationLayerBase Runs

namespace Signal

def isDisconnected : Signal → Bool
  | .disconnected _ => true
  | .receivedMessage _ _ => false

end Signal

namespace ConnectedClient

structure DisconnectionProtocol (signals : List Signal) : Prop where
  once : signals.countP Signal.isDisconnected ≤ 1
  last : ∀ before id after, signals = before ++ .disconnected id :: after →
    ∀ sig ∈ after, sig.isDisconnected = true

def Reported (signals : List Signal) : Prop := ∃ sig ∈ signals, sig.isDisconnected = true

theorem disconnectionProtocol_of_silent {signals : List Signal} (h : ¬ Reported signals) :
    DisconnectionProtocol signals := by
  constructor
  · rw [List.countP_eq_zero.mpr fun sig hmem hreport => h ⟨sig, hmem, hreport⟩]
    exact Nat.zero_le 1
  · intro before id after hsplit
    exact absurd ⟨.disconnected id, by rw [hsplit]; simp, rfl⟩ h

theorem disconnectionProtocol_concat {signals : List Signal} {sig : Signal} :
    DisconnectionProtocol (signals ++ [sig]) ↔
      DisconnectionProtocol signals ∧ ¬ Reported signals := by
  constructor
  · intro h
    have honce := h.once
    rw [List.countP_append] at honce
    refine ⟨⟨by omega, ?_⟩, fun ⟨report, hmem, hreport⟩ => ?_⟩
    · intro before id after hsplit later hlater
      refine h.last before id (after ++ [sig]) ?_ later (List.mem_append_left _ hlater)
      rw [hsplit, List.append_assoc]
      rfl
    · obtain ⟨before, after, hsplit⟩ := List.append_of_mem hmem
      cases report with
      | receivedMessage id data => cases hreport
      | disconnected id =>
        have hsig : sig.isDisconnected = true := by
          refine h.last before id (after ++ [sig]) ?_ sig (by simp)
          rw [hsplit, List.append_assoc]
          rfl
        have hpos := List.countP_pos_iff.mpr ⟨_, hmem, hreport⟩
        rw [List.countP_singleton, if_pos hsig] at honce
        omega
  · rintro ⟨-, hnone⟩
    have hzero : signals.countP Signal.isDisconnected = 0 := by
      rw [List.countP_eq_zero]
      exact fun report hmem hreport => hnone ⟨report, hmem, hreport⟩
    constructor
    · rw [List.countP_append, hzero, List.countP_singleton]
      split <;> omega
    · intro before id after hsplit later hlater
      rcases List.eq_nil_or_concat after with rfl | ⟨init, last, rfl⟩
      · cases hlater
      · rw [List.concat_eq_append, ← List.cons_append, ← List.append_assoc] at hsplit
        obtain ⟨hsignals, -⟩ := List.append_inj' hsplit rfl
        exact absurd ⟨.disconnected id, by rw [hsignals]; simp, rfl⟩ hnone

section
variable [Host]

def callsBack (op : Operation) (result : Completion) : Bool :=
  match op, result with
  | _, .error _ => true
  | .readBody _, .ok _ => true
  | .write _, .ok _ => false
  | .readHeader, .ok bytes =>
    match admitHeader (.msgLayerError "Oversized packet.") bytes with
    | .ok _ => false
    | .error e => e.isMsgLayerError

/-- The handler shuts the connection down: its operation has failed or it turns the header down. -/
def breaks (op : Operation) (result : Completion) : Bool :=
  match op, result with
  | _, .error _ => true
  | .readHeader, .ok bytes => callsBack .readHeader (.ok bytes)
  | _, .ok _ => false

def Breaks (d : ConnectedClient) : Input → Prop
  | .completed i result => d.owned = true ∧ ∃ op, d.pending[i]? = some op ∧ breaks op result = true
  | _ => False

def CallsBack (d : ConnectedClient) : Input → Prop
  | .completed i result => d.owned = true ∧ ∃ op, d.pending[i]? = some op ∧ callsBack op result = true
  | _ => False

variable {d t : ConnectedClient} {op : Operation} {result : Completion} {i : ℕ}

theorem callsBack_of_breaks (h : breaks op result = true) : callsBack op result = true := by
  cases op with
  | write buffer =>
    cases result with
    | ok bytes => cases h
    | error error => rfl
  | readBody n =>
    cases result with
    | ok body => cases h
    | error error => rfl
  | readHeader =>
    cases result with
    | ok bytes => exact h
    | error error => rfl

theorem runHandler_signals (i : ℕ) (op : Operation) (result : Completion) (howned : d.owned = true) :
    if callsBack op result then ∃ sig, (runHandler op result (taken i op result d)).signals =
      d.signals ++ [sig] ∧ sig.isDisconnected = breaks op result
    else (runHandler op result (taken i op result d)).signals = d.signals := by
  have hrun : (taken i op result d).owned = true := howned
  simp only [runHandler, hrun, if_true]
  cases op with
  | write buffer =>
    cases result with
    | ok bytes => rfl
    | error error => exact ⟨_, rfl, rfl⟩
  | readBody n =>
    cases result with
    | ok body => exact ⟨_, rfl, rfl⟩
    | error error => exact ⟨_, rfl, rfl⟩
  | readHeader =>
    cases result with
    | error error => exact ⟨_, rfl, rfl⟩
    | ok bytes =>
      have hbuffer : (taken i .readHeader (.ok bytes) d).headerBuffer = bytes := rfl
      simp only [callsBack, breaks, receiveHeaderHandler, hbuffer]
      cases admitHeader (.msgLayerError "Oversized packet.") bytes with
      | ok body => rfl
      | error e =>
        dsimp only
        by_cases he : e.isMsgLayerError = true
        · rw [if_pos he, if_pos he]
          exact ⟨_, rfl, he.symm⟩
        · rw [if_neg he, if_neg he]
          rfl

theorem runHandler_step (howned : d.owned = true) (hop : d.pending[i]? = some op) :
    (CallsBack d (.completed i result) ∧
      ∃ sig, (runHandler op result (taken i op result d)).signals = d.signals ++ [sig] ∧
        (sig.isDisconnected = true ↔ Breaks d (.completed i result))) ∨
    (¬ CallsBack d (.completed i result) ∧
      (runHandler op result (taken i op result d)).signals = d.signals) := by
  have hsignals := runHandler_signals i op result howned
  cases hcalls : callsBack op result with
  | true =>
    rw [hcalls, if_pos rfl] at hsignals
    obtain ⟨sig, hsig, hbreaks⟩ := hsignals
    refine .inl ⟨⟨howned, op, hop, hcalls⟩, sig, hsig, ?_⟩
    rw [hbreaks]
    constructor
    · exact fun h => ⟨howned, op, hop, h⟩
    · rintro ⟨-, op', hop', h⟩
      cases hop.symm.trans hop'
      exact h
  | false =>
    rw [hcalls, if_neg (by decide)] at hsignals
    refine .inr ⟨fun ⟨_, op', hop', hc⟩ => ?_, hsignals⟩
    cases hop.symm.trans hop'
    rw [hcalls] at hc
    cases hc

theorem step_signals {input : Input} (h : step d input = some t) :
    (CallsBack d input ∧ ∃ sig, t.signals = d.signals ++ [sig] ∧
      (sig.isDisconnected = true ↔ Breaks d input)) ∨
    (¬ CallsBack d input ∧ t.signals = d.signals) := by
  unfold step at h
  split at h
  · cases h
  · cases input with
    | completed i result =>
      dsimp only at h
      split at h
      · cases h
      next op hop =>
        split at h
        next =>
          cases h
          cases howned : d.owned with
          | false =>
            refine .inr ⟨?_, ?_⟩
            · intro hc
              rw [hc.1] at howned
              cases howned
            · have hidle : (taken i op result d).owned = false := howned
              simp only [runHandler, hidle, Bool.false_eq_true, if_false]
              rfl
          | true => exact runHandler_step howned hop
        next => cases h
    | sendPacket packet =>
      simp only [Option.ite_none_right_eq_some, Option.some.injEq] at h
      exact .inr ⟨id, h.2 ▸ rfl⟩
    | sendUserMessage packet =>
      simp only [Option.ite_none_right_eq_some, Option.some.injEq] at h
      exact .inr ⟨id, h.2 ▸ rfl⟩
    | shutdown =>
      simp only [Option.ite_none_right_eq_some, Option.some.injEq] at h
      exact .inr ⟨id, h.2 ▸ rfl⟩
    | dropped =>
      cases h
      exact .inr ⟨id, rfl⟩

theorem Breaks.callsBack {input : Input} (h : Breaks d input) : CallsBack d input := by
  cases input with
  | completed i result =>
    obtain ⟨howned, op, hop, hbreaks⟩ := h
    exact ⟨howned, op, hop, callsBack_of_breaks hbreaks⟩
  | _ => exact h

theorem step_reported {input : Input} (h : step d input = some t) :
    Reported t.signals ↔ Reported d.signals ∨ Breaks d input := by
  obtain ⟨-, sig, hsignals, hsig⟩ | ⟨hcalls, hsignals⟩ := step_signals h
  · rw [Reported, hsignals, ← hsig]
    simp [Reported, or_and_right, exists_or]
  · rw [hsignals]
    exact (or_iff_left fun hbreaks => hcalls hbreaks.callsBack).symm

theorem step_disconnectionProtocol {input : Input} (h : step d input = some t) :
    ¬ DisconnectionProtocol t.signals ↔
      ¬ DisconnectionProtocol d.signals ∨ (Reported d.signals ∧ CallsBack d input) := by
  obtain ⟨hcalls, sig, hsignals, -⟩ | ⟨hcalls, hsignals⟩ := step_signals h
  · rw [hsignals, disconnectionProtocol_concat, not_and_or, not_not]
    exact or_congr_right (and_iff_left hcalls).symm
  · rw [hsignals]
    exact (or_iff_left fun hc => hcalls hc.2).symm

theorem disconnectionProtocol_run (id : ℤ) (inputs : List Input)
    (h : exec step (makeInstance id) inputs = some t) : DisconnectionProtocol t.signals ↔
      Since step Breaks (fun d input _ => ¬ CallsBack d input) (makeInstance id) inputs := by
  have hsilent : ¬ Reported (makeInstance id).signals := by
    rintro ⟨sig, hmem, -⟩
    cases hmem
  have hmark := along_of_mark (I := fun _ => True)
    (F := fun d : ConnectedClient => ¬ DisconnectionProtocol d.signals)
    (D := fun d input => Reported d.signals ∧ CallsBack d input)
    (fun _ _ _ _ _ => trivial) (fun _ _ _ _ h => step_disconnectionProtocol h) trivial h
  simp only [not_not, not_and] at hmark
  rw [hmark, along_since (F := fun d : ConnectedClient => Reported d.signals)
    (A := Breaks) (fun _ _ _ h => step_reported h)]
  constructor
  · exact fun ⟨_, _, hsince⟩ => hsince
  · exact fun hsince => ⟨disconnectionProtocol_of_silent hsilent, fun hreported => absurd hreported hsilent, hsince⟩

end

def hangUp : List Input :=
  [.sendPacket ⟨SerializedData.ofBlock [0x41]⟩, .completed 0 (.ok [0x80, 5, 0, 0]),
    .completed 1 (.ok [0x42]), .completed 0 (.ok []),
    .completed 0 (.error ⟨false, "End of file"⟩)]

theorem disconnectionProtocol_hangUp : ∃ t, exec (@step littleEndianHost) (makeInstance 1) hangUp =
    some t ∧ t.signals = [.receivedMessage 1 (SerializedData.ofBlock [0x42]), .disconnected 1] ∧
      Since (@step littleEndianHost) (@Breaks littleEndianHost)
        (fun d input _ => ¬ @CallsBack littleEndianHost d input) (makeInstance 1) hangUp := by
  refine ⟨_, rfl, rfl, (@disconnectionProtocol_run littleEndianHost _ 1 hangUp rfl).mp ?_⟩
  have hmessage : ¬ Reported [.receivedMessage 1 (SerializedData.ofBlock [0x42])] := by
    simp [Reported, Signal.isDisconnected]
  exact disconnectionProtocol_concat.mpr ⟨disconnectionProtocol_of_silent hmessage, hmessage⟩

def brokenWrites : List Input :=
  let packet := ⟨SerializedData.ofBlock [0x41]⟩
  [.sendPacket packet, .sendPacket packet, .completed 0 (.ok [0x80, 5, 0, 0]),
    .completed 0 (.error ⟨false, "Broken pipe"⟩), .completed 1 (.ok [0x42]),
    .completed 0 (.error ⟨false, "Broken pipe"⟩)]

theorem brokenWrites_reports : ∃ t, exec (@step littleEndianHost) (makeInstance 1) brokenWrites =
    some t ∧ t.owned = true ∧ t.signals.countP Signal.isDisconnected = 2 ∧
      ¬ DisconnectionProtocol t.signals :=
  ⟨_, rfl, rfl, rfl, fun h => absurd h.once (by decide)⟩

end ConnectedClient

end NukeMs
