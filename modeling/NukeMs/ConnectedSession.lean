import NukeMs.Disconnection
import NukeMs.PeerSession
import NukeMs.ReceiveLoops

namespace NukeMs.ConnectedClient

open SegmentationLayerBase FramedStream Server

structure Session (d : ConnectedClient) (up : List Byte) (bodies : List (List Byte)) : Prop where
  escaped : d.escaped = none
  single : d.pending.countP Operation.isRead ≤ 1
  reads : d.owned = true → d.isShutdown = false → d.pending.countP Operation.isRead = 1
  silent : d.isShutdown = false → ¬ Reported d.signals
  sees : ∀ op ∈ d.pending, ∀ phase, op.phase = some phase → packetLayout.Sees phase up bodies

structure Takes (d t : ConnectedClient) (result : Completion) (rest : List Byte)
    (bodies : List (List Byte)) : Prop where
  session : ∃ got more, bodies = got ++ more ∧ t.payloads = d.payloads ++ got ∧ Session t rest more
  written : t.written = d.written
  owned : t.owned = d.owned
  isShutdown : t.isShutdown = d.isShutdown ∨ t.isShutdown = true ∧ ∃ error, result = .error error

section
variable {d t : ConnectedClient} {up rest : List Byte} {bodies more : List (List Byte)}
  {op op' : Operation} {i : ℕ} {result : Completion}

theorem makeInstance_session (id : ℤ) : Session (makeInstance id) [] [] where
  escaped := rfl
  single := le_rfl
  reads _ _ := rfl
  silent _ := by
    rintro ⟨sig, hsig, -⟩
    cases hsig
  sees op hop phase hphase := by
    rw [List.mem_singleton.mp hop] at hphase
    cases hphase
    exact Layout.Sees.start

theorem received_of_write (hwrite : op.isRead = false) (hadm : op.admits result = true) :
    received result = [] := by
  cases op with
  | write buffer =>
    cases result with
    | error error => rfl
    | ok bytes => exact of_decide_eq_true hadm
  | readHeader => cases hwrite
  | readBody n => cases hwrite

theorem Session.others (hd : Session d up bodies) (hop : d.pending[i]? = some op)
    (hread : op.isRead = true) : (d.pending.eraseIdx i).countP Operation.isRead = 0 :=
  Outstanding.countP_eraseIdx_single hop hread hd.single

theorem Session.leave (hd : Session d (received result ++ rest) bodies)
    (hop : d.pending[i]? = some op) (hadm : op.admits result = true) (hescaped : t.escaped = none)
    (hpending : t.pending = d.pending.eraseIdx i)
    (hread : op.isRead = true → t.owned = true → t.isShutdown = true)
    (howned : t.owned = true → d.owned = true) (hshutdown : t.isShutdown = false → d.isShutdown = false)
    (hsilent : t.isShutdown = false → ¬ Reported t.signals) : Session t rest bodies := by
  have hcount := Outstanding.countP_eraseIdx Operation.isRead hop
  have hsingle := hd.single
  refine ⟨hescaped, ?_, ?_, hsilent, ?_⟩
  · rw [hpending]
    omega
  · intro ho hs
    have hreads := hd.reads (howned ho) (hshutdown hs)
    cases hkind : op.isRead with
    | true =>
      rw [hread hkind ho] at hs
      cases hs
    | false =>
      rw [hkind] at hcount
      rw [hpending, ← hreads]
      exact hcount
  · intro other hother phase hphase
    rw [hpending] at hother
    cases hkind : op.isRead with
    | true =>
      have hnone := List.countP_eq_zero.mp (hd.others hop hkind) other hother
      exact absurd (isRead_of_phase hphase) hnone
    | false =>
      have hsees := hd.sees other (List.mem_of_mem_eraseIdx hother) phase hphase
      rwa [received_of_write hkind hadm] at hsees

theorem Session.next (hd : Session d up bodies) (hop : d.pending[i]? = some op)
    (hread : op.isRead = true) (hescaped : t.escaped = none)
    (hpending : t.pending = d.pending.eraseIdx i ++ [op']) (hnext : op'.isRead = true)
    (hsees : ∀ phase, op'.phase = some phase → packetLayout.Sees phase rest more)
    (hsilent : t.isShutdown = false → ¬ Reported t.signals) : Session t rest more := by
  have hzero := hd.others hop hread
  have hone : t.pending.countP Operation.isRead = 1 := by
    rw [hpending, List.countP_append, hzero, List.countP_singleton, hnext]
    rfl
  refine ⟨hescaped, hone.le, fun _ _ => hone, hsilent, ?_⟩
  intro other hother phase hphase
  rw [hpending, List.mem_append, List.mem_singleton] at hother
  obtain hold | rfl := hother
  · exact absurd (isRead_of_phase hphase) (List.countP_eq_zero.mp hzero other hold)
  · exact hsees phase hphase

theorem Session.arrive (more : List (List Byte)) (hd : Session d up bodies)
    (hfits : ∀ body ∈ more, body.length ≤ packetLayout.longest) :
    Session d (up ++ packetLayout.stream more) (bodies ++ more) :=
  ⟨hd.escaped, hd.single, hd.reads, hd.silent,
    fun op hop phase hphase => (hd.sees op hop phase hphase).sendAll more hfits⟩

theorem Session.send (data : List Byte) (hd : Session d up bodies) :
    Session (asyncWrite data d) up bodies := by
  have hcount : (asyncWrite data d).pending.countP Operation.isRead =
      d.pending.countP Operation.isRead := List.countP_append
  refine ⟨hd.escaped, hcount ▸ hd.single, fun ho hs => hcount.trans (hd.reads ho hs), hd.silent, ?_⟩
  intro op hop phase hphase
  obtain hold | hnew := List.mem_append.mp hop
  · exact hd.sees op hold phase hphase
  · rw [List.mem_singleton.mp hnew] at hphase
    cases hphase

theorem Session.shutdown (hd : Session d up bodies) : Session (shutdown d) up bodies :=
  ⟨hd.escaped, hd.single, nofun, nofun, hd.sees⟩

theorem Session.drop (hd : Session d up bodies) : Session { d with owned := false } up bodies :=
  ⟨hd.escaped, hd.single, nofun, hd.silent, hd.sees⟩

theorem admit_body (oversized : Exn) {bytes : List Byte} [Host] (hlen : bytes.length = headerLength)
    (hsees : packetLayout.Sees .header (bytes ++ rest) bodies) :
    ∃ n, admitHeader oversized bytes = .ok (List.replicate n 0) ∧
      packetLayout.Sees (.body n) rest bodies := by
  obtain ⟨body, more, -, hheader, hrest⟩ := hsees.takeHeader hlen
  have hbytes : bytes = SegmentationLayer.header (body.length + headerLength) := hheader
  have hlong := hrest.admitted _ rfl
  simp only [packetLayout, headerLength] at hlong
  refine ⟨body.length, ?_, hrest⟩
  rw [hbytes]
  exact admitHeader_header _ (by simp only [headerLength]; omega)

theorem Takes.open_before (h : Takes d t result rest bodies) (ht : t.isShutdown = false) :
    d.isShutdown = false := by
  obtain hsame | ⟨hclosed, -⟩ := h.isShutdown
  · rw [← hsame, ht]
  · rw [ht] at hclosed
    cases hclosed

theorem Takes.open_after (h : Takes d t result rest bodies) (hresult : ∃ bytes, result = .ok bytes) :
    t.isShutdown = d.isShutdown := by
  obtain ⟨bytes, rfl⟩ := hresult
  obtain hsame | ⟨-, error, herror⟩ := h.isShutdown
  · exact hsame
  · cases herror

variable [Host]

theorem runHandler_error (error : ErrorCode) (howned : d.owned = true) :
    runHandler op (.error error) (taken i op (.error error) d) =
      disconnect (taken i op (.error error) d) := by
  have htaken : (taken i op (.error error) d).owned = true := howned
  unfold runHandler
  rw [if_pos htaken]
  cases op <;> rfl

theorem runHandler_body {n : ℕ} {bytes : List Byte} (howned : d.owned = true) :
    runHandler (.readBody n) (.ok bytes) (taken i (.readBody n) (.ok bytes) d) =
      startReceive (signal (.receivedMessage d.connectionId (SerializedData.ofBlock bytes))
        (taken i (.readBody n) (.ok bytes) d)) := by
  have htaken : (taken i (.readBody n) (.ok bytes) d).owned = true := howned
  rw [runHandler, if_pos htaken]
  rfl

omit [Host] in
theorem payloads_received {n : ℕ} {bytes : List Byte} :
    (startReceive (signal (.receivedMessage d.connectionId (SerializedData.ofBlock bytes))
      (taken i (.readBody n) (.ok bytes) d))).payloads = d.payloads ++ [bytes] := by
  refine (payloads_signal _ (taken i (.readBody n) (.ok bytes) d)).trans ?_
  rw [Signal.payload, SerializedData.bytes_ofBlock]
  rfl

omit [Host] in
theorem failed_takes (error : ErrorCode) (howned : d.owned = true)
    (hd : Session d (received (.error error) ++ rest) bodies) (hop : d.pending[i]? = some op) :
    Takes d (disconnect (taken i op (.error error) d)) (.error error) rest bodies := by
  have hsame : (disconnect (taken i op (.error error) d)).payloads = d.payloads :=
    payloads_disconnect _
  refine ⟨⟨[], bodies, rfl, hsame.trans (List.append_nil _).symm, ?_⟩, rfl, rfl, .inr ⟨rfl, error, rfl⟩⟩
  have hclosed : (disconnect (taken i op (.error error) d)).isShutdown ≠ false := Bool.noConfusion
  exact hd.leave hop rfl hd.escaped rfl (fun _ _ => rfl) (fun _ => howned)
    (fun hs => absurd hs hclosed) (fun hs => absurd hs hclosed)

omit [Host] in
theorem written_takes {bytes : List Byte} (hd : Session d (received (.ok bytes) ++ rest) bodies)
    (hop : d.pending[i]? = some op) (hwrite : op.isRead = false) (hadm : op.admits (.ok bytes) = true) :
    Takes d (taken i op (.ok bytes) d) (.ok bytes) rest bodies := by
  refine ⟨⟨[], bodies, rfl, (List.append_nil _).symm, ?_⟩, rfl, rfl, .inl rfl⟩
  refine hd.leave hop hadm hd.escaped rfl ?_ id id hd.silent
  intro hread
  cases hwrite.symm.trans hread

theorem header_takes {bytes : List Byte} (howned : d.owned = true)
    (hd : Session d (bytes ++ rest) bodies) (hop : d.pending[i]? = some .readHeader)
    (hlen : bytes.length = headerLength) :
    Takes d (runHandler .readHeader (.ok bytes) (taken i .readHeader (.ok bytes) d)) (.ok bytes) rest
      bodies := by
  obtain ⟨n, hadmitted, hrest⟩ := admit_body (.msgLayerError "Oversized packet.") hlen
    (hd.sees _ (List.mem_of_getElem? hop) .header rfl)
  have hrun : runHandler .readHeader (.ok bytes) (taken i .readHeader (.ok bytes) d) =
      start (.readBody n) (taken i .readHeader (.ok bytes) d) := by
    have htaken : (taken i .readHeader (.ok bytes) d).owned = true := howned
    have hbuffer : (taken i .readHeader (.ok bytes) d).headerBuffer = bytes := rfl
    rw [runHandler, if_pos htaken]
    simp only [receiveHeaderHandler, hbuffer, hadmitted, List.length_replicate]
  rw [hrun]
  refine ⟨⟨[], bodies, rfl, (List.append_nil _).symm, ?_⟩, rfl, rfl, .inl rfl⟩
  refine hd.next hop rfl hd.escaped rfl rfl ?_ hd.silent
  intro phase hphase
  cases hphase
  exact hrest

theorem body_takes {n : ℕ} {bytes : List Byte} (howned : d.owned = true)
    (hd : Session d (bytes ++ rest) bodies) (hop : d.pending[i]? = some (.readBody n))
    (hlen : bytes.length = n) :
    Takes d (runHandler (.readBody n) (.ok bytes) (taken i (.readBody n) (.ok bytes) d)) (.ok bytes)
      rest bodies := by
  obtain ⟨more, hbodies, hrest⟩ := (hd.sees _ (List.mem_of_getElem? hop) (.body n) rfl).takeBody hlen
  rw [runHandler_body howned]
  refine ⟨⟨[bytes], more, hbodies, payloads_received, ?_⟩, rfl, rfl, .inl rfl⟩
  refine hd.next hop rfl hd.escaped rfl rfl ?_ ?_
  · intro phase hphase
    cases hphase
    exact hrest
  · rintro hs ⟨sig, hsig, hreport⟩
    obtain hold | hnew := List.mem_append.mp hsig
    · exact hd.silent hs ⟨sig, hold, hreport⟩
    · rw [List.mem_singleton.mp hnew] at hreport
      cases hreport

theorem runHandler_takes (hd : Session d (received result ++ rest) bodies)
    (hop : d.pending[i]? = some op) (hadm : op.admits result = true) :
    Takes d (runHandler op result (taken i op result d)) result rest bodies := by
  cases howned : d.owned with
  | false =>
    have htaken : ¬ (taken i op result d).owned = true := by
      rw [Bool.not_eq_true]
      exact howned
    unfold runHandler
    rw [if_neg htaken]
    refine ⟨⟨[], bodies, rfl, (List.append_nil _).symm, ?_⟩, rfl, rfl, .inl rfl⟩
    refine hd.leave hop hadm hd.escaped rfl ?_ id id hd.silent
    intro _ ho
    exact absurd ho htaken
  | true =>
    cases result with
    | error error =>
      rw [runHandler_error error howned]
      exact failed_takes error howned hd hop
    | ok bytes =>
      cases op with
      | readHeader => exact header_takes howned hd hop (of_decide_eq_true hadm)
      | readBody n => exact body_takes howned hd hop (of_decide_eq_true hadm)
      | write buffer =>
        have htaken : (taken i (.write buffer) (.ok bytes) d).owned = true := howned
        rw [runHandler, if_pos htaken]
        exact written_takes hd hop rfl hadm

theorem step_completed (h : step d (.completed i result) = some t) : ∃ op, d.pending[i]? = some op ∧
    op.admits result = true ∧ t = runHandler op result (taken i op result d) := by
  simp only [step] at h
  split at h
  · cases h
  · split at h
    · cases h
    next op hop =>
      split at h
      next hadm =>
        cases h
        exact ⟨op, hop, hadm, rfl⟩
      next => cases h

theorem step_of_completed (hescaped : d.escaped = none) (hop : d.pending[i]? = some op)
    (hadm : op.admits result = true) :
    step d (.completed i result) = some (runHandler op result (taken i op result d)) := by
  simp [step, hescaped, hop, hadm]

end

end NukeMs.ConnectedClient
