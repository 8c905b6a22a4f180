import NukeMs.ReceiveLoops

namespace NukeMs

open SegmentationLayerBase Framing

section
variable [Host]

/-- What the loops should make of a stream: a header is acceptable if it decodes to the size of a
packet that has room for the header and does not exceed the maximum. -/
def protocol : Format Byte where
  headerLength := headerLength
  headerLength_pos := headerLength_pos
  verdict headerbuf :=
    match announced headerbuf with
    | none => .reject
    | some packetsize =>
      if packetsize < headerLength ∨ 0x8FFF < packetsize then .reject
      else .body (packetsize - headerLength)
  faulty _ := false

def strictFormat : Format Byte :=
  receiverFormat .invalidHeaderError (fun e => e ≠ .lengthError) List.isEmpty

end

section
variable [HandlerCopies] [Host]

structure SameProtocol (bs : List Byte) (c : ClientNode) (d : ConnectedClient) (u : ℕ)
    (s : DispatchingServer) : Prop where
  client : Client.TornDown c (protocol.parse bs).payloads (Client.receiveLoop.feed c bs).1 ∧
    (Client.receiveLoop.feed c bs).2 = (protocol.parse bs).consumed
  connectedClient :
    ConnectedClient.TornDown d (protocol.parse bs).payloads (ConnectedClient.receiveLoop.feed d bs).1 ∧
      (ConnectedClient.receiveLoop.feed d bs).2 = (protocol.parse bs).consumed
  peer : Server.TornDown u s (protocol.parse bs).payloads ((Server.receiveLoop u).feed s bs).1 ∧
    ((Server.receiveLoop u).feed s bs).2 = (protocol.parse bs).consumed

end

def HasRunt (bs : List Byte) : Prop :=
  ∃ (payloads : List (List Byte)) (n : ℕ) (rest : List Byte),
    (∀ p ∈ payloads, p ≠ [] ∧ p.length + headerLength ≤ 0x8FFF) ∧ n ≤ headerLength ∧
      bs = (payloads.map SegmentationLayer.packet).flatten ++ (SegmentationLayer.header n ++ rest)

section
variable [Host] {oversized : Exn} {caught : Exn → Bool} {faulty : List Byte → Bool}

theorem receiverFormat_verdict (faulty : List Byte → Bool)
    (hinvalid : caught .invalidHeaderError = true) (hover : caught oversized = true)
    (hdr : List Byte) :
    (receiverFormat oversized caught faulty).verdict hdr = match announced hdr with
      | none => .reject
      | some packetsize =>
        if 0x8FFF < packetsize then .reject
        else if packetsize < headerLength then
          if caught .lengthError then .reject else .fault
        else .body (packetsize - headerLength) := by
  rw [receiverFormat]
  dsimp only
  rw [admitHeader_eq]
  cases announced hdr with
  | none => exact if_pos hinvalid
  | some packetsize =>
    dsimp only
    by_cases hmax : 0x8FFF < packetsize
    · rw [if_pos hmax, if_pos hmax]
      exact if_pos hover
    · rw [if_neg hmax, if_neg hmax]
      by_cases hmin : packetsize < headerLength
      · rw [if_pos hmin, if_pos hmin]
      · rw [if_neg hmin, if_neg hmin]
        dsimp only
        rw [List.length_replicate]

theorem strictFormat_verdict (hdr : List Byte) :
    strictFormat.verdict hdr = match announced hdr with
      | none => .reject
      | some packetsize =>
        if 0x8FFF < packetsize then .reject
        else if packetsize < headerLength then .fault
        else .body (packetsize - headerLength) :=
  receiverFormat_verdict _ rfl rfl hdr

theorem protocol_verdict (hdr : List Byte) (h : strictFormat.verdict hdr ≠ .fault) :
    protocol.verdict hdr = strictFormat.verdict hdr := by
  rw [strictFormat_verdict] at h ⊢
  simp only [protocol]
  cases ha : announced hdr with
  | none => rfl
  | some packetsize =>
    rw [ha] at h
    dsimp only at h ⊢
    by_cases hmax : 0x8FFF < packetsize
    · rw [if_pos (.inr hmax), if_pos hmax]
    · rw [if_neg hmax] at h ⊢
      by_cases hmin : packetsize < headerLength
      · rw [if_pos hmin] at h
        exact absurd rfl h
      · rw [if_neg hmin, if_neg (by omega)]

theorem receiverFormat_verdict_strict (faulty : List Byte → Bool)
    (hinvalid : caught .invalidHeaderError = true) (hover : caught oversized = true)
    (hdr : List Byte) (h : strictFormat.verdict hdr ≠ .fault) :
    (receiverFormat oversized caught faulty).verdict hdr = strictFormat.verdict hdr := by
  rw [strictFormat_verdict] at h ⊢
  rw [receiverFormat_verdict faulty hinvalid hover]
  cases ha : announced hdr with
  | none => rfl
  | some packetsize =>
    rw [ha] at h
    dsimp only at h ⊢
    by_cases hmax : 0x8FFF < packetsize
    · rw [if_pos hmax, if_pos hmax]
    · rw [if_neg hmax] at h ⊢
      rw [if_neg hmax]
      by_cases hmin : packetsize < headerLength
      · rw [if_pos hmin] at h
        exact absurd rfl h
      · rw [if_neg hmin, if_neg hmin]

section
variable {bs : List Byte}

theorem protocol_parse (h : (strictFormat.parse bs).ending ≠ .faulted) :
    protocol.parse bs = strictFormat.parse bs :=
  Format.parse_eq_of_not_faulted strictFormat protocol rfl protocol_verdict (fun _ _ => rfl) bs h

theorem peerFormat_parse (h : (strictFormat.parse bs).ending ≠ .faulted) :
    peerFormat.parse bs = strictFormat.parse bs :=
  Format.parse_eq_of_not_faulted strictFormat peerFormat rfl (receiverFormat_verdict_strict _ rfl rfl)
    (fun _ _ => rfl) bs h

theorem connectedClientFormat_parse (h : (strictFormat.parse bs).ending ≠ .faulted) :
    connectedClientFormat.parse bs = strictFormat.parse bs :=
  Format.parse_eq_of_not_faulted strictFormat connectedClientFormat rfl (receiverFormat_verdict_strict _ rfl rfl)
    (fun _ _ => rfl) bs h

theorem clientFormat_parse (h : (strictFormat.parse bs).ending ≠ .faulted) :
    clientFormat.parse bs = strictFormat.parse bs :=
  Format.parse_eq_of_not_faulted strictFormat clientFormat rfl (receiverFormat_verdict_strict _ rfl rfl)
    (fun _ hf => hf) bs h

end

theorem header_of_announced {hdr : List Byte} {n : ℕ} (hlen : hdr.length = headerLength)
    (h : announced hdr = some n) : hdr = SegmentationLayer.header n := by
  unfold announced at h
  cases hdec : decodeHeader hdr with
  | error e => rw [hdec] at h; cases h
  | ok header =>
    rw [hdec] at h
    cases h
    exact (header_of_decodeHeader hlen hdec).symm

theorem header_of_body {hdr : List Byte} {n : ℕ} (hlen : hdr.length = headerLength)
    (h : strictFormat.verdict hdr = .body n) :
    hdr = SegmentationLayer.header (n + headerLength) ∧ n + headerLength ≤ 0x8FFF := by
  rw [strictFormat_verdict] at h
  cases ha : announced hdr with
  | none => rw [ha] at h; cases h
  | some packetsize =>
    rw [ha] at h
    dsimp only at h
    split at h
    · cases h
    · split at h
      · cases h
      · cases h
        rw [Nat.sub_add_cancel (by omega)]
        exact ⟨header_of_announced hlen ha, by omega⟩

theorem header_of_fault {hdr : List Byte} (hlen : hdr.length = headerLength)
    (h : strictFormat.verdict hdr = .fault) : ∃ n, hdr = SegmentationLayer.header n ∧ n < headerLength := by
  rw [strictFormat_verdict] at h
  cases ha : announced hdr with
  | none => rw [ha] at h; cases h
  | some packetsize =>
    rw [ha] at h
    dsimp only at h
    split at h
    · cases h
    · split at h
      next hmin => exact ⟨packetsize, header_of_announced hlen ha, hmin⟩
      next => cases h

theorem hasRunt_of_breaks {bs : List Byte} (h : strictFormat.Breaks bs) : HasRunt bs := by
  induction h with
  | header hdr rest hlen hv =>
    obtain ⟨n, rfl, hmin⟩ := header_of_fault hlen hv
    exact ⟨[], n, rest, nofun, hmin.le, rfl⟩
  | body hdr body rest hlen hv hf =>
    have hempty : body = [] := List.isEmpty_iff.mp hf
    subst hempty
    obtain ⟨rfl, -⟩ := header_of_body hlen hv
    exact ⟨[], headerLength, rest, nofun, le_rfl, by simp⟩
  | packet hdr body rest hlen hv hf _ ih =>
    have hbody : body ≠ [] := List.isEmpty_eq_false_iff.mp hf
    obtain ⟨rfl, hmax⟩ := header_of_body hlen hv
    obtain ⟨payloads, n, tail, hpayloads, hn, rfl⟩ := ih
    refine ⟨body :: payloads, n, tail, ?_, hn, ?_⟩
    · intro p hp
      rcases List.mem_cons.mp hp with rfl | hp
      · exact ⟨hbody, hmax⟩
      · exact hpayloads p hp
    · simp only [List.map_cons, List.flatten_cons, SegmentationLayer.packet, List.append_assoc]

theorem breaks_packets {payloads : List (List Byte)} {tail : List Byte}
    (hp : ∀ p ∈ payloads, faulty p = false ∧ p.length + headerLength ≤ 0x8FFF)
    (h : (receiverFormat oversized caught faulty).Breaks tail) :
    (receiverFormat oversized caught faulty).Breaks
      ((payloads.map SegmentationLayer.packet).flatten ++ tail) := by
  induction payloads with
  | nil => exact h
  | cons p payloads ih =>
    obtain ⟨hf, hmax⟩ := hp p List.mem_cons_self
    rw [List.map_cons, List.flatten_cons, List.append_assoc]
    refine Format.Breaks.packet _ _ _ (SegmentationLayer.header_length _) ?_ hf ?_
    · simp only [receiverFormat, admitHeader_header oversized hmax, List.length_replicate]
    · exact ih fun q hq => hp q (List.mem_cons_of_mem _ hq)

theorem peerFormat_breaks {n : ℕ} (hn : n < headerLength) (rest : List Byte) :
    peerFormat.Breaks (SegmentationLayer.header n ++ rest) := by
  apply Format.Breaks.header _ _ (SegmentationLayer.header_length _)
  simp only [headerLength] at hn
  have hlt : n < headerLength := hn
  have hverdict : peerFormat.verdict (SegmentationLayer.header n) = _ :=
    receiverFormat_verdict _ rfl rfl _
  rw [announced_header (by omega)] at hverdict
  dsimp only at hverdict
  rw [if_neg (by omega), if_pos hlt] at hverdict
  exact hverdict

theorem clientFormat_breaks (rest : List Byte) :
    clientFormat.Breaks (SegmentationLayer.header headerLength ++ rest) := by
  have hv : clientFormat.verdict (SegmentationLayer.header (0 + headerLength)) = .body 0 := by
    simp only [clientFormat, receiverFormat, admitHeader_header (n := 0) _ (by decide)]
    rfl
  exact Format.Breaks.body (SegmentationLayer.header (0 + headerLength)) [] rest rfl hv rfl

theorem faulted_of_hasRunt {bs : List Byte} (h : HasRunt bs) :
    (peerFormat.parse bs).ending = .faulted ∨ (clientFormat.parse bs).ending = .faulted := by
  obtain ⟨payloads, n, rest, hp, hn, rfl⟩ := h
  rcases hn.lt_or_eq with hlt | rfl
  · refine .inl (peerFormat.faulted_of_breaks (breaks_packets ?_ ?_))
    · intro p hmem
      exact ⟨rfl, (hp p hmem).2⟩
    · exact peerFormat_breaks hlt rest
  · refine .inr (clientFormat.faulted_of_breaks (breaks_packets ?_ ?_))
    · intro p hmem
      exact ⟨List.isEmpty_eq_false_iff.mpr (hp p hmem).1, (hp p hmem).2⟩
    · exact clientFormat_breaks rest

end

section
variable [HandlerCopies] [Host] {bs : List Byte} {c : ClientNode} {d : ConnectedClient} {u : ℕ} {s : DispatchingServer}

theorem not_hasRunt_of_sameProtocol (hc : Client.Waiting c .readHeader [] c)
    (hs : Server.Waiting u s .readHeader [] s) (h : SameProtocol bs c d u s) : ¬ HasRunt bs := by
  intro hrunt
  rcases faulted_of_hasRunt hrunt with hpeer | hclient
  · have hend := ((Server.receiveLoop_implements u s).feed_eq bs hs).1
    rw [hpeer] at hend
    exact hend h.peer.1.status
  · have hend := ((Client.receiveLoop_implements c).feed_eq bs hc).1
    rw [hclient] at hend
    have hfine := h.client.1.faulted
    rw [show (Client.receiveLoop.feed c bs).1.faulted = true from hend] at hfine
    cases hfine

theorem sameProtocol_of_not_hasRunt (hc : Client.Waiting c .readHeader [] c)
    (hd : ConnectedClient.Waiting d .readHeader [] d) (hs : Server.Waiting u s .readHeader [] s)
    (h : ¬ HasRunt bs) : SameProtocol bs c d u s := by
  have hstrict : (strictFormat.parse bs).ending ≠ .faulted :=
    fun hfaulted => h (hasRunt_of_breaks (strictFormat.breaks_of_faulted bs hfaulted))
  have hclient := (Client.receiveLoop_implements c).feed_eq bs hc
  have hconnected := (ConnectedClient.receiveLoop_implements d).feed_eq bs hd
  have hpeer := (Server.receiveLoop_implements u s).feed_eq bs hs
  rw [clientFormat_parse hstrict, ← protocol_parse hstrict] at hclient
  rw [connectedClientFormat_parse hstrict, ← protocol_parse hstrict] at hconnected
  rw [peerFormat_parse hstrict, ← protocol_parse hstrict] at hpeer
  rw [← protocol_parse hstrict] at hstrict
  cases he : (protocol.parse bs).ending with
  | faulted => exact absurd he hstrict
  | cut =>
    rw [he] at hclient hconnected hpeer
    exact ⟨hclient, hconnected, hpeer⟩
  | rejected =>
    rw [he] at hclient hconnected hpeer
    exact ⟨hclient, hconnected, hpeer⟩

theorem sameProtocol_iff (bs : List Byte) (hc : Client.Waiting c .readHeader [] c)
    (hd : ConnectedClient.Waiting d .readHeader [] d) (hs : Server.Waiting u s .readHeader [] s) :
    SameProtocol bs c d u s ↔ ¬ HasRunt bs :=
  ⟨not_hasRunt_of_sameProtocol hc hs, sameProtocol_of_not_hasRunt hc hd hs⟩

end

def connectedNode : ClientNode := ⟨.connected, [⟨1, .readHeader, none⟩], 0, 1, false, []⟩

theorem connectedNode_waiting : Client.Waiting connectedNode .readHeader [] connectedNode :=
  ⟨rfl, rfl, ⟨1, rfl⟩, rfl⟩

theorem makeInstance_waiting (id : ℤ) : ConnectedClient.Waiting (ConnectedClient.makeInstance id)
    .readHeader [] (ConnectedClient.makeInstance id) :=
  ⟨rfl, rfl, rfl, rfl⟩

theorem accepted_waiting [HandlerCopies] : Server.Waiting 0 (Server.acceptHandler none Server.init)
    .readHeader [] (Server.acceptHandler none Server.init) := by
  have hs : Server.Lifecycle (Server.acceptHandler none Server.init) :=
    Server.init_lifecycle.accept (by decide)
  have hp := Server.acceptHandler_peer Server.init_wellFormed 0
  rw [if_pos (show 0 = Server.init.created from rfl)] at hp
  obtain ⟨-, -, -, hstatus⟩ := Server.acceptHandler_fields (s := Server.init)
  refine ⟨hs.wellFormed, hstatus, hs.lives, ?_, by rw [hp]; rfl, by rw [hp]; rfl,
    (List.append_nil _).symm⟩
  intro v
  have htwo := Server.two_le_mostPending
  rw [Server.acceptHandler_peer Server.init_wellFormed]
  split
  · exact htwo
  · exact Nat.lt_of_lt_of_le Nat.two_pos htwo

theorem emptyHeader_disagrees : ¬ @SameProtocol bindCopies littleEndianHost [0x80, 0, 0, 0] connectedNode
    (ConnectedClient.makeInstance 1) 0 (@Server.acceptHandler bindCopies none Server.init) := by
  intro h
  refine @not_hasRunt_of_sameProtocol bindCopies littleEndianHost _ _ _ _ _ connectedNode_waiting
    (@accepted_waiting bindCopies) h ?_
  exact ⟨[], 0, [], nofun, Nat.zero_le _, rfl⟩

theorem sameProtocol_iff_accepted : @SameProtocol bindCopies littleEndianHost [0x80, 5, 0, 0, 0x41]
    connectedNode (ConnectedClient.makeInstance 1) 0 (@Server.acceptHandler bindCopies none Server.init) ↔
      ¬ HasRunt [0x80, 5, 0, 0, 0x41] :=
  @sameProtocol_iff bindCopies littleEndianHost _ _ _ _ _ connectedNode_waiting (makeInstance_waiting 1)
    (@accepted_waiting bindCopies)

end NukeMs
