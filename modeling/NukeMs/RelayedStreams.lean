import Mathlib.Data.List.TakeWhile
import NukeMs.EndToEnd
import NukeMs.PacketHandling
import NukeMs.StreamFraming

namespace NukeMs

open SegmentationLayerBase Framing Runs

namespace Framing

variable {σ α : Type}

def Reader.Settles (R : Reader σ α) (s : σ) (arrivals : List (Arrival α)) (P : σ → Prop) : Prop :=
  ∀ x, exec R.deliver ⟨s, [], false⟩ arrivals = some x → x.closed = true →
    (∃ k y, exec R.deliver x (List.replicate k .completion) = some y ∧ R.wanted y.loop = none) ∧
      (R.wanted x.loop = none → P x.loop)

theorem Implements.settles {R : Reader σ α} {f : Format α} {atHeader : List (List α) → σ → Prop}
    {atBody : List (List α) → ℕ → σ → Prop} {ended : List (List α) → Ending → σ → Prop} {s : σ}
    (h : Implements R f atHeader atBody ended) (hs : atHeader [] s) (arrivals : List (Arrival α)) :
    R.Settles s arrivals
      (ended (f.parse (arrived arrivals)).payloads (f.parse (arrived arrivals)).ending) :=
  fun _ hrun hclosed => h.delivered hs hrun hclosed

end Framing

namespace Server

structure Relays (v : ℕ) (bodies : List (List Byte)) (s : DispatchingServer) : Prop where
  written : writesTo v s.trace = bodies.map SegmentationLayer.packet
  fits : ∀ body ∈ bodies, body.length + headerLength ≤ 0x8FFF
  received : bodies <:+: (handedUp s.trace).map Prod.snd
  latest : IsListed v s → bodies <:+ (handedUp s.trace).map Prod.snd

section
variable {v u : ℕ} {bodies more : List (List Byte)} {s t : DispatchingServer}

theorem Relays.relayed (hs : WellFormed s) (ht : WellFormed t) (h : Relays v bodies s)
    (hmore : ∀ body ∈ more, body.length + headerLength ≤ 0x8FFF) (hr : Relayed u more s t) :
    ∃ bodies', Relays v bodies' t := by
  have hhanded : (handedUp t.trace).map Prod.snd = (handedUp s.trace).map Prod.snd ++ more := by
    rw [hr.handed, List.map_append, List.map_map]
    simp [Function.comp_def]
  have hwritten := hr.written v
  cases hd : (s.peer v).destroyed with
  | true =>
    rw [hd, if_pos rfl, List.append_nil] at hwritten
    refine ⟨bodies, hwritten.trans h.written, h.fits, ?_, ?_⟩
    · rw [hhanded]
      exact h.received.trans (List.prefix_append _ _).isInfix
    · intro hlisted
      have hgone := hr.destroyed v hd
      rw [ht.isListed_iff.mp hlisted] at hgone
      cases hgone
  | false =>
    rw [hd, if_neg (by decide), h.written, ← List.map_append] at hwritten
    have hlatest : bodies ++ more <:+ (handedUp t.trace).map Prod.snd := by
      obtain ⟨before, hbefore⟩ := h.latest (hs.isListed_iff.mpr hd)
      rw [hhanded, ← hbefore]
      exact ⟨before, (List.append_assoc _ _ _).symm⟩
    refine ⟨bodies ++ more, hwritten, ?_, hlatest.isInfix, fun _ => hlatest⟩
    intro body hbody
    obtain hold | hnew := List.mem_append.mp hbody
    · exact h.fits body hold
    · exact hmore body hnew

theorem Relays.accept [HandlerCopies] (hs : Faithful s) (h : Relays v bodies s)
    (hfresh : s.created ≤ v → bodies = []) : Relays v bodies (acceptHandler none s) := by
  have hhanded : handedUp (acceptHandler none s).trace = handedUp s.trace :=
    acceptHandler_handed
  refine ⟨(acceptHandler_written v).trans h.written, h.fits, hhanded ▸ h.received, ?_⟩
  intro hlisted
  rw [hhanded]
  have hd := hs.accept.wellFormed.isListed_iff.mp hlisted
  rw [acceptHandler_peer hs.wellFormed] at hd
  split at hd
  next hv =>
    rw [hfresh hv.ge]
    exact List.nil_suffix
  next =>
    split at hd
    · cases hd
    · exact h.latest (hs.wellFormed.isListed_iff.mpr hd)

structure Filters (s : DispatchingServer) : Prop where
  faithful : Faithful s
  relays : ∀ v, ∃ bodies, Relays v bodies s
  fresh : ∀ v, s.created ≤ v → writesTo v s.trace = []

theorem Relays.nil_of_written (h : Relays v bodies s) (hw : writesTo v s.trace = []) : bodies = [] :=
  List.map_eq_nil_iff.mp (h.written.symm.trans hw)

theorem Filters.relayed (hs : Filters s) (ht : Faithful t) (hr : Relayed u more s t)
    (hmore : ∀ body ∈ more, body.length + headerLength ≤ 0x8FFF) : Filters t := by
  refine ⟨ht, ?_, ?_⟩
  · intro v
    obtain ⟨bodies, h⟩ := hs.relays v
    exact h.relayed hs.faithful.wellFormed ht.wellFormed hmore hr
  · intro v hv
    rw [hr.created] at hv
    rw [hr.written, hs.fresh v hv, hs.faithful.wellFormed.fresh v hv]
    rfl

theorem init_filters : Filters init := by
  refine ⟨init_faithful, ?_, fun _ _ => rfl⟩
  intro v
  exact ⟨[], rfl, nofun, List.infix_rfl, fun _ => List.suffix_rfl⟩

end

section
variable [HandlerCopies] [Host] {s t : DispatchingServer} {input : Input}

omit [HandlerCopies] in
theorem reaction_fits {p : Peer} {i : ℕ} {op : Operation} {result : Completion} (hp : p.Reading)
    (hop : p.pending[i]? = some op) (hfills : op.admits result = true) :
    ∀ body ∈ (reaction op result).bodies, body.length + headerLength ≤ 0x8FFF := by
  intro body hbody
  cases hr : reaction op result with
  | broadcast sent =>
    obtain ⟨n, rfl, rfl⟩ := reaction_broadcast hr
    rw [hr] at hbody
    have hlen : sent.length = n := by simpa [Operation.admits] using hfills
    rw [List.mem_singleton.mp hbody, hlen]
    exact (hp.header n (List.mem_of_getElem? hop)).2
  | rest => rw [hr] at hbody; cases hbody
  | fail errmsg => rw [hr] at hbody; cases hbody
  | start next => rw [hr] at hbody; cases hbody
  | escape e => rw [hr] at hbody; cases hbody

theorem step_filters (hs : Filters s) (h : step s input = some t) : Filters t := by
  have ht := step_faithful hs.faithful h
  obtain ⟨-, hstep⟩ := step_stepped h
  cases hstep with
  | refused error => exact hs.relayed ht (Relayed.of_same 0 rfl rfl rfl fun _ => rfl) nofun
  | accepted =>
    refine ⟨ht, ?_, ?_⟩
    · intro v
      obtain ⟨bodies, hv⟩ := hs.relays v
      exact ⟨bodies, hv.accept hs.faithful fun hle => hv.nil_of_written (hs.fresh v hle)⟩
    · intro v hv
      rw [acceptHandler_fields.1] at hv
      rw [acceptHandler_written]
      exact hs.fresh v (by omega)
  | gone u i result hd =>
    have hhanded : handedUp (s.trace ++ [.handler u]) = handedUp s.trace := by
      rw [handedUp_append]
      exact List.append_nil _
    have hwritten : ∀ v, writesTo v (s.trace ++ [.handler u]) = writesTo v s.trace := by
      intro v
      rw [writesTo_append]
      exact List.append_nil _
    exact hs.relayed ht (Relayed.of_same u rfl rfl hhanded hwritten) nofun
  | handled u i op result hd hop hfills =>
    obtain ⟨hrelayed, -⟩ := handled_relayed i _ _ hs.faithful.wellFormed hd
    exact hs.relayed ht hrelayed (reaction_fits (hs.faithful.reading u) hop hfills)

end

end Server

namespace Client

def userMessage (body : List Byte) : Option NearUserMessage :=
  if IsUserMessage body then some (NearUserMessage.ofBytes body) else none

/-- The client when its receive loop has ended: it breaks on the first packet without a body, and
what comes before that has been shown to the application. -/
structure Left (c₀ : ClientNode) (bodies : List (List Byte)) (c : ClientNode) : Prop where
  faulted : c.faulted = true ↔ [] ∈ bodies
  messages : rcvMessages c = rcvMessages c₀ ++
    (bodies.takeWhile fun body => !body.isEmpty).filterMap userMessage
  tornDown : [] ∉ bodies → TornDown c₀ bodies c

section
variable [Host] {c₀ c : ClientNode} {kind : OpKind} {ps : List (List Byte)}

theorem rcvMessages_disconnected (hc : c.state = .connected) (msg : String) :
    rcvMessages (processEvent (.disconnected msg) c) = rcvMessages c := by
  have hevent : processEvent (.disconnected msg) c = StateConnected.reactDisconnected msg c := by
    unfold processEvent
    rw [hc]
  rw [hevent, StateConnected.reactDisconnected, rcvMessages_enterWaiting]
  exact rcvMessages_emit_of_none c rfl

theorem rcvMessages_header {hdr : List Byte} (h : Waiting c₀ .readHeader ps c)
    (hlen : hdr.length = headerLength) : rcvMessages (receiveLoop.filled c hdr) = rcvMessages c := by
  obtain ⟨attempt, hfilled⟩ := h.header hlen
  rw [hfilled]
  split
  · exact rcvMessages_start attempt _ (idle c)
  · exact rcvMessages_disconnected (c := idle c) h.state _

theorem rcvMessages_cut (h : Waiting c₀ kind ps c) (hread : kind.wanted.isSome = true) :
    rcvMessages (receiveLoop.endOfFile c) = rcvMessages c := by
  have hadm : kind.admits ⟨some endOfFile, [], []⟩ = true := by
    cases kind <;> rfl
  obtain ⟨attempt, o, hc⟩ := h.complete hadm
  change rcvMessages (Client.complete _ c) = _
  rw [hc]
  cases kind with
  | readHeader => exact rcvMessages_disconnected (c := idle c) h.state _
  | readBody size => exact rcvMessages_disconnected (c := idle c) h.state _
  | resolve host service => cases hread
  | connect endpoint rest => cases hread
  | write buffer => cases hread

omit [Host] in
theorem rcvMessages_signalled (usermsg : Option NearUserMessage) (c : ClientNode) :
    rcvMessages (signalled usermsg c) = rcvMessages c ++ usermsg.toList := by
  cases usermsg with
  | none => exact (List.append_nil _).symm
  | some usermsg => exact rcvMessages_emit _ c

theorem rcvMessages_body {body : List Byte} (h : Waiting c₀ (.readBody body.length) ps c) :
    rcvMessages (receiveLoop.filled c body) =
      rcvMessages c ++ if body.isEmpty then [] else (userMessage body).toList := by
  obtain ⟨attempt, t, ht, hfilled⟩ := h.body
  have hshown : rcvMessages t =
      rcvMessages c ++ if body.isEmpty then [] else (userMessage body).toList := by
    by_cases hbody : body = []
    · subst hbody
      rw [ht, reactRcvdMessage_empty]
      exact (rcvMessages_emit_of_none (idle c) rfl).trans (List.append_nil _).symm
    · have hsize : 0 < (SerializedData.ofBlock body).datasize := List.length_pos_iff.mpr hbody
      have hreact := (reactRcvdMessage_eq _ hsize (emit (.handedUp body) (idle c))).2
      rw [SerializedData.bytes_ofBlock] at hreact
      have hsome : body.isEmpty = false := List.isEmpty_eq_false_iff.mpr hbody
      rw [ht, hreact, rcvMessages_signalled, hsome, if_neg Bool.false_ne_true]
      exact congrArg (· ++ (userMessage body).toList) (rcvMessages_emit_of_none (idle c) rfl)
  rw [hfilled]
  split
  · exact hshown
  · rw [rcvMessages_start, hshown]

theorem receiveLoop_shows (c₀ : ClientNode) : Implements receiveLoop clientFormat
    (fun ps c => Waiting c₀ .readHeader ps c ∧ rcvMessages c = rcvMessages c₀ ++ ps.filterMap userMessage)
    (fun ps n c => Waiting c₀ (.readBody n) ps c ∧
      rcvMessages c = rcvMessages c₀ ++ ps.filterMap userMessage)
    (fun ps ending c => Torn c₀ ps ending c ∧
      rcvMessages c = rcvMessages c₀ ++ ps.filterMap userMessage) := by
  apply (receiveLoop_implements c₀).keeping
  · intro ps c hdr h hshown hlen
    rw [rcvMessages_header h hlen, hshown]
  · intro ps c h hshown
    rw [rcvMessages_cut h rfl, hshown]
  · intro ps c body h hshown
    have hfaulty : clientFormat.faulty body = body.isEmpty := rfl
    rw [rcvMessages_body h, hshown, hfaulty, List.append_assoc]
    cases hbody : body.isEmpty with
    | true => simp
    | false => cases hm : userMessage body <;> simp [hm]
  · intro ps n c h hshown
    rw [rcvMessages_cut h rfl, hshown]

omit [Host] in
theorem Left.of_parse {bodies : List (List Byte)}
    (htorn : Torn c₀ (bodies.takeWhile fun body => !body.isEmpty)
      (if bodies.any List.isEmpty then .faulted else .cut) c)
    (hshown : rcvMessages c = rcvMessages c₀ ++
      (bodies.takeWhile fun body => !body.isEmpty).filterMap userMessage) : Left c₀ bodies c := by
  have hempty : bodies.any List.isEmpty = true ↔ [] ∈ bodies := by
    rw [List.any_eq_true]
    constructor
    · rintro ⟨body, hmem, hbody⟩
      rwa [List.isEmpty_iff.mp hbody] at hmem
    · intro hmem
      exact ⟨[], hmem, rfl⟩
  by_cases hany : bodies.any List.isEmpty = true
  · rw [if_pos hany] at htorn
    exact ⟨iff_of_true htorn (hempty.mp hany), hshown, fun hnone => absurd (hempty.mp hany) hnone⟩
  · have hfull : bodies.takeWhile (fun body => !body.isEmpty) = bodies := by
      rw [List.takeWhile_eq_self_iff]
      intro body hbody
      rw [Bool.not_eq_true', Bool.eq_false_iff]
      intro hc
      exact hany (List.any_eq_true.mpr ⟨body, hbody, hc⟩)
    rw [if_neg hany, hfull] at htorn
    have hup : c.faulted = false := TornDown.faulted htorn
    exact ⟨iff_of_false (by rw [hup]; exact Bool.false_ne_true) (fun hmem => hany (hempty.mpr hmem)),
      hshown, fun _ => htorn⟩

end

end Client

section
variable [Host]

theorem flatten_packets (bodies : List (List Byte)) :
    (bodies.map SegmentationLayer.packet).flatten = stream bodies := by
  induction bodies with
  | nil => rfl
  | cons body bodies ih => rw [List.map_cons, List.flatten_cons, stream_cons, ih]

theorem parse_stream_faulty (oversized : Exn) (caught : Exn → Bool) (faulty : List Byte → Bool)
    (payloads : List (List Byte))
    (hmax : ∀ payload ∈ payloads, payload.length + headerLength ≤ 0x8FFF) (cut : ℕ) :
    ((receiverFormat oversized caught faulty).parse ((stream payloads).take cut)).payloads =
        (completeBefore cut payloads).takeWhile (fun payload => !faulty payload) ∧
      ((receiverFormat oversized caught faulty).parse ((stream payloads).take cut)).ending =
        if (completeBefore cut payloads).any faulty then .faulted else .cut := by
  induction payloads generalizing cut with
  | nil =>
    rw [stream, List.flatMap_nil, List.take_nil]
    exact Format.parse_short (show 0 < headerLength by decide)
  | cons payload payloads ih =>
    obtain ⟨hfirst, hrest⟩ := List.forall_mem_cons.mp hmax
    have hlength : (SegmentationLayer.packet payload).length = headerLength + payload.length := by
      rw [SegmentationLayer.packet, List.length_append, SegmentationLayer.header_length]
    rw [stream_cons, completeBefore]
    by_cases hcut : headerLength + payload.length ≤ cut
    · rw [if_pos hcut, List.take_append, List.take_of_length_le (by omega), hlength]
      cases hf : faulty payload with
      | false =>
        obtain ⟨hp, he⟩ := ih hrest (cut - (headerLength + payload.length))
        rw [receiverFormat_packet oversized caught _ hfirst hf, List.takeWhile_cons, List.any_cons, hf]
        exact ⟨congrArg (payload :: ·) hp, he⟩
      | true =>
        have hv : (receiverFormat oversized caught faulty).verdict
            (SegmentationLayer.header (payload.length + headerLength)) = .body payload.length := by
          simp only [receiverFormat, admitHeader_header oversized hfirst, List.length_replicate]
        have hbreaks := Format.parse_packet _
          ((stream payloads).take (cut - (headerLength + payload.length)))
          (SegmentationLayer.header_length _) hv
        have hfaulty : (receiverFormat oversized caught faulty).faulty payload = true := hf
        rw [hfaulty, if_pos rfl] at hbreaks
        rw [SegmentationLayer.packet, hbreaks, List.takeWhile_cons, List.any_cons, hf]
        exact ⟨rfl, rfl⟩
    · rw [if_neg hcut, List.take_append_of_le_length (by omega)]
      apply parse_incomplete hfirst (List.take_prefix _ _)
      rw [List.length_take]
      omega

end

theorem Server.filters_run [HandlerCopies] [Host] (inputs : List Server.Input) {t : DispatchingServer}
    (h : exec Server.step Server.init inputs = some t) : Server.Filters t :=
  exec_invariant (fun _ _ _ hs h => Server.step_filters hs h) Server.init_filters h

theorem relayed_run [HandlerCopies] (sender receiver : Host) (inputs : List Server.Input)
    {t : DispatchingServer} (h : exec (@Server.step _ sender) Server.init inputs = some t) (v cut : ℕ)
    (arrivals : List (Arrival Byte))
    (harrived : arrived arrivals = (Server.writesTo v t.trace).flatten.take cut) :
    ∃ bodies, Server.Relays v bodies t ∧
      (∀ d, ConnectedClient.Waiting d .readHeader [] d →
        (@ConnectedClient.receiveLoop receiver).Settles d arrivals
          (ConnectedClient.Finished d (completeBefore cut bodies))) ∧
      (∀ u s, Server.Waiting u s .readHeader [] s →
        (@Server.receiveLoop _ receiver u).Settles s arrivals
          (Server.Finished u s (completeBefore cut bodies))) ∧
      ∀ c, Client.Waiting c .readHeader [] c →
        (@Client.receiveLoop receiver).Settles c arrivals (Client.Left c (completeBefore cut bodies)) := by
  obtain ⟨bodies, hrelays⟩ := (@Server.filters_run _ sender inputs t h).relays v
  have hstream : arrived arrivals = (stream bodies).take cut := by
    rw [harrived, hrelays.written, flatten_packets]
  refine ⟨bodies, hrelays, ?_, ?_, ?_⟩
  · intro d hd
    have hstart : ConnectedClient.Receiving d .readHeader [] d := ⟨hd, rfl, (List.append_nil _).symm⟩
    have hsettles := (ConnectedClient.receiveLoop_finishes d).settles hstart arrivals
    obtain ⟨hp, he⟩ := parse_stream (.msgLayerError "Oversized packet.") Exn.isMsgLayerError bodies
      hrelays.fits cut
    rwa [hstream, connectedClientFormat, hp, he] at hsettles
  · intro u s hs
    have hstart : Server.Receiving u s .readHeader [] s := ⟨hs, rfl, (List.append_nil _).symm⟩
    have hsettles := (Server.receiveLoop_finishes u s).settles hstart arrivals
    obtain ⟨hp, he⟩ := parse_stream .invalidHeaderError (fun e => e = .invalidHeaderError) bodies
      hrelays.fits cut
    rwa [hstream, peerFormat, hp, he] at hsettles
  · intro c hc x hrun hclosed
    obtain ⟨hends, hleft⟩ := (Client.receiveLoop_shows c).settles ⟨hc, (List.append_nil _).symm⟩
      arrivals x hrun hclosed
    obtain ⟨hp, he⟩ := parse_stream_faulty (.msgLayerError "Oversized packet.") (fun _ => true)
      List.isEmpty bodies hrelays.fits cut
    rw [hstream, clientFormat, hp, he] at hleft
    exact ⟨hends, fun hnone => Client.Left.of_parse (hleft hnone).1 (hleft hnone).2⟩

def hostile : List Server.Input :=
  [.accepted none, .accepted none, .completed 0 0 (.ok [0x80, 5, 0, 0]), .completed 0 0 (.ok [0x41]),
    .completed 0 1 (.ok [0x80, 4, 0, 0]), .completed 0 1 (.ok []), .completed 0 2 (.ok [0, 0, 0, 0])]

def hostileArrivals : List (Arrival Byte) :=
  [.chunk [0x80, 5, 0, 0, 0x41, 0x80], .completion, .chunk [4, 0, 0], .endOfFile, .completion,
    .completion, .completion]

set_option maxRecDepth 1000 in
theorem relayed_run_hostile : ∃ t, exec (@Server.step bindCopies littleEndianHost) Server.init hostile = some t ∧
    ∃ bodies, Server.Relays 1 bodies t ∧ ∃ x,
      exec (@Client.receiveLoop littleEndianHost).deliver ⟨connectedNode, [], false⟩ hostileArrivals =
          some x ∧
        Client.Left connectedNode (completeBefore 9 bodies) x.loop ∧ x.loop.faulted = true := by
  obtain ⟨bodies, hrelays, -, -, hclient⟩ :=
    @relayed_run bindCopies littleEndianHost littleEndianHost hostile _ rfl 1 9 hostileArrivals rfl
  exact ⟨_, rfl, bodies, hrelays, _, rfl, (hclient _ connectedNode_waiting _ rfl rfl).2 rfl, rfl⟩

end NukeMs
