import NukeMs.ConnectedSession
import NukeMs.Decoding
import NukeMs.EndToEnd

/-!
A client and a `ConnectedClient` at the two ends of one connection, each on a host of
its own. Both send while they receive; the owner of the `ConnectedClient` hands over
user messages, its own ones or such as it has received. As in a `Network`, each buffer
that is written is taken as a whole.
-/

namespace NukeMs

open SegmentationLayerBase FramedStream Runs

/-- `dismissed` is set once the owner has shut the connection down or dropped the client. -/
structure Duplex where
  node : ClientNode
  peer : ConnectedClient
  up : List Byte
  down : List Byte
  broken : Bool
  dismissed : Bool
  sentUp : List NearUserMessage
  sentDown : List NearUserMessage

namespace Duplex

def begin (start : ClientNode) (connectionId : ℤ) : Duplex :=
  ⟨start, ConnectedClient.makeInstance connectionId, [], [], false, false, [], []⟩

inductive Event
  | breaks
  | node (input : Client.Input)
  | peer (input : ConnectedClient.Input)

def lostToNode (s : Duplex) : Bool := s.broken || s.peer.isShutdown || !s.peer.owned

def lostToPeer (s : Duplex) : Bool := s.lostToNode || !decide (s.node.state = .connected)

def dismisses : ConnectedClient.Input → Bool
  | .shutdown | .dropped => true
  | _ => false

def fromPeer (d t : ConnectedClient) : List Byte :=
  if d.isShutdown then [] else (t.written.drop d.written.length).flatten

section
variable [Host]

def posted : ConnectedClient.Input → Option NearUserMessage
  | .sendUserMessage packet => some packet.innerLayer
  | .sendPacket packet => (NearUserMessage.ofSerializedData packet.innerLayer).toOption
  | _ => none

def toPeer (s : Duplex) (input : ConnectedClient.Input) : Option (List Byte) :=
  match input with
  | .completed _ (.error _) => if s.lostToPeer then some s.up else none
  | .completed _ (.ok bytes) => if bytes.isPrefixOf s.up then some (s.up.drop bytes.length) else none
  | .shutdown | .dropped => some s.up
  | .sendPacket _ | .sendUserMessage _ =>
    match posted input with
    | some msg => if msg.bytes.length + headerLength ≤ 0x8FFF then some s.up else none
    | none => none

def toNode (s : Duplex) : Client.Input → Option (List Byte)
  | .complete _ outcome =>
    match outcome.error with
    | none => if outcome.bytes.isPrefixOf s.down then some (s.down.drop outcome.bytes.length) else none
    | some error => if s.lostToNode && !error.operationAborted then some s.down else none
  | .sendUserMessage msg recipient =>
    if (serializedBuffer (SegmentationLayer.mk (Client.usermsg msg recipient s.node))).length ≤ 0x8FFF
    then some s.down
    else none
  | _ => some s.down

def nodeStep (s : Duplex) (input : Client.Input) : Option Duplex :=
  if s.node.state = .connected then
    match s.toNode input, Client.step s.node input with
    | some down, some t =>
      some { s with
        node := t
        up := s.up ++ Network.fromClient s.node t
        down := down
        sentUp := s.sentUp ++ (Client.asked s.node input).toList }
    | _, _ => none
  else none

def peerStep (s : Duplex) (input : ConnectedClient.Input) : Option Duplex :=
  match s.toPeer input, ConnectedClient.step s.peer input with
  | some up, some t =>
    some { s with
      peer := t
      up := up
      down := s.down ++ fromPeer s.peer t
      dismissed := s.dismissed || dismisses input
      sentDown := s.sentDown ++ (posted input).toList }
  | _, _ => none

end

def step (here there : Host) (s : Duplex) : Event → Option Duplex
  | .breaks => some { s with broken := true }
  | .node input => @nodeStep here s input
  | .peer input => @peerStep there s input

structure Converses (start : ClientNode) (s : Duplex) : Prop where
  upstream : ∃ got rest, s.sentUp = got ++ rest ∧ s.peer.payloads = got.map NearUserMessage.bytes ∧
    s.peer.Session s.up (rest.map NearUserMessage.bytes)
  downstream : ∃ heard toCome, Client.rcvMessages s.node = Client.rcvMessages start ++ heard ∧
    heard ++ toCome <+: s.sentDown ∧ (s.peer.isShutdown = false → heard ++ toCome = s.sentDown) ∧
    (s.node.state = .connected → Client.Session s.node s.down (toCome.map NearUserMessage.bytes))
  owned : s.dismissed = false → s.peer.owned = true
  kept : s.broken = false → s.dismissed = false → s.node.state = .connected →
    s.peer.isShutdown = false
  unfailed : s.lostToNode = false → s.node.state = .connected → Client.Unfailed s.node

section
variable {start : ClientNode} {s t : Duplex}

theorem begin_converses (hstart : Network.Connected start) (id : ℤ) :
    Converses start (begin start id) where
  upstream := ⟨[], [], rfl, rfl, ConnectedClient.makeInstance_session id⟩
  downstream := ⟨[], [], (List.append_nil _).symm, List.prefix_rfl, fun _ => rfl,
    fun _ => Network.connected_session hstart⟩
  owned _ := rfl
  kept _ _ _ := rfl
  unfailed _ _ op hop outcome hout := by
    change op ∈ start.pending at hop
    rw [hstart.pending, List.mem_singleton] at hop
    rw [hop] at hout
    cases hout

theorem Converses.stands (hs : Converses start s) (hbroken : s.broken = false)
    (hdismissed : s.dismissed = false) (hstate : s.node.state = .connected) :
    s.peer.isShutdown = false ∧ s.lostToNode = false ∧ s.lostToPeer = false := by
  have hopened := hs.kept hbroken hdismissed hstate
  have hfine : s.lostToNode = false := by
    rw [lostToNode, hbroken, hopened, hs.owned hdismissed]
    rfl
  refine ⟨hopened, hfine, ?_⟩
  rw [lostToPeer, hfine, Bool.false_or, Bool.not_eq_false', decide_eq_true_eq]
  exact hstate

theorem breaks_converses (hs : Converses start s) : Converses start { s with broken := true } :=
  ⟨hs.upstream, hs.downstream, hs.owned, nofun, nofun⟩

section
variable [Host]

def asNetwork (s : Duplex) : Network where
  server := Server.init
  client _ := s.node
  up _ := s.up
  down _ := s.down
  broken _ := s.lostToNode
  joined _ := 0
  sent _ := s.sentUp

omit [Host] in
theorem asNetwork_lost (s : Duplex) : s.asNetwork.lostToClient 0 = s.lostToNode := Bool.or_false _

theorem asNetwork_toClient (s : Duplex) (input : Client.Input) :
    s.asNetwork.toClient 0 input = s.toNode input := by
  cases input with
  | complete i outcome =>
    unfold Network.toClient toNode
    rw [asNetwork_lost]
    rfl
  | _ => rfl

theorem proceeds {input : Client.Input} {c' : ClientNode} {rest : List Byte}
    (hdown : s.toNode input = some rest) (hstep : Client.step s.node input = some c')
    {messages : List NearUserMessage}
    (hc : Client.Session s.node s.down (messages.map NearUserMessage.bytes)) :
    Client.Proceeds s.node c' rest messages (Client.asked s.node input).toList := by
  rw [← asNetwork_toClient] at hdown
  apply Client.step_proceeds hc hstep
  · intro i outcome hi
    subst hi
    exact (Network.toClient_complete hdown).1
  · intro hinput
    exact (Network.toClient_other hinput hdown).1

theorem node_converses {input : Client.Input} {c' : ClientNode} {rest : List Byte}
    (hs : Converses start s) (hstate : s.node.state = .connected) (hdown : s.toNode input = some rest)
    (hstep : Client.step s.node input = some c') : Converses start { s with
      node := c'
      up := s.up ++ Network.fromClient s.node c'
      down := rest
      sentUp := s.sentUp ++ (Client.asked s.node input).toList } := by
  obtain ⟨got, toGet, hsent, hgot, hpeer⟩ := hs.upstream
  obtain ⟨heard, toCome, hheard, hprefix, hopen, hsession⟩ := hs.downstream
  have hc := hsession hstate
  obtain ⟨new, later, rfl, hsignalled, hnext, hwritten⟩ := proceeds hdown hstep hc
  have hfits : ∀ body ∈ (Client.asked s.node input).toList.map NearUserMessage.bytes,
      body.length ≤ packetLayout.longest := by
    rw [← asNetwork_toClient] at hdown
    exact List.forall_mem_map.mpr (Network.asked_fits hdown)
  refine ⟨⟨got, toGet ++ (Client.asked s.node input).toList, ?_, hgot, ?_⟩, ⟨heard ++ new, later, ?_⟩,
    hs.owned, fun hbroken hdismissed _ => hs.kept hbroken hdismissed hstate, ?_⟩
  · dsimp only
    rw [hsent, List.append_assoc]
  · dsimp only
    rw [Network.fromClient_eq hwritten, List.map_append]
    exact hpeer.arrive _ hfits
  · rw [List.append_assoc]
    refine ⟨?_, hprefix, hopen, hnext⟩
    dsimp only
    rw [hsignalled, hheard, List.append_assoc]
  · intro hlost hconnected
    apply Client.step_unfailed hc (hs.unfailed hlost hstate) hstep hconnected
    intro i outcome hi
    subst hi
    rw [← asNetwork_toClient] at hdown
    exact (Network.toClient_complete hdown).2 ((asNetwork_lost s).trans hlost)

theorem toPeer_completed {i : ℕ} {result : Completion} {rest : List Byte}
    (h : s.toPeer (.completed i result) = some rest) :
    s.up = Server.received result ++ rest ∧
      (s.lostToPeer = false → ∃ bytes, result = .ok bytes) := by
  cases result with
  | error error =>
    simp only [toPeer, Option.ite_none_right_eq_some, Option.some.injEq] at h
    obtain ⟨hlost, rfl⟩ := h
    refine ⟨rfl, ?_⟩
    intro hfine
    rw [hlost] at hfine
    cases hfine
  | ok bytes =>
    simp only [toPeer, Option.ite_none_right_eq_some, Option.some.injEq,
      List.isPrefixOf_iff_prefix] at h
    obtain ⟨⟨tail, htail⟩, rfl⟩ := h
    refine ⟨?_, fun _ => ⟨bytes, rfl⟩⟩
    rw [← htail, List.drop_left]
    rfl

omit [Host] in
theorem fromPeer_same {d d' : ConnectedClient} (h : d'.written = d.written) : fromPeer d d' = [] := by
  rw [fromPeer, h, List.drop_length, List.flatten_nil, ite_self]

theorem completed_converses {i : ℕ} {result : Completion} {rest : List Byte} {d : ConnectedClient}
    (hs : Converses start s) (hup : s.toPeer (.completed i result) = some rest)
    (hstep : ConnectedClient.step s.peer (.completed i result) = some d) :
    fromPeer s.peer d = [] ∧ Converses start { s with peer := d, up := rest } := by
  obtain ⟨hconsumed, hfails⟩ := toPeer_completed hup
  obtain ⟨op, hop, hadm, rfl⟩ := ConnectedClient.step_completed hstep
  obtain ⟨got, toGet, hsent, hgot, hpeer⟩ := hs.upstream
  rw [hconsumed] at hpeer
  have htakes := ConnectedClient.runHandler_takes hpeer hop hadm
  obtain ⟨handed, more, hbodies, hpayloads, hsession⟩ := htakes.session
  obtain ⟨new, later, rfl, rfl, rfl⟩ := List.map_eq_append_iff.mp hbodies
  obtain ⟨heard, toCome, hheard, hprefix, hopen, hnode⟩ := hs.downstream
  refine ⟨fromPeer_same htakes.written, ⟨got ++ new, later, ?_, ?_, hsession⟩,
    ⟨heard, toCome, hheard, hprefix, ?_, hnode⟩, ?_, ?_, ?_⟩
  · rw [hsent, List.append_assoc]
  · dsimp only
    rw [hpayloads, hgot, List.map_append]
  · exact fun ht => hopen (htakes.open_before ht)
  · exact fun hdismissed => htakes.owned.trans (hs.owned hdismissed)
  · intro hbroken hdismissed hstate
    obtain ⟨hopened, -, hfine⟩ := hs.stands hbroken hdismissed hstate
    exact (htakes.open_after (hfails hfine)).trans hopened
  · intro hlost
    rw [lostToNode, Bool.or_eq_false_iff, Bool.or_eq_false_iff] at hlost
    obtain ⟨⟨hbroken, hopened⟩, howned⟩ := hlost
    apply hs.unfailed
    rw [lostToNode, htakes.open_before hopened, ← htakes.owned]
    exact (congrArg (fun b => b || false || _) hbroken).trans howned

omit [Host] in
theorem sent_converses {m : NearUserMessage} {d : ConnectedClient} (hs : Converses start s)
    (hfits : m.bytes.length + headerLength ≤ 0x8FFF)
    (hd : d = ConnectedClient.asyncWrite (SegmentationLayer.packet m.bytes) s.peer) :
    Converses start { s with
      peer := d
      down := s.down ++ fromPeer s.peer d
      sentDown := s.sentDown ++ [m] } := by
  subst hd
  obtain ⟨got, toGet, hsent, hgot, hpeer⟩ := hs.upstream
  obtain ⟨heard, toCome, hheard, hprefix, hopen, hnode⟩ := hs.downstream
  refine ⟨⟨got, toGet, hsent, hgot, hpeer.send _⟩, ?_, hs.owned, hs.kept, hs.unfailed⟩
  have hwritten : (ConnectedClient.asyncWrite (SegmentationLayer.packet m.bytes) s.peer).written =
      s.peer.written ++ [SegmentationLayer.packet m.bytes] := rfl
  dsimp only
  rw [fromPeer, hwritten, List.drop_left]
  cases hshut : s.peer.isShutdown with
  | true =>
    refine ⟨heard, toCome, hheard, hprefix.trans (List.prefix_append _ _), ?_, ?_⟩
    · intro hopened
      cases hshut.symm.trans hopened
    · rw [if_pos rfl, List.append_nil]
      exact hnode
  | false =>
    have hmore : heard ++ (toCome ++ [m]) = s.sentDown ++ [m] := by
      rw [← List.append_assoc, hopen hshut]
    refine ⟨heard, toCome ++ [m], hheard, hmore ▸ List.prefix_rfl, fun _ => hmore, ?_⟩
    intro hstate
    rw [if_neg (by decide), List.map_append]
    have hbody : ∀ body ∈ [m.bytes], body.length ≤ packetLayout.longest := by
      intro body hbody
      rw [List.mem_singleton.mp hbody]
      simp only [packetLayout, headerLength] at hfits ⊢
      omega
    exact (hnode hstate).arrive [m.bytes] hbody

omit [Host] in
theorem dismissed_converses {d : ConnectedClient} (hs : Converses start s)
    (hsession : ∀ bodies, s.peer.Session s.up bodies → d.Session s.up bodies)
    (hsignals : d.signals = s.peer.signals) (hwritten : d.written = s.peer.written)
    (hclosed : d.isShutdown = false → s.peer.isShutdown = false)
    (hlost : d.isShutdown = true ∨ d.owned = false) : Converses start { s with
      peer := d
      down := s.down ++ fromPeer s.peer d
      dismissed := true } := by
  rw [fromPeer_same hwritten, List.append_nil]
  obtain ⟨got, toGet, hsent, hgot, hpeer⟩ := hs.upstream
  obtain ⟨heard, toCome, hheard, hprefix, hopen, hnode⟩ := hs.downstream
  refine ⟨⟨got, toGet, hsent, ?_, hsession _ hpeer⟩,
    ⟨heard, toCome, hheard, hprefix, fun ht => hopen (hclosed ht), hnode⟩, nofun, nofun, ?_⟩
  · dsimp only
    rw [ConnectedClient.payloads, hsignals]
    exact hgot
  · intro hfine
    rw [lostToNode, Bool.or_eq_false_iff, Bool.or_eq_false_iff, Bool.not_eq_false'] at hfine
    obtain ⟨⟨-, hopened⟩, howned⟩ := hfine
    obtain hshut | hdropped := hlost
    · cases hshut.symm.trans hopened
    · cases hdropped.symm.trans howned

theorem toPeer_posted {input : ConnectedClient.Input} {rest : List Byte} (h : s.toPeer input = some rest)
    (hsends : (∃ packet, input = .sendPacket packet) ∨ ∃ packet, input = .sendUserMessage packet) :
    ∃ m, posted input = some m ∧ m.bytes.length + headerLength ≤ 0x8FFF ∧ rest = s.up := by
  obtain ⟨packet, rfl⟩ | ⟨packet, rfl⟩ := hsends
  all_goals
    unfold toPeer at h
    dsimp only at h
    split at h
    next m hposted =>
      rw [Option.ite_none_right_eq_some, Option.some.injEq] at h
      exact ⟨m, hposted, h.1, h.2.symm⟩
    next => cases h

theorem posted_buffer {packet : SegmentationLayer SerializedData} {m : NearUserMessage}
    (h : posted (.sendPacket packet) = some m) :
    serializedBuffer packet = SegmentationLayer.packet m.bytes := by
  have hdecoded : NearUserMessage.ofSerializedData packet.innerLayer = .ok m := by
    rw [posted] at h
    cases hdecoded : NearUserMessage.ofSerializedData packet.innerLayer with
    | ok m' =>
      rw [hdecoded] at h
      cases h
      rfl
    | error e =>
      rw [hdecoded] at h
      cases h
  rw [NearUserMessage.ofSerializedData_ok hdecoded]
  exact (SegmentationLayer.serializes packet.innerLayer.serializes).buffer_eq

theorem nodeStep_converses {input : Client.Input} (hs : Converses start s)
    (h : nodeStep s input = some t) : Converses start t := by
  unfold nodeStep at h
  split at h
  next hstate =>
    split at h
    next rest c' hdown hstep =>
      cases h
      exact node_converses hs hstate hdown hstep
    next => cases h
  next => cases h

theorem peerStep_converses {input : ConnectedClient.Input} (hs : Converses start s)
    (h : peerStep s input = some t) : Converses start t := by
  unfold peerStep at h
  split at h
  next up d hup hstep =>
    cases h
    cases input with
    | completed i result =>
      obtain ⟨hquiet, hnext⟩ := completed_converses hs hup hstep
      simpa [hquiet, posted, dismisses] using hnext
    | sendPacket packet =>
      obtain ⟨m, hposted, hfits, rfl⟩ := toPeer_posted hup (.inl ⟨packet, rfl⟩)
      simp only [ConnectedClient.step, Option.ite_none_left_eq_some, Option.ite_none_right_eq_some,
        Option.some.injEq] at hstep
      obtain ⟨-, -, rfl⟩ := hstep
      have hbuffer : ConnectedClient.sendPacket packet s.peer =
          ConnectedClient.asyncWrite (SegmentationLayer.packet m.bytes) s.peer :=
        congrArg (ConnectedClient.asyncWrite · s.peer) (posted_buffer hposted)
      simpa [hposted, dismisses] using sent_converses hs hfits hbuffer
    | sendUserMessage packet =>
      obtain ⟨m, hposted, hfits, rfl⟩ := toPeer_posted hup (.inr ⟨packet, rfl⟩)
      simp only [ConnectedClient.step, Option.ite_none_left_eq_some, Option.ite_none_right_eq_some,
        Option.some.injEq] at hstep
      obtain ⟨-, -, rfl⟩ := hstep
      cases hposted
      have hbuffer : ConnectedClient.sendPacket packet s.peer =
          ConnectedClient.asyncWrite (SegmentationLayer.packet packet.innerLayer.bytes) s.peer :=
        congrArg (ConnectedClient.asyncWrite · s.peer) (Client.sendMsg_buffer _)
      simpa [posted, dismisses] using sent_converses hs hfits hbuffer
    | shutdown =>
      cases hup
      simp only [ConnectedClient.step, Option.ite_none_left_eq_some, Option.ite_none_right_eq_some,
        Option.some.injEq] at hstep
      obtain ⟨-, -, rfl⟩ := hstep
      have hclosed : (ConnectedClient.shutdown s.peer).isShutdown ≠ false := Bool.noConfusion
      have hnext := dismissed_converses hs (fun _ => ConnectedClient.Session.shutdown) rfl rfl
        (fun hopened => absurd hopened hclosed) (.inl rfl)
      simpa [posted, dismisses] using hnext
    | dropped =>
      cases hup
      simp only [ConnectedClient.step, Option.ite_none_left_eq_some, Option.some.injEq] at hstep
      obtain ⟨-, rfl⟩ := hstep
      have hnext := dismissed_converses hs (fun _ => ConnectedClient.Session.drop) rfl rfl id (.inr rfl)
      simpa [posted, dismisses] using hnext
  next => cases h

end

variable {here there : Host}

theorem step_converses {event : Event} (hs : Converses start s)
    (h : step here there s event = some t) : Converses start t := by
  cases event with
  | breaks =>
    cases h
    exact breaks_converses hs
  | node input => exact @nodeStep_converses start s t here input hs h
  | peer input => exact @peerStep_converses start s t there input hs h

end

structure Stands (s : Duplex) : Prop where
  broken : s.broken = false
  dismissed : s.dismissed = false
  state : s.node.state = .connected

def Event.delivers : Event → Bool
  | .node (.handler _) | .node (.complete _ _) | .peer (.completed _ (.ok _)) => true
  | _ => false

def inFlight (s : Duplex) : ℕ := s.up.length + Client.deliveries s.node s.down

structure Arrived (start : ClientNode) (s : Duplex) : Prop where
  up : s.peer.payloads = s.sentUp.map NearUserMessage.bytes
  down : Client.rcvMessages s.node = Client.rcvMessages start ++ s.sentDown

structure Delivered (s t : Duplex) : Prop where
  stands : Stands t
  sentUp : t.sentUp = s.sentUp
  sentDown : t.sentDown = s.sentDown
  less : inFlight t < inFlight s

section
variable [Host] {start : ClientNode} {s t : Duplex}

theorem node_delivers (hs : Converses start s) (hstands : Stands s)
    (hmissing : Client.rcvMessages s.node ≠ Client.rcvMessages start ++ s.sentDown) :
    ∃ input t, (Event.node input).delivers = true ∧ nodeStep s input = some t ∧ Delivered s t := by
  obtain ⟨heard, toCome, hheard, -, hopen, hsession⟩ := hs.downstream
  obtain ⟨hopened, hfine, -⟩ := hs.stands hstands.broken hstands.dismissed hstands.state
  have hne : toCome ≠ [] := by
    rintro rfl
    have hall := hopen hopened
    rw [List.append_nil] at hall
    exact hmissing (hall ▸ hheard)
  have hc := hsession hstands.state
  obtain ⟨input, c', rest, hdelivers, hstep, hstate, -, hless⟩ :=
    hc.delivery (hs.unfailed hfine hstands.state) hne
  have hinput : s.toNode input = some rest ∧ (Event.node input).delivers = true ∧
      Client.asked s.node input = none := by
    obtain ⟨i, rfl, hdown⟩ | ⟨i, bytes, rfl, hdown⟩ := hdelivers
    · exact ⟨congrArg some hdown, rfl, rfl⟩
    · refine ⟨?_, rfl, rfl⟩
      have hprefix : bytes.isPrefixOf (bytes ++ rest) = true :=
        List.isPrefixOf_iff_prefix.mpr (List.prefix_append _ _)
      simp only [toNode, hdown, hprefix, if_true, List.drop_left]
  obtain ⟨hdown, hevent, hasked⟩ := hinput
  obtain ⟨-, -, -, -, -, hwritten⟩ := proceeds hdown hstep hc
  rw [hasked] at hwritten
  have hquiet : Network.fromClient s.node c' = [] := Network.fromClient_eq hwritten
  have hnode : nodeStep s input = some { s with
      node := c'
      up := s.up ++ Network.fromClient s.node c'
      down := rest
      sentUp := s.sentUp ++ (Client.asked s.node input).toList } := by
    simp only [nodeStep, hstands.state, if_true, hdown, hstep]
  refine ⟨input, _, hevent, hnode, ⟨hstands.broken, hstands.dismissed, hstate⟩, ?_, rfl, ?_⟩
  · rw [hasked]
    exact List.append_nil _
  · simp only [inFlight, hquiet, List.append_nil]
    omega

omit [Host] in
theorem peer_read (hs : Converses start s) (hstands : Stands s) :
    ∃ (i : ℕ) (op : Operation) (phase : Phase),
      s.peer.pending[i]? = some op ∧ op.phase = some phase := by
  obtain ⟨got, toGet, -, -, hpeer⟩ := hs.upstream
  have hopened := hs.kept hstands.broken hstands.dismissed hstands.state
  have hone := hpeer.reads (hs.owned hstands.dismissed) hopened
  obtain ⟨op, hmem, hread⟩ := List.countP_pos_iff.mp (hone ▸ Nat.one_pos)
  obtain ⟨i, hop⟩ := List.mem_iff_getElem?.mp hmem
  cases op with
  | readHeader => exact ⟨i, _, .header, hop, rfl⟩
  | readBody n => exact ⟨i, _, .body n, hop, rfl⟩
  | write buffer => cases hread

omit [Host] in
theorem wanted_pos {phase : Phase} {up : List Byte} {messages : List NearUserMessage}
    (h : packetLayout.Sees phase up (messages.map NearUserMessage.bytes))
    (hle : packetLayout.wanted phase ≤ up.length) : 0 < packetLayout.wanted phase := by
  cases phase with
  | header => exact packetLayout.headerLength_pos
  | body n =>
    rw [← List.take_append_drop n up] at h
    obtain ⟨more, hmore, -⟩ := h.takeBody (List.length_take_of_le hle)
    obtain ⟨m, toCome, -, hm, -⟩ := List.map_eq_cons_iff.mp hmore
    have hlength := congrArg List.length hm
    rw [NearUserMessage.bytes_length, NearUserMessage.headerLength] at hlength
    rw [List.length_take] at hlength
    change 0 < n
    omega

theorem peer_delivers (hs : Converses start s) (hstands : Stands s)
    (hmissing : s.peer.payloads ≠ s.sentUp.map NearUserMessage.bytes) :
    ∃ input t, (Event.peer input).delivers = true ∧ peerStep s input = some t ∧ Delivered s t := by
  obtain ⟨i, op, phase, hop, hphase⟩ := peer_read hs hstands
  obtain ⟨got, toGet, hsent, hgot, hpeer⟩ := hs.upstream
  have hne : toGet.map NearUserMessage.bytes ≠ [] := by
    rintro hnone
    rw [hsent, List.map_append, hnone, List.append_nil] at hmissing
    exact hmissing hgot
  have hsees := hpeer.sees op (List.mem_of_getElem? hop) phase hphase
  have hle := hsees.wanted_le hne
  have hpos := wanted_pos hsees hle
  let bytes := s.up.take (packetLayout.wanted phase)
  have hlen : bytes.length = packetLayout.wanted phase := List.length_take_of_le hle
  have hadm : op.admits (.ok bytes) = true := by
    cases op with
    | readHeader =>
      cases hphase
      exact decide_eq_true hlen
    | readBody n =>
      cases hphase
      exact decide_eq_true hlen
    | write buffer => cases hphase
  have hstep := ConnectedClient.step_of_completed hpeer.escaped hop hadm
  have hprefix : bytes.isPrefixOf s.up = true :=
    List.isPrefixOf_iff_prefix.mpr (List.take_prefix _ _)
  have hup : s.toPeer (.completed i (.ok bytes)) = some (s.up.drop bytes.length) := by
    simp only [toPeer, hprefix, if_true]
  obtain ⟨hquiet, -⟩ := completed_converses hs hup hstep
  have hpeerStep : peerStep s (.completed i (.ok bytes)) = some { s with
      peer := ConnectedClient.runHandler op (.ok bytes) (ConnectedClient.taken i op (.ok bytes) s.peer)
      up := s.up.drop bytes.length } := by
    simp only [peerStep, hup, hstep, hquiet, List.append_nil, dismisses, Bool.or_false, posted,
      Option.toList_none]
  refine ⟨_, _, rfl, hpeerStep, ⟨hstands.broken, hstands.dismissed, hstands.state⟩, rfl, rfl, ?_⟩
  simp only [inFlight, List.length_drop]
  omega

end

section
variable (here there : Host) {start : ClientNode} {s : Duplex}

theorem delivers_step (hs : Converses start s) (hstands : Stands s) (hmissing : ¬ Arrived start s) :
    ∃ (event : Event) (t : Duplex), event.delivers = true ∧ step here there s event = some t ∧
      Delivered s t := by
  by_cases hup : s.peer.payloads = s.sentUp.map NearUserMessage.bytes
  · have hdown : Client.rcvMessages s.node ≠ Client.rcvMessages start ++ s.sentDown :=
      fun hdown => hmissing ⟨hup, hdown⟩
    obtain ⟨input, t, hevent, hstep, hnext⟩ := @node_delivers here start s hs hstands hdown
    exact ⟨_, t, hevent, hstep, hnext⟩
  · obtain ⟨input, t, hevent, hstep, hnext⟩ := @peer_delivers there start s hs hstands hup
    exact ⟨_, t, hevent, hstep, hnext⟩

theorem arrives (hs : Converses start s) (hstands : Stands s) :
    ∃ (events : List Event) (t : Duplex), (∀ event ∈ events, event.delivers = true) ∧
      exec (step here there) s events = some t ∧ t.sentUp = s.sentUp ∧ t.sentDown = s.sentDown ∧
      Arrived start t := by
  induction hn : inFlight s using Nat.strong_induction_on generalizing s with
  | _ n ih =>
    by_cases harrived : Arrived start s
    · exact ⟨[], s, nofun, rfl, rfl, rfl, harrived⟩
    · obtain ⟨event, u, hevent, hstep, hnext⟩ := delivers_step here there hs hstands harrived
      obtain ⟨events, t, hall, hrun, hup, hdown, hend⟩ :=
        ih _ (hn ▸ hnext.less) (step_converses hs hstep) hnext.stands rfl
      refine ⟨event :: events, t, List.forall_mem_cons.mpr ⟨hevent, hall⟩,
        exec_cons.mpr ⟨u, hstep, hrun⟩, hup.trans hnext.sentUp, hdown.trans hnext.sentDown, hend⟩

end

structure Conversed (here there : Host) (start : ClientNode) (s : Duplex) : Prop where
  up : ∃ got, s.peer.payloads = got.map NearUserMessage.bytes ∧ got <+: s.sentUp
  down : ∃ heard, Client.rcvMessages s.node = Client.rcvMessages start ++ heard ∧ heard <+: s.sentDown
  kept : Stands s → s.peer.isShutdown = false ∧ ¬ ConnectedClient.Reported s.peer.signals
  settled : Stands s → inFlight s = 0 → Arrived start s
  arrives : Stands s → ∃ (events : List Event) (t : Duplex),
    (∀ event ∈ events, event.delivers = true) ∧ exec (step here there) s events = some t ∧
      t.sentUp = s.sentUp ∧ t.sentDown = s.sentDown ∧ Arrived start t

theorem duplex_run {here there : Host} {start : ClientNode} (hstart : Network.Connected start) (id : ℤ)
    (events : List Event) {s : Duplex} (h : exec (step here there) (begin start id) events = some s) :
    Conversed here there start s := by
  have hs : Converses start s :=
    exec_invariant (fun _ _ _ hs hstep => step_converses hs hstep) (begin_converses hstart id) h
  refine ⟨?_, ?_, ?_, ?_, arrives here there hs⟩
  · obtain ⟨got, rest, hsent, hgot, -⟩ := hs.upstream
    exact ⟨got, hgot, rest, hsent.symm⟩
  · obtain ⟨heard, toCome, hheard, hprefix, -⟩ := hs.downstream
    exact ⟨heard, hheard, (List.prefix_append _ _).trans hprefix⟩
  · intro hstands
    have hopened := hs.kept hstands.broken hstands.dismissed hstands.state
    obtain ⟨_, _, -, -, hpeer⟩ := hs.upstream
    exact ⟨hopened, hpeer.silent hopened⟩
  · intro hstands hzero
    by_contra hmissing
    obtain ⟨_, _, -, -, hnext⟩ := delivers_step here there hs hstands hmissing
    exact absurd hnext.less (by omega)

def echo : List Event :=
  let body := [0x41, 1, 0, 0, 0] ++ List.replicate 16 0 ++ [0x68, 0x69]
  [.node (.sendUserMessage [0x68, 0x69] UniqueUserID.userIdNone),
    .peer (.completed 0 (.ok [0x80, 27, 0, 0])), .peer (.completed 0 (.ok body)),
    .peer (.sendPacket ⟨SerializedData.ofBlock body⟩),
    .node (.complete 0 ⟨none, [], [0x80, 27, 0, 0]⟩), .node (.handler 0),
    .node (.complete 1 ⟨none, [], body⟩), .node (.handler 1)]

theorem duplex_run_echo : ∃ s, exec (step littleEndianHost ⟨true⟩) (begin connectedNode 1) echo = some s ∧
    Client.rcvMessages s.node =
      [⟨1, UniqueUserID.userIdNone, UniqueUserID.userIdNone, ⟨[0x68, 0x69]⟩⟩] ∧
    Conversed littleEndianHost ⟨true⟩ connectedNode s :=
  ⟨_, rfl, rfl, duplex_run ⟨rfl, rfl, rfl⟩ 1 echo rfl⟩

end Duplex

end NukeMs
