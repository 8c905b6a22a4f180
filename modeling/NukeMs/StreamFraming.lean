import NukeMs.Chunks
import NukeMs.EventProtocol
import NukeMs.OneProtocol

namespace NukeMs

open SegmentationLayerBase Framing Runs

def completeBefore (cut : ℕ) : List (List Byte) → List (List Byte)
  | [] => []
  | payload :: payloads =>
    if headerLength + payload.length ≤ cut then
      payload :: completeBefore (cut - (headerLength + payload.length)) payloads
    else []

section
variable [Host]

def stream (payloads : List (List Byte)) : List Byte :=
  payloads.flatMap fun payload =>
    serializedBuffer (SegmentationLayer.mk (SerializedData.ofBlock payload))

theorem stream_cons (payload : List Byte) (payloads : List (List Byte)) :
    stream (payload :: payloads) = SegmentationLayer.packet payload ++ stream payloads := by
  rw [stream, List.flatMap_cons, Server.serializedBuffer_segmentation]
  rfl

variable {oversized : Exn} {caught : Exn → Bool}

theorem parse_incomplete {faulty : List Byte → Bool} {payload : List Byte} {bs : List Byte}
    (hmax : payload.length + headerLength ≤ 0x8FFF)
    (hbs : bs <+: SegmentationLayer.packet payload) (hcut : bs.length < headerLength + payload.length) :
    ((receiverFormat oversized caught faulty).parse bs).payloads = [] ∧
      ((receiverFormat oversized caught faulty).parse bs).ending = .cut := by
  by_cases hshort : bs.length < headerLength
  · exact Format.parse_short hshort
  · have hheader : SegmentationLayer.header (payload.length + headerLength) <+: bs := by
      apply List.prefix_of_prefix_length_le (List.prefix_append _ _) hbs
      rw [SegmentationLayer.header_length]
      omega
    obtain ⟨body, rfl⟩ := hheader
    have hv : (receiverFormat oversized caught faulty).verdict
        (SegmentationLayer.header (payload.length + headerLength)) = .body payload.length := by
      simp only [receiverFormat, admitHeader_header oversized hmax, List.length_replicate]
    rw [List.length_append, SegmentationLayer.header_length] at hcut
    obtain ⟨hp, he⟩ := Format.parse_body body (SegmentationLayer.header_length _) hv
    have hpart : body.length < payload.length := by omega
    obtain ⟨hp', he'⟩ := Format.parseBody_short
      (f := receiverFormat oversized caught faulty) hpart
    exact ⟨hp.trans hp', he.trans he'⟩

theorem parse_stream (oversized : Exn) (caught : Exn → Bool) (payloads : List (List Byte))
    (hmax : ∀ payload ∈ payloads, payload.length + headerLength ≤ 0x8FFF) (cut : ℕ) :
    ((receiverFormat oversized caught (fun _ => false)).parse ((stream payloads).take cut)).payloads =
        completeBefore cut payloads ∧
      ((receiverFormat oversized caught (fun _ => false)).parse
        ((stream payloads).take cut)).ending = .cut := by
  induction payloads generalizing cut with
  | nil =>
    rw [stream, List.flatMap_nil, List.take_nil]
    exact Format.parse_short (show 0 < headerLength by decide)
  | cons payload payloads ih =>
    obtain ⟨hfirst, hrest⟩ := List.forall_mem_cons.mp hmax
    have hlength : (SegmentationLayer.packet payload).length = headerLength + payload.length := by
      rw [SegmentationLayer.packet, List.length_append, SegmentationLayer.header_length]
    rw [stream_cons, completeBefore]
    by_cases hcut : headerLength + payload.length ≤ cut
    · obtain ⟨hp, he⟩ := ih hrest (cut - (headerLength + payload.length))
      rw [if_pos hcut, List.take_append, List.take_of_length_le (by omega), hlength,
        receiverFormat_packet oversized caught _ hfirst rfl]
      exact ⟨congrArg (payload :: ·) hp, he⟩
    · rw [if_neg hcut, List.take_append_of_le_length (by omega)]
      apply parse_incomplete hfirst (List.take_prefix _ _)
      rw [List.length_take]
      omega

end

namespace ConnectedClient

structure Receiving (d₀ : ConnectedClient) (op : Operation) (ps : List (List Byte))
    (d : ConnectedClient) : Prop extends Waiting d₀ op ps d where
  connectionId : d.connectionId = d₀.connectionId
  signals : d.signals = d₀.signals ++
    ps.map fun p => .receivedMessage d₀.connectionId (SerializedData.ofBlock p)

structure Finished (d₀ : ConnectedClient) (ps : List (List Byte)) (d : ConnectedClient) : Prop
    extends TornDown d₀ ps d where
  signals : d.signals = d₀.signals ++
    (ps.map fun p => .receivedMessage d₀.connectionId (SerializedData.ofBlock p)) ++
      [.disconnected d₀.connectionId]

section
variable {d₀ d : ConnectedClient} {op : Operation} {ps : List (List Byte)}

theorem Receiving.disconnect {result : Completion} (h : Receiving d₀ op ps d) :
    Finished d₀ ps (disconnect (taken 0 op result d)) where
  toTornDown := h.toWaiting.disconnect
  signals := by
    change d.signals ++ [.disconnected d.connectionId] = _
    rw [h.signals, h.connectionId]

variable [Host]

theorem Receiving.cut (h : Receiving d₀ op ps d) (hread : op.isRead = true) :
    Finished d₀ ps (receiveLoop.endOfFile d) := by
  change Finished d₀ ps (ConnectedClient.complete (.error endOfFile) d)
  rw [h.toWaiting.complete rfl]
  cases op with
  | readHeader => exact h.disconnect
  | readBody size => exact h.disconnect
  | write buffer => cases hread

theorem Receiving.body {body : List Byte} (h : Receiving d₀ (.readBody body.length) ps d) :
    Receiving d₀ .readHeader (ps ++ [body]) (receiveLoop.filled d body) := by
  refine ⟨h.toWaiting.body, ?_, ?_⟩
  · change (ConnectedClient.complete (.ok body) d).connectionId = _
    rw [h.toWaiting.complete (by simp [Operation.admits])]
    exact h.connectionId
  · change (ConnectedClient.complete (.ok body) d).signals = _
    rw [h.toWaiting.complete (by simp [Operation.admits]), List.map_append, ← List.append_assoc,
      ← h.signals, ← h.connectionId]
    rfl

def Stopped (d₀ : ConnectedClient) (ps : List (List Byte)) : Ending → ConnectedClient → Prop
  | .faulted, d => d.escaped ≠ none
  | _, d => Finished d₀ ps d

theorem Stopped.wanted {e : Ending} (h : Stopped d₀ ps e d) : receiveLoop.wanted d = none := by
  cases e with
  | faulted => exact if_neg h
  | cut => exact Ended.wanted (e := .cut) h.toTornDown
  | rejected => exact Ended.wanted (e := .rejected) h.toTornDown

theorem receiveLoop_finishes (d₀ : ConnectedClient) : Implements receiveLoop connectedClientFormat
    (Receiving d₀ .readHeader) (fun ps n => Receiving d₀ (.readBody n) ps) (Stopped d₀) := by
  refine implements_receiverFormat (fun h => h.toWaiting.wanted) ?_ ?_
    (fun h => h.cut rfl) (fun h => h.toWaiting.wanted) (fun h _ => h.body) nofun
    (fun h => h.cut rfl) Stopped.wanted
  · intro ps d hdr body h hlen hadm
    rw [h.toWaiting.header hlen, hadm]
    exact ⟨h.toWaiting.start _, h.connectionId, h.signals⟩
  · intro ps d hdr e h hlen hadm
    rw [h.toWaiting.header hlen, hadm]
    dsimp only
    split
    · exact h.disconnect
    · exact Option.some_ne_none _

end

end ConnectedClient

namespace Server

theorem posts_events (w : Watch) (events : List ServerEvent) :
    (w.posts events).events = w.events ++ events := by
  induction events generalizing w with
  | nil => exact (List.append_nil _).symm
  | cons evt events ih =>
    have hnext := ih (w.post evt)
    rw [Watch.posts] at hnext ⊢
    rw [List.foldl_cons, hnext, Watch.post, List.append_assoc]
    rfl

structure Receiving [HandlerCopies] (u : ℕ) (s₀ : DispatchingServer) (op : Operation)
    (ps : List (List Byte)) (s : DispatchingServer) : Prop extends Waiting u s₀ op ps s where
  connectionId : (s.peer u).connectionId = (s₀.peer u).connectionId
  events : eventsOf u s.trace = eventsOf u s₀.trace ++
    ps.map fun p => .msgReceived (s₀.peer u).connectionId ⟨SerializedData.ofBlock p⟩

structure Finished (u : ℕ) (s₀ : DispatchingServer) (ps : List (List Byte)) (s : DispatchingServer) :
    Prop extends TornDown u s₀ ps s where
  events : ∃ errmsg, eventsOf u s.trace = eventsOf u s₀.trace ++
    (ps.map fun p => .msgReceived (s₀.peer u).connectionId ⟨SerializedData.ofBlock p⟩) ++
      [.connectionError (s₀.peer u).connectionId errmsg, .canDelete (s₀.peer u).connectionId]

section
variable [HandlerCopies] [Host] {u : ℕ} {s₀ s : DispatchingServer} {op : Operation}
  {ps : List (List Byte)} {result : Completion}

theorem watch_written {v : ℕ} (hs : Settled s) (hkept : v = u → (s.peer u).destroyed = false →
    (s.peer u).written.destroyed = false) : watch u (written s v).trace = watch u s.trace := by
  obtain ⟨-, hsame⟩ | ⟨i, buffer, hop, hlive, ht, hp⟩ := written_cases hs v
  · rw [hsame]
  · have hpending := List.ne_nil_of_mem (List.mem_of_getElem? hop)
    have hr : reaction (.write buffer) (.ok []) = .rest := rfl
    obtain ⟨hl, -, -⟩ := invoke_local i (.write buffer) (.ok []) hs.wellFormed hlive rfl
    rw [ht, watch_invoke (v := u) hs.wellFormed hlive
      (release_calling_destroyed _ _ _ _ (hs.lives v) hlive hpending (hs.room v))
      (fun hu hd => by rw [hl.other u hu, hd])]
    split
    next hu =>
      subst hu
      have hlive' := hkept rfl hlive
      rw [hp] at hlive'
      rw [hr, hlive', if_neg Bool.false_ne_true]
      rfl
    next => rfl

theorem watch_foldl_written (vs : List ℕ) (hnodup : vs.Nodup) (hs : Settled s)
    (hkept : u ∈ vs → (s.peer u).destroyed = false → (s.peer u).written.destroyed = false) :
    watch u (vs.foldl written s).trace = watch u s.trace := by
  induction vs generalizing s with
  | nil => rfl
  | cons v vs ih =>
    obtain ⟨hv, hrest⟩ := List.nodup_cons.mp hnodup
    have hfirst := watch_written (u := u) (v := v) hs fun hvu => hkept (hvu ▸ List.mem_cons_self)
    have hmiddle : Settled (written s v) ∧ (u ∈ vs → (written s v).peer u = s.peer u) := by
      obtain ⟨hsame, -⟩ | h := written_writes hs v
      · rw [hsame]
        exact ⟨hs, fun _ => rfl⟩
      · exact ⟨h.settled, fun hu => h.alone.other u (ne_of_mem_of_not_mem hu hv)⟩
    rw [List.foldl_cons, ih hrest hmiddle.1, hfirst]
    intro hu
    rw [hmiddle.2 hu]
    exact hkept (List.mem_cons_of_mem _ hu)

theorem eventsOf_sent (hs : Settled s)
    (hkept : (s.peer u).destroyed = false → (s.peer u).written.destroyed = false) :
    eventsOf u (Server.sent s).trace = eventsOf u s.trace :=
  congrArg Watch.events (watch_foldl_written _ List.nodup_range hs fun _ => hkept)

theorem Receiving.eventsOf_complete (result : Completion) (h : Receiving u s₀ op ps s) (hadm : op.admits result = true) :
    eventsOf u (Server.complete u result s).trace =
      eventsOf u s.trace ++ reported (s.peer u) (reaction op result) ++
        if ((s.peer u).handled 0 op result (reaction op result)).destroyed then
          [.canDelete (s₀.peer u).connectionId]
        else [] := by
  have hlive := h.toWaiting.destroyed
  have hpending : (s.peer u).pending ≠ [] := by
    rw [h.pending]
    exact List.cons_ne_nil _ _
  rw [h.toWaiting.complete hadm, eventsOf, watch_invoke h.wellFormed hlive
    (release_calling_destroyed _ _ _ _ (h.lives u) hlive hpending (h.room u).le) (fun hu => absurd rfl hu),
    if_pos rfl]
  dsimp only
  split
  · rw [Watch.delete, Watch.post, posts_events, h.connectionId]
    rfl
  · rw [posts_events, List.append_nil]
    rfl

theorem Receiving.events_fail {errmsg : String} (h : Receiving u s₀ op ps s)
    (hadm : op.admits result = true) (hr : reaction op result = .fail errmsg) :
    eventsOf u (Server.complete u result s).trace = eventsOf u s₀.trace ++
      (ps.map fun p => .msgReceived (s₀.peer u).connectionId ⟨SerializedData.ofBlock p⟩) ++
        [.connectionError (s₀.peer u).connectionId errmsg, .canDelete (s₀.peer u).connectionId] := by
  have hreads := h.toWaiting.handled hadm (by rw [hr]; rfl) (by simp [hr])
  have hgone := (hreads.settled.lives u).pending.mpr (h.toWaiting.fail hadm hr).pending
  rw [hreads.peer] at hgone
  rw [h.eventsOf_complete _ hadm, hgone, if_pos rfl, h.events, hr, reported, h.errorHappened,
    if_neg (by decide), h.connectionId]
  simp

theorem Receiving.fail {errmsg : String} (h : Receiving u s₀ op ps s)
    (hr : reaction op (.error endOfFile) = .fail errmsg) :
    Finished u s₀ ps ((receiveLoop u).endOfFile s) :=
  ⟨h.toWaiting.fail rfl hr, errmsg, h.events_fail rfl hr⟩

theorem Receiving.reject {bytes : List Byte} {errmsg : String} (h : Receiving u s₀ op ps s)
    (hadm : op.admits (.ok bytes) = true) (hr : reaction op (.ok bytes) = .fail errmsg) :
    Finished u s₀ ps ((receiveLoop u).filled s bytes) := by
  have hreads := h.toWaiting.handled hadm (by rw [hr]; rfl) (by simp [hr])
  have hdown := h.toWaiting.fail hadm hr
  refine ⟨h.toWaiting.reject hadm hr, errmsg, ?_⟩
  change eventsOf u (Server.sent (Server.complete u (.ok bytes) s)).trace = _
  rw [eventsOf_sent hreads.settled, h.events_fail hadm hr]
  intro hlive
  rw [(hreads.settled.lives u).pending.mpr hdown.pending] at hlive
  cases hlive

theorem Receiving.start {bytes : List Byte} {next : Operation} (h : Receiving u s₀ op ps s)
    (hadm : op.admits (.ok bytes) = true) (hr : reaction op (.ok bytes) = .start next)
    (hread : next.isRead = true) : Receiving u s₀ next ps ((receiveLoop u).filled s bytes) := by
  obtain ⟨hmiddle, -, hp⟩ := h.toWaiting.handled hadm (by rw [hr]; rfl) (by simp [hr])
  have hevents := h.eventsOf_complete _ hadm
  have hnext := h.toWaiting.start hadm hr hread
  change Receiving u s₀ next ps (Server.sent (Server.complete u (.ok bytes) s))
  rw [← hp] at hevents
  generalize Server.complete u (.ok bytes) s = t at *
  have hpeer := (sent_settled hmiddle).2.2 u
  have hpending : (t.peer u).pending = [next] := by
    rw [hp, handled_pending, hr, h.pending]
    rfl
  have hlive := (hmiddle.lives u).alive hpending
  have hkept : (t.peer u).written = t.peer u :=
    Peer.written_of_reads (by rw [hpending]; simp [hread])
  refine ⟨hnext, ?_, ?_⟩
  · rw [hpeer, hkept, hp, handled_connectionId, h.connectionId]
  · rw [eventsOf_sent hmiddle (fun hd => by rwa [hkept]), hevents, hlive, h.events, hr]
    simp [reported]

theorem Receiving.body {body : List Byte} (h : Receiving u s₀ (.readBody body.length) ps s) :
    Receiving u s₀ .readHeader (ps ++ [body]) ((receiveLoop u).filled s body) := by
  have hr : reaction (.readBody body.length) (.ok body) = .broadcast body := rfl
  obtain ⟨-, hmiddle, hpending, hp⟩ := h.toWaiting.broadcasts
  have hevents := h.eventsOf_complete (.ok body) (by simp [Operation.admits])
  have hnext := h.toWaiting.body
  change Receiving u s₀ .readHeader (ps ++ [body]) (Server.sent (Server.complete u (.ok body) s))
  change Waiting u s₀ .readHeader (ps ++ [body]) (Server.sent (Server.complete u (.ok body) s)) at hnext
  rw [hr, ← hp] at hevents
  generalize Server.complete u (.ok body) s = t at *
  have hpeer := (sent_settled hmiddle).2.2 u
  have hid : (t.peer u).written.connectionId = (t.peer u).connectionId := by
    rw [Peer.written, hpending]
    exact handled_connectionId
  have hlive := (hmiddle.lives u).alive hpending
  refine ⟨hnext, ?_, ?_⟩
  · rw [hpeer, hid, hp, handled_connectionId, h.connectionId]
  · rw [eventsOf_sent hmiddle, hevents, hlive, if_neg Bool.false_ne_true, List.append_nil, h.events,
      reported, h.connectionId, List.append_assoc, List.map_append]
    · rfl
    · intro _
      rw [← hpeer]
      exact hnext.destroyed

def Stopped (u : ℕ) (s₀ : DispatchingServer) (ps : List (List Byte)) :
    Ending → DispatchingServer → Prop
  | .faulted, s => s.status ≠ .running
  | _, s => Finished u s₀ ps s

theorem Stopped.wanted {e : Ending} (h : Stopped u s₀ ps e s) : (receiveLoop u).wanted s = none := by
  cases e with
  | faulted => exact if_neg fun hc => h hc.1
  | cut => exact Torn.wanted (e := .cut) h.toTornDown
  | rejected => exact Torn.wanted (e := .rejected) h.toTornDown

theorem receiveLoop_finishes (u : ℕ) (s₀ : DispatchingServer) :
    Implements (receiveLoop u) peerFormat (Receiving u s₀ .readHeader)
      (fun ps n => Receiving u s₀ (.readBody n) ps) (Stopped u s₀) :=
  implements_peerFormat Receiving.toWaiting Receiving.start Receiving.reject Receiving.fail
    Receiving.body id id id Stopped.wanted

end

end Server

section
variable [HandlerCopies] [Host]

theorem streamFraming (payloads : List (List Byte))
    (hmax : ∀ payload ∈ payloads, payload.length + headerLength ≤ 0x8FFF) (cut : ℕ)
    (arrivals : List (Arrival Byte)) (harrived : arrived arrivals = (stream payloads).take cut) :
    (∀ (d : ConnectedClient) (x : Transport ConnectedClient Byte),
      ConnectedClient.Waiting d .readHeader [] d →
      exec ConnectedClient.receiveLoop.deliver ⟨d, [], false⟩ arrivals = some x → x.closed = true →
        (∃ k y, exec ConnectedClient.receiveLoop.deliver x (List.replicate k .completion) = some y ∧
          ConnectedClient.receiveLoop.wanted y.loop = none) ∧
        (ConnectedClient.receiveLoop.wanted x.loop = none →
          ConnectedClient.Finished d (completeBefore cut payloads) x.loop)) ∧
    (∀ (u : ℕ) (s : DispatchingServer) (x : Transport DispatchingServer Byte),
      Server.Waiting u s .readHeader [] s →
      exec (Server.receiveLoop u).deliver ⟨s, [], false⟩ arrivals = some x → x.closed = true →
        (∃ k y, exec (Server.receiveLoop u).deliver x (List.replicate k .completion) = some y ∧
          (Server.receiveLoop u).wanted y.loop = none) ∧
        ((Server.receiveLoop u).wanted x.loop = none →
          Server.Finished u s (completeBefore cut payloads) x.loop)) := by
  constructor
  · intro d x hd hrun hclosed
    have hstart : ConnectedClient.Receiving d .readHeader [] d := ⟨hd, rfl, (List.append_nil _).symm⟩
    obtain ⟨hends, hdone⟩ := (ConnectedClient.receiveLoop_finishes d).delivered hstart hrun hclosed
    refine ⟨hends, ?_⟩
    intro hnone
    have hstopped := hdone hnone
    obtain ⟨hp, he⟩ := parse_stream (.msgLayerError "Oversized packet.") Exn.isMsgLayerError payloads hmax cut
    rw [harrived, connectedClientFormat, hp, he] at hstopped
    exact hstopped
  · intro u s x hs hrun hclosed
    have hstart : Server.Receiving u s .readHeader [] s := ⟨hs, rfl, (List.append_nil _).symm⟩
    obtain ⟨hends, hdone⟩ := (Server.receiveLoop_finishes u s).delivered hstart hrun hclosed
    refine ⟨hends, ?_⟩
    intro hnone
    have hstopped := hdone hnone
    obtain ⟨hp, he⟩ := parse_stream .invalidHeaderError (fun e => e = .invalidHeaderError) payloads hmax cut
    rw [harrived, peerFormat, hp, he] at hstopped
    exact hstopped

end

def brokenOff : List (Arrival Byte) :=
  [.chunk [0x80, 5], .chunk [0, 0, 0x41, 0x80], .completion, .completion, .chunk [4], .endOfFile,
    .completion]

theorem streamFraming_brokenOff :
    (∃ x, exec (@ConnectedClient.receiveLoop littleEndianHost).deliver
        ⟨ConnectedClient.makeInstance 1, [], false⟩ brokenOff = some x ∧
      ConnectedClient.Finished (ConnectedClient.makeInstance 1) [[0x41]] x.loop) ∧
    ∃ x, exec (@Server.receiveLoop bindCopies littleEndianHost 0).deliver
        ⟨@Server.acceptHandler bindCopies none Server.init, [], false⟩ brokenOff = some x ∧
      Server.Finished 0 (@Server.acceptHandler bindCopies none Server.init) [[0x41]] x.loop := by
  obtain ⟨hclient, hpeer⟩ := @streamFraming bindCopies littleEndianHost [[0x41], []] (by decide) 7
    brokenOff rfl
  exact ⟨⟨_, rfl, (hclient _ _ (makeInstance_waiting 1) rfl rfl).2 rfl⟩,
    ⟨_, rfl, (hpeer 0 _ _ (@accepted_waiting bindCopies) rfl rfl).2 rfl⟩⟩

end NukeMs
