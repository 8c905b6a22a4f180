import NukeMs.PeerOperations
import NukeMs.Runs

namespace NukeMs.Server

open ReferenceCounter SegmentationLayerBase Runs

structure Faithful (s : DispatchingServer) : Prop where
  wellFormed : WellFormed s
  hears : ∀ v, Hears v s
  reading : ∀ v, (s.peer v).Reading
  written : ∀ v, writesTo v s.trace = heardBy v s.trace

theorem init_faithful : Faithful init where
  wellFormed := init_wellFormed
  hears _ := rfl
  reading _ := ⟨by simp [init, Peer.reads], fun n hn => by simp [init] at hn⟩
  written _ := rfl

theorem acceptedPeer_reading [HandlerCopies] (id : ℤ) : ((acceptedPeer id).queue .readHeader).Reading :=
  Peer.Reading.queue_read rfl rfl nofun

theorem Faithful.of_local {u : ℕ} {s t : DispatchingServer} (hs : Faithful s) (h : Local u s t)
    (hu : (s.peer u).destroyed = false) (hr : (t.peer u).Reading) : Faithful t where
  wellFormed := h.wellFormed (hs.wellFormed.owns hu) (hs.wellFormed.lt_created hu) hs.wellFormed
  hears v := h.hears v (hs.hears v)
  reading v := by
    by_cases hv : v = u
    · exact hv ▸ hr
    · rw [h.other v hv]
      exact hs.reading v
  written v := by rw [h.written, h.heard, hs.written]

theorem packet_of_reading {p : Peer} {i n : ℕ} {body : List Byte} (hp : p.Reading)
    (hop : p.pending[i]? = some (.readBody n)) (hlen : body.length = n) :
    SegmentationLayer.packet body = p.headerBuffer ++ body := by
  rw [(hp.header n (List.mem_of_getElem? hop)).1, SegmentationLayer.packet, hlen]

section
variable [HandlerCopies] {s t : DispatchingServer}

theorem Faithful.accept (hs : Faithful s) : Faithful (acceptHandler none s) where
  wellFormed := acceptHandler_wellFormed hs.wellFormed
  hears v := acceptHandler_hears hs.wellFormed (hs.hears v)
  reading v := by
    rw [acceptHandler_peer hs.wellFormed]
    split
    · exact acceptedPeer_reading _
    · split
      · exact (hs.reading v).of_pending rfl rfl
      · exact hs.reading v
  written v := by rw [acceptHandler_written, acceptHandler_heard, hs.written]

theorem Faithful.broadcast {u i n : ℕ} {body : List Byte} (hs : Faithful s)
    (hop : (s.peer u).pending[i]? = some (.readBody n)) (hlen : body.length = n)
    (h : Broadcasts u body s t) (hr : (t.peer u).Reading) : Faithful t where
  wellFormed := h.wellFormed
  hears v := h.hears v (hs.hears v)
  reading v := by
    by_cases hv : v = u
    · exact hv ▸ hr
    · rw [h.other v hv]
      split
      · exact hs.reading v
      · exact (hs.reading v).queue_write
  written v := by
    rw [h.written, h.heard v (hs.hears v), hs.written, packet_of_reading (hs.reading u) hop hlen]

end

section
variable [HandlerCopies] [Host] {s t : DispatchingServer} {input : Input}

theorem step_faithful (hs : Faithful s) (h : step s input = some t) : Faithful t := by
  obtain ⟨hrun, hstep⟩ := step_stepped h
  cases hstep with
  | refused error => exact ⟨⟨hs.1.1, hs.1.2, hs.1.3⟩, hs.2, hs.3, hs.4⟩
  | accepted => exact hs.accept
  | gone u i result hd =>
    have hhandler : ∀ v, listener v (s.trace ++ [.handler u]) = listener v s.trace :=
      fun v => listener_silent rfl
    have hnone : ∀ v, writesTo v [.handler u] = [] := fun _ => rfl
    refine ⟨⟨hs.1.1, hs.1.2, hs.1.3⟩, ?_, hs.3, ?_⟩
    · intro v
      rw [Hears, log_trace, hhandler]
      exact hs.hears v
    · intro v
      rw [log_trace, writesTo_append, heardBy, hhandler, hnone, List.append_nil]
      exact hs.written v
  | handled u i op result hd hop hfills =>
    have hread := handled_reading (hs.reading u) hop hfills
    obtain ⟨hp, ⟨body, hr, hb⟩ | ⟨-, hl, -⟩⟩ := handled_cases i op result hs.wellFormed hd
    · obtain ⟨n, rfl, rfl⟩ := reaction_broadcast hr
      exact hs.broadcast hop (by simpa [Operation.admits] using hfills) hb (hp ▸ hread)
    · exact hs.of_local hl hd (hp ▸ hread)

theorem written_eq_heard (inputs : List Input) (h : exec step init inputs = some t) (p : ℕ) :
    writesTo p t.trace = heardBy p t.trace :=
  (exec_invariant (fun _ _ _ hs h => step_faithful hs h) init_faithful h).written p

end

def relay : List Input :=
  [.accepted none, .accepted none, .completed 0 0 (.ok [0x80, 5, 0, 0]), .completed 0 0 (.ok [0x41])]

theorem written_eq_heard_relay : ∃ t, exec (@step bindCopies littleEndianHost) init relay = some t ∧
    writesTo 1 t.trace = heardBy 1 t.trace ∧ heardBy 1 t.trace = [[0x80, 5, 0, 0, 0x41]] :=
  ⟨_, rfl, @written_eq_heard bindCopies littleEndianHost _ relay rfl 1, rfl⟩

end NukeMs.Server
