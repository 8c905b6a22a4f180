import NukeMs.ClientSession
import NukeMs.PeerOperations

namespace NukeMs.Server

open SegmentationLayerBase FramedStream

def received : Completion → List Byte
  | .ok bytes => bytes
  | .error _ => []

def Peer.Sees (p : Peer) (up : List Byte) (bodies : List (List Byte)) : Prop :=
  ∀ op ∈ p.pending, ∀ phase, op.phase = some phase → packetLayout.Sees phase up bodies

def Reaction.bodies : Reaction → List (List Byte)
  | .broadcast body => [body]
  | _ => []

section
variable {p : Peer} {up rest : List Byte} {bodies : List (List Byte)} {op : Operation} {i : ℕ}
  {result : Completion}

theorem isRead_of_phase {phase : Phase} (h : op.phase = some phase) : op.isRead = true := by
  cases op with
  | write buffer => cases h
  | _ => rfl

theorem Peer.Sees.of_pending {q : Peer} (hp : p.Sees up bodies)
    (h : ∀ op ∈ q.pending, op.isRead = true → op ∈ p.pending) : q.Sees up bodies :=
  fun op hop phase hphase => hp op (h op hop (isRead_of_phase hphase)) phase hphase

theorem Peer.Sees.arrive (more : List (List Byte)) (hp : p.Sees up bodies)
    (hfits : ∀ body ∈ more, body.length ≤ packetLayout.longest) :
    p.Sees (up ++ packetLayout.stream more) (bodies ++ more) :=
  fun op hop phase hphase => (hp op hop phase hphase).sendAll more hfits

theorem Peer.Sees.next {q : Peer} {next : List Operation} {more : List (List Byte)}
    (hr : p.Reading) (hop : p.pending[i]? = some op) (hread : op.isRead = true)
    (hp : q.pending = p.pending.eraseIdx i ++ next)
    (hnext : ∀ op ∈ next, ∀ phase, op.phase = some phase → packetLayout.Sees phase rest more) :
    q.Sees rest more := by
  have hzero := Outstanding.countP_eraseIdx_single hop hread hr.single
  intro other hother phase hphase
  rw [hp, List.mem_append] at hother
  obtain hold | hnew := hother
  · exact absurd (isRead_of_phase hphase) (List.countP_eq_zero.mp hzero other hold)
  · exact hnext other hnew phase hphase

variable [HandlerCopies] [Host]

omit [HandlerCopies] in
theorem reaction_header {bytes : List Byte} (hlen : bytes.length = headerLength)
    (hsees : packetLayout.Sees .header (bytes ++ rest) bodies) :
    ∃ n, reaction .readHeader (.ok bytes) = .start (.readBody n) ∧
      packetLayout.Sees (.body n) rest bodies := by
  obtain ⟨body, more, -, hheader, hrest⟩ := hsees.takeHeader hlen
  have hbytes : bytes = SegmentationLayer.header (body.length + headerLength) := hheader
  have hlong := hrest.admitted _ rfl
  simp only [packetLayout, headerLength] at hlong
  have hchecked : admitHeader .invalidHeaderError bytes = .ok (List.replicate body.length 0) := by
    rw [hbytes]
    exact admitHeader_header _ (by simp only [headerLength]; omega)
  refine ⟨body.length, ?_, hrest⟩
  simp only [reaction, hchecked, List.length_replicate]

structure Takes (p : Peer) (i : ℕ) (op : Operation) (result : Completion) (rest : List Byte)
    (bodies more : List (List Byte)) : Prop where
  bodies : bodies = (reaction op result).bodies ++ more
  sees : (p.handled i op result (reaction op result)).Sees rest more
  stays : ∀ e, reaction op result ≠ .escape e
  failed : ∀ errmsg, reaction op result = .fail errmsg → ∃ error, result = .error error

theorem handled_takes (hr : p.Reading) (hop : p.pending[i]? = some op) (hadm : op.admits result = true)
    (hp : p.Sees (received result ++ rest) bodies) : ∃ more, Takes p i op result rest bodies more := by
  have hmem := List.mem_of_getElem? hop
  have hpending : (p.handled i op result (reaction op result)).pending =
      p.pending.eraseIdx i ++ started (reaction op result) := handled_pending
  cases result with
  | error error =>
    have hreaction : reaction op (.error error) = .fail error.message := by
      cases op <;> rfl
    rw [hreaction] at hpending
    refine ⟨bodies, by rw [hreaction]; rfl, ?_, by simp [hreaction], fun _ _ => ⟨error, rfl⟩⟩
    rw [hreaction]
    apply hp.of_pending
    intro other hother _
    have hnone : started (.fail error.message) = [] := rfl
    rw [hpending, hnone, List.append_nil] at hother
    exact List.mem_of_mem_eraseIdx hother
  | ok bytes =>
    cases op with
    | write buffer =>
      have hempty : bytes = [] := by simpa [Operation.admits] using hadm
      subst hempty
      have hreaction : reaction (.write buffer) (.ok []) = .rest := rfl
      refine ⟨bodies, rfl, ?_, by simp [hreaction], by simp [hreaction]⟩
      apply hp.of_pending
      intro other hother _
      have hnone : started (reaction (.write buffer) (.ok [])) = [] := rfl
      rw [hpending, hnone, List.append_nil] at hother
      exact List.mem_of_mem_eraseIdx hother
    | readHeader =>
      have hlen : bytes.length = headerLength := by simpa [Operation.admits] using hadm
      obtain ⟨n, hreaction, hrest⟩ := reaction_header hlen (hp _ hmem .header rfl)
      rw [hreaction] at hpending
      refine ⟨bodies, by rw [hreaction]; rfl, ?_, by simp [hreaction], by simp [hreaction]⟩
      rw [hreaction]
      apply Peer.Sees.next hr hop rfl hpending
      intro next hnext phase hphase
      rw [List.mem_singleton.mp hnext] at hphase
      cases hphase
      exact hrest
    | readBody n =>
      have hlen : bytes.length = n := by simpa [Operation.admits] using hadm
      obtain ⟨more, hbodies, hrest⟩ := (hp _ hmem (.body n) rfl).takeBody hlen
      have hreaction : reaction (.readBody n) (.ok bytes) = .broadcast bytes := rfl
      refine ⟨more, hbodies, ?_, by simp [hreaction], by simp [hreaction]⟩
      apply Peer.Sees.next hr hop rfl hpending
      intro next hnext phase hphase
      obtain rfl | hheader := List.mem_cons.mp hnext
      · cases hphase
      · rw [List.mem_singleton.mp hheader] at hphase
        cases hphase
        exact hrest

end

section
variable [HandlerCopies] {u i : ℕ} {op : Operation} {result : Completion} {s t : DispatchingServer}

structure Relayed (u : ℕ) (bodies : List (List Byte)) (s t : DispatchingServer) : Prop where
  created : t.created = s.created
  reads : ∀ v, v ≠ u → ∀ op ∈ (t.peer v).pending, op.isRead = true → op ∈ (s.peer v).pending
  destroyed : ∀ v, (s.peer v).destroyed = true → (t.peer v).destroyed = true
  socketOpen : ∀ v, v ≠ u → (t.peer v).socketOpen = (s.peer v).socketOpen
  handed : handedUp t.trace = handedUp s.trace ++ bodies.map fun body => (u, body)
  written : ∀ v, writesTo v t.trace = writesTo v s.trace ++
    if (s.peer v).destroyed then [] else bodies.map SegmentationLayer.packet

omit [HandlerCopies] in
theorem Relayed.of_local (h : Local u s t) : Relayed u [] s t where
  created := h.created
  reads v hv op hop _ := by
    rw [h.other v hv] at hop
    exact hop
  destroyed v hd := by
    by_cases hv : v = u
    · subst hv
      exact h.destroyed hd
    · rw [h.other v hv]
      exact hd
  socketOpen v hv := by rw [h.other v hv]
  handed := by rw [h.handed, List.map_nil, List.append_nil]
  written v := by rw [h.written, List.map_nil, ite_self, List.append_nil]

omit [HandlerCopies] in
theorem Relayed.alive {bodies : List (List Byte)} (h : Relayed u bodies s t) {v : ℕ}
    (hd : (t.peer v).destroyed = false) : (s.peer v).destroyed = false := by
  rw [← Bool.not_eq_true]
  intro hc
  rw [h.destroyed v hc] at hd
  cases hd

theorem Relayed.of_broadcasts {body : List Byte} (hu : (s.peer u).destroyed = false)
    (h : Broadcasts u body s t) : Relayed u [body] s t where
  created := h.created
  reads v hv op hop hread := by
    rw [h.other v hv] at hop
    split at hop
    · exact hop
    · rw [Peer.queue_pending, List.mem_append, List.mem_singleton] at hop
      obtain hold | rfl := hop
      · exact hold
      · cases hread
  destroyed v hd := by
    by_cases hv : v = u
    · rw [hv, hu] at hd
      cases hd
    · rw [h.other v hv, if_pos hd]
      exact hd
  socketOpen v hv := by
    rw [h.other v hv]
    split <;> rfl
  handed := h.handed
  written := h.written

omit [HandlerCopies] in
theorem Relayed.of_same (u : ℕ) (hc : t.created = s.created) (hp : t.peer = s.peer)
    (hh : handedUp t.trace = handedUp s.trace) (hw : ∀ v, writesTo v t.trace = writesTo v s.trace) :
    Relayed u [] s t where
  created := hc
  reads v _ op hop _ := hp ▸ hop
  destroyed v hd := hp ▸ hd
  socketOpen v _ := by rw [hp]
  handed := by rw [hh, List.map_nil, List.append_nil]
  written v := by rw [hw, List.map_nil, ite_self, List.append_nil]

variable [Host]

theorem handled_relayed (i : ℕ) (op : Operation) (result : Completion) (hs : WellFormed s) (hd : (s.peer u).destroyed = false) :
    let t := invoke op result u (modify u (Peer.taken i op result) s)
    Relayed u (reaction op result).bodies s t ∧
      t.peer u = (s.peer u).handled i op result (reaction op result) := by
  obtain ⟨hp, ⟨body, hr, hb⟩ | ⟨hb, hl, -⟩⟩ := handled_cases i op result hs hd
  · refine ⟨?_, hp⟩
    rw [hr]
    exact Relayed.of_broadcasts hd hb
  · refine ⟨?_, hp⟩
    have hnone : (reaction op result).bodies = [] := by
      cases hreaction : reaction op result with
      | broadcast body =>
        rw [hreaction] at hb
        cases hb
      | _ => rfl
    rw [hnone]
    exact Relayed.of_local hl

end

end NukeMs.Server
