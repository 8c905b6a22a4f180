import NukeMs.ServerFrames

namespace NukeMs.Server

open ReferenceCounter SegmentationLayerBase

namespace Peer

def retain (n : ℕ) (p : Peer) : Peer :=
  { p with referenceCount := p.referenceCount + BitVec.ofNat 32 n }

def release (n : ℕ) (p : Peer) : Peer :=
  let count := p.referenceCount - BitVec.ofNat 32 n
  { p with
    referenceCount := count
    destroyed := p.destroyed || decide (ComesToOne count 1 n) }

def queue [HandlerCopies] (op : Operation) (p : Peer) : Peer :=
  { p with
    referenceCount := increase p.referenceCount
    pending := p.pending ++ [op]
    destroyed := p.destroyed || decide (ComesToOne p.referenceCount 2 (HandlerCopies.starting + 1)) }

def fail (p : Peer) : Peer :=
  if p.errorHappened then p else { p with errorHappened := true, socketOpen := false }

end Peer

section
variable {p : Peer} {n : ℕ}

theorem retain_succ : (p.retain n).retain 1 = p.retain (n + 1) := by
  rw [Peer.retain, Peer.retain, Peer.retain, BitVec.add_assoc, ← BitVec.ofNat_add]

theorem release_zero : p.release 0 = p := by
  have hnone : ¬ ComesToOne p.referenceCount 1 0 := comesToOne_empty Nat.one_pos
  simp [Peer.release, hnone]

theorem release_one : p.release 1 = { p with
    referenceCount := decrease p.referenceCount
    destroyed := p.destroyed || p.referenceCount == 1 } := by
  have hone : ComesToOne (p.referenceCount - 1) 1 1 ↔ p.referenceCount = 1 := by
    constructor
    · rintro ⟨n, hlow, hhigh, hn⟩
      obtain rfl : n = 1 := by omega
      rwa [show BitVec.ofNat 32 1 = 1 from rfl, BitVec.sub_add_cancel] at hn
    · intro hc
      exact ⟨1, le_rfl, le_rfl, by rw [hc]; rfl⟩
  simp only [Peer.release, decrease]
  congr 2
  rw [Bool.eq_iff_iff, decide_eq_true_iff, beq_iff_eq]
  exact hone

theorem release_succ : (p.release n).release 1 = p.release (n + 1) := by
  have hbase : p.referenceCount - BitVec.ofNat 32 n - BitVec.ofNat 32 1 =
      p.referenceCount - BitVec.ofNat 32 (n + 1) := by
    bv_omega
  have hback : p.referenceCount - BitVec.ofNat 32 n =
      p.referenceCount - BitVec.ofNat 32 (n + 1) + BitVec.ofNat 32 1 := by
    rw [← hbase, BitVec.sub_add_cancel]
  have hjoin : ComesToOne (p.referenceCount - BitVec.ofNat 32 (n + 1)) 1 1 ∨
      ComesToOne (p.referenceCount - BitVec.ofNat 32 n) 1 n ↔
        ComesToOne (p.referenceCount - BitVec.ofNat 32 (n + 1)) 1 (n + 1) := by
    rw [hback, comesToOne_add]
    exact comesToOne_or (by omega) le_rfl (by omega)
  simp only [Peer.release, hbase]
  congr 1
  rw [Bool.or_assoc, ← Bool.decide_or, decide_eq_decide.mpr (or_comm.trans hjoin)]

end

section
variable {u : ℕ} {s t : DispatchingServer}

theorem increases_peer (n : ℕ) : ((increaseRefCount u)^[n] s).peer u = (s.peer u).retain n := by
  induction n with
  | zero => simp [Peer.retain]
  | succ n ih =>
    rw [Function.iterate_succ_apply', ← retain_succ, ← ih]
    simp [increaseRefCount, Peer.retain, increase]

theorem decreaseRefCount_peer (ho : Owns u s) :
    (decreaseRefCount u s).peer u = (s.peer u).release 1 := by
  rw [release_one]
  by_cases h1 : (s.peer u).referenceCount = 1
  · have h0 : decrease (s.peer u).referenceCount = 0 := decrease_eq_zero_iff.mpr h1
    cases hd : (s.peer u).destroyed with
    | false => rw [decreaseRefCount_erased h1 ho hd, h0, h1]; simp
    | true => rw [decreaseRefCount_gone h1 ho hd, h0]; simp [hd]
  · have hne : ((s.peer u).referenceCount == 1) = false := beq_eq_false_iff_ne.mpr h1
    rw [decreaseRefCount_of_ne h1, hne]
    simp

theorem decreases_peer (ho : Owns u s) (n : ℕ) :
    ((decreaseRefCount u)^[n] s).peer u = (s.peer u).release n := by
  induction n with
  | zero => exact release_zero.symm
  | succ n ih =>
    rw [Function.iterate_succ_apply', decreaseRefCount_peer ((Local.decreases n ho).owns ho), ih,
      release_succ]

theorem queued_peer (n : ℕ) (op : Operation) :
    (modify u (fun p => { p with pending := p.pending ++ [op] })
      ((increaseRefCount u)^[n] s)).peer u =
      { (s.peer u).retain n with pending := (s.peer u).pending ++ [op] } := by
  rw [modify_peer, if_pos rfl, increases_peer]
  rfl

variable [HandlerCopies]

theorem startOperation_peer (op : Operation) (ho : Owns u s) :
    (startOperation u op s).peer u = (s.peer u).queue op := by
  have hcount : (s.peer u).referenceCount + BitVec.ofNat 32 (HandlerCopies.starting + 1) -
      BitVec.ofNat 32 HandlerCopies.starting = (s.peer u).referenceCount + BitVec.ofNat 32 1 := by
    bv_omega
  rw [startOperation, decreases_peer ((Local.queued _ op ho).owns ho), queued_peer]
  simp only [Peer.release, Peer.retain, Peer.queue, hcount, comesToOne_add]
  rfl

theorem queue_destroyed_or {p : Peer} {op : Operation} : (p.queue op).destroyed = true ↔
    p.destroyed = true ∨ ComesToOne p.referenceCount 2 (HandlerCopies.starting + 1) := by
  simp [Peer.queue]

theorem queue_destroyed {p : Peer} {op : Operation} (hd : p.destroyed = false) :
    (p.queue op).destroyed = true ↔ ComesToOne p.referenceCount 2 (HandlerCopies.starting + 1) := by
  rw [queue_destroyed_or, hd]
  exact or_iff_right Bool.false_ne_true

variable [Host]

theorem postError_eq (errmsg : String) (ho : Owns u s) (hd : (s.peer u).destroyed = false) :
    postError errmsg u s = if (s.peer u).errorHappened then s
      else log [.posted u (.connectionError (s.peer u).connectionId errmsg)]
        (modify u Peer.fail s) := by
  have hentry : s.peersList[(s.peer u).connectionId]? = some u := by
    rw [ho, hd, if_neg (by decide)]
  unfold postError
  split
  · rfl
  next herr =>
    simp only [handleServerEvent, ServerEvent.connectionId, log_peersList, hentry,
      shutdownConnection, modify_log]
    simp [modify, Peer.fail, herr]

theorem Local.postError (errmsg : String) (ho : Owns u s) (hd : (s.peer u).destroyed = false) :
    Local u s (postError errmsg u s) := by
  rw [postError_eq errmsg ho hd]
  split
  · exact Local.refl ho
  next herr =>
    have h := Local.modify Peer.fail (by simp [Peer.fail, herr]) (by simp [Peer.fail, herr]) ho
    exact h.trans (Local.log _ rfl (h.owns ho))

theorem postError_status (errmsg : String) (ho : Owns u s) (hd : (s.peer u).destroyed = false) :
    (postError errmsg u s).status = s.status := by
  rw [postError_eq errmsg ho hd]
  split <;> rfl

theorem postError_peer (errmsg : String) (ho : Owns u s) (hd : (s.peer u).destroyed = false) :
    (postError errmsg u s).peer u = (s.peer u).fail := by
  rw [postError_eq errmsg ho hd]
  split
  next herr => rw [Peer.fail, if_pos herr]
  next => simp

end

structure Sends [HandlerCopies] (ids : List ℤ) (packet : List Byte) (s t : DispatchingServer) : Prop where
  peer : ∀ v, t.peer v = if (s.peer v).destroyed = false ∧ (s.peer v).connectionId ∈ ids then
    (s.peer v).queue (.write packet) else s.peer v
  wellFormed : WellFormed t
  owns : ∀ v, Owns v s → Owns v t
  created : t.created = s.created
  currentConnId : t.currentConnId = s.currentConnId
  accepting : t.accepting = s.accepting
  traced : s.trace <+: t.trace
  written : ∀ v, writesTo v t.trace = writesTo v s.trace ++
    if (s.peer v).destroyed = false ∧ (s.peer v).connectionId ∈ ids then [packet] else []
  heard : ∀ v, heardBy v t.trace = heardBy v s.trace
  handed : handedUp t.trace = handedUp s.trace
  hears : ∀ v, Hears v s → Hears v t
  marked : ∀ v, (s.peer v).destroyed = false → (t.peer v).destroyed = true → ErasedThenTouched t.trace
  kept : (∀ v, (s.peer v).destroyed = false → (t.peer v).destroyed = false) →
    ∀ v, Item.erased v ∈ t.trace → Item.erased v ∈ s.trace
  undisturbed : (∀ v, (s.peer v).destroyed = false → (t.peer v).destroyed = false) →
    (iteration t.trace).erased = (iteration s.trace).erased

namespace Sends

variable [HandlerCopies] {packet : List Byte} {ids : List ℤ} {id : ℤ} {s t r : DispatchingServer}

theorem nil (packet : List Byte) (hs : WellFormed s) : Sends [] packet s s where
  peer v := by simp
  wellFormed := hs
  owns _ h := h
  created := rfl
  currentConnId := rfl
  accepting := rfl
  traced := List.prefix_rfl
  written v := by simp
  heard _ := rfl
  handed := rfl
  hears _ h := h
  marked _ hs ht := by rw [hs] at ht; cases ht
  kept _ _ h := h
  undisturbed _ := rfl

theorem alive (h : Sends ids packet s t) {v : ℕ} (ht : (t.peer v).destroyed = false) :
    (s.peer v).destroyed = false := by
  rw [← Bool.not_eq_true]
  intro hs
  rw [h.peer, if_neg (by simp [hs]), hs] at ht
  cases ht

theorem cons (h : Sends [id] packet s t) (k : Sends ids packet t r) (hid : id ∉ ids) :
    Sends (id :: ids) packet s r := by
  have hself : ∀ v, (s.peer v).destroyed = false → (s.peer v).connectionId = id →
      t.peer v = (s.peer v).queue (.write packet) := by
    intro v hd hv
    rw [h.peer, if_pos ⟨hd, by simp [hv]⟩]
  have hother : ∀ v, ¬ ((s.peer v).destroyed = false ∧ (s.peer v).connectionId = id) →
      t.peer v = s.peer v := by
    intro v hv
    rw [h.peer, if_neg (by simpa using hv)]
  have hfirst : (∀ v, (s.peer v).destroyed = false → (r.peer v).destroyed = false) →
      ∀ v, (s.peer v).destroyed = false → (t.peer v).destroyed = false :=
    fun hlive v hv => k.alive (hlive v hv)
  have hsecond : (∀ v, (s.peer v).destroyed = false → (r.peer v).destroyed = false) →
      ∀ v, (t.peer v).destroyed = false → (r.peer v).destroyed = false :=
    fun hlive v hv => hlive v (h.alive hv)
  have hlater : ∀ v, ¬ ((s.peer v).destroyed = false ∧ (s.peer v).connectionId = id) →
      ((s.peer v).destroyed = false ∧ (s.peer v).connectionId ∈ id :: ids ↔
        (s.peer v).destroyed = false ∧ (s.peer v).connectionId ∈ ids) := by
    intro v hv
    apply and_congr_right
    intro hd
    have hne : (s.peer v).connectionId ≠ id := fun hc => hv ⟨hd, hc⟩
    simp [hne]
  refine ⟨?_, k.wellFormed, fun v hv => k.owns v (h.owns v hv), k.created.trans h.created,
    k.currentConnId.trans h.currentConnId, k.accepting.trans h.accepting,
    h.traced.trans k.traced, ?_, fun v => (k.heard v).trans (h.heard v), k.handed.trans h.handed,
    fun v hv => k.hears v (h.hears v hv),
    ?_,
    fun hlive v hv => h.kept (hfirst hlive) v (k.kept (hsecond hlive) v hv),
    fun hlive => (k.undisturbed (hsecond hlive)).trans (h.undisturbed (hfirst hlive))⟩
  · intro v
    rw [k.peer]
    by_cases hv : (s.peer v).destroyed = false ∧ (s.peer v).connectionId = id
    · have hdone : (s.peer v).connectionId ∉ ids := hv.2 ▸ hid
      rw [hself v hv.1 hv.2, if_neg (fun hc => hdone hc.2), if_pos ⟨hv.1, by simp [hv.2]⟩]
    · rw [hother v hv]
      simp only [hlater v hv]
  · intro v
    rw [k.written, h.written, List.append_assoc]
    congr 1
    by_cases hv : (s.peer v).destroyed = false ∧ (s.peer v).connectionId = id
    · have hdone : (s.peer v).connectionId ∉ ids := hv.2 ▸ hid
      rw [hself v hv.1 hv.2, if_pos ⟨hv.1, by simp [hv.2]⟩, if_neg (fun hc => hdone hc.2),
        List.append_nil, if_pos ⟨hv.1, by simp [hv.2]⟩]
    · rw [hother v hv, if_neg (by simpa using hv), List.nil_append]
      simp only [hlater v hv]
  · intro v hs hr
    cases ht : (t.peer v).destroyed with
    | false => exact k.marked v ht hr
    | true =>
      obtain ⟨items, hitems⟩ := k.traced
      exact hitems ▸ (h.marked v hs ht).append items

theorem single {u : ℕ} (hs : WellFormed s) (hu : s.peersList[id]? = some u)
    (h : Local u (log [.asyncWrite u packet] s) t)
    (hp : t.peer u = (s.peer u).queue (.write packet)) : Sends [id] packet s t := by
  obtain ⟨hid, hd⟩ := hs.listed id u hu
  have hmine : ∀ v, ((s.peer v).destroyed = false ∧ (s.peer v).connectionId ∈ [id]) ↔ v = u := by
    intro v
    constructor
    · rintro ⟨hv, hc⟩
      have hentry := hs.alive v hv
      rw [List.mem_singleton.mp hc, hu] at hentry
      exact (Option.some.inj hentry).symm
    · rintro rfl
      exact ⟨hd, by simp [hid]⟩
  have hlogged : WellFormed (log [.asyncWrite u packet] s) := ⟨hs.listed, hs.alive, hs.fresh⟩
  have howns := hs.owns hd
  refine ⟨?_, h.wellFormed howns (hs.lt_created hd) hlogged, ?_, h.created,
    h.currentConnId, h.accepting, (List.prefix_append _ _).trans h.traced, ?_,
    ?_, ?_, fun v hv => h.hears v ?_, ?_, ?_, ?_⟩
  · intro v
    by_cases hv : v = u
    · subst hv
      rw [if_pos ((hmine v).mpr rfl), hp]
    · rw [if_neg (fun hc => hv ((hmine v).mp hc)), h.other v hv, log_peer]
  · intro v hv
    by_cases hvu : v = u
    · exact hvu ▸ h.owns howns
    · exact h.owns_other howns hvu hv
  · intro v
    rw [h.written, log_trace, writesTo_append]
    congr 1
    by_cases hv : v = u
    · subst hv
      rw [if_pos ((hmine v).mpr rfl)]
      simp [writesTo]
    · rw [if_neg (fun hc => hv ((hmine v).mp hc))]
      simp [writesTo, Ne.symm hv]
  · intro v
    rw [h.heard, log_trace, heardBy, listener_append]
    rfl
  · rw [h.handed, log_trace, handedUp_append]
    exact List.append_nil _
  · rw [Hears, log_trace, listener_append]
    exact hv
  · intro v hv ht
    by_cases hvu : v = u
    · subst hvu
      exact h.marked hv ht
    · rw [h.other v hvu, log_peer, hv] at ht
      cases ht
  · intro hlive v hv
    have hmem := h.kept (hlive u hd) v hv
    rw [log_trace, List.mem_append] at hmem
    exact hmem.resolve_right (by simp)
  · intro hlive
    rw [h.iterated (.inr (by rw [hlive u hd, log_peer, hd])), log_trace, iteration_append]
    rfl

end Sends

section
variable [Host]

theorem serializedBuffer_segmentation (body : List Byte) :
    serializedBuffer (SegmentationLayer.mk (SerializedData.ofBlock body)) =
      SegmentationLayer.packet body := by
  have h := (SerializedData.ofBlock body).serializes
  rw [SerializedData.bytes_ofBlock] at h
  exact (SegmentationLayer.serializes h).buffer_eq

variable [HandlerCopies] {s t : DispatchingServer}

theorem sendToEntry_sends (body : List Byte) (hs : WellFormed s) (id : ℤ) :
    Sends [id] (SegmentationLayer.packet body) s
      (sendToEntry ⟨SerializedData.ofBlock body⟩ s id) := by
  unfold sendToEntry
  split
  next hnone =>
    have hmiss : ∀ v, ¬ ((s.peer v).destroyed = false ∧ (s.peer v).connectionId ∈ [id]) := by
      rintro v ⟨hd, hv⟩
      have hentry := hs.alive v hd
      rw [List.mem_singleton.mp hv, hnone] at hentry
      cases hentry
    have h := Sends.nil (SegmentationLayer.packet body) hs
    exact { h with
      peer := fun v => by rw [if_neg (hmiss v)]
      written := fun v => by rw [if_neg (hmiss v), List.append_nil]
      undisturbed := fun _ => rfl }
  next v hv =>
    have ho : Owns v (log [.asyncWrite v (SegmentationLayer.packet body)] s) :=
      hs.owns (hs.listed id v hv).2
    unfold sendMessage
    rw [serializedBuffer_segmentation]
    exact Sends.single hs hv (Local.startOperation _ ho) (startOperation_peer _ ho)

theorem foldl_sendToEntry (body : List Byte) (ids : List ℤ) (hs : WellFormed s)
    (hnodup : ids.Nodup) : Sends ids (SegmentationLayer.packet body) s
      (ids.foldl (sendToEntry ⟨SerializedData.ofBlock body⟩) s) := by
  induction ids generalizing s with
  | nil => exact Sends.nil _ hs
  | cons id ids ih =>
    obtain ⟨hid, hrest⟩ := List.nodup_cons.mp hnodup
    have h := sendToEntry_sends body hs id
    exact h.cons (ih h.wellFormed hrest) hid

theorem distributeMessage_sends (body : List Byte) (hs : WellFormed s) :
    Sends s.peersList.keys (SegmentationLayer.packet body) s
      (distributeMessage ⟨SerializedData.ofBlock body⟩ s) := by
  have hbegin : WellFormed (log [.distributeBegin] s) := ⟨hs.listed, hs.alive, hs.fresh⟩
  have h := foldl_sendToEntry body s.peersList.keys hbegin Std.TreeMap.nodup_keys
  unfold distributeMessage
  dsimp only
  generalize s.peersList.keys.foldl _ _ = t at h ⊢
  exact {
    peer := h.peer
    wellFormed := ⟨h.wellFormed.listed, h.wellFormed.alive, h.wellFormed.fresh⟩
    owns := h.owns
    created := h.created
    currentConnId := h.currentConnId
    accepting := h.accepting
    traced := (List.prefix_append _ _).trans (h.traced.trans (List.prefix_append _ _))
    written := fun v => by
      rw [log_trace, writesTo_append, h.written, log_trace, writesTo_append]
      simp [writesTo]
    heard := fun v => by
      have hend : heardBy v (t.trace ++ [.distributeEnd]) = heardBy v t.trace := by
        rw [heardBy, listener_append]
        rfl
      rw [log_trace, hend, h.heard, log_trace, heardBy, listener_append]
      rfl
    handed := by
      rw [log_trace, handedUp_append, h.handed, log_trace, handedUp_append]
      simp [handedUp]
    hears := fun v hv => by
      unfold Hears at *
      rw [log_trace, listener_append]
      apply h.hears v
      rw [Hears, log_trace, listener_append]
      exact hv
    marked := fun v hs ht => (h.marked v hs ht).append _
    kept := fun hlive v hv => by
      replace hv := List.mem_append.mp hv
      have hv := h.kept hlive v (hv.resolve_right (by simp))
      rw [log_trace, List.mem_append] at hv
      exact hv.resolve_right (by simp)
    undisturbed := fun hq => by
      have hu := h.undisturbed hq
      rw [log_trace, iteration_append] at hu
      rw [log_trace, iteration_append]
      exact hu }

theorem distributeMessage_kept (body : List Byte) (hs : WellFormed s) :
    let t := distributeMessage ⟨SerializedData.ofBlock body⟩ s
    s.peersList.keys.all (fun id => t.peersList.contains id) = true ↔
      ∀ v, (s.peer v).destroyed = false → (t.peer v).destroyed = false := by
  have h := distributeMessage_sends body hs
  dsimp only
  generalize distributeMessage ⟨SerializedData.ofBlock body⟩ s = t at h
  have hid : ∀ v, (t.peer v).connectionId = (s.peer v).connectionId := by
    intro v
    rw [h.peer]
    split <;> rfl
  rw [List.all_eq_true]
  constructor
  · intro hall v hv
    have hentry := hall _ (hs.mem_keys hv)
    rw [Std.TreeMap.contains_eq_isSome_getElem?, Option.isSome_iff_exists] at hentry
    obtain ⟨w, hw⟩ := hentry
    obtain ⟨hconn, hd⟩ := h.wellFormed.listed _ w hw
    have hlist := hs.alive w (h.alive hd)
    rw [← hid, hconn, hs.alive v hv] at hlist
    exact Option.some_inj.mp hlist ▸ hd
  · intro hall id hmem
    rw [Std.TreeMap.mem_keys, Std.TreeMap.mem_iff_isSome_getElem?, Option.isSome_iff_exists] at hmem
    obtain ⟨v, hv⟩ := hmem
    obtain ⟨hconn, hd⟩ := hs.listed id v hv
    have hentry := h.wellFormed.alive v (hall v hd)
    rw [hid, hconn] at hentry
    rw [Std.TreeMap.contains_eq_isSome_getElem?, hentry]
    rfl

theorem foldl_sendToEntry_status (msg : SegmentationLayer SerializedData) (ids : List ℤ) :
    (ids.foldl (sendToEntry msg) s).status = s.status := by
  induction ids generalizing s with
  | nil => rfl
  | cons id ids ih =>
    rw [List.foldl_cons, ih, sendToEntry]
    split
    · rfl
    · exact startOperation_status _

theorem distributeMessage_status (body : List Byte) (hs : WellFormed s) :
    let t := distributeMessage ⟨SerializedData.ofBlock body⟩ s
    ((∀ v, (s.peer v).destroyed = false → (t.peer v).destroyed = false) → t.status = s.status) ∧
      ((∃ v, (s.peer v).destroyed = false ∧ (t.peer v).destroyed = true) → t.status = .undefined) := by
  have hkept := distributeMessage_kept body hs
  have hstatus : (distributeMessage ⟨SerializedData.ofBlock body⟩ s).status =
      if s.peersList.keys.all (fun id =>
        (distributeMessage ⟨SerializedData.ofBlock body⟩ s).peersList.contains id) then s.status
      else .undefined := by
    simp only [distributeMessage, log_status, foldl_sendToEntry_status]
  dsimp only at hkept ⊢
  constructor
  · intro hall
    rw [hstatus, if_pos (hkept.mpr hall)]
  · rintro ⟨v, hv, hgone⟩
    rw [hstatus, if_neg]
    intro hc
    rw [hkept.mp hc v hv] at hgone
    cases hgone

theorem distributeMessage_running (msg : SegmentationLayer SerializedData) :
    (iteration (distributeMessage msg s).trace).running = false := by
  rw [distributeMessage, log_trace, iteration_append]
  rfl

theorem distributeMessage_peer (body : List Byte) (hs : WellFormed s) (v : ℕ) :
    (distributeMessage ⟨SerializedData.ofBlock body⟩ s).peer v =
      if (s.peer v).destroyed then s.peer v
      else (s.peer v).queue (.write (SegmentationLayer.packet body)) := by
  rw [(distributeMessage_sends body hs).peer]
  cases hd : (s.peer v).destroyed with
  | true => simp
  | false => simp [hs.mem_keys hd]

theorem distributeMessage_written (body : List Byte) (hs : WellFormed s) (v : ℕ) :
    writesTo v (distributeMessage ⟨SerializedData.ofBlock body⟩ s).trace = writesTo v s.trace ++
      if (s.peer v).destroyed then [] else [SegmentationLayer.packet body] := by
  rw [(distributeMessage_sends body hs).written]
  cases hd : (s.peer v).destroyed with
  | true => simp
  | false => simp [hs.mem_keys hd]

end

end NukeMs.Server
