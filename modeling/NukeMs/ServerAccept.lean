import NukeMs.ServerBroadcast

namespace NukeMs.Server

open ReferenceCounter SegmentationLayerBase

def increasing (u n : ℕ) : List Item := (List.replicate n [.lock u, .increment u, .unlock u]).flatten

def decreasing (u : ℕ) : Unsigned → ℕ → List Item
  | _, 0 => []
  | count, n + 1 =>
    [.lock u, .decrement u count, .readCount u, .unlock u] ++ decreasing u (decrease count) n

section
variable {u n : ℕ} {s : DispatchingServer}

theorem modify_modify (f g : Peer → Peer) : modify u f (modify u g s) = modify u (f ∘ g) s := by
  simp [modify]

theorem increases_eq (n : ℕ) :
    (increaseRefCount u)^[n] s = log (increasing u n) (modify u (Peer.retain n) s) := by
  induction n generalizing s with
  | zero => simp [increasing, modify, Peer.retain]
  | succ n ih =>
    have hretain : Peer.retain n ∘ (fun p : Peer => { p with referenceCount := increase p.referenceCount }) =
        Peer.retain (n + 1) := by
      funext p
      simp only [Function.comp_apply, Peer.retain, increase]
      congr 1
      bv_omega
    rw [Function.iterate_succ_apply, ih, increaseRefCount, modify_log, modify_modify, hretain, log_log]
    rfl

theorem decreases_eq (h : ¬ ComesToOne ((s.peer u).referenceCount - BitVec.ofNat 32 n) 1 n) :
    (decreaseRefCount u)^[n] s = log (decreasing u (s.peer u).referenceCount n)
      (modify u (fun p => { p with referenceCount := p.referenceCount - BitVec.ofNat 32 n }) s) := by
  induction n generalizing s with
  | zero => simp [decreasing, modify]
  | succ n ih =>
    have hne : (s.peer u).referenceCount ≠ 1 := by
      intro hone
      refine h ⟨n + 1, by omega, le_rfl, ?_⟩
      rw [BitVec.sub_add_cancel, hone]
    have hbase : ∀ count : Unsigned, decrease count - BitVec.ofNat 32 n =
        count - BitVec.ofNat 32 (n + 1) := by
      intro count
      rw [decrease]
      bv_omega
    have hless : (fun p : Peer => { p with referenceCount := p.referenceCount - BitVec.ofNat 32 n }) ∘
        (fun p : Peer => { p with referenceCount := decrease p.referenceCount }) =
          fun p : Peer => { p with referenceCount := p.referenceCount - BitVec.ofNat 32 (n + 1) } := by
      funext p
      simp only [Function.comp_apply, hbase]
    rw [Function.iterate_succ_apply, decreaseRefCount_of_ne hne, ih]
    · rw [modify_log, modify_modify, hless, log_log]
      simp [decreasing]
    · simp only [log_peer, modify_peer, if_true, hbase]
      exact fun hc => h (hc.mono le_rfl (Nat.le_succ n))

theorem mem_increasing {item : Item} (h : item ∈ increasing u n) :
    item = .lock u ∨ item = .increment u ∨ item = .unlock u := by
  rw [increasing, List.mem_flatten] at h
  obtain ⟨items, hitems, hmem⟩ := h
  rw [List.eq_of_mem_replicate hitems] at hmem
  simpa using hmem

theorem mem_decreasing {item : Item} {count : Unsigned} (h : item ∈ decreasing u count n) :
    item = .lock u ∨ item = .readCount u ∨ item = .unlock u ∨
      ∃ k, k < n ∧ item = .decrement u (count - BitVec.ofNat 32 k) := by
  induction n generalizing count with
  | zero => cases h
  | succ n ih =>
    rw [decreasing, List.mem_append] at h
    obtain h | h := h
    · simp only [List.mem_cons, List.not_mem_nil, or_false] at h
      rcases h with rfl | rfl | rfl | rfl
      · simp
      · exact .inr (.inr (.inr ⟨0, Nat.succ_pos n, by simp⟩))
      · simp
      · simp
    · obtain rfl | rfl | rfl | ⟨k, hk, rfl⟩ := ih h
      · simp
      · simp
      · simp
      · refine .inr (.inr (.inr ⟨k + 1, Nat.succ_lt_succ hk, ?_⟩))
        rw [decrease]
        congr 1
        bv_omega

end

variable [HandlerCopies] {u : ℕ} {s t : DispatchingServer}

def startingItems (u : ℕ) (count : Unsigned) : List Item :=
  increasing u (HandlerCopies.starting + 1) ++
    decreasing u (count + BitVec.ofNat 32 (HandlerCopies.starting + 1)) HandlerCopies.starting

theorem startOperation_eq {op : Operation}
    (h : ¬ ComesToOne (s.peer u).referenceCount 2 (HandlerCopies.starting + 1)) :
    startOperation u op s =
      log (startingItems u (s.peer u).referenceCount) (modify u (Peer.queue op) s) := by
  have hcount : ∀ count : Unsigned, count + BitVec.ofNat 32 (HandlerCopies.starting + 1) -
      BitVec.ofNat 32 HandlerCopies.starting = count + BitVec.ofNat 32 1 := by
    intro count
    bv_omega
  rw [startOperation, increases_eq, modify_log, modify_modify, decreases_eq]
  · simp [modify, log, Peer.retain, Peer.queue, startingItems, hcount, h, increase]
  · simp only [log_peer, modify_peer, if_true, Function.comp_apply, Peer.retain, hcount, comesToOne_add]
    exact h

theorem startingItems_silent (count : Unsigned) : (startingItems u count).all Item.silent = true := by
  rw [List.all_eq_true]
  intro item hitem
  obtain h | h := List.mem_append.mp hitem
  · obtain rfl | rfl | rfl := mem_increasing h <;> rfl
  · obtain rfl | rfl | rfl | ⟨k, -, rfl⟩ := mem_decreasing h <;> rfl

def acceptedPeer (id : ℤ) : Peer := ⟨id, List.replicate headerLength 0, false, 0, true, [], false⟩

theorem accepting_few : ¬ ComesToOne 0 2 (HandlerCopies.starting + 1) := by
  have hfew := HandlerCopies.few
  have hzero : (0 : Unsigned).toNat = 0 := rfl
  rw [comesToOne_iff (by omega)]
  omega

theorem acceptedPeer_destroyed (id : ℤ) :
    ((acceptedPeer id).queue .readHeader).destroyed = false := decide_eq_false accepting_few

def constructed (s : DispatchingServer) : DispatchingServer :=
  let u := s.created
  let id := getNextConnectionId s
  log (startingItems u 0) (modify u (fun _ => (acceptedPeer id).queue .readHeader)
    { s with created := u + 1, currentConnId := id })

theorem acceptHandler_eq :
    acceptHandler none s = putEntry (getNextConnectionId s) s.created (constructed s) := by
  unfold acceptHandler
  dsimp only
  rw [startReceive, startOperation_eq]
  · simp [constructed, log, modify, acceptedPeer]
  · simp only [modify_peer, if_true]
    exact accepting_few

def acceptingItems (s : DispatchingServer) : List Item :=
  startingItems s.created 0 ++ (match s.peersList[getNextConnectionId s]? with
    | none => []
    | some v => [.overwritten v]) ++ [.listed s.created]

theorem acceptHandler_trace : (acceptHandler none s).trace = s.trace ++ acceptingItems s := by
  rw [acceptHandler_eq, putEntry, acceptingItems]
  simp only [constructed, log_peersList, modify_peersList]
  cases s.peersList[getNextConnectionId s]? <;> simp

theorem acceptHandler_peersList : (acceptHandler none s).peersList =
    s.peersList.insert (getNextConnectionId s) s.created := by
  rw [acceptHandler_eq, putEntry]
  simp only [constructed, log_peersList, modify_peersList]
  cases s.peersList[getNextConnectionId s]? <;> simp

theorem acceptHandler_fields : (acceptHandler none s).created = s.created + 1 ∧
    (acceptHandler none s).currentConnId = getNextConnectionId s ∧
    (acceptHandler none s).accepting = s.accepting ∧ (acceptHandler none s).status = s.status := by
  rw [acceptHandler_eq, putEntry]
  simp only [constructed, log_peersList, modify_peersList]
  cases s.peersList[getNextConnectionId s]? <;> exact ⟨rfl, rfl, rfl, rfl⟩

theorem acceptHandler_peer (hs : WellFormed s) (v : ℕ) : (acceptHandler none s).peer v =
    if v = s.created then (acceptedPeer (getNextConnectionId s)).queue .readHeader
    else if s.peersList[getNextConnectionId s]? = some v then { s.peer v with destroyed := true }
    else s.peer v := by
  rw [acceptHandler_eq, putEntry]
  simp only [constructed, log_peersList, modify_peersList]
  cases hentry : s.peersList[getNextConnectionId s]? with
  | none => simp
  | some w =>
    have hw : w ≠ s.created := by
      have := hs.lt_created (hs.listed _ w hentry).2
      omega
    by_cases hv : v = s.created
    · subst hv
      simp [Ne.symm hw]
    · by_cases hvw : v = w
      · subst hvw
        simp [hv]
      · simp [hv, hvw, Ne.symm hvw]

theorem acceptHandler_wellFormed (hs : WellFormed s) : WellFormed (acceptHandler none s) where
  listed id v hv := by
    rw [acceptHandler_peersList, getElem?_insert] at hv
    rw [acceptHandler_peer hs]
    split at hv
    next hid =>
      cases hv
      rw [if_pos rfl]
      exact ⟨hid.symm, acceptedPeer_destroyed _⟩
    next hid =>
      obtain ⟨hc, hd⟩ := hs.listed id v hv
      have hlt := hs.lt_created hd
      rw [if_neg (by omega), if_neg]
      · exact ⟨hc, hd⟩
      · intro hw
        exact hid (hc.symm.trans (hs.listed _ v hw).1)
  alive v hv := by
    rw [acceptHandler_peersList, getElem?_insert]
    rw [acceptHandler_peer hs] at hv ⊢
    by_cases hvu : v = s.created
    · subst hvu
      simp [acceptedPeer, Peer.queue]
    · rw [if_neg hvu] at hv ⊢
      by_cases hw : s.peersList[getNextConnectionId s]? = some v
      · rw [if_pos hw] at hv
        cases hv
      · rw [if_neg hw] at hv ⊢
        have hentry := hs.alive v hv
        rw [if_neg (fun hid => hw (by rw [← hid]; exact hentry))]
        exact hentry
  fresh v hv := by
    rw [acceptHandler_fields.1] at hv
    rw [acceptHandler_peer hs, if_neg (by omega), if_neg]
    · exact hs.fresh v (by omega)
    · intro hw
      have := hs.lt_created (hs.listed _ v hw).2
      omega

theorem acceptingItems_hear (v : ℕ) (l : Listener) :
    (acceptingItems s).foldl (Listener.hear v) l =
      ⟨if v = s.created then true
        else if s.peersList[getNextConnectionId s]? = some v then false else l.listed, l.packets⟩ := by
  rw [acceptingItems, List.foldl_append, List.foldl_append,
    foldl_hear_silent (startingItems_silent _)]
  cases hentry : s.peersList[getNextConnectionId s]? with
  | none => by_cases hv : v = s.created <;> simp [Listener.hear, hv, eq_comm]
  | some w =>
    by_cases hv : v = s.created
    · subst hv
      by_cases hw : w = s.created <;> simp [Listener.hear, hw]
    · by_cases hw : w = v
      · simp [Listener.hear, hv, hw, Ne.symm hv]
      · simp [Listener.hear, hv, hw, Ne.symm hv]

theorem mem_startingItems {count : Unsigned} {item : Item}
    (hnone : ¬ ComesToOne count 2 (HandlerCopies.starting + 1)) (h : item ∈ startingItems u count) :
    item.touches u = true ∧ item.silent = true ∧ item ≠ .decrement u 1 := by
  obtain h | h := List.mem_append.mp h
  · obtain rfl | rfl | rfl := mem_increasing h <;> simp [Item.touches, Item.silent]
  · obtain rfl | rfl | rfl | ⟨k, hk, rfl⟩ := mem_decreasing h
    · simp [Item.touches, Item.silent]
    · simp [Item.touches, Item.silent]
    · simp [Item.touches, Item.silent]
    · refine ⟨by simp [Item.touches], rfl, ?_⟩
      intro hc
      have hcount := (Item.decrement.inj hc).2
      refine hnone ⟨HandlerCopies.starting + 1 - k, by omega, by omega, ?_⟩
      rw [← hcount]
      bv_omega

theorem acceptingItems_mem {item : Item} (h : item ∈ acceptingItems s) :
    (∀ v, item ≠ .erased v) ∧ (∀ v, item ≠ .decrement v 1) ∧ (∀ v b, item ≠ .asyncWrite v b) := by
  rw [acceptingItems, List.mem_append, List.mem_append] at h
  obtain (h | h) | h := h
  · obtain ⟨htouch, hsilent, hone⟩ := mem_startingItems accepting_few h
    cases item with
    | decrement v count =>
      refine ⟨nofun, fun w hc => hone ?_, nofun⟩
      obtain rfl : v = s.created := beq_iff_eq.mp htouch
      obtain ⟨-, rfl⟩ := Item.decrement.inj hc
      rfl
    | erased v | asyncWrite v buffer => cases hsilent
    | _ => exact ⟨nofun, nofun, nofun⟩
  · cases hentry : s.peersList[getNextConnectionId s]? with
    | none => rw [hentry] at h; cases h
    | some w =>
      rw [hentry, List.mem_singleton] at h
      subst h
      exact ⟨nofun, nofun, nofun⟩
  · rw [List.mem_singleton] at h
    subst h
    exact ⟨nofun, nofun, nofun⟩

theorem acceptHandler_handed :
    handedUp (acceptHandler none s).trace = handedUp s.trace := by
  have hnone : handedUp (acceptingItems s) = [] := by
    rw [acceptingItems, handedUp_append, handedUp_append, handedUp_silent (startingItems_silent _)]
    cases s.peersList[getNextConnectionId s]? <;> rfl
  rw [acceptHandler_trace, handedUp_append, hnone, List.append_nil]

theorem acceptHandler_written (v : ℕ) :
    writesTo v (acceptHandler none s).trace = writesTo v s.trace := by
  have hnone : writesTo v (acceptingItems s) = [] := by
    apply List.filterMap_eq_nil_iff.mpr
    intro item hi
    have hne := (acceptingItems_mem hi).2.2
    cases item <;> first | rfl | exact absurd rfl (hne _ _)
  rw [acceptHandler_trace, writesTo_append, hnone, List.append_nil]

theorem acceptHandler_heard (v : ℕ) :
    heardBy v (acceptHandler none s).trace = heardBy v s.trace := by
  rw [acceptHandler_trace, heardBy, listener_append, acceptingItems_hear, heardBy]

theorem acceptHandler_hears (hs : WellFormed s) {v : ℕ} (h : Hears v s) :
    Hears v (acceptHandler none s) := by
  unfold Hears at *
  rw [acceptHandler_trace, listener_append, acceptingItems_hear, acceptHandler_peer hs]
  by_cases hv : v = s.created
  · simp [hv, acceptedPeer_destroyed]
  · by_cases hw : s.peersList[getNextConnectionId s]? = some v
    · simp [hv, hw]
    · simp [hv, hw, h]

theorem acceptHandler_iterated : iteration (acceptHandler none s).trace = iteration s.trace := by
  rw [acceptHandler_trace, iteration_append, acceptingItems, List.foldl_append, List.foldl_append,
    foldl_next_silent (startingItems_silent _)]
  cases s.peersList[getNextConnectionId s]? <;> rfl

end NukeMs.Server
