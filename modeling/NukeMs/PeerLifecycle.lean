import NukeMs.Deletion
import NukeMs.FaithfulBroadcast

namespace NukeMs.Server

open ReferenceCounter SegmentationLayerBase Runs

structure LifecycleInvariant (s : DispatchingServer) : Prop where
  listed : ∀ v, IsListed v s ↔ (s.peer v).pending ≠ []
  counted : ∀ v, (s.peer v).referenceCount.toNat = (s.peer v).pending.length
  oneRead : ∀ v, (s.peer v).reads ≤ 1
  reading : ∀ v, v < s.created → (s.peer v).errorHappened = false → (s.peer v).reads = 1
  undisturbed : (iteration s.trace).erased = false

section
variable [HandlerCopies]

/-- A handler has up to this many references on top of those of the operations that were pending
before it: the copies for its call, the write that it starts, and the read with its copies. -/
def mostHeld : ℕ := HandlerCopies.calling + HandlerCopies.starting + 2

def mostPending : ℕ := 2 ^ 32 - mostHeld

theorem mostPending_add : mostPending + (HandlerCopies.calling + HandlerCopies.starting + 2) = 2 ^ 32 := by
  have hfew := HandlerCopies.few
  unfold mostPending mostHeld
  omega

end

structure Peer.Lives (p : Peer) : Prop where
  counted : p.referenceCount.toNat = p.pending.length
  pending : p.destroyed = true ↔ p.pending = []
  reading : p.destroyed = false → p.errorHappened = false → p.reads = 1

theorem Peer.Lives.alive {p : Peer} {op : Operation} {ops : List Operation} (h : p.Lives)
    (hp : p.pending = op :: ops) : p.destroyed = false := by
  rw [← Bool.not_eq_true, h.pending, hp]
  exact List.cons_ne_nil _ _

theorem started_length (r : Reaction) : (started r).length ≤ 2 := by
  cases r <;> simp [started]

section
variable [HandlerCopies]

theorem lastReference_iff (count : Unsigned) (r : Reaction) (hpos : 1 ≤ count.toNat)
    (hmost : count.toNat ≤ mostPending) :
    lastReference count r ↔ count.toNat = 1 ∧ started r = [] := by
  have hroom := mostPending_add
  have hstarted := started_length r
  have hheld : (if (started r).isEmpty then 0 else HandlerCopies.starting) ≤ HandlerCopies.starting := by
    split
    · exact Nat.zero_le _
    · exact le_rfl
  rw [lastReference, comesToOne_iff (by omega), ← List.length_eq_zero_iff]
  omega

theorem Peer.Lives.queue_write {p : Peer} {buffer : List Byte} (hp : p.Lives)
    (hd : p.destroyed = false) (hmost : p.pending.length ≤ mostPending) :
    (p.queue (.write buffer)).Lives := by
  have hcount := hp.counted
  have hroom := mostPending_add
  refine ⟨?_, ?_, ?_⟩
  · simp only [Peer.queue_pending, List.length_append, List.length_singleton, ← hcount]
    exact increase_toNat (by omega)
  · rw [queue_destroyed hd, comesToOne_iff (by omega)]
    simp only [Peer.queue_pending, List.append_eq_nil_iff, List.cons_ne_self, and_false, iff_false]
    omega
  · intro _ herr
    have := hp.reading hd herr
    simpa [Peer.reads, Operation.isRead] using this

theorem entered_length {p : Peer} {op : Operation} {i : ℕ} (result : Completion)
    (hop : p.pending[i]? = some op) :
    (p.entered i op result).pending.length + 1 = p.pending.length := by
  obtain ⟨hi, -⟩ := List.getElem?_eq_some_iff.mp hop
  rw [Peer.entered_pending, List.length_eraseIdx_of_lt hi]
  omega

variable [Host]

theorem Peer.Lives.handled {p : Peer} {i : ℕ} {op : Operation} (result : Completion) (hp : p.Lives)
    (hd : p.destroyed = false) (hop : p.pending[i]? = some op)
    (hmost : p.pending.length ≤ mostPending) (he : ∀ e, reaction op result ≠ .escape e) :
    (p.handled i op result (reaction op result)).Lives := by
  have hlen := entered_length result hop
  rw [Peer.entered_pending] at hlen
  have hcount := hp.counted
  have hlast := handled_destroyed i op result (reaction op result) hd
  rw [lastReference_iff _ _ (by omega) (by rw [hp.counted]; exact hmost)] at hlast
  have hreads := entered_reads result hop
  have hroom := mostPending_add
  have hstarted := started_length (reaction op result)
  refine ⟨?_, ?_, ?_⟩
  · rw [handled_referenceCount, handled_pending, List.length_append]
    bv_omega
  · have hone : p.pending.length = 1 ↔ p.pending.eraseIdx i = [] := by
      rw [← List.length_eq_zero_iff]
      omega
    rw [hlast, handled_pending, List.append_eq_nil_iff, hcount, hone]
  · intro hlive herr
    obtain ⟨hfine, hfail⟩ := handled_errorHappened.mp herr
    have hone := hp.reading hd hfine
    rw [Peer.reads, handled_pending, List.countP_append]
    rw [Peer.reads, Peer.reads, Peer.entered_pending] at hreads
    rw [Peer.reads] at hone
    cases hr : reaction op result with
    | fail errmsg => exact absurd hr (hfail errmsg)
    | escape e => exact absurd hr (he e)
    | rest =>
      obtain ⟨buffer, rfl⟩ := reaction_rest hr
      simp only [started, Operation.isRead, List.countP_nil] at hreads ⊢
      exact hreads.trans hone
    | start next =>
      obtain ⟨bytes, body, rfl, -, -, rfl⟩ := reaction_start hr
      simp only [started, Operation.isRead, List.countP_cons, List.countP_nil, if_true] at hreads ⊢
      omega
    | broadcast body =>
      obtain ⟨n, rfl, rfl⟩ := reaction_broadcast hr
      simp only [started, Operation.isRead, List.countP_cons, List.countP_nil, if_true,
        Bool.false_eq_true, if_false] at hreads ⊢
      omega

theorem Peer.Lives.failed {p : Peer} {i : ℕ} {op : Operation} (result : Completion) (hp : p.Lives)
    (hd : p.destroyed = false) (hop : p.pending[i]? = some op)
    (hmost : p.pending.length ≤ mostPending) (he : ∀ e, reaction op result ≠ .escape e)
    (hgone : (p.handled i op result (reaction op result)).destroyed = true) :
    (p.handled i op result (reaction op result)).errorHappened = true := by
  have hcount := hp.counted
  have hlen := entered_length result hop
  rw [handled_destroyed i op result _ hd,
    lastReference_iff _ _ (by omega) (by rw [hcount]; exact hmost), hcount] at hgone
  rw [← Bool.not_eq_false, handled_errorHappened]
  rintro ⟨hfine, hfail⟩
  have hone := hp.reading hd hfine
  have hreads := entered_reads result hop
  have hnone : (p.entered i op result).pending = [] := List.length_eq_zero_iff.mp (by omega)
  have hempty : (p.entered i op result).reads = 0 := by
    rw [Peer.reads, hnone]
    rfl
  cases hr : reaction op result with
  | fail errmsg => exact hfail errmsg hr
  | escape e => exact he e hr
  | start next => rw [hr] at hgone; cases hgone.2
  | broadcast body => rw [hr] at hgone; cases hgone.2
  | rest =>
    obtain ⟨buffer, rfl⟩ := reaction_rest hr
    rw [hempty, hone] at hreads
    cases hreads

end

structure Lifecycle (s : DispatchingServer) : Prop where
  wellFormed : WellFormed s
  reading : ∀ v, (s.peer v).Reading
  lives : ∀ v, (s.peer v).Lives
  failed : ∀ v, v < s.created → (s.peer v).destroyed = true → (s.peer v).errorHappened = true
  currentConnId : s.currentConnId = s.created
  connectionId : ∀ v, v < s.created → (s.peer v).connectionId = v + 1
  iterated : iteration s.trace = ⟨false, false⟩

theorem init_lifecycle : Lifecycle init where
  wellFormed := init_wellFormed
  reading := init_faithful.reading
  lives v := ⟨rfl, by simp [init], fun h => by cases h⟩
  failed v hv := absurd hv (Nat.not_lt_zero v)
  currentConnId := rfl
  connectionId v hv := absurd hv (Nat.not_lt_zero v)
  iterated := rfl

theorem Lifecycle.invariant {s : DispatchingServer} (hs : Lifecycle s) : LifecycleInvariant s where
  listed v := by
    rw [hs.wellFormed.isListed_iff, ← Bool.not_eq_true, (hs.lives v).pending]
  counted v := (hs.lives v).counted
  oneRead v := (hs.reading v).single
  reading v hv herr := by
    cases hd : (s.peer v).destroyed with
    | false => exact (hs.lives v).reading hd herr
    | true =>
      rw [hs.failed v hv hd] at herr
      cases herr
  undisturbed := by rw [hs.iterated]

theorem getNextConnectionId_eq {s : DispatchingServer} (hs : Lifecycle s) (hc : s.created + 1 < 2 ^ 31) :
    getNextConnectionId s = s.created + 1 := by
  rw [getNextConnectionId, hs.currentConnId]
  exact Int.bmod_eq_of_le (by omega) (by omega)

section
variable [HandlerCopies] {s t : DispatchingServer}

theorem acceptedPeer_lives (id : ℤ) : ((acceptedPeer id).queue .readHeader).Lives := by
  refine ⟨rfl, ?_, fun _ _ => rfl⟩
  rw [acceptedPeer_destroyed]
  exact iff_of_false Bool.false_ne_true (List.cons_ne_nil _ _)

theorem Lifecycle.accept (hs : Lifecycle s) (hc : s.created + 1 < 2 ^ 31) :
    Lifecycle (acceptHandler none s) := by
  have hid := getNextConnectionId_eq hs hc
  have hfree : ∀ v, s.peersList[getNextConnectionId s]? ≠ some v := by
    intro v hv
    obtain ⟨hconn, hd⟩ := hs.wellFormed.listed _ v hv
    have hlt := hs.wellFormed.lt_created hd
    rw [hs.connectionId v hlt, hid] at hconn
    omega
  have hpeer : ∀ v, (acceptHandler none s).peer v = if v = s.created then
      (acceptedPeer (getNextConnectionId s)).queue .readHeader else s.peer v := by
    intro v
    rw [acceptHandler_peer hs.wellFormed, if_neg (hfree v)]
  obtain ⟨hcreated, hcurrent, -, -⟩ := acceptHandler_fields (s := s)
  refine ⟨acceptHandler_wellFormed hs.wellFormed, ?_, ?_, ?_, ?_, ?_, ?_⟩
  · intro v
    rw [hpeer]
    split
    · exact acceptedPeer_reading _
    · exact hs.reading v
  · intro v
    rw [hpeer]
    split
    · exact acceptedPeer_lives _
    · exact hs.lives v
  · intro v hv hgone
    rw [hcreated] at hv
    rw [hpeer] at hgone ⊢
    split at hgone
    · rw [acceptedPeer_destroyed] at hgone
      cases hgone
    next hne =>
      rw [if_neg hne]
      exact hs.failed v (by omega) hgone
  · rw [hcreated, hcurrent, hid, Int.natCast_succ]
  · intro v hv
    rw [hcreated] at hv
    rw [hpeer]
    by_cases hvu : v = s.created
    · rw [if_pos hvu, hvu]
      exact hid
    · rw [if_neg hvu]
      exact hs.connectionId v (by omega)
  · rw [acceptHandler_iterated, hs.iterated]

omit [HandlerCopies] in
theorem Lifecycle.of_local {u : ℕ} (hs : Lifecycle s) (h : Local u s t)
    (hd : (s.peer u).destroyed = false) (hr : (t.peer u).Reading) (hl : (t.peer u).Lives)
    (hf : (t.peer u).destroyed = true → (t.peer u).errorHappened = true) : Lifecycle t where
  wellFormed := (h.keepsIds hs.wellFormed hd).wellFormed
  reading v := by
    by_cases hv : v = u
    · exact hv ▸ hr
    · rw [h.other v hv]
      exact hs.reading v
  lives v := by
    by_cases hv : v = u
    · exact hv ▸ hl
    · rw [h.other v hv]
      exact hs.lives v
  failed v hc := by
    rw [h.created] at hc
    by_cases hv : v = u
    · exact hv ▸ hf
    · rw [h.other v hv]
      exact hs.failed v hc
  currentConnId := by rw [h.currentConnId, h.created, hs.currentConnId]
  connectionId := (h.keepsIds hs.wellFormed hd).numbers (fun n => n) hs.connectionId
  iterated := by rw [h.iterated (.inl (by rw [hs.iterated])), hs.iterated]

theorem Lifecycle.broadcast {u : ℕ} {body : List Byte} (hs : Lifecycle s) (h : Broadcasts u body s t)
    (hd : (s.peer u).destroyed = false) (hmost : ∀ v, (s.peer v).pending.length ≤ mostPending)
    (hid : (t.peer u).connectionId = (s.peer u).connectionId)
    (hlive : (t.peer u).destroyed = false) (hr : (t.peer u).Reading) (hl : (t.peer u).Lives) :
    Lifecycle t := by
  have hother : ∀ v, v ≠ u → (s.peer v).destroyed = false → t.peer v =
      (s.peer v).queue (.write (SegmentationLayer.packet body)) := by
    intro v hv hd
    rw [h.other v hv, hd, if_neg (by decide)]
  have hdead : ∀ v, v ≠ u → (s.peer v).destroyed = true → t.peer v = s.peer v := by
    intro v hv hd
    rw [h.other v hv, hd, if_pos rfl]
  have hlives : ∀ v, (t.peer v).Lives := by
    intro v
    by_cases hv : v = u
    · exact hv ▸ hl
    · cases hd : (s.peer v).destroyed with
      | true => exact hdead v hv hd ▸ hs.lives v
      | false => exact hother v hv hd ▸ (hs.lives v).queue_write hd (hmost v)
  have hkeeps : ∀ v, (s.peer v).destroyed = false → (t.peer v).destroyed = false := by
    intro v hd
    by_cases hv : v = u
    · exact hv ▸ hlive
    · rw [← Bool.not_eq_true, (hlives v).pending, hother v hv hd]
      simp
  refine ⟨h.wellFormed, ?_, hlives, ?_, ?_, ?_, ?_⟩
  · intro v
    by_cases hv : v = u
    · exact hv ▸ hr
    · cases hd : (s.peer v).destroyed with
      | true => exact hdead v hv hd ▸ hs.reading v
      | false => exact hother v hv hd ▸ (hs.reading v).queue_write
  · intro v hc hgone
    rw [h.created] at hc
    cases hd : (s.peer v).destroyed with
    | true =>
      by_cases hv : v = u
      · rw [hv, hlive] at hgone
        cases hgone
      · rw [hdead v hv hd]
        exact hs.failed v hc hd
    | false =>
      rw [hkeeps v hd] at hgone
      cases hgone
  · rw [h.currentConnId, h.created, hs.currentConnId]
  · exact (h.keepsIds hd hid).numbers (fun n => n) hs.connectionId
  · rw [h.undisturbed (by rw [hs.iterated]) hkeeps, hs.iterated]

end

section
variable [HandlerCopies] [Host] {s t : DispatchingServer} {input : Input}

def WithinLimit (s : DispatchingServer) : Prop := ∀ v, (s.peer v).pending.length ≤ mostPending

theorem step_lifecycle (hs : Lifecycle s) (hmost : WithinLimit s) (h : step s input = some t)
    (hcreated : t.created < 2 ^ 31 - 1) (hstatus : ∀ e, t.status ≠ .threw e) : Lifecycle t := by
  obtain ⟨hrun, hstep⟩ := step_stepped h
  cases hstep with
  | refused error => exact ⟨⟨hs.1.1, hs.1.2, hs.1.3⟩, hs.2, hs.3, hs.4, hs.5, hs.6, hs.7⟩
  | accepted =>
    rw [acceptHandler_fields.1] at hcreated
    exact hs.accept (by omega)
  | gone u i result hd =>
    have hnone := (hs.lives u).pending.mp hd
    simp [step, hnone] at h
  | handled u i op result hd hop hfills =>
    have hread := handled_reading (hs.reading u) hop hfills
    obtain ⟨hp, ⟨body, hr, hb⟩ | ⟨-, hl, hsame⟩⟩ := handled_cases i op result hs.wellFormed hd
    · have hlives := (hs.lives u).handled result hd hop (hmost u) (by simp [hr])
      rw [← hp] at hread hlives
      refine hs.broadcast hb hd hmost ?_ ?_ hread hlives
      · rw [hp, handled_connectionId]
      · rw [← Bool.not_eq_true, hlives.pending, hp, hr, handled_pending]
        simp [started]
    · have he : ∀ e, reaction op result ≠ .escape e := by
        intro e hr
        rw [hr] at hsame
        exact hstatus e hsame
      rw [← hp] at hread
      refine hs.of_local hl hd hread (hp ▸ (hs.lives u).handled result hd hop (hmost u) he) ?_
      rw [hp]
      exact (hs.lives u).failed result hd hop (hmost u) he

omit [Host] in
theorem Peer.Lives.not_loses {u v : ℕ} (hlives : (s.peer v).Lives) (hlive : (s.peer v).destroyed = false)
    (hlimit : (s.peer v).pending.length ≤ mostPending) : ¬ Loses u s v := by
  have hcount := hlives.counted
  have hroom := mostPending_add
  have hpending := hlives.pending.not.mp (by rw [hlive]; exact Bool.false_ne_true)
  have hpos := List.length_pos_iff.mpr hpending
  rw [Loses]
  split <;> rw [comesToOne_iff (by omega)] <;> omega

theorem dropsLast_iff {u i : ℕ} {op : Operation} {result : Completion} (hs : Lifecycle s)
    (hmost : WithinLimit s) (hd : (s.peer u).destroyed = false)
    (hop : (s.peer u).pending[i]? = some op) : DropsLast s (.completed u i result) ↔
      (s.peer u).pending.length = 1 ∧ started (reaction op result) = [] := by
  have hcount := (hs.lives u).counted
  have hlen := entered_length result hop
  have hlast := lastReference_iff (s.peer u).referenceCount (reaction op result)
    (by omega) (by rw [hcount]; exact hmost u)
  rw [hcount] at hlast
  rw [← hlast]
  constructor
  · rintro ⟨op', hop', -, hlast | ⟨-, -, v, hv, hloses⟩⟩
    · cases hop.symm.trans hop'
      exact hlast
    · exact absurd hloses ((hs.lives v).not_loses hv (hmost v))
  · exact fun hlast => ⟨op, hop, hd, .inl hlast⟩

theorem lifecycle_run {J : DispatchingServer → Prop} (hinit : J init)
    (hJ : ∀ s input t, Lifecycle s → J s → WithinLimit s → step s input = some t →
      t.created < 2 ^ 31 - 1 → (∀ e, t.status ≠ .threw e) → J t) {inputs : List Input}
    (h : exec step init inputs = some t)
    (hmost : Along step (fun s _ _ => WithinLimit s) init inputs)
    (hcreated : t.created < 2 ^ 31 - 1) (hstatus : ∀ e, t.status ≠ .threw e) : Lifecycle t ∧ J t := by
  have hinv := exec_invariant_along (Q := fun s _ _ => WithinLimit s)
    (I := fun s => WellFormed s ∧
      (s.created < 2 ^ 31 - 1 → (∀ e, s.status ≠ .threw e) → Lifecycle s ∧ J s))
    (fun s input t hs hlimit hstep => ?_) ⟨init_wellFormed, fun _ _ => ⟨init_lifecycle, hinit⟩⟩ hmost h
  · exact hinv.2 hcreated hstatus
  · refine ⟨step_wellFormed hs.1 hstep, ?_⟩
    intro hc hst
    have hle := step_created hs.1 hstep
    obtain ⟨hrun, -⟩ := step_stepped hstep
    obtain ⟨hlife, hj⟩ := hs.2 (by omega) (by simp [hrun])
    exact ⟨step_lifecycle hlife hlimit hstep hc hst, hJ s input t hlife hj hlimit hstep hc hst⟩

theorem lifecycleInvariant_run (inputs : List Input) (h : exec step init inputs = some t)
    (hmost : Along step (fun s _ _ => WithinLimit s) init inputs)
    (hcreated : t.created < 2 ^ 31 - 1) (hstatus : ∀ e, t.status ≠ .threw e) :
    LifecycleInvariant t := by
  have hrun := lifecycle_run (J := fun _ => True) trivial (fun _ _ _ _ _ _ _ _ _ => trivial) h hmost
    hcreated hstatus
  exact hrun.1.invariant

end

section
variable [HandlerCopies] [Host] {s t : DispatchingServer} {input : Input}

theorem step_pending (hs : WellFormed s) (h : step s input = some t) (v : ℕ) :
    (t.peer v).pending.length ≤ (s.peer v).pending.length + 1 := by
  obtain ⟨hrun, hstep⟩ := step_stepped h
  cases hstep with
  | refused error => exact Nat.le_succ _
  | gone u i result hd => exact Nat.le_succ _
  | accepted =>
    rw [acceptHandler_peer hs]
    split
    · exact Nat.succ_le_succ (Nat.zero_le _)
    · split <;> exact Nat.le_succ _
  | handled u i op result hd hop hfills =>
    have hlen := entered_length result hop
    have hstarted := started_length (reaction op result)
    rw [Peer.entered_pending] at hlen
    obtain ⟨hp, hother⟩ := handled_cases i op result hs hd
    by_cases hv : v = u
    · rw [hv, hp, handled_pending, List.length_append]
      omega
    · obtain ⟨body, -, hb⟩ | ⟨-, hl, -⟩ := hother
      · rw [hb.other v hv]
        split
        · exact Nat.le_succ _
        · rw [Peer.queue_pending, List.length_append, List.length_singleton]
      · rw [hl.other v hv]
        exact Nat.le_succ _

theorem withinLimit_along (inputs : List Input) (n : ℕ) (hs : WellFormed s)
    (hn : ∀ v, (s.peer v).pending.length ≤ n) (hfew : n + inputs.length ≤ mostPending) :
    Along step (fun s _ _ => WithinLimit s) s inputs := by
  induction inputs generalizing s n with
  | nil => trivial
  | cons input inputs ih =>
    intro t ht
    rw [List.length_cons] at hfew
    refine ⟨fun v => (hn v).trans (by omega), ih (n + 1) (step_wellFormed hs ht) ?_ (by omega)⟩
    intro v
    exact (step_pending hs ht v).trans (Nat.succ_le_succ (hn v))

end

def hangUpAfterPacket : List Input :=
  [.accepted none, .accepted none, .completed 0 0 (.ok [0x80, 5, 0, 0]), .completed 0 0 (.ok [0x41]),
    .completed 0 0 (.ok []), .completed 1 0 (.error endOfFile),
    .completed 1 0 (.error ⟨true, "Operation canceled"⟩)]

theorem lifecycleInvariant_hangUp : ∃ t,
    exec (@step bindCopies littleEndianHost) init hangUpAfterPacket = some t ∧
      (t.peer 0).pending = [.readHeader] ∧ (t.peer 1).pending = [] ∧ IsListed 0 t ∧ ¬ IsListed 1 t ∧
      LifecycleInvariant t := by
  have hmost := @withinLimit_along bindCopies littleEndianHost init hangUpAfterPacket 0
    init_wellFormed (fun _ => le_rfl) (by decide)
  have h := @lifecycleInvariant_run bindCopies littleEndianHost _ hangUpAfterPacket rfl hmost
    (by decide) (by rintro e ⟨⟩)
  refine ⟨_, rfl, rfl, rfl, (h.listed 0).mpr (List.cons_ne_nil _ _), ?_, h⟩
  exact fun hlisted => (h.listed 1).mp hlisted rfl

def unreadPacket (k : ℕ) : List Input :=
  [.completed 0 k (.ok [0x80, 4, 0, 0]), .completed 0 k (.ok [])]

def flood (n : ℕ) : List Input := .accepted none :: (List.range n).flatMap unreadPacket

theorem flood_succ (n : ℕ) : flood (n + 1) = flood n ++ unreadPacket n := by
  rw [flood, List.range_succ, List.flatMap_append, flood, List.cons_append]
  simp

def emptyWrite : Operation := .write (SegmentationLayer.packet [])

structure Flooded (k : ℕ) (last : Operation) (s : DispatchingServer) : Prop where
  wellFormed : WellFormed s
  status : s.status = .running
  created : s.created = 1
  destroyed : (s.peer 0).destroyed = false
  pending : (s.peer 0).pending = List.replicate k emptyWrite ++ [last]
  counted : (s.peer 0).referenceCount.toNat = k + 1

theorem flooded_accepted [HandlerCopies] : Flooded 0 .readHeader (acceptHandler none init) := by
  obtain ⟨hcreated, -, -, hstatus⟩ := acceptHandler_fields (s := init)
  have hpeer := acceptHandler_peer init_wellFormed 0
  rw [show init.created = 0 from rfl, if_pos rfl] at hpeer
  refine ⟨acceptHandler_wellFormed init_wellFormed, hstatus, hcreated, ?_, ?_, ?_⟩
  · rw [hpeer]
    exact acceptedPeer_destroyed _
  · rw [hpeer]
    rfl
  · rw [hpeer]
    rfl

theorem Flooded.getElem {s : DispatchingServer} {k : ℕ} {last : Operation} (h : Flooded k last s) : (s.peer 0).pending[k]? = some last := by
  rw [h.pending]
  simp

theorem handled_flooded [HandlerCopies] {s : DispatchingServer} {k : ℕ} {last : Operation} (h : Flooded k last s)
    (result : Completion) (r : Reaction) :
    ((s.peer 0).handled k last result r).pending = List.replicate k emptyWrite ++ started r := by
  rw [handled_pending, h.pending, List.eraseIdx_append_of_length_le (by simp)]
  simp

section
variable [HandlerCopies] [Host] {s t : DispatchingServer} {k : ℕ} {last : Operation}

omit [HandlerCopies] in
theorem reaction_emptyHeader :
    reaction .readHeader (.ok [0x80, 4, 0, 0]) = .start (.readBody 0) := by
  have hadm : admitHeader .invalidHeaderError [0x80, 4, 0, 0] = .ok [] :=
    admitHeader_header .invalidHeaderError (n := 0) (by decide)
  simp only [reaction, hadm, List.length_nil]

theorem Flooded.step (h : Flooded k last s) {result : Completion} (ha : last.admits result = true) :
    step s (.completed 0 k result) =
      some (invoke last result 0 (modify 0 (Peer.taken k last result) s)) := by
  simp only [Server.step, h.getElem, h.status, h.destroyed, ha]
  simp

theorem Flooded.header (h : Flooded k .readHeader s) (hk : k ≤ mostPending) :
    ∃ t, Server.step s (.completed 0 k (.ok [0x80, 4, 0, 0])) = some t ∧
      Flooded k (.readBody 0) t := by
  refine ⟨_, h.step rfl, ?_⟩
  have hcount := h.counted
  have hroom := mostPending_add
  have hb : (reaction .readHeader (.ok [0x80, 4, 0, 0])).isBroadcast = false := by
    rw [reaction_emptyHeader]
    rfl
  obtain ⟨hl, hp, hsame⟩ := invoke_local k .readHeader (.ok [0x80, 4, 0, 0]) h.wellFormed h.destroyed hb
  have ho := h.wellFormed.owns h.destroyed
  have hlast := handled_destroyed k .readHeader (.ok [0x80, 4, 0, 0]) (.start (.readBody 0)) h.destroyed
  rw [reaction_emptyHeader] at hp hsame
  have hkeeps : ¬ lastReference (s.peer 0).referenceCount (.start (.readBody 0)) := by
    rw [lastReference, comesToOne_iff]
    · simp [started]
      omega
    · simp [started]
      omega
  refine ⟨hl.wellFormed ho (h.created ▸ Nat.one_pos) h.wellFormed, hsame.trans h.status,
    hl.created.trans h.created, ?_, ?_, ?_⟩
  · rw [hp, ← Bool.not_eq_true, hlast]
    exact hkeeps
  · rw [hp, handled_flooded h]
    rfl
  · rw [hp, handled_referenceCount]
    simp only [started, List.length_singleton]
    bv_omega

theorem Flooded.broadcasts (h : Flooded k (.readBody 0) s) (hk : k ≤ mostPending) :
    ∃ t, Server.step s (.completed 0 k (.ok [])) = some t ∧ Broadcasts 0 [] s t ∧
      t.peer 0 = (s.peer 0).handled k (.readBody 0) (.ok []) (.broadcast []) ∧ t.status = .running := by
  have hr : reaction (.readBody 0) (.ok []) = .broadcast [] := rfl
  obtain ⟨hb, hp⟩ := invoke_broadcast (i := k) h.wellFormed h.destroyed hr
  refine ⟨_, h.step rfl, hb, hp, (hb.status ?_).trans h.status⟩
  intro v hv
  have hlt := h.wellFormed.lt_created hv
  rw [h.created] at hlt
  obtain rfl : v = 0 := by omega
  have hcount := h.counted
  have hroom := mostPending_add
  rw [Loses, if_pos rfl, comesToOne_iff (by omega)]
  omega

theorem Flooded.body (h : Flooded k (.readBody 0) s) (hk : k < mostPending) :
    ∃ t, Server.step s (.completed 0 k (.ok [])) = some t ∧ Flooded (k + 1) .readHeader t := by
  obtain ⟨t, hstep, hb, hp, hstatus⟩ := h.broadcasts hk.le
  have hcount := h.counted
  have hroom := mostPending_add
  have hlast := handled_destroyed k (.readBody 0) (.ok []) (.broadcast []) h.destroyed
  rw [lastReference_iff _ _ (by omega) (by omega)] at hlast
  refine ⟨t, hstep, hb.wellFormed, hstatus, hb.created.trans h.created, ?_, ?_, ?_⟩
  · rw [hp, ← Bool.not_eq_true, hlast]
    simp [started]
  · rw [hp, handled_flooded h, List.replicate_succ', List.append_assoc]
    rfl
  · rw [hp, handled_referenceCount]
    simp only [started, List.length_cons, List.length_nil]
    bv_omega

theorem flooded_run (n : ℕ) (hn : n ≤ mostPending) :
    ∃ t, exec Server.step init (flood n) = some t ∧ Flooded n .readHeader t := by
  induction n with
  | zero => exact ⟨_, rfl, flooded_accepted⟩
  | succ n ih =>
    obtain ⟨s, hs, hflood⟩ := ih (by omega)
    obtain ⟨t, ht, hheader⟩ := hflood.header (by omega)
    obtain ⟨r, hr, hbody⟩ := hheader.body (by omega)
    refine ⟨r, ?_, hbody⟩
    rw [flood_succ, exec_append]
    exact ⟨s, hs, exec_cons.mpr ⟨t, ht, exec_cons.mpr ⟨r, hr, rfl⟩⟩⟩

omit [Host] in
theorem Flooded.overflows (h : Flooded mostPending last s) (body : List Byte) :
    lastReference (s.peer 0).referenceCount (.broadcast body) := by
  have hcount := h.counted
  have hroom := mostPending_add
  refine ⟨HandlerCopies.calling + 2 + HandlerCopies.starting, ?_, le_rfl, ?_⟩
  · change 2 ≤ _
    omega
  · bv_omega

theorem flood_breaks_run : ∃ t, exec Server.step init (flood (mostPending + 1)) = some t ∧
    t.created < 2 ^ 31 - 1 ∧ (∀ e, t.status ≠ .threw e) ∧ ¬ LifecycleInvariant t := by
  obtain ⟨s, hs, hflood⟩ := flooded_run mostPending le_rfl
  obtain ⟨t, ht, hheader⟩ := hflood.header le_rfl
  obtain ⟨r, hr, hb, hp, hstatus⟩ := hheader.broadcasts le_rfl
  have hgone : (r.peer 0).destroyed = true := by
    rw [hp]
    exact (handled_destroyed _ _ _ (.broadcast []) hheader.destroyed).mpr (hheader.overflows [])
  refine ⟨r, ?_, ?_, ?_, ?_⟩
  · rw [flood_succ, exec_append]
    exact ⟨s, hs, exec_cons.mpr ⟨t, ht, exec_cons.mpr ⟨r, hr, rfl⟩⟩⟩
  · rw [hb.created, hheader.created]
    decide
  · intro e
    rw [hstatus]
    simp
  · intro hinv
    have hlisted : IsListed 0 r := by
      rw [hinv.listed, hp, handled_flooded hheader]
      simp [started]
    rw [hb.wellFormed.isListed_iff, hgone] at hlisted
    cases hlisted

end

theorem flood_breaks : ∃ t, exec (@step bindCopies littleEndianHost) init
    (flood (@mostPending bindCopies + 1)) = some t ∧
      t.created < 2 ^ 31 - 1 ∧ (∀ e, t.status ≠ .threw e) ∧ ¬ LifecycleInvariant t :=
  @flood_breaks_run bindCopies littleEndianHost

end NukeMs.Server
