import NukeMs.Outstanding
import NukeMs.ServerSteps

namespace NukeMs.Server

open ReferenceCounter SegmentationLayerBase

namespace Peer

variable {p : Peer} {n : ℕ} {op : Operation} {i : ℕ} {result : Completion}

@[simp] theorem release_pending : (p.release n).pending = p.pending := rfl
@[simp] theorem release_headerBuffer : (p.release n).headerBuffer = p.headerBuffer := rfl
@[simp] theorem release_errorHappened : (p.release n).errorHappened = p.errorHappened := rfl

@[simp] theorem fail_pending : p.fail.pending = p.pending := by
  unfold fail
  split <;> rfl

@[simp] theorem fail_headerBuffer : p.fail.headerBuffer = p.headerBuffer := by
  unfold fail
  split <;> rfl

@[simp] theorem fail_errorHappened : p.fail.errorHappened = true := by
  unfold fail
  split
  next h => exact h
  next => rfl

@[simp] theorem fail_referenceCount : p.fail.referenceCount = p.referenceCount := by
  unfold fail
  split <;> rfl

@[simp] theorem fail_destroyed : p.fail.destroyed = p.destroyed := by
  unfold fail
  split <;> rfl

variable [HandlerCopies]

@[simp] theorem queue_pending : (p.queue op).pending = p.pending ++ [op] := rfl
@[simp] theorem queue_headerBuffer : (p.queue op).headerBuffer = p.headerBuffer := rfl
@[simp] theorem queue_errorHappened : (p.queue op).errorHappened = p.errorHappened := rfl

@[simp] theorem entered_pending : (p.entered i op result).pending = p.pending.eraseIdx i := rfl
@[simp] theorem entered_errorHappened :
    (p.entered i op result).errorHappened = p.errorHappened := rfl
@[simp] theorem entered_destroyed : (p.entered i op result).destroyed = p.destroyed := rfl
@[simp] theorem entered_referenceCount : (p.entered i op result).referenceCount =
    p.referenceCount + BitVec.ofNat 32 HandlerCopies.calling := rfl

end Peer

def started : Reaction → List Operation
  | .start op => [op]
  | .broadcast body => [.write (SegmentationLayer.packet body), .readHeader]
  | _ => []

section
variable [HandlerCopies] {p : Peer} {op : Operation} {i : ℕ} {result : Completion} {r : Reaction}

theorem handled_pending :
    (p.handled i op result r).pending = p.pending.eraseIdx i ++ started r := by
  cases r <;> simp [Peer.handled, Peer.react, started]

theorem handled_connectionId : (p.handled i op result r).connectionId = p.connectionId := by
  cases r with
  | fail errmsg =>
    simp only [Peer.handled, Peer.react, Peer.release, Peer.fail]
    split <;> rfl
  | _ => rfl

theorem handled_errorHappened :
    (p.handled i op result r).errorHappened = false ↔
      p.errorHappened = false ∧ ∀ errmsg, r ≠ .fail errmsg := by
  cases r <;> simp [Peer.handled, Peer.react]

theorem handled_socketOpen (hr : ∀ errmsg, r ≠ .fail errmsg) :
    (p.handled i op result r).socketOpen = p.socketOpen := by
  cases r with
  | fail errmsg => exact absurd rfl (hr errmsg)
  | _ => rfl

theorem socketOpen_of_handled
    (h : (p.handled i op result r).socketOpen = true) : p.socketOpen = true := by
  cases r with
  | fail errmsg =>
    have hfail : (p.entered i op result).fail.socketOpen = true := h
    unfold Peer.fail at hfail
    split at hfail
    · exact hfail
    · cases hfail
  | _ => exact h

theorem react_referenceCount :
    (p.react r).referenceCount = p.referenceCount + BitVec.ofNat 32 (started r).length := by
  cases r with
  | rest | escape e => exact (BitVec.add_zero _).symm
  | fail errmsg => exact Peer.fail_referenceCount.trans (BitVec.add_zero _).symm
  | start op => rfl
  | broadcast body => exact BitVec.add_assoc _ _ _

theorem handled_referenceCount : (p.handled i op result r).referenceCount =
    p.referenceCount + BitVec.ofNat 32 (started r).length - 1 := by
  rw [Peer.handled, Peer.release]
  dsimp only
  rw [react_referenceCount, Peer.entered_referenceCount]
  bv_omega

end

def Peer.reads (p : Peer) : ℕ := p.pending.countP Operation.isRead

structure Peer.Reading (p : Peer) : Prop where
  single : p.reads ≤ 1
  header : ∀ n, .readBody n ∈ p.pending →
    p.headerBuffer = SegmentationLayer.header (n + headerLength) ∧ n + headerLength ≤ 0x8FFF

theorem not_mem_of_reads_eq_zero {ops : List Operation} (h : ops.countP Operation.isRead = 0) (n : ℕ) :
    Operation.readBody n ∉ ops := fun hmem => List.countP_eq_zero.mp h _ hmem rfl

section
variable [HandlerCopies] {p : Peer} {op : Operation} {i : ℕ} {result : Completion}

omit [HandlerCopies] in
theorem Peer.Reading.of_pending {q : Peer} (h : p.Reading) (hp : q.pending = p.pending)
    (hb : q.headerBuffer = p.headerBuffer) : q.Reading := by
  constructor
  · rw [Peer.reads, hp]
    exact h.single
  · rw [hp, hb]
    exact h.header

theorem Peer.Reading.queue_write {buffer : List Byte} (h : p.Reading) :
    (p.queue (.write buffer)).Reading := by
  constructor
  · have := h.single
    simpa [Peer.reads, Operation.isRead] using this
  · intro n hn
    rw [Peer.queue_pending, List.mem_append] at hn
    exact h.header n (hn.resolve_right (by simp))

theorem Peer.Reading.queue_read (h : p.reads = 0) (hop : op.isRead = true)
    (hh : ∀ n, op = .readBody n → p.headerBuffer = SegmentationLayer.header (n + headerLength) ∧
      n + headerLength ≤ 0x8FFF) : (p.queue op).Reading := by
  constructor
  · simp only [Peer.reads, Peer.queue_pending, List.countP_append] at h ⊢
    simp [h, hop]
  · intro n hn
    rw [Peer.queue_pending, List.mem_append] at hn
    obtain hn | hn := hn
    · exact absurd hn (not_mem_of_reads_eq_zero h n)
    · exact hh n (List.mem_singleton.mp hn).symm

theorem entered_reads (result : Completion) (h : p.pending[i]? = some op) :
    (p.entered i op result).reads + (if op.isRead then 1 else 0) = p.reads :=
  Outstanding.countP_eraseIdx Operation.isRead h

theorem entered_reads_of_isRead (result : Completion) (h : p.pending[i]? = some op) (hr : p.reads ≤ 1)
    (hop : op.isRead = true) : (p.entered i op result).reads = 0 :=
  Outstanding.countP_eraseIdx_single h hop hr

theorem Peer.Reading.entered (result : Completion) (hp : p.Reading) (h : p.pending[i]? = some op) :
    (p.entered i op result).Reading := by
  have hcount := entered_reads result h
  constructor
  · have := hp.single
    omega
  · intro n hn
    cases op with
    | write buffer => exact hp.header n (List.mem_of_mem_eraseIdx hn)
    | readHeader =>
      exact absurd hn (not_mem_of_reads_eq_zero (entered_reads_of_isRead _ h hp.single rfl) n)
    | readBody m =>
      exact absurd hn (not_mem_of_reads_eq_zero (entered_reads_of_isRead _ h hp.single rfl) n)

end

structure KeepsIds (s t : DispatchingServer) : Prop where
  wellFormed : WellFormed t
  created : t.created = s.created
  currentConnId : t.currentConnId = s.currentConnId
  connectionId : ∀ v, (t.peer v).connectionId = (s.peer v).connectionId
  alive : ∀ v, (t.peer v).destroyed = false → (s.peer v).destroyed = false

section
variable {s t : DispatchingServer}

theorem KeepsIds.numbers (h : KeepsIds s t) (id : ℕ → ℤ)
    (hs : ∀ v, v < s.created → (s.peer v).connectionId = id (v + 1)) :
    ∀ v, v < t.created → (t.peer v).connectionId = id (v + 1) := by
  intro v hv
  rw [h.created] at hv
  rw [h.connectionId, hs v hv]

theorem KeepsIds.of_other {u : ℕ} (ht : WellFormed t) (hcreated : t.created = s.created)
    (hcurrent : t.currentConnId = s.currentConnId) (hd : (s.peer u).destroyed = false)
    (hid : (t.peer u).connectionId = (s.peer u).connectionId)
    (hother : ∀ v, v ≠ u → (t.peer v).connectionId = (s.peer v).connectionId ∧
      ((t.peer v).destroyed = false → (s.peer v).destroyed = false)) : KeepsIds s t where
  wellFormed := ht
  created := hcreated
  currentConnId := hcurrent
  connectionId v := by
    by_cases hv : v = u
    · rw [hv, hid]
    · exact (hother v hv).1
  alive v hv := by
    by_cases hvu : v = u
    · rw [hvu, hd]
    · exact (hother v hvu).2 hv

theorem Local.keepsIds {u : ℕ} (h : Local u s t) (hs : WellFormed s) (hd : (s.peer u).destroyed = false) :
    KeepsIds s t := by
  have ht := h.wellFormed (hs.owns hd) (hs.lt_created hd) hs
  apply KeepsIds.of_other ht h.created h.currentConnId hd h.connectionId
  intro v hv
  rw [h.other v hv]
  exact ⟨rfl, id⟩

theorem Broadcasts.keepsIds [HandlerCopies] {u : ℕ} {body : List Byte} (h : Broadcasts u body s t)
    (hd : (s.peer u).destroyed = false) (hid : (t.peer u).connectionId = (s.peer u).connectionId) :
    KeepsIds s t := by
  apply KeepsIds.of_other h.wellFormed h.created h.currentConnId hd hid
  intro v hv
  rw [h.other v hv]
  cases hgone : (s.peer v).destroyed with
  | true => simp [hgone]
  | false => exact ⟨rfl, fun _ => rfl⟩

end

variable [Host] {p : Peer} {op : Operation} {i : ℕ} {result : Completion}

theorem reaction_rest (h : reaction op result = .rest) : ∃ buffer, op = .write buffer := by
  cases op with
  | write buffer => exact ⟨buffer, rfl⟩
  | readBody n => cases result <;> cases h
  | readHeader =>
    cases result with
    | error error => cases h
    | ok bytes =>
      simp only [reaction] at h
      split at h
      · cases h
      · split at h <;> cases h

theorem reaction_start {next : Operation} (h : reaction op result = .start next) :
    ∃ bytes body, op = .readHeader ∧ result = .ok bytes ∧
      admitHeader .invalidHeaderError bytes = .ok body ∧ next = .readBody body.length := by
  cases op with
  | write buffer => cases result <;> cases h
  | readBody n => cases result <;> cases h
  | readHeader =>
    cases result with
    | error error => cases h
    | ok bytes =>
      simp only [reaction] at h
      split at h
      next body hadm =>
        cases h
        exact ⟨bytes, body, rfl, rfl, hadm, rfl⟩
      next => split at h <;> cases h

variable [HandlerCopies]

theorem handled_reading (hp : p.Reading) (h : p.pending[i]? = some op)
    (hfills : op.admits result = true) : (p.handled i op result (reaction op result)).Reading := by
  have hin := hp.entered result h
  refine Peer.Reading.of_pending (p := (p.entered i op result).react (reaction op result)) ?_ rfl rfl
  cases hr : reaction op result with
  | rest => exact hin
  | fail errmsg => exact hin.of_pending Peer.fail_pending Peer.fail_headerBuffer
  | escape e => exact hin
  | start next =>
    obtain ⟨bytes, body, rfl, rfl, hadm, rfl⟩ := reaction_start hr
    apply Peer.Reading.queue_read (entered_reads_of_isRead _ h hp.single rfl) rfl
    intro n hn
    cases hn
    obtain ⟨hheader, hmax⟩ := header_of_admitHeader (by simpa [Operation.admits] using hfills) hadm
    exact ⟨hheader.symm, hmax⟩
  | broadcast body =>
    obtain ⟨n, rfl, rfl⟩ := reaction_broadcast hr
    refine Peer.Reading.queue_read ?_ rfl nofun
    have hzero := entered_reads_of_isRead (.ok body) h hp.single rfl
    simpa [Peer.reads, Operation.isRead] using hzero

theorem step_keepsIds {s t : DispatchingServer} {input : Input} (hs : WellFormed s) (h : step s input = some t) :
    (input = .accepted none ∧ t = acceptHandler none s) ∨ (input ≠ .accepted none ∧ KeepsIds s t) := by
  obtain ⟨hrun, hstep⟩ := step_stepped h
  cases hstep with
  | accepted => exact .inl ⟨rfl, rfl⟩
  | refused error =>
    refine .inr ⟨by simp, ⟨hs.listed, hs.alive, hs.fresh⟩, rfl, rfl, fun v => rfl, fun v hv => hv⟩
  | gone u i result hd =>
    refine .inr ⟨by simp, ⟨hs.listed, hs.alive, hs.fresh⟩, rfl, rfl, fun v => rfl, fun v hv => hv⟩
  | handled u i op result hd hop hfills =>
    refine .inr ⟨by simp, ?_⟩
    obtain ⟨hp, ⟨body, -, hb⟩ | ⟨-, hl, -⟩⟩ := handled_cases i op result hs hd
    · exact hb.keepsIds hd (by rw [hp, handled_connectionId])
    · exact hl.keepsIds hs hd

theorem step_created {s t : DispatchingServer} {input : Input} (hs : WellFormed s)
    (h : step s input = some t) : s.created ≤ t.created := by
  obtain ⟨-, rfl⟩ | ⟨-, hkeeps⟩ := step_keepsIds hs h
  · rw [acceptHandler_fields.1]
    omega
  · exact hkeeps.created.ge

end NukeMs.Server
