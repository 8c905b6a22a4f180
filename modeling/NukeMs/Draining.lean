import Mathlib.Algebra.BigOperators.Group.Finset.Basic
import NukeMs.PeerLifecycle

namespace NukeMs.Server

open Runs

def Input.isOf (u : ℕ) : Input → Bool
  | .completed v _ _ => v == u
  | .accepted _ => false

def Input.fails : Input → Bool
  | .completed _ _ (.error _) => true
  | _ => false

def outstanding (s : DispatchingServer) : ℕ := ∑ v ∈ Finset.range s.created, (s.peer v).pending.length

section
variable {u i : ℕ} {s t : DispatchingServer}

theorem outstanding_of_one (hu : u < s.created) (hcreated : t.created = s.created)
    (hother : ∀ v, v ≠ u → t.peer v = s.peer v)
    (hone : (t.peer u).pending.length + 1 = (s.peer u).pending.length) :
    outstanding t + 1 = outstanding s := by
  have hmem : u ∈ Finset.range s.created := Finset.mem_range.mpr hu
  have hrest : ∑ v ∈ (Finset.range s.created).erase u, (t.peer v).pending.length =
      ∑ v ∈ (Finset.range s.created).erase u, (s.peer v).pending.length := by
    apply Finset.sum_congr rfl
    intro v hv
    rw [hother v (Finset.ne_of_mem_erase hv)]
  rw [outstanding, outstanding, hcreated, ← Finset.add_sum_erase _ _ hmem,
    ← Finset.add_sum_erase _ _ hmem, hrest]
  omega

theorem Lifecycle.isEmpty_iff (hs : Lifecycle s) : s.peersList.isEmpty = true ↔ outstanding s = 0 := by
  have hempty : s.peersList.isEmpty = true ↔ ∀ v, ¬ IsListed v s := by
    rw [Std.TreeMap.isEmpty_iff_forall_not_mem]
    constructor
    · rintro hnone v ⟨id, hid⟩
      apply hnone id
      rw [Std.TreeMap.mem_iff_isSome_getElem?, hid]
      rfl
    · intro hnone id hid
      rw [Std.TreeMap.mem_iff_isSome_getElem?] at hid
      obtain ⟨v, hv⟩ := Option.isSome_iff_exists.mp hid
      exact hnone v ⟨id, hv⟩
  rw [hempty, outstanding, Finset.sum_eq_zero_iff]
  constructor
  · intro hnone v _
    rw [List.length_eq_zero_iff]
    by_contra hpending
    exact hnone v ((hs.invariant.listed v).mpr hpending)
  · intro hzero v hlisted
    have hlt := hs.wellFormed.lt_created (hs.wellFormed.isListed_iff.mp hlisted)
    have hpending := hzero v (Finset.mem_range.mpr hlt)
    exact (hs.invariant.listed v).mp hlisted (List.length_eq_zero_iff.mp hpending)

end

section
variable [HandlerCopies] [Host] {u i : ℕ} {s t : DispatchingServer} {error : ErrorCode} {input : Input}

omit [HandlerCopies] in
theorem reaction_error (op : Operation) (error : ErrorCode) :
    reaction op (.error error) = .fail error.message := by
  cases op <;> rfl

theorem failed_step (hs : Lifecycle s) (h : step s (.completed u i (.error error)) = some t) :
    Local u s t ∧ u < s.created ∧ t.status = s.status ∧
      (t.peer u).pending.length + 1 = (s.peer u).pending.length := by
  obtain ⟨hrun, hstep⟩ := step_stepped h
  cases hstep with
  | gone u i result hd =>
    have hnone := (hs.lives u).pending.mp hd
    simp [step, hnone] at h
  | handled u i op result hd hop hfills =>
    have hr := reaction_error op error
    obtain ⟨hlocal, hpeer, hstatus⟩ := invoke_local i op (.error error) hs.wellFormed hd (by rw [hr]; rfl)
    have hlen := entered_length (.error error) hop
    rw [hr] at hstatus
    refine ⟨hlocal, hs.wellFormed.lt_created hd, hstatus, ?_⟩
    have hnone : started (.fail error.message) = [] := rfl
    rw [hpeer, hr, handled_pending, hnone, List.append_nil]
    exact hlen

theorem Lifecycle.fail (hs : Lifecycle s) (hmost : WithinLimit s) (hcreated : s.created < 2 ^ 31 - 1)
    (hfails : input.fails = true) (h : step s input = some t) :
    Lifecycle t ∧ WithinLimit t ∧ t.created = s.created ∧ t.status = .running ∧
      outstanding t + 1 = outstanding s := by
  obtain ⟨hrun, -⟩ := step_stepped h
  match input with
  | .completed u i (.error error) =>
    obtain ⟨hlocal, hu, hsame, hone⟩ := failed_step hs h
    have hstatus : t.status = .running := hsame.trans hrun
    refine ⟨step_lifecycle hs hmost h (hlocal.created ▸ hcreated) (by simp [hstatus]), ?_,
      hlocal.created, hstatus, outstanding_of_one hu hlocal.created hlocal.other hone⟩
    intro v
    by_cases hv : v = u
    · have hlimit := hmost u
      rw [hv]
      omega
    · rw [hlocal.other v hv]
      exact hmost v

theorem Lifecycle.failable (hs : Lifecycle s) (hrun : s.status = .running)
    (hlisted : s.peersList.isEmpty = false) :
    ∃ u i, ∀ error, (step s (.completed u i (.error error))).isSome = true := by
  have hsome : outstanding s ≠ 0 := by
    intro hzero
    rw [hs.isEmpty_iff.mpr hzero] at hlisted
    cases hlisted
  obtain ⟨u, -, hu⟩ := Finset.exists_ne_zero_of_sum_ne_zero hsome
  obtain ⟨op, ops, hpending⟩ := List.exists_cons_of_ne_nil (List.length_pos_iff.mp (Nat.pos_of_ne_zero hu))
  have hlive := (hs.lives u).alive hpending
  refine ⟨u, 0, ?_⟩
  intro error
  simp [step, hpending, hrun, hlive, Operation.admits]

theorem Lifecycle.fails_run (inputs : List Input) (hs : Lifecycle s) (hmost : WithinLimit s)
    (hcreated : s.created < 2 ^ 31 - 1) (hrun : s.status = .running)
    (hfails : ∀ input ∈ inputs, input.fails = true) (h : exec step s inputs = some t) :
    Lifecycle t ∧ t.status = .running ∧ inputs.length + outstanding t = outstanding s := by
  induction inputs generalizing s with
  | nil =>
    cases h
    exact ⟨hs, hrun, Nat.zero_add _⟩
  | cons input inputs ih =>
    obtain ⟨hfirst, hrest⟩ := List.forall_mem_cons.mp hfails
    obtain ⟨r, hr, ht⟩ := exec_cons.mp h
    obtain ⟨hlife, hlimit, hsame, hstill, hless⟩ := hs.fail hmost hcreated hfirst hr
    obtain ⟨hend, hstatus, hcount⟩ := ih hlife hlimit (hsame ▸ hcreated) hstill hrest ht
    refine ⟨hend, hstatus, ?_⟩
    rw [List.length_cons]
    omega

theorem sheds_run {before : List Input} (hbefore : exec step init before = some s)
    (hmost : Along step (fun s _ _ => WithinLimit s) init before) (hlimit : WithinLimit s)
    (hcreated : s.created < 2 ^ 31 - 1) (hrun : s.status = .running) (inputs : List Input)
    (hfails : ∀ input ∈ inputs, input.fails = true) (h : exec step s inputs = some t) :
    inputs.length + outstanding t = outstanding s ∧
      (t.peersList.isEmpty = true ↔ inputs.length = outstanding s) ∧
      (t.peersList.isEmpty = false →
        ∃ u i, ∀ error, (step t (.completed u i (.error error))).isSome = true) := by
  obtain ⟨hs, -⟩ := lifecycle_run (J := fun _ => True) trivial (fun _ _ _ _ _ _ _ _ _ => trivial)
    hbefore hmost hcreated (by simp [hrun])
  obtain ⟨ht, hstatus, hcount⟩ := hs.fails_run inputs hlimit hcreated hrun hfails h
  refine ⟨hcount, ?_, ht.failable hstatus⟩
  rw [ht.isEmpty_iff]
  omega

def Drains (u : ℕ) (input : Input) (s t : DispatchingServer) : Prop :=
  (if input.isOf u then 1 else 0) + (t.peer u).pending.length + (writesTo u s.trace).length =
    (s.peer u).pending.length + (writesTo u t.trace).length

omit [Host] in
theorem drains_accept (hs : Lifecycle s) (hu : u < s.created) (hcreated : s.created + 1 < 2 ^ 31) :
    Drains u (.accepted none) s (acceptHandler none s) := by
  have hsame : (acceptHandler none s).peer u = s.peer u := by
    rw [acceptHandler_peer hs.wellFormed, if_neg (by omega), if_neg]
    intro hentry
    have hlt := hs.wellFormed.lt_created (hs.wellFormed.listed _ u hentry).2
    have hid := (hs.wellFormed.listed _ u hentry).1
    rw [hs.connectionId u hlt, getNextConnectionId_eq hs hcreated] at hid
    omega
  rw [Drains, acceptHandler_written, hsame]
  exact congrArg (· + _) (Nat.zero_add _)

theorem drains_handled {v : ℕ} {result : Completion} (hs : Lifecycle s)
    (hdead : v = u → ∃ error, result = .error error)
    (h : step s (.completed v i result) = some t) : Drains u (.completed v i result) s t := by
  unfold Drains
  by_cases hv : v = u
  · obtain ⟨error, rfl⟩ := hdead hv
    subst hv
    obtain ⟨hlocal, -, -, hone⟩ := failed_step hs h
    have hof : (Input.completed v i (.error error)).isOf v = true := beq_self_eq_true v
    rw [hof, if_pos rfl, hlocal.written]
    omega
  · have hof : (Input.completed v i result).isOf u = false := beq_eq_false_iff_ne.mpr hv
    rw [hof, if_neg Bool.false_ne_true]
    obtain ⟨hrun, hstep⟩ := step_stepped h
    cases hstep with
    | gone u i result hd =>
      have hnone := (hs.lives v).pending.mp hd
      simp [step, hnone] at h
    | handled v i op result hd hop hfills =>
      obtain ⟨-, ⟨body, -, hb⟩ | ⟨-, hl, -⟩⟩ := handled_cases i op result hs.wellFormed hd
      · rw [hb.other u (Ne.symm hv), hb.written]
        cases hgone : (s.peer u).destroyed with
        | true => simp
        | false =>
          simp only [Bool.false_eq_true, if_false, Peer.queue_pending, List.length_append,
            List.length_singleton]
          omega
      · rw [hl.other u (Ne.symm hv), hl.written, Nat.zero_add]

theorem drains_step (hs : Lifecycle s) (hu : u < s.created) (hcreated : t.created < 2 ^ 31 - 1)
    (hdead : ∀ i result, input = .completed u i result → ∃ error, result = .error error)
    (h : step s input = some t) : Drains u input s t := by
  cases input with
  | completed v i result =>
    apply drains_handled hs _ h
    rintro rfl
    exact hdead i result rfl
  | accepted error =>
    obtain ⟨-, hstep⟩ := step_stepped h
    cases hstep with
    | refused error => exact congrArg (· + _) (Nat.zero_add _)
    | accepted =>
      rw [acceptHandler_fields.1] at hcreated
      exact drains_accept hs hu (by omega)

omit [HandlerCopies] [Host] in
theorem Drains.add {r : DispatchingServer} {inputs : List Input} (h : Drains u input s r)
    (hrest : inputs.countP (Input.isOf u) + (t.peer u).pending.length + (writesTo u r.trace).length =
      (r.peer u).pending.length + (writesTo u t.trace).length) :
    (input :: inputs).countP (Input.isOf u) + (t.peer u).pending.length + (writesTo u s.trace).length =
      (s.peer u).pending.length + (writesTo u t.trace).length := by
  unfold Drains at h
  rw [List.countP_cons]
  omega

theorem exec_within {r : DispatchingServer} {inputs : List Input} (hr : WellFormed r)
    (h : exec step r inputs = some t) (hstatus : ∀ e, t.status ≠ .threw e) :
    r.created ≤ t.created ∧ ∀ e, r.status ≠ .threw e := by
  constructor
  · exact (exec_invariant (I := fun x => WellFormed x ∧ r.created ≤ x.created)
      (fun _ _ _ hx hy => ⟨step_wellFormed hx.1 hy, hx.2.trans (step_created hx.1 hy)⟩)
      ⟨hr, le_rfl⟩ h).2
  · cases inputs with
    | nil =>
      cases h
      exact hstatus
    | cons next inputs =>
      obtain ⟨_, hnext, -⟩ := exec_cons.mp h
      simp [(step_stepped hnext).1]

theorem Lifecycle.drains (inputs : List Input) (hs : Lifecycle s) (hu : u < s.created)
    (hmost : Along step (fun s _ _ => WithinLimit s) s inputs) (hcreated : t.created < 2 ^ 31 - 1)
    (hdead : ∀ i result, .completed u i result ∈ inputs → ∃ error, result = .error error)
    (hstatus : ∀ e, t.status ≠ .threw e) (h : exec step s inputs = some t) :
    Lifecycle t ∧ inputs.countP (Input.isOf u) + (t.peer u).pending.length + (writesTo u s.trace).length =
      (s.peer u).pending.length + (writesTo u t.trace).length := by
  induction inputs generalizing s with
  | nil =>
    cases h
    exact ⟨hs, congrArg (· + _) (Nat.zero_add _)⟩
  | cons input inputs ih =>
    obtain ⟨r, hr, ht⟩ := exec_cons.mp h
    obtain ⟨hlimit, hmost⟩ := hmost r hr
    obtain ⟨hgrows, hstill⟩ := exec_within (step_wellFormed hs.wellFormed hr) ht hstatus
    have hfirst := drains_step hs hu (by omega)
      (fun i result heq => hdead i result (heq ▸ List.mem_cons_self)) hr
    obtain ⟨hlife, hrest⟩ := ih (step_lifecycle hs hlimit hr (by omega) hstill)
      (hu.trans_le (step_created hs.wellFormed hr)) hmost
      (fun i result hmem => hdead i result (List.mem_cons_of_mem _ hmem)) ht
    exact ⟨hlife, hfirst.add hrest⟩

theorem drains_run {before : List Input} (hbefore : exec step init before = some s)
    (inputs : List Input) (h : exec step s inputs = some t)
    (hmost : Along step (fun s _ _ => WithinLimit s) init (before ++ inputs))
    (hcreated : t.created < 2 ^ 31 - 1) (hstatus : ∀ e, t.status ≠ .threw e) (hlisted : IsListed u s)
    (hdead : ∀ i result, .completed u i result ∈ inputs → ∃ error, result = .error error) :
    inputs.countP (Input.isOf u) + (t.peer u).pending.length + (writesTo u s.trace).length =
        (s.peer u).pending.length + (writesTo u t.trace).length ∧
      (IsListed u t ↔ inputs.countP (Input.isOf u) + (writesTo u s.trace).length <
        (s.peer u).pending.length + (writesTo u t.trace).length) := by
  have hwf := exec_invariant (fun _ _ _ hs h => step_wellFormed hs h) init_wellFormed hbefore
  obtain ⟨hgrows, hstill⟩ := exec_within hwf h hstatus
  obtain ⟨hs, -⟩ := lifecycle_run (J := fun _ => True) trivial (fun _ _ _ _ _ _ _ _ _ => trivial)
    hbefore (along_left hmost) (by omega) hstill
  have hu := hwf.lt_created (hwf.isListed_iff.mp hlisted)
  obtain ⟨ht, hcount⟩ := hs.drains inputs hu (along_append hmost hbefore) hcreated hdead hstatus h
  refine ⟨hcount, ?_⟩
  rw [ht.invariant.listed u, ← List.length_pos_iff]
  omega

end

def lostReceiver : List Input :=
  [.completed 0 0 (.ok [0x80, 5, 0, 0]), .completed 0 0 (.ok [0x41]),
    .completed 1 0 (.error ⟨false, "Connection reset by peer"⟩)]

theorem drains_run_lostReceiver : ∃ s t,
    exec (@step bindCopies littleEndianHost) init [.accepted none, .accepted none] = some s ∧
      exec (@step bindCopies littleEndianHost) s lostReceiver = some t ∧ IsListed 1 t := by
  have hmost := @withinLimit_along bindCopies littleEndianHost init
    ([.accepted none, .accepted none] ++ lostReceiver) 0 init_wellFormed (fun _ => le_rfl) (by decide)
  have hlisted : IsListed 1 (@acceptHandler bindCopies none (@acceptHandler bindCopies none init)) := ⟨2, rfl⟩
  refine ⟨_, _, rfl, rfl, (@drains_run bindCopies littleEndianHost 1 _ _
    [.accepted none, .accepted none] rfl lostReceiver rfl hmost (by decide) (by rintro e ⟨⟩) hlisted ?_).2.mpr ?_⟩
  · rintro i result (_ | ⟨_, _ | ⟨_, _ | ⟨_, ⟨⟩⟩⟩⟩)
    exact ⟨_, rfl⟩
  · exact Nat.lt_add_one 1

def brokenConnections : List Input :=
  [.completed 1 0 (.error ⟨false, "Broken pipe"⟩), .completed 0 0 (.error ⟨false, "End of file"⟩)]

theorem sheds_run_brokenConnections : ∃ s t,
    exec (@step bindCopies littleEndianHost) init [.accepted none, .accepted none] = some s ∧
      exec (@step bindCopies littleEndianHost) s brokenConnections = some t ∧ t.peersList.isEmpty = true := by
  have hmost := @withinLimit_along bindCopies littleEndianHost init
    ([.accepted none, .accepted none] ++ brokenConnections) 0 init_wellFormed (fun _ => le_rfl) (by decide)
  have hlimit : @WithinLimit bindCopies (@acceptHandler bindCopies none (@acceptHandler bindCopies none init)) :=
    (along_append hmost rfl _ rfl).1
  exact ⟨_, _, rfl, rfl, (@sheds_run bindCopies littleEndianHost _ _ [.accepted none, .accepted none] rfl
    (along_left hmost) hlimit (by decide) rfl brokenConnections (by decide) rfl).2.1.mpr rfl⟩

end NukeMs.Server
