import NukeMs.ClientNode
import NukeMs.ReferenceCounter
import NukeMs.Runs

/-!
The destructor of `ClientnodeMachine` against the thread that runs the `io_service`.
The destructor's wait has no loop around it, and the test in front of it is made
without the lock.
-/

namespace NukeMs.Client

open Runs ReferenceCounter

inductive DestructorPoint
  | close
  | stop
  | reset
  | join
  | test
  | lock
  | wait
  | waiting
  | notified
  | done
  deriving DecidableEq

/-- `held` references are left to a handler; in `decreaseRefCount` it also holds the mutex. -/
inductive IoThread
  | gone
  | idle
  | handler (held : ℕ)
  | decreaseRefCount (held : ℕ)
  deriving DecidableEq

inductive MutexHolder
  | destructor
  | ioThread
  deriving DecidableEq

/-- Every operation that is pending keeps a reference for its handler. -/
structure Teardown where
  pending : List Op
  referenceCount : Unsigned
  stopped : Bool
  referenceMutex : Option MutexHolder
  io : IoThread
  destructor : DestructorPoint

def IoThread.held : IoThread → ℕ
  | .gone | .idle => 0
  | .handler held | .decreaseRefCount held => held

def IoThread.mutex : IoThread → Option MutexHolder
  | .decreaseRefCount _ => some .ioThread
  | _ => none

namespace Teardown

def begin (pending : List Op) (io : IoThread) : Teardown where
  pending := pending
  referenceCount := BitVec.ofNat 32 (pending.length + io.held)
  stopped := false
  referenceMutex := io.mutex
  io := io
  destructor := .close

inductive Event
  | destructor
  | giveUpJoin
  | complete (i : ℕ) (outcome : Outcome)
  | runHandler (i : ℕ)
  | copyReference
  | startOperation (op : Op)
  | destroyReference
  | unlock
  | returnHandler
  | returnRun

def destructorStep (s : Teardown) : Option Teardown :=
  match s.destructor with
  | .close => some { s with pending := s.pending.map Op.abort, destructor := .stop }
  | .stop => some { s with stopped := true, destructor := .reset }
  | .reset => some { s with stopped := false, destructor := .join }
  | .join => if s.io = .gone then some { s with destructor := .test } else none
  | .test => some { s with destructor := if s.referenceCount ≠ 0 then .lock else .done }
  | .lock =>
    if s.referenceMutex = none then
      some { s with referenceMutex := some .destructor, destructor := .wait }
    else none
  | .wait => some { s with referenceMutex := none, destructor := .waiting }
  | .waiting => none
  | .notified => if s.referenceMutex = none then some { s with destructor := .done } else none
  | .done => none

def onReturned (s : Teardown) : Teardown :=
  if s.destructor = .waiting then { s with destructor := .notified } else s

def step (s : Teardown) : Event → Option Teardown
  | .destructor => destructorStep s
  -- `catchThread` waits for three seconds at most, then it detaches the thread
  | .giveUpJoin => if s.destructor = .join then some { s with destructor := .test } else none
  | .complete i outcome =>
    match s.pending[i]? with
    | none => none
    | some op =>
      if op.outcome.isNone && op.kind.admits outcome then
        some { s with pending := s.pending.set i { op with outcome := some outcome } }
      else none
  | .runHandler i =>
    match s.pending[i]? with
    | none => none
    | some op =>
      if s.io = .idle ∧ s.stopped = false ∧ op.outcome.isSome then
        some { s with pending := s.pending.eraseIdx i, io := .handler 1 }
      else none
  | .copyReference =>
    match s.io with
    | .handler (held + 1) =>
      if s.referenceMutex = none then
        some { s with referenceCount := increase s.referenceCount, io := .handler (held + 2) }
      else none
    | _ => none
  | .startOperation op =>
    match s.io with
    | .handler (_ + 1) =>
      if s.referenceMutex = none ∧ op.outcome = none then
        some { s with referenceCount := increase s.referenceCount, pending := s.pending ++ [op] }
      else none
    | _ => none
  | .destroyReference =>
    match s.io with
    | .handler (held + 1) =>
      if s.referenceMutex = none then
        let s := { s with
          referenceMutex := some .ioThread
          referenceCount := decrease s.referenceCount
          io := .decreaseRefCount held }
        some (if s.referenceCount = 0 then onReturned s else s)
      else none
    | _ => none
  | .unlock =>
    match s.io with
    | .decreaseRefCount held => some { s with referenceMutex := none, io := .handler held }
    | _ => none
  | .returnHandler => if s.io = .handler 0 then some { s with io := .idle } else none
  | .returnRun =>
    if s.io = .idle ∧ (s.stopped ∨ s.pending = []) then some { s with io := .gone } else none

/-- The destructor waits, and there is nobody left who would notify it. -/
def Stuck (s : Teardown) : Prop :=
  s.destructor = .waiting ∧ (s.referenceCount = 0 ∨ s.io = .gone)

def Quiet (pending : List Op) (io : IoThread) : Prop :=
  (begin pending io).referenceCount = 0 ∧
    (io = .gone ∨ pending = [] ∧ io.held = 0)

section
variable {s t : Teardown}

structure Released (s : Teardown) : Prop where
  counted : s.referenceCount = 0
  past : s.destructor ≠ .lock ∧ s.destructor ≠ .wait ∧ s.destructor ≠ .waiting
  unreferenced : s.io = .gone ∨ s.pending = [] ∧ s.io.held = 0

theorem Released.destructorStep (hs : Released s) (h : destructorStep s = some t) : Released t := by
  obtain ⟨hcount, hpast, href⟩ := hs
  unfold Teardown.destructorStep at h
  split at h
  · cases h
    exact ⟨hcount, by simp, href.imp_right fun hr => ⟨by simp [hr.1], hr.2⟩⟩
  · cases h
    exact ⟨hcount, by simp, href⟩
  · cases h
    exact ⟨hcount, by simp, href⟩
  · split at h
    · cases h
      exact ⟨hcount, by simp, href⟩
    · cases h
  · cases h
    exact ⟨hcount, by simp [hcount], href⟩
  next hlock => exact absurd hlock hpast.1
  next hwait => exact absurd hwait hpast.2.1
  · cases h
  · split at h
    · cases h
      exact ⟨hcount, by simp, href⟩
    · cases h
  · cases h

theorem step_released {event : Event} (hs : Released s) (h : step s event = some t) :
    Released t := by
  obtain ⟨hcount, hpast, href⟩ := hs
  have hnone {held : ℕ} : s.io ≠ .handler (held + 1) := by
    intro hio
    rw [hio] at href
    obtain hgone | ⟨-, hheld⟩ := href
    · cases hgone
    · cases hheld
  cases event with
  | destructor => exact Released.destructorStep ⟨hcount, hpast, href⟩ h
  | giveUpJoin =>
    simp only [step, Option.ite_none_right_eq_some, Option.some.injEq] at h
    obtain ⟨-, rfl⟩ := h
    exact ⟨hcount, by simp, href⟩
  | complete i outcome =>
    simp only [step] at h
    split at h
    · cases h
    next op hop =>
      split at h
      · cases h
        refine ⟨hcount, hpast, href.imp_right ?_⟩
        intro hr
        rw [hr.1] at hop
        cases hop
      · cases h
  | runHandler i =>
    simp only [step] at h
    split at h
    · cases h
    next op hop =>
      split at h
      next hidle =>
        obtain hgone | ⟨hempty, -⟩ := href
        · rw [hidle.1] at hgone
          cases hgone
        · rw [hempty] at hop
          cases hop
      next => cases h
  | copyReference =>
    simp only [step] at h
    cases h
  | startOperation op =>
    simp only [step] at h
    cases h
  | destroyReference =>
    simp only [step] at h
    cases h
  | unlock =>
    simp only [step] at h
    split at h
    next held hio =>
      cases h
      refine ⟨hcount, hpast, href.elim ?_ fun hr => .inr ⟨hr.1, ?_⟩⟩
      · intro hgone
        rw [hio] at hgone
        cases hgone
      · rw [hio] at hr
        exact hr.2
    next => cases h
  | returnHandler =>
    simp only [step, Option.ite_none_right_eq_some, Option.some.injEq] at h
    obtain ⟨hio, rfl⟩ := h
    refine ⟨hcount, hpast, href.elim ?_ fun hr => .inr ⟨hr.1, rfl⟩⟩
    intro hgone
    rw [hio] at hgone
    cases hgone
  | returnRun =>
    simp only [step, Option.ite_none_right_eq_some, Option.some.injEq] at h
    obtain ⟨-, rfl⟩ := h
    exact ⟨hcount, hpast, .inl rfl⟩

theorem begin_released {pending : List Op} {io : IoThread} (h : Quiet pending io) :
    Released (begin pending io) :=
  ⟨h.1, by simp [begin], h.2⟩

structure Starting (s : Teardown) : Prop where
  counted : s.referenceCount = BitVec.ofNat 32 (s.pending.length + s.io.held)
  stopped : s.stopped = false
  mutex : s.referenceMutex = s.io.mutex
  destructor : s.destructor = .close

theorem destroyReference_eq {held : ℕ} (hio : s.io = .handler (held + 1))
    (hmutex : s.referenceMutex = none) (hwaiting : s.destructor ≠ .waiting) :
    step s .destroyReference = some { s with
      referenceMutex := some .ioThread
      referenceCount := decrease s.referenceCount
      io := .decreaseRefCount held } := by
  simp only [step, hio, hmutex, if_true, onReturned, if_neg hwaiting, ite_self]

theorem unlock_eq {held : ℕ} (hio : s.io = .decreaseRefCount held) :
    step s .unlock = some { s with referenceMutex := none, io := .handler held } := by
  simp only [step, hio]

theorem finishes_handler (held : ℕ) (hio : s.io = .handler held) (hmutex : s.referenceMutex = none)
    (hwaiting : s.destructor ≠ .waiting) :
    ∃ events, exec step s events = some { s with
      referenceCount := s.referenceCount - BitVec.ofNat 32 held
      io := .idle } := by
  induction held generalizing s with
  | zero =>
    refine ⟨[.returnHandler], ?_⟩
    have hcount : s.referenceCount - BitVec.ofNat 32 0 = s.referenceCount := BitVec.sub_zero _
    rw [hcount]
    simp [exec, step, hio]
  | succ held ih =>
    obtain ⟨events, hevents⟩ := ih (s := { s with
      referenceMutex := none
      referenceCount := decrease s.referenceCount
      io := .handler held }) rfl rfl hwaiting
    refine ⟨.destroyReference :: .unlock :: events, ?_⟩
    rw [exec_cons]
    refine ⟨_, destroyReference_eq hio hmutex hwaiting, ?_⟩
    rw [exec_cons]
    refine ⟨_, unlock_eq rfl, ?_⟩
    have hcount : decrease s.referenceCount - BitVec.ofNat 32 held =
        s.referenceCount - BitVec.ofNat 32 (held + 1) := by
      simp only [decrease]
      bv_omega
    rw [hevents, hcount, hmutex]

theorem finishes (hio : s.io ≠ .gone) (hwaiting : s.destructor ≠ .waiting)
    (hmutex : s.referenceMutex = s.io.mutex) :
    ∃ events, exec step s events = some { s with
      referenceCount := s.referenceCount - BitVec.ofNat 32 s.io.held
      referenceMutex := none
      io := .idle } := by
  cases hthread : s.io with
  | gone => exact absurd hthread hio
  | idle =>
    rw [hthread] at hmutex
    have hfree : s.referenceMutex = none := hmutex
    have hcount : s.referenceCount - BitVec.ofNat 32 0 = s.referenceCount := BitVec.sub_zero _
    refine ⟨[], ?_⟩
    rw [IoThread.held, hcount, ← hthread, ← hfree]
    rfl
  | handler held =>
    rw [hthread] at hmutex
    have hfree : s.referenceMutex = none := hmutex
    obtain ⟨events, hevents⟩ := finishes_handler held hthread hfree hwaiting
    refine ⟨events, ?_⟩
    rw [hevents, IoThread.held, ← hfree]
  | decreaseRefCount held =>
    obtain ⟨events, hevents⟩ := finishes_handler held
      (s := { s with referenceMutex := none, io := .handler held }) rfl rfl hwaiting
    refine ⟨.unlock :: events, ?_⟩
    rw [exec_cons]
    exact ⟨_, unlock_eq hthread, hevents⟩

theorem stuck_of_gone (hmutex : s.referenceMutex = none) (hio : s.io = .gone)
    (hpoint : s.destructor = .reset) (hcount : s.referenceCount ≠ 0) :
    ∃ events t, exec step s events = some t ∧ Stuck t := by
  refine ⟨List.replicate 5 .destructor, { s with stopped := false, destructor := .waiting }, ?_, rfl,
    .inr hio⟩
  have hzero : ¬ s.referenceCount = 0#32 := hcount
  simp [exec, step, destructorStep, hmutex, hio, hpoint, hzero, List.replicate]

theorem Starting.opening (hs : Starting s) : exec step s [.destructor, .destructor] =
    some { s with pending := s.pending.map Op.abort, stopped := true, destructor := .reset } := by
  simp [exec, step, destructorStep, hs.destructor]

theorem stuck_of_count (hs : Starting s) (hcount : s.referenceCount ≠ 0) :
    ∃ events t, exec step s events = some t ∧ Stuck t := by
  have hopening := hs.opening
  by_cases hgone : s.io = .gone
  · have hfree : s.referenceMutex = none := by
      rw [hs.mutex, hgone]
      rfl
    obtain ⟨events, t, ht, hstuck⟩ := stuck_of_gone (s := { s with
      pending := s.pending.map Op.abort, stopped := true, destructor := .reset }) hfree hgone rfl
      hcount
    exact ⟨_, t, exec_append.mpr ⟨_, hopening, ht⟩, hstuck⟩
  · have hrest : s.referenceCount - BitVec.ofNat 32 s.io.held = BitVec.ofNat 32 s.pending.length := by
      rw [hs.counted, BitVec.ofNat_add, BitVec.add_sub_cancel]
    by_cases hpending : BitVec.ofNat 32 s.pending.length = 0
    · -- the handler outlasts the join, and drops its references after the test
      have htest : exec step { s with
          pending := s.pending.map Op.abort, stopped := true, destructor := .reset }
          [.destructor, .giveUpJoin, .destructor] = some { s with
            pending := s.pending.map Op.abort, stopped := false, destructor := .lock } := by
        have hzero : ¬ s.referenceCount = 0#32 := hcount
        simp [exec, step, destructorStep, hzero]
      obtain ⟨events, hevents⟩ := finishes (s := { s with
        pending := s.pending.map Op.abort, stopped := false, destructor := .lock }) hgone
        (by simp) hs.mutex
      refine ⟨_, _, exec_append.mpr ⟨_, hopening, exec_append.mpr ⟨_, htest, exec_append.mpr ⟨_,
        hevents, show exec step _ [.destructor, .destructor] = some _ from rfl⟩⟩⟩, rfl, .inl ?_⟩
      exact hrest.trans hpending
    · -- the thread returns from `run` while there are handlers in the queue
      obtain ⟨events, hevents⟩ := finishes (s := { s with
        pending := s.pending.map Op.abort, stopped := true, destructor := .reset }) hgone
        (by simp) hs.mutex
      obtain ⟨more, t, ht, hstuck⟩ := stuck_of_gone (s := { s with
        pending := s.pending.map Op.abort
        referenceCount := s.referenceCount - BitVec.ofNat 32 s.io.held
        stopped := true
        referenceMutex := none
        io := .gone
        destructor := .reset }) rfl rfl rfl (by rw [hrest]; exact hpending)
      refine ⟨_, t, exec_append.mpr ⟨_, hopening, exec_append.mpr ⟨_, hevents,
        exec_append.mpr ⟨_, show exec step _ [.returnRun] = some _ from rfl, ht⟩⟩⟩, hstuck⟩

theorem begin_starting (pending : List Op) (io : IoThread) : Starting (begin pending io) :=
  ⟨rfl, rfl, rfl, rfl⟩

theorem stuck_of_handler {held : ℕ} (hs : Starting s) (hio : s.io = .handler (held + 1))
    (hzero : s.referenceCount = 0) : ∃ events t, exec step s events = some t ∧ Stuck t := by
  have hmutex : s.referenceMutex = none := by
    rw [hs.mutex, hio]
    rfl
  have hdestroy := destroyReference_eq hio hmutex (by rw [hs.destructor]; nofun)
  have hcounted : decrease s.referenceCount = BitVec.ofNat 32 (s.pending.length + held) := by
    rw [hs.counted, hio, IoThread.held, ← Nat.add_assoc, BitVec.ofNat_add, decrease]
    exact BitVec.add_sub_cancel _ _
  have hleft : decrease s.referenceCount ≠ 0 := by
    rw [hzero]
    decide
  obtain ⟨events, t, ht, hstuck⟩ := stuck_of_count (s := { s with
    referenceMutex := some .ioThread
    referenceCount := decrease s.referenceCount
    io := .decreaseRefCount held }) ⟨hcounted, hs.stopped, rfl, hs.destructor⟩ hleft
  exact ⟨_, t, exec_cons.mpr ⟨_, hdestroy, ht⟩, hstuck⟩

theorem takes (hio : s.io = .idle) (hstopped : s.stopped = false) (hpending : s.pending ≠ []) :
    ∃ events, exec step s events = some { s with
      pending := s.pending.eraseIdx 0
      io := .handler 1 } := by
  obtain ⟨op, ops, hops⟩ := List.exists_cons_of_ne_nil hpending
  cases hdone : op.outcome with
  | some outcome =>
    refine ⟨[.runHandler 0], ?_⟩
    simp [exec, step, hops, hio, hstopped, hdone]
  | none =>
    have hadm : op.kind.admits operationAborted = true := by
      cases op.kind <;> rfl
    refine ⟨[.complete 0 operationAborted, .runHandler 0], ?_⟩
    simp [exec, step, hops, hio, hstopped, hdone, hadm]

theorem stuck_of_pending (hs : Starting s) (hio : s.io = .idle) (hpending : s.pending ≠ [])
    (hzero : s.referenceCount = 0) : ∃ events t, exec step s events = some t ∧ Stuck t := by
  obtain ⟨events, hevents⟩ := takes hio hs.stopped hpending
  have hlength : (s.pending.eraseIdx 0).length + 1 = s.pending.length := by
    obtain ⟨op, ops, hops⟩ := List.exists_cons_of_ne_nil hpending
    rw [hops]
    rfl
  have hcounted : s.referenceCount =
      BitVec.ofNat 32 ((s.pending.eraseIdx 0).length + (IoThread.handler 1).held) := by
    rw [IoThread.held, hlength, hs.counted, hio]
    rfl
  have hfree : s.referenceMutex = none := by
    rw [hs.mutex, hio]
    rfl
  obtain ⟨more, t, ht, hstuck⟩ := stuck_of_handler (s := { s with
    pending := s.pending.eraseIdx 0
    io := .handler 1 }) ⟨hcounted, hs.stopped, hfree, hs.destructor⟩ rfl hzero
  exact ⟨_, t, exec_append.mpr ⟨_, hevents, ht⟩, hstuck⟩

theorem stuck_of_thread (hs : Starting s) (hgone : s.io ≠ .gone)
    (hleft : ¬ (s.pending = [] ∧ s.io.held = 0)) (hzero : s.referenceCount = 0) :
    ∃ events t, exec step s events = some t ∧ Stuck t := by
  by_cases hheld : s.io.held = 0
  · have hpending : s.pending ≠ [] := fun hempty => hleft ⟨hempty, hheld⟩
    obtain ⟨events, hevents⟩ := finishes hgone (by rw [hs.destructor]; nofun) hs.mutex
    have hcount : s.referenceCount - BitVec.ofNat 32 s.io.held = s.referenceCount := by
      rw [hheld]
      exact BitVec.sub_zero _
    have hcounted : s.referenceCount = BitVec.ofNat 32 (s.pending.length + IoThread.idle.held) := by
      rw [hs.counted, hheld]
      rfl
    rw [hcount] at hevents
    obtain ⟨more, t, ht, hstuck⟩ := stuck_of_pending (s := { s with
      referenceMutex := none
      io := .idle }) ⟨hcounted, hs.stopped, rfl, hs.destructor⟩ rfl hpending hzero
    exact ⟨_, t, exec_append.mpr ⟨_, hevents, ht⟩, hstuck⟩
  · obtain ⟨held, hsucc⟩ := Nat.exists_eq_succ_of_ne_zero hheld
    cases hio : s.io with
    | gone => exact absurd hio hgone
    | idle =>
      rw [hio] at hheld
      exact absurd rfl hheld
    | handler references =>
      rw [hio, IoThread.held] at hsucc
      rw [hsucc] at hio
      exact stuck_of_handler hs hio hzero
    | decreaseRefCount references =>
      rw [hio, IoThread.held] at hsucc
      rw [hsucc] at hio
      have hcounted : s.referenceCount =
          BitVec.ofNat 32 (s.pending.length + (IoThread.handler (held + 1)).held) := by
        rw [hs.counted, hio]
        rfl
      obtain ⟨events, t, ht, hstuck⟩ := stuck_of_handler (s := { s with
        referenceMutex := none
        io := .handler (held + 1) }) ⟨hcounted, hs.stopped, rfl, hs.destructor⟩ rfl hzero
      exact ⟨_, t, exec_cons.mpr ⟨_, unlock_eq hio, ht⟩, hstuck⟩

theorem stuck_of_not_quiet {pending : List Op} {io : IoThread} (h : ¬ Quiet pending io) :
    ∃ events t, exec step (begin pending io) events = some t ∧ Stuck t := by
  have hs := begin_starting pending io
  by_cases hcount : (begin pending io).referenceCount = 0
  · have hleft := not_or.mp fun hc => h ⟨hcount, hc⟩
    exact stuck_of_thread hs hleft.1 hleft.2 hcount
  · exact stuck_of_count hs hcount

end

theorem teardown_iff (pending : List Op) (io : IoThread) :
    (∀ events s, exec step (begin pending io) events = some s → ¬ Stuck s) ↔ Quiet pending io := by
  constructor
  · intro h
    by_contra hquiet
    obtain ⟨events, s, hrun, hstuck⟩ := stuck_of_not_quiet hquiet
    exact h events s hrun hstuck
  · intro hquiet events s hrun hstuck
    have hreleased : Released s :=
      exec_invariant (fun _ _ _ hs h => step_released hs h) (begin_released hquiet) hrun
    exact hreleased.past.2.2 hstuck.1

theorem resolving_stuck : ∃ c : ClientNode,
    exec (@NukeMs.Client.step littleEndianHost) NukeMs.Client.init
      [.connectTo "a b".toList .started] = some c ∧
      ∃ events s, exec step (begin c.pending .idle) events = some s ∧ Stuck s := by
  refine ⟨_, rfl, [.destructor, .destructor, .returnRun, .destructor, .destructor, .destructor,
    .destructor, .destructor], _, rfl, rfl, .inr rfl⟩

end Teardown

end NukeMs.Client
