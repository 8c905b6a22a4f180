import Mathlib.Data.Finset.Card
import Mathlib.Logic.Function.Basic
import Mathlib.Tactic.IntervalCases
import NukeMs.ReferenceCounter
import NukeMs.Runs

/-!
The `CountedReference` objects of one `ReferenceCounter`, constructed, copied and
destroyed by any number of threads that meet at `reference_mutex`. A reference is
live from the moment it is counted in until it is counted out.
-/

namespace NukeMs.CountedReferences

open ReferenceCounter Runs

inductive Change (ρ : Type) where
  | born (r : ρ)
  | died (r : ρ)

inductive Entry (ρ : Type) where
  | change (c : Change ρ)
  | action

section
variable {ρ : Type} [DecidableEq ρ]

def Change.apply (live : Finset ρ) : Change ρ → Finset ρ
  | .born r => insert r live
  | .died r => live.erase r

def aliveAfter (live : Finset ρ) (history : List (Change ρ)) : Finset ρ := history.foldl Change.apply live

def answer (action : Bool) (live : Finset ρ) : Change ρ → List (Entry ρ)
  | .born _ => []
  | .died r => if action = true ∧ live.erase r = ∅ then [.action] else []

def expected (action : Bool) (live : Finset ρ) : List (Change ρ) → List (Entry ρ)
  | [] => []
  | c :: history => .change c :: (answer action live c ++ expected action (c.apply live) history)

def Entry.changed : Entry ρ → Option (Change ρ)
  | .change c => some c
  | .action => none

end

inductive Instruction
  | lock
  | increment
  | decrement
  | testCount
  | assertCount
  | unlock

def increaseRefCount : List Instruction := [.lock, .increment, .unlock]

def decreaseRefCount : List Instruction := [.lock, .decrement, .testCount, .assertCount, .unlock]

inductive Operation (ρ : Type) where
  | construct (r : ρ)
  | copy (other r : ρ)
  | destroy (r : ρ)

namespace Operation

variable {ρ : Type}

def reference : Operation ρ → ρ
  | .construct r | .copy _ r | .destroy r => r

def code : Operation ρ → List Instruction
  | .construct _ | .copy _ _ => increaseRefCount
  | .destroy _ => decreaseRefCount

def destroys : Operation ρ → Bool
  | .destroy _ => true
  | _ => false

end Operation

/-- `running` is the call that a thread is in, with the number of instructions it has executed;
`busy` are the references that these calls construct or destroy. -/
structure Counter (τ ρ : Type) where
  action : Bool
  referenceCount : Unsigned
  owner : Option τ
  running : τ → Option (Operation ρ × ℕ)
  busy : Finset ρ
  log : List (Entry ρ)

inductive Input (τ ρ : Type) where
  | call (t : τ) (op : Operation ρ)
  | advance (t : τ)

section
variable {τ ρ : Type} [DecidableEq τ] [DecidableEq ρ]

def init (action : Bool) : Counter τ ρ := ⟨action, 0, none, fun _ => none, ∅, []⟩

def Counter.history (s : Counter τ ρ) : List (Change ρ) := s.log.filterMap Entry.changed

def Counter.live (s : Counter τ ρ) : Finset ρ := aliveAfter ∅ s.history

/-- Only live references are copied or destroyed, and no call is made on a reference that another
one is constructing or destroying. -/
def Operation.Allowed (live busy : Finset ρ) : Operation ρ → Prop
  | .construct r => r ∉ live ∧ r ∉ busy
  | .copy other r => other ∈ live ∧ other ∉ busy ∧ r ∉ live ∧ r ∉ busy
  | .destroy r => r ∈ live ∧ r ∉ busy

instance (live busy : Finset ρ) (op : Operation ρ) : Decidable (op.Allowed live busy) := by
  cases op <;> exact inferInstanceAs (Decidable (_ ∧ _))

def Operation.Legal (s : Counter τ ρ) (op : Operation ρ) : Prop := op.Allowed s.live s.busy

instance (s : Counter τ ρ) (op : Operation ρ) : Decidable (op.Legal s) :=
  inferInstanceAs (Decidable (op.Allowed s.live s.busy))

def execute (t : τ) (r : ρ) (s : Counter τ ρ) : Instruction → Option (Counter τ ρ)
  | .lock => if s.owner = none then some { s with owner := some t } else none
  | .increment =>
    some { s with
      referenceCount := increase s.referenceCount
      log := s.log ++ [.change (.born r)] }
  | .decrement =>
    some { s with
      referenceCount := decrease s.referenceCount
      log := s.log ++ [.change (.died r)] }
  | .testCount =>
    some (if s.referenceCount ≤ 0 ∧ s.action = true then { s with log := s.log ++ [.action] } else s)
  | .assertCount => if 0 ≤ s.referenceCount then some s else none
  | .unlock => some { s with owner := none }

def proceed (t : τ) (op : Operation ρ) (k : ℕ) (s : Counter τ ρ) : Counter τ ρ :=
  if k < op.code.length then { s with running := Function.update s.running t (some (op, k)) }
  else { s with running := Function.update s.running t none, busy := s.busy.erase op.reference }

def step (s : Counter τ ρ) : Input τ ρ → Option (Counter τ ρ)
  | .call t op =>
    if s.running t = none ∧ op.Legal s then
      some { s with
        running := Function.update s.running t (some (op, 0))
        busy := insert op.reference s.busy }
    else none
  | .advance t =>
    match s.running t with
    | none => none
    | some (op, k) =>
      match op.code[k]? with
      | none => none
      | some instruction => (execute t op.reference s instruction).map (proceed t op (k + 1))

def Counter.at (s : Counter τ ρ) (t : τ) (op : Operation ρ) (k : ℕ) : Counter τ ρ :=
  { s with running := Function.update s.running t (some (op, k)) }

inductive Steps (s : Counter τ ρ) : Input τ ρ → Counter τ ρ → Prop
  | call (t : τ) (op : Operation ρ) (hidle : s.running t = none) (hlegal : op.Legal s) :
    Steps s (.call t op) { s.at t op 0 with busy := insert op.reference s.busy }
  | lock (t : τ) (op : Operation ρ) (hrun : s.running t = some (op, 0)) (hfree : s.owner = none) :
    Steps s (.advance t) { s.at t op 1 with owner := some t }
  | increment (t : τ) (op : Operation ρ) (hrun : s.running t = some (op, 1)) (hop : op.destroys = false) :
    Steps s (.advance t) { s.at t op 2 with
      referenceCount := increase s.referenceCount
      log := s.log ++ [.change (.born op.reference)] }
  | decrement (t : τ) (r : ρ) (hrun : s.running t = some (.destroy r, 1)) :
    Steps s (.advance t) { s.at t (.destroy r) 2 with
      referenceCount := decrease s.referenceCount
      log := s.log ++ [.change (.died r)] }
  | testCount (t : τ) (r : ρ) (hrun : s.running t = some (.destroy r, 2)) :
    Steps s (.advance t) { s.at t (.destroy r) 3 with
      log := s.log ++ if s.action = true ∧ s.referenceCount = 0 then [.action] else [] }
  | assertCount (t : τ) (r : ρ) (hrun : s.running t = some (.destroy r, 3)) :
    Steps s (.advance t) (s.at t (.destroy r) 4)
  | unlock (t : τ) (op : Operation ρ) (k : ℕ) (hrun : s.running t = some (op, k))
    (hlast : k + 1 = op.code.length) :
    Steps s (.advance t) { s with
      running := Function.update s.running t none
      busy := s.busy.erase op.reference
      owner := none }

section
variable {s u : Counter τ ρ} {t : τ} {op : Operation ρ} {k : ℕ} {instruction : Instruction}

theorem steps_of_increase (hcode : op.code = increaseRefCount) (hop : op.destroys = false)
    (hrun : s.running t = some (op, k)) (hinstruction : op.code[k]? = some instruction)
    (h : (execute t op.reference s instruction).map (proceed t op (k + 1)) = some u) :
    Steps s (.advance t) u := by
  rw [hcode] at hinstruction
  obtain ⟨hk, -⟩ := List.getElem?_eq_some_iff.mp hinstruction
  replace hk : k < 3 := hk
  interval_cases k
  · cases hinstruction
    rw [execute] at h
    split at h
    next hfree =>
      cases h
      rw [proceed, hcode]
      exact .lock t op hrun hfree
    next => cases h
  · cases hinstruction
    cases h
    rw [proceed, hcode]
    exact .increment t op hrun hop
  · cases hinstruction
    cases h
    rw [proceed, hcode]
    exact .unlock t op 2 hrun (by rw [hcode]; rfl)

theorem steps_of_decrease {r : ρ} (hrun : s.running t = some (.destroy r, k))
    (hinstruction : decreaseRefCount[k]? = some instruction)
    (h : (execute t r s instruction).map (proceed t (.destroy r) (k + 1)) = some u) :
    Steps s (.advance t) u := by
  obtain ⟨hk, -⟩ := List.getElem?_eq_some_iff.mp hinstruction
  replace hk : k < 5 := hk
  interval_cases k
  · cases hinstruction
    rw [execute] at h
    split at h
    next hfree => cases h; exact .lock t (.destroy r) hrun hfree
    next => cases h
  · cases hinstruction
    cases h
    exact .decrement t r hrun
  · cases hinstruction
    cases h
    have htest := Steps.testCount t r hrun
    have hzero : s.referenceCount ≤ 0 ↔ s.referenceCount = 0 := BitVec.le_zero_iff
    by_cases hdue : s.action = true ∧ s.referenceCount = 0
    · rw [if_pos hdue] at htest
      rw [if_pos ⟨hzero.mpr hdue.2, hdue.1⟩]
      exact htest
    · rw [if_neg hdue, List.append_nil] at htest
      rw [if_neg (fun hboth => hdue ⟨hboth.2, hzero.mp hboth.1⟩)]
      exact htest
  · cases hinstruction
    rw [execute, if_pos (BitVec.le_def.mpr (Nat.zero_le _))] at h
    cases h
    exact .assertCount t r hrun
  · cases hinstruction
    cases h
    exact .unlock t (.destroy r) 4 hrun rfl

theorem steps_of_step {input : Input τ ρ} (h : step s input = some u) : Steps s input u := by
  cases input with
  | call t op =>
    simp only [step] at h
    split at h
    next hcall => cases h; exact .call t op hcall.1 hcall.2
    next => cases h
  | advance t =>
    simp only [step] at h
    split at h
    · cases h
    next op k hrun =>
      split at h
      · cases h
      next instruction hinstruction =>
        cases op with
        | construct r => exact steps_of_increase rfl rfl hrun hinstruction h
        | copy other r => exact steps_of_increase rfl rfl hrun hinstruction h
        | destroy r => exact steps_of_decrease hrun hinstruction h

end

theorem aliveAfter_append (live : Finset ρ) (history : List (Change ρ)) (c : Change ρ) :
    aliveAfter live (history ++ [c]) = c.apply (aliveAfter live history) := List.foldl_append ..

theorem expected_append (action : Bool) (live : Finset ρ) (history : List (Change ρ)) (c : Change ρ) :
    expected action live (history ++ [c]) =
      expected action live history ++ (.change c :: answer action (aliveAfter live history) c) := by
  induction history generalizing live with
  | nil => rw [List.nil_append, expected, expected, expected, List.append_nil, List.nil_append]; rfl
  | cons first history ih =>
    rw [List.cons_append, expected, expected, ih, List.cons_append, List.append_assoc]
    rfl

def Counter.due (s : Counter τ ρ) : List (Entry ρ) :=
  match s.owner.bind s.running with
  | some (.destroy _, 2) => if s.action = true ∧ s.live = ∅ then [.action] else []
  | _ => []

structure Registered (s : Counter τ ρ) : Prop where
  busy : ∀ t op k, s.running t = some (op, k) → op.reference ∈ s.busy
  distinct : ∀ t t' op op' k k', s.running t = some (op, k) → s.running t' = some (op', k') →
    op.reference = op'.reference → t = t'

def Owned (s : Counter τ ρ) : Prop :=
  ∀ t, s.owner = some t ↔ ∃ op k, s.running t = some (op, k) ∧ 0 < k

def Placed (s : Counter τ ρ) : Prop :=
  ∀ t op k, s.running t = some (op, k) → (op.reference ∈ s.live ↔ (op.destroys = true ↔ k ≤ 1))

structure Sound (s : Counter τ ρ) : Prop where
  counted : s.referenceCount.toNat = s.live.card
  owned : Owned s
  registered : Registered s
  placed : Placed s
  acted : s.log ++ s.due = expected s.action ∅ s.history

section
variable {s u : Counter τ ρ} {t : τ} {op : Operation ρ} {k k' : ℕ}

omit [DecidableEq ρ] in
theorem at_running (t' : τ) :
    (s.at t op k).running t' = if t' = t then some (op, k) else s.running t' :=
  Function.update_apply ..

omit [DecidableEq ρ] in
theorem Registered.move (h : Registered s) (hrun : s.running t = some (op, k))
    (hu : u.running = Function.update s.running t (some (op, k'))) (hbusy : u.busy = s.busy) :
    Registered u := by
  have hcall : ∀ t' op' n, u.running t' = some (op', n) → ∃ n', s.running t' = some (op', n') := by
    intro t' op' n ht'
    rw [hu, Function.update_apply] at ht'
    split at ht'
    next heq => cases ht'; exact ⟨k, heq ▸ hrun⟩
    next => exact ⟨n, ht'⟩
  constructor
  · intro t' op' n ht'
    obtain ⟨n', hs⟩ := hcall t' op' n ht'
    rw [hbusy]
    exact h.busy t' op' n' hs
  · intro t1 t2 op1 op2 n1 n2 h1 h2 href
    obtain ⟨m1, hs1⟩ := hcall t1 op1 n1 h1
    obtain ⟨m2, hs2⟩ := hcall t2 op2 n2 h2
    exact h.distinct t1 t2 op1 op2 m1 m2 hs1 hs2 href

theorem Registered.call (h : Registered s) (hfree : op.reference ∉ s.busy) :
    Registered { s.at t op 0 with busy := insert op.reference s.busy } := by
  have hcall : ∀ t' op' n, (s.at t op 0).running t' = some (op', n) →
      t' = t ∧ op' = op ∨ t' ≠ t ∧ s.running t' = some (op', n) := by
    intro t' op' n ht'
    rw [at_running] at ht'
    split at ht'
    next heq => cases ht'; exact .inl ⟨heq, rfl⟩
    next hne => exact .inr ⟨hne, ht'⟩
  constructor
  · intro t' op' n ht'
    obtain ⟨-, rfl⟩ | ⟨-, hs⟩ := hcall t' op' n ht'
    · exact Finset.mem_insert_self ..
    · exact Finset.mem_insert_of_mem (h.busy t' op' n hs)
  · intro t1 t2 op1 op2 n1 n2 h1 h2 href
    obtain ⟨rfl, rfl⟩ | ⟨-, hs1⟩ := hcall t1 op1 n1 h1
    · obtain ⟨rfl, -⟩ | ⟨-, hs2⟩ := hcall t2 op2 n2 h2
      · rfl
      · exact absurd (href ▸ h.busy t2 op2 n2 hs2) hfree
    · obtain ⟨rfl, rfl⟩ | ⟨-, hs2⟩ := hcall t2 op2 n2 h2
      · exact absurd (href ▸ h.busy t1 op1 n1 hs1) hfree
      · exact h.distinct t1 t2 op1 op2 n1 n2 hs1 hs2 href

theorem Registered.finish (h : Registered s) (hrun : s.running t = some (op, k))
    (hu : u.running = Function.update s.running t none) (hbusy : u.busy = s.busy.erase op.reference) :
    Registered u := by
  have hcall : ∀ t' op' n, u.running t' = some (op', n) → t' ≠ t ∧ s.running t' = some (op', n) := by
    intro t' op' n ht'
    rw [hu, Function.update_apply] at ht'
    split at ht'
    next => cases ht'
    next hne => exact ⟨hne, ht'⟩
  constructor
  · intro t' op' n ht'
    obtain ⟨hne, hs⟩ := hcall t' op' n ht'
    rw [hbusy, Finset.mem_erase]
    refine ⟨?_, h.busy t' op' n hs⟩
    intro href
    exact hne (h.distinct t' t op' op n k hs hrun href)
  · intro t1 t2 op1 op2 n1 n2 h1 h2 href
    exact h.distinct t1 t2 op1 op2 n1 n2 (hcall t1 op1 n1 h1).2 (hcall t2 op2 n2 h2).2 href

omit [DecidableEq ρ] in
theorem Owned.call (h : Owned s) (hidle : s.running t = none) : Owned (s.at t op 0) := by
  intro t'
  refine (h t').trans ?_
  rw [at_running]
  by_cases ht : t' = t
  · rw [if_pos ht, ht, hidle]
    simp
  · rw [if_neg ht]

omit [DecidableEq ρ] in
theorem Owned.lock (h : Owned s) (hfree : s.owner = none) : Owned { s.at t op 1 with owner := some t } := by
  intro t'
  by_cases ht : t' = t
  · subst ht
    exact ⟨fun _ => ⟨op, 1, (at_running t').trans (if_pos rfl), Nat.one_pos⟩, fun _ => rfl⟩
  · constructor
    · intro howner
      exact absurd (Option.some_inj.mp howner).symm ht
    · rintro ⟨op', n, hrun, hn⟩
      have howner := (h t').mpr ⟨op', n, ((at_running t').trans (if_neg ht)).symm.trans hrun, hn⟩
      rw [hfree] at howner
      cases howner

omit [DecidableEq ρ] in
theorem Owned.move (h : Owned s) (hrun : s.running t = some (op, k)) (hk : 0 < k) (hk' : 0 < k')
    (hu : u.running = Function.update s.running t (some (op, k'))) (howner : u.owner = s.owner) :
    Owned u := by
  intro t'
  rw [howner, h t', hu, Function.update_apply]
  by_cases ht : t' = t
  · rw [if_pos ht, ht]
    exact ⟨fun _ => ⟨op, k', rfl, hk'⟩, fun _ => ⟨op, k, hrun, hk⟩⟩
  · rw [if_neg ht]

omit [DecidableEq ρ] in
theorem Owned.finish (h : Owned s) (hrun : s.running t = some (op, k)) (hk : 0 < k)
    (hu : u.running = Function.update s.running t none) (howner : u.owner = none) : Owned u := by
  have hs : s.owner = some t := (h t).mpr ⟨op, k, hrun, hk⟩
  intro t'
  rw [howner, hu, Function.update_apply]
  refine ⟨nofun, ?_⟩
  rintro ⟨op', n, hother, hn⟩
  split at hother
  · cases hother
  next hne =>
    have hs' := (h t').mpr ⟨op', n, hother, hn⟩
    rw [hs] at hs'
    exact absurd (Option.some_inj.mp hs').symm hne

theorem Placed.move (h : Placed s) (hu : u.running = Function.update s.running t (some (op, k')))
    (hother : ∀ t' op' n, t' ≠ t → s.running t' = some (op', n) →
      (op'.reference ∈ u.live ↔ op'.reference ∈ s.live))
    (hself : op.reference ∈ u.live ↔ (op.destroys = true ↔ k' ≤ 1)) : Placed u := by
  intro t' op' n ht'
  rw [hu, Function.update_apply] at ht'
  split at ht'
  next => cases ht'; exact hself
  next hne => rw [hother t' op' n hne ht', h t' op' n ht']

theorem Placed.finish (h : Placed s) (hu : u.running = Function.update s.running t none)
    (hlive : u.live = s.live) : Placed u := by
  intro t' op' n ht'
  rw [hu, Function.update_apply] at ht'
  split at ht'
  next => cases ht'
  next => rw [hlive, h t' op' n ht']

omit [DecidableEq τ] in
theorem due_free (h : s.owner = none) : s.due = [] := by
  rw [Counter.due, h, Option.bind_none]

omit [DecidableEq τ] in
theorem due_destroy {r : ρ} (howner : s.owner = some t) (hrun : s.running t = some (.destroy r, 2)) :
    s.due = if s.action = true ∧ s.live = ∅ then [.action] else [] := by
  rw [Counter.due, howner, Option.bind_some, hrun]
  rfl

omit [DecidableEq τ] in
theorem due_other (howner : s.owner = some t) (hrun : s.running t = some (op, k))
    (h : k = 2 → op.destroys = false) : s.due = [] := by
  rw [Counter.due, howner, Option.bind_some, hrun]
  split
  next r heq =>
    cases heq
    cases h rfl
  next => rfl

omit [DecidableEq τ] in
theorem due_congr (hlog : u.log = s.log) (haction : u.action = s.action) (howner : u.owner = s.owner)
    (hrun : ∀ t, s.owner = some t → u.running t = s.running t) : u.due = s.due := by
  have hlive : u.live = s.live := by rw [Counter.live, Counter.history, hlog, Counter.live, Counter.history]
  rw [Counter.due, Counter.due, howner, haction, hlive]
  cases hs : s.owner with
  | none => rfl
  | some t => rw [Option.bind_some, Option.bind_some, hrun t hs]

omit [DecidableEq τ] [DecidableEq ρ] in
theorem history_change {c : Change ρ} (h : u.log = s.log ++ [.change c]) :
    u.history = s.history ++ [c] := by
  rw [Counter.history, h, List.filterMap_append]
  rfl

omit [DecidableEq τ] in
theorem live_change {c : Change ρ} (h : u.log = s.log ++ [.change c]) : u.live = c.apply s.live := by
  rw [Counter.live, history_change h, aliveAfter_append, Counter.live]

omit [DecidableEq τ] [DecidableEq ρ] in
theorem history_action {p : Prop} [Decidable p] (h : u.log = s.log ++ if p then [.action] else []) :
    u.history = s.history := by
  rw [Counter.history, h, List.filterMap_append]
  split
  · exact List.append_nil _
  · exact List.append_nil _

omit [DecidableEq τ] in
theorem expected_change {c : Change ρ} (hs : s.log = expected s.action ∅ s.history)
    (hu : u.log = s.log ++ [.change c]) (haction : u.action = s.action)
    (hdue : u.due = answer s.action s.live c) : u.log ++ u.due = expected u.action ∅ u.history := by
  rw [hdue, hu, haction, history_change hu, expected_append, ← hs, List.append_assoc]
  rfl

omit [DecidableEq τ] in
theorem Sound.locked (h : Sound s) (hrun : s.running t = some (op, k)) (hk : 0 < k) : s.owner = some t :=
  (h.owned t).mpr ⟨op, k, hrun, hk⟩

omit [DecidableEq τ] in
theorem Sound.reference_ne (h : Sound s) (hrun : s.running t = some (op, k)) {t' : τ} {op' : Operation ρ}
    {n : ℕ} (hne : t' ≠ t) (ht' : s.running t' = some (op', n)) : op'.reference ≠ op.reference := by
  intro href
  exact hne (h.registered.distinct t' t op' op n k ht' hrun href)

omit [DecidableEq τ] in
theorem Sound.logged (h : Sound s) (hdue : s.due = []) : s.log = expected s.action ∅ s.history := by
  have hacted := h.acted
  rw [hdue, List.append_nil] at hacted
  exact hacted

omit [DecidableEq τ] in
theorem Operation.Legal.unused (h : op.Legal s) : op.reference ∉ s.busy := by
  cases op with
  | construct r => exact h.2
  | copy other r => exact h.2.2.2
  | destroy r => exact h.2

theorem Sound.call (h : Sound s) (hidle : s.running t = none) (hlegal : op.Legal s) :
    Sound { s.at t op 0 with busy := insert op.reference s.busy } where
  counted := h.counted
  owned := h.owned.call hidle
  registered := h.registered.call hlegal.unused
  placed := by
    refine h.placed.move rfl (fun _ _ _ _ _ => Iff.rfl) ?_
    cases op with
    | construct r => exact iff_of_false hlegal.1 (by simp [Operation.destroys])
    | copy other r => exact iff_of_false hlegal.2.2.1 (by simp [Operation.destroys])
    | destroy r => exact iff_of_true hlegal.1 (by simp [Operation.destroys])
  acted := by
    have hdue : ({ s.at t op 0 with busy := insert op.reference s.busy } : Counter τ ρ).due = s.due := by
      refine due_congr rfl rfl rfl ?_
      intro t' howner
      obtain ⟨op', n, hrun, -⟩ := (h.owned t').mp howner
      have hne : t' ≠ t := by
        rintro rfl
        rw [hidle] at hrun
        cases hrun
      exact (at_running t').trans (if_neg hne)
    exact (congrArg (s.log ++ ·) hdue).trans h.acted

theorem Sound.quiet (h : Sound s) (hrun : s.running t = some (op, k)) (hlog : u.log = s.log)
    (hcount : u.referenceCount = s.referenceCount) (haction : u.action = s.action)
    (hbusy : u.busy = s.busy) (hu : u.running = Function.update s.running t (some (op, k')))
    (howned : Owned u) (hsame : k' ≤ 1 ↔ k ≤ 1) (hbefore : s.due = []) (hafter : u.due = []) : Sound u := by
  have hhistory : u.history = s.history := by rw [Counter.history, hlog, Counter.history]
  have hlive : u.live = s.live := by rw [Counter.live, hhistory, Counter.live]
  constructor
  · rw [hcount, hlive, h.counted]
  · exact howned
  · exact h.registered.move hrun hu hbusy
  · refine h.placed.move hu (fun _ _ _ _ _ => by rw [hlive]) ?_
    rw [hlive, h.placed t op k hrun, hsame]
  · rw [hafter, List.append_nil, hlog, haction, hhistory]
    exact h.logged hbefore

theorem Sound.lock (h : Sound s) (hrun : s.running t = some (op, 0)) (hfree : s.owner = none) :
    Sound { s.at t op 1 with owner := some t } := by
  have hrun' : (s.at t op 1).running t = some (op, 1) := (at_running t).trans (if_pos rfl)
  refine h.quiet hrun rfl rfl rfl rfl rfl (h.owned.lock hfree) (by simp) (due_free hfree) ?_
  exact due_other rfl hrun' (by simp)

theorem Sound.change {c : Change ρ} (h : Sound s) (hrun : s.running t = some (op, 1))
    (hlog : u.log = s.log ++ [.change c]) (haction : u.action = s.action) (howner : u.owner = s.owner)
    (hbusy : u.busy = s.busy) (hu : u.running = Function.update s.running t (some (op, 2)))
    (hcounted : u.referenceCount.toNat = u.live.card)
    (hother : ∀ r, r ≠ op.reference → (r ∈ u.live ↔ r ∈ s.live))
    (hself : op.reference ∈ u.live ↔ op.destroys = false) (hdue : u.due = answer s.action s.live c) :
    Sound u := by
  constructor
  · exact hcounted
  · exact h.owned.move hrun Nat.one_pos Nat.two_pos hu howner
  · exact h.registered.move hrun hu hbusy
  · refine h.placed.move hu ?_ ?_
    · intro t' op' n hne ht'
      exact hother _ (h.reference_ne hrun hne ht')
    · rw [hself]
      simp
  · have hbefore := due_other (h.locked hrun Nat.one_pos) hrun (by simp)
    exact expected_change (h.logged hbefore) hlog haction hdue

omit [DecidableEq τ] in
theorem Sound.increased {r : ρ} (h : Sound s) (hr : r ∉ s.live)
    (hroom : (insert r s.live).card < 2 ^ 32) :
    (increase s.referenceCount).toNat = (insert r s.live).card := by
  rw [Finset.card_insert_of_notMem hr] at hroom ⊢
  rw [← h.counted] at hroom ⊢
  exact increase_toNat hroom

omit [DecidableEq τ] in
theorem Sound.decreased {r : ρ} (h : Sound s) (hr : r ∈ s.live) :
    (decrease s.referenceCount).toNat = (s.live.erase r).card := by
  have hcard := Finset.card_erase_add_one hr
  rw [← h.counted] at hcard
  have hdecrease : (decrease s.referenceCount).toNat + 1 = s.referenceCount.toNat :=
    decrease_toNat (by omega)
  omega

theorem Sound.increment (h : Sound s) (hrun : s.running t = some (op, 1)) (hop : op.destroys = false)
    (hlog : u.log = s.log ++ [.change (.born op.reference)]) (hroom : u.live.card < 2 ^ 32)
    (hcount : u.referenceCount = increase s.referenceCount) (haction : u.action = s.action)
    (howner : u.owner = s.owner) (hbusy : u.busy = s.busy)
    (hu : u.running = Function.update s.running t (some (op, 2))) : Sound u := by
  have hlive : u.live = insert op.reference s.live := live_change hlog
  have hnew : op.reference ∉ s.live := by
    rw [h.placed t op 1 hrun, hop]
    simp
  have hrun' : u.running t = some (op, 2) := by rw [hu, Function.update_self]
  apply h.change hrun hlog haction howner hbusy hu
  · rw [hlive] at hroom ⊢
    rw [hcount]
    exact h.increased hnew hroom
  · intro r hr
    rw [hlive, Finset.mem_insert]
    exact or_iff_right hr
  · rw [hlive]
    exact iff_of_true (Finset.mem_insert_self ..) hop
  · exact due_other (howner.trans (h.locked hrun Nat.one_pos)) hrun' (fun _ => hop)

theorem Sound.decrement {r : ρ} (h : Sound s) (hrun : s.running t = some (.destroy r, 1))
    (hlog : u.log = s.log ++ [.change (.died r)])
    (hcount : u.referenceCount = decrease s.referenceCount) (haction : u.action = s.action)
    (howner : u.owner = s.owner) (hbusy : u.busy = s.busy)
    (hu : u.running = Function.update s.running t (some (.destroy r, 2))) : Sound u := by
  have hlive : u.live = s.live.erase r := live_change hlog
  have hmem : r ∈ s.live := (h.placed t _ 1 hrun).mpr (by simp [Operation.destroys])
  have hrun' : u.running t = some (.destroy r, 2) := by rw [hu, Function.update_self]
  apply h.change hrun hlog haction howner hbusy hu
  · rw [hcount, hlive]
    exact h.decreased hmem
  · intro r' hr
    rw [hlive, Finset.mem_erase]
    exact and_iff_right hr
  · rw [hlive]
    simp [Operation.reference, Operation.destroys]
  · rw [due_destroy (howner.trans (h.locked hrun Nat.one_pos)) hrun', haction, hlive, answer]

theorem Sound.testCount {r : ρ} (h : Sound s) (hrun : s.running t = some (.destroy r, 2))
    (hlog : u.log = s.log ++ if s.action = true ∧ s.referenceCount = 0 then [.action] else [])
    (hcount : u.referenceCount = s.referenceCount) (haction : u.action = s.action)
    (howner : u.owner = s.owner) (hbusy : u.busy = s.busy)
    (hu : u.running = Function.update s.running t (some (.destroy r, 3))) : Sound u := by
  have hhistory : u.history = s.history := history_action hlog
  have hlive : u.live = s.live := by rw [Counter.live, hhistory, Counter.live]
  have hlocked := h.locked hrun Nat.two_pos
  have hrun' : u.running t = some (.destroy r, 3) := by rw [hu, Function.update_self]
  have hzero : s.referenceCount = 0 ↔ s.live = ∅ := by
    rw [← Finset.card_eq_zero, ← h.counted, ← BitVec.toNat_inj]
    rfl
  constructor
  · rw [hcount, hlive, h.counted]
  · exact h.owned.move hrun Nat.two_pos (by simp) hu howner
  · exact h.registered.move hrun hu hbusy
  · refine h.placed.move hu (fun _ _ _ _ _ => by rw [hlive]) ?_
    have hgone := h.placed t _ 2 hrun
    rw [hlive, hgone]
    simp
  · have hacted := h.acted
    rw [due_destroy hlocked hrun] at hacted
    rw [due_other (howner.trans hlocked) hrun' (by simp), List.append_nil, hlog, haction, hhistory, ← hacted]
    simp only [hzero]

theorem Sound.assertCount {r : ρ} (h : Sound s) (hrun : s.running t = some (.destroy r, 3)) :
    Sound (s.at t (.destroy r) 4) := by
  have hrun' : (s.at t (.destroy r) 4).running t = some (.destroy r, 4) := (at_running t).trans (if_pos rfl)
  have hlocked := h.locked hrun (by simp)
  refine h.quiet hrun rfl rfl rfl rfl rfl (h.owned.move hrun (by simp) (by simp) rfl rfl) (by simp) ?_ ?_
  · exact due_other hlocked hrun (by simp)
  · exact due_other hlocked hrun' (by simp)

omit [DecidableEq τ] [DecidableEq ρ] in
theorem last_instruction (hlast : k + 1 = op.code.length) : 1 < k ∧ (k = 2 → op.destroys = false) := by
  cases op with
  | construct r => exact ⟨by rw [Nat.succ_injective hlast]; exact Nat.one_lt_two, fun _ => rfl⟩
  | copy other r => exact ⟨by rw [Nat.succ_injective hlast]; exact Nat.one_lt_two, fun _ => rfl⟩
  | destroy r =>
    cases Nat.succ_injective hlast
    exact ⟨by simp, by simp⟩

theorem Sound.unlock (h : Sound s) (hrun : s.running t = some (op, k)) (hlast : k + 1 = op.code.length) :
    Sound { s with
      running := Function.update s.running t none
      busy := s.busy.erase op.reference
      owner := none } := by
  obtain ⟨hk, hincrease⟩ := last_instruction hlast
  have hpos : 0 < k := Nat.zero_lt_of_lt hk
  constructor
  · exact h.counted
  · exact h.owned.finish hrun hpos rfl rfl
  · exact h.registered.finish hrun rfl rfl
  · exact h.placed.finish rfl rfl
  · rw [due_free rfl, List.append_nil]
    exact h.logged (due_other (h.locked hrun hpos) hrun hincrease)

theorem Steps.sound {input : Input τ ρ} (h : Steps s input u) (hs : Sound s) (hroom : u.live.card < 2 ^ 32) :
    Sound u := by
  cases h with
  | call t op hidle hlegal => exact hs.call hidle hlegal
  | lock t op hrun hfree => exact hs.lock hrun hfree
  | increment t op hrun hop => exact hs.increment hrun hop rfl hroom rfl rfl rfl rfl rfl
  | decrement t r hrun => exact hs.decrement hrun rfl rfl rfl rfl rfl rfl
  | testCount t r hrun => exact hs.testCount hrun rfl rfl rfl rfl rfl rfl
  | assertCount t r hrun => exact hs.assertCount hrun
  | unlock t op k hrun hlast => exact hs.unlock hrun hlast

theorem Steps.live_cases {input : Input τ ρ} (h : Steps s input u) :
    u.live = s.live ∨ ∃ r, u.live = insert r s.live ∨ u.live = s.live.erase r := by
  cases h with
  | increment t op hrun hop =>
    refine .inr ⟨op.reference, .inl ?_⟩
    exact live_change (s := s) (c := .born op.reference) rfl
  | decrement t r hrun =>
    refine .inr ⟨r, .inr ?_⟩
    exact live_change (s := s) (c := .died r) rfl
  | testCount t r hrun => exact .inl (congrArg (aliveAfter ∅) (history_action rfl))
  | _ => exact .inl rfl

theorem Steps.returned {input : Input τ ρ} (h : Steps s input u) (hs : Sound s)
    (hrun : s.running t = some (op, k)) (hreturned : u.running t = none) :
    op.reference ∈ u.live ↔ op.destroys = false := by
  have hbusy : ∀ t' call, Function.update s.running t' (some call) t ≠ none := by
    intro t' call
    rw [Function.update_apply, hrun]
    split <;> simp
  cases h with
  | unlock t' op' n hrun' hlast =>
    replace hreturned : Function.update s.running t' none t = none := hreturned
    rw [Function.update_apply] at hreturned
    split at hreturned
    next heq =>
      subst heq
      cases hrun.symm.trans hrun'
      have hk := (last_instruction hlast).1
      have hplaced := hs.placed t op k hrun
      rw [iff_false_right (Nat.not_le.mpr hk), Bool.not_eq_true] at hplaced
      exact hplaced
    next =>
      rw [hrun] at hreturned
      cases hreturned
  | _ => exact absurd hreturned (hbusy _ _)

/-- `unwrapped`: the counter moves by one at most, as a number. `returned`: a call that constructs a
reference leaves it alive, one that destroys it does not. -/
structure Right (s : Counter τ ρ) (input : Input τ ρ) (t : Counter τ ρ) : Prop where
  counted : t.referenceCount.toNat = t.live.card
  unwrapped : t.referenceCount.toNat = s.referenceCount.toNat ∨
    t.referenceCount.toNat = s.referenceCount.toNat + 1 ∨
    t.referenceCount.toNat + 1 = s.referenceCount.toNat
  acted : t.log ++ t.due = expected t.action ∅ t.history
  settled : t.owner = none → t.log = expected t.action ∅ t.history
  returned : ∀ thread op k, s.running thread = some (op, k) → t.running thread = none →
    (op.reference ∈ t.live ↔ op.destroys = false)

theorem Steps.right {input : Input τ ρ} (h : Steps s input u) (hs : Sound s) (hu : Sound u) :
    Right s input u where
  counted := hu.counted
  unwrapped := by
    rw [hu.counted, hs.counted]
    obtain hlive | ⟨r, hlive | hlive⟩ := h.live_cases
    · exact .inl (congrArg Finset.card hlive)
    · rw [hlive, Finset.card_insert_eq_ite]
      split
      · exact .inl rfl
      · exact .inr (.inl rfl)
    · rw [hlive]
      by_cases hr : r ∈ s.live
      · exact .inr (.inr (Finset.card_erase_add_one hr))
      · exact .inl (congrArg Finset.card (Finset.erase_eq_of_notMem hr))
  acted := hu.acted
  settled hfree := hu.logged (due_free hfree)
  returned _ _ _ hrun hreturned := h.returned hs hrun hreturned

omit [DecidableEq τ] in
theorem init_sound (action : Bool) : Sound (init action : Counter τ ρ) where
  counted := rfl
  owned t := by simp [init]
  registered := by constructor <;> simp [init]
  placed t op k hrun := by simp [init] at hrun
  acted := rfl

end

def Within (s : Counter τ ρ) : Prop := ∀ t op k, s.running t = some (op, k) → k < op.code.length

def Operation.change : Operation ρ → Change ρ
  | .construct r | .copy _ r => .born r
  | .destroy r => .died r

def perform (t : τ) (op : Operation ρ) : List (Input τ ρ) :=
  .call t op :: List.replicate op.code.length (.advance t)

def Serial (s : Counter τ ρ) : Finset ρ → List (τ × Operation ρ) → Prop
  | _, [] => True
  | live, (t, op) :: calls => s.running t = none ∧ op.Allowed live s.busy ∧
      (op.change.apply live).card < 2 ^ 32 ∧ Serial s (op.change.apply live) calls

/-- `goesOn`: a thread in a call waits for nothing but the mutex. `performs`: while the mutex is
free, any series of calls is carried out, and each of them is counted and answered. -/
structure Serves (s : Counter τ ρ) : Prop where
  goesOn : ∀ t call, s.running t = some call → s.owner = none ∨ s.owner = some t →
    ∃ u, step s (.advance t) = some u
  performs : s.owner = none → ∀ calls, Serial s s.live calls →
    ∃ u, exec step s (calls.flatMap fun call => perform call.1 call.2) = some u ∧ u.owner = none ∧
      u.live = aliveAfter s.live (calls.map fun call => call.2.change) ∧
      u.referenceCount.toNat = u.live.card ∧
      u.log = s.log ++ expected s.action s.live (calls.map fun call => call.2.change)

def Counter.after (s : Counter τ ρ) (op : Operation ρ) : Counter τ ρ :=
  { s with
    referenceCount := if op.destroys then decrease s.referenceCount else increase s.referenceCount
    log := s.log ++ .change op.change :: answer s.action s.live op.change }

section
variable {s u : Counter τ ρ} {t : τ} {op : Operation ρ} {k : ℕ}

omit [DecidableEq ρ] in
theorem Within.move (h : Within s) {call : Operation ρ × ℕ}
    (hu : u.running = Function.update s.running t (some call)) (hk : call.2 < call.1.code.length) :
    Within u := by
  intro t' op' n ht'
  rw [hu, Function.update_apply] at ht'
  split at ht'
  next => cases ht'; exact hk
  next => exact h t' op' n ht'

omit [DecidableEq τ] [DecidableEq ρ] in
theorem one_lt_code (op : Operation ρ) : 1 < op.code.length := by
  cases op <;> exact Nat.lt_of_sub_eq_succ rfl

omit [DecidableEq τ] [DecidableEq ρ] in
theorem two_lt_code (op : Operation ρ) : 2 < op.code.length := by
  cases op <;> exact Nat.lt_of_sub_eq_succ rfl

theorem Steps.within {input : Input τ ρ} (h : Steps s input u) (hs : Within s) : Within u := by
  cases h with
  | call t op => exact hs.move rfl (Nat.zero_lt_of_lt (one_lt_code op))
  | lock t op => exact hs.move rfl (one_lt_code op)
  | increment t op => exact hs.move rfl (two_lt_code op)
  | decrement t r => exact hs.move rfl (two_lt_code (.destroy r))
  | testCount t r => exact hs.move rfl (Nat.lt_of_sub_eq_succ rfl)
  | assertCount t r => exact hs.move rfl (Nat.lt_of_sub_eq_succ rfl)
  | unlock t op k =>
    intro t' op' n ht'
    replace ht' : Function.update s.running t none t' = some (op', n) := ht'
    rw [Function.update_apply] at ht'
    split at ht'
    next => cases ht'
    next => exact hs t' op' n ht'

theorem advance_eq {instruction : Instruction} (hrun : s.running t = some (op, k))
    (hinstruction : op.code[k]? = some instruction) :
    step s (.advance t) = (execute t op.reference s instruction).map (proceed t op (k + 1)) := by
  simp only [step, hrun, hinstruction]

omit [DecidableEq τ] [DecidableEq ρ] in
theorem lock_first (h : op.code[k]? = some .lock) : k = 0 := by
  obtain ⟨hk, hget⟩ := List.getElem?_eq_some_iff.mp h
  cases op with
  | destroy r =>
    replace hk : k < 5 := hk
    interval_cases k <;> first | rfl | cases hget
  | _ =>
    replace hk : k < 3 := hk
    interval_cases k <;> first | rfl | cases hget

omit [DecidableEq τ] [DecidableEq ρ] in
theorem execute_assertCount (t : τ) (r : ρ) : execute t r s .assertCount = some s := by
  rw [execute, if_pos (BitVec.le_def.mpr (Nat.zero_le _))]

omit [DecidableEq τ] [DecidableEq ρ] in
theorem execute_testCount (t : τ) (r : ρ) : execute t r s .testCount = some { s with
    log := s.log ++ if s.action = true ∧ s.referenceCount = 0 then [.action] else [] } := by
  have hzero : s.referenceCount ≤ 0 ↔ s.referenceCount = 0 := BitVec.le_zero_iff
  simp only [execute, hzero, and_comm]
  split
  · rfl
  · rw [List.append_nil]

theorem Sound.goesOn (h : Sound s) (hs : Within s) (hrun : s.running t = some (op, k))
    (howner : s.owner = none ∨ s.owner = some t) : ∃ u, step s (.advance t) = some u := by
  have hk := hs t op k hrun
  have hinstruction := List.getElem?_eq_getElem hk
  rw [advance_eq hrun hinstruction]
  cases hcode : op.code[k] with
  | lock =>
    rw [hcode] at hinstruction
    obtain rfl := lock_first hinstruction
    have hfree : s.owner = none := by
      refine howner.resolve_right fun hmine => ?_
      obtain ⟨op', n, hrun', hn⟩ := (h.owned t).mp hmine
      cases hrun.symm.trans hrun'
      exact Nat.lt_irrefl 0 hn
    exact ⟨_, by rw [execute, if_pos hfree]; rfl⟩
  | assertCount => exact ⟨_, by rw [execute_assertCount]; rfl⟩
  | increment => exact ⟨_, rfl⟩
  | decrement => exact ⟨_, rfl⟩
  | testCount => exact ⟨_, rfl⟩
  | unlock => exact ⟨_, rfl⟩

theorem advance_some {instruction : Instruction} {v : Counter τ ρ} {inputs : List (Input τ ρ)}
    (hrun : s.running t = some (op, k)) (hinstruction : op.code[k]? = some instruction)
    (hexecute : execute t op.reference s instruction = some v) :
    exec step s (.advance t :: inputs) = exec step (proceed t op (k + 1) v) inputs := by
  rw [exec, advance_eq hrun hinstruction, hexecute]
  rfl

omit [DecidableEq τ] [DecidableEq ρ] in
theorem proceed_running [DecidableEq τ] [DecidableEq ρ] (hk : k < op.code.length) :
    (proceed t op k s).running t = some (op, k) := by
  rw [proceed, if_pos hk]
  exact Function.update_self ..

def Counter.locked (s : Counter τ ρ) (t : τ) (op : Operation ρ) : Counter τ ρ :=
  { s.at t op 1 with busy := insert op.reference s.busy, owner := some t }

theorem perform_locked (hfree : s.owner = none) (hidle : s.running t = none) (hlegal : op.Legal s) :
    exec step s (perform t op) =
      exec step (s.locked t op) (List.replicate (op.code.length - 1) (.advance t)) := by
  have hcall : step s (.call t op) =
      some { s.at t op 0 with busy := insert op.reference s.busy } := if_pos ⟨hidle, hlegal⟩
  have hlock : execute t op.reference { s.at t op 0 with busy := insert op.reference s.busy } .lock =
      some { s.at t op 0 with busy := insert op.reference s.busy, owner := some t } := if_pos hfree
  have hfirst : op.code[0]? = some .lock := by cases op <;> rfl
  have hlength : op.code.length = op.code.length - 1 + 1 := by have := one_lt_code op; omega
  rw [perform, exec, hcall, Option.bind_some, hlength, List.replicate_succ,
    advance_some (Function.update_self ..) hfirst hlock, proceed, if_pos (one_lt_code op)]
  simp [Counter.locked, Counter.at, Function.update_idem]

omit [DecidableEq τ] in
theorem Sound.last (h : Sound s) {r : ρ} (hr : r ∈ s.live) :
    decrease s.referenceCount = 0 ↔ s.live.erase r = ∅ := by
  rw [← Finset.card_eq_zero, ← h.decreased hr, ← BitVec.toNat_inj]
  exact Iff.rfl

theorem proceed_released (hfree : s.owner = none) (hidle : s.running t = none)
    (hbusy : op.reference ∉ s.busy) {v : Counter τ ρ} (haction : v.action = s.action)
    (hinserted : v.busy = insert op.reference s.busy)
    (hrun : ∀ t', t' ≠ t → v.running t' = s.running t') :
    proceed t op op.code.length { v with owner := none } =
      { s with referenceCount := v.referenceCount, log := v.log } := by
  have hrunning : Function.update v.running t none = s.running := by
    funext t'
    rw [Function.update_apply]
    split
    next heq => rw [heq, hidle]
    next hne => exact hrun t' hne
  rw [proceed, if_neg (Nat.lt_irrefl _)]
  dsimp only
  rw [hrunning, hinserted, Finset.erase_insert hbusy, haction, ← hfree]

theorem perform_exec (hs : Sound s) (hfree : s.owner = none) (hidle : s.running t = none)
    (hlegal : op.Legal s) : exec step s (perform t op) = some (s.after op) := by
  have hstart : (s.locked t op).running t = some (op, 1) := Function.update_self ..
  have hother (k : ℕ) (call : Operation ρ × ℕ) (t' : τ) (hne : t' ≠ t) :
      Function.update (Function.update s.running t (some (op, k))) t (some call) t' = s.running t' :=
    (Function.update_of_ne hne ..).trans (Function.update_of_ne hne ..)
  rw [perform_locked hfree hidle hlegal]
  cases op with
  | construct r =>
    change exec step (s.locked t (.construct r)) [.advance t, .advance t] = _
    rw [advance_some hstart rfl rfl, advance_some (proceed_running (two_lt_code _)) rfl rfl]
    exact congrArg some (proceed_released hfree hidle hlegal.unused rfl rfl (hother _ _))
  | copy other r =>
    change exec step (s.locked t (.copy other r)) [.advance t, .advance t] = _
    rw [advance_some hstart rfl rfl, advance_some (proceed_running (two_lt_code _)) rfl rfl]
    exact congrArg some (proceed_released hfree hidle hlegal.unused rfl rfl (hother _ _))
  | destroy r =>
    have h3 : 3 < (Operation.destroy r).code.length := Nat.lt_of_sub_eq_succ rfl
    have h4 : 4 < (Operation.destroy r).code.length := Nat.lt_of_sub_eq_succ rfl
    change exec step (s.locked t (.destroy r)) [.advance t, .advance t, .advance t, .advance t] = _
    rw [advance_some hstart rfl rfl,
      advance_some (proceed_running (two_lt_code _)) rfl (execute_testCount _ _),
      advance_some (proceed_running h3) rfl (execute_assertCount _ _),
      advance_some (proceed_running h4) rfl rfl]
    have hrun : ∀ t', t' ≠ t → Function.update (Function.update (Function.update
        (Function.update s.running t (some (.destroy r, 1))) t (some (.destroy r, 2))) t
          (some (.destroy r, 3))) t (some (.destroy r, 4)) t' = s.running t' := by
      intro t' hne
      simp only [Function.update_of_ne hne]
    have hlast : s.action = true ∧ s.live.erase r = ∅ ↔
        s.action = true ∧ decrease s.referenceCount = 0 := and_congr_right fun _ => (hs.last hlegal.1).symm
    have hafter : s.after (.destroy r) = { s with
        referenceCount := decrease s.referenceCount
        log := (s.log ++ [.change (.died r)]) ++
          if s.action = true ∧ decrease s.referenceCount = 0 then [.action] else [] } := by
      rw [Counter.after, Operation.change, answer, if_congr hlast rfl rfl, List.append_assoc]
      rfl
    rw [hafter]
    exact congrArg some (proceed_released hfree hidle hlegal.unused rfl rfl hrun)

omit [DecidableEq τ] in
theorem after_history (s : Counter τ ρ) (op : Operation ρ) :
    (s.after op).history = s.history ++ [op.change] := by
  have hanswer : (answer s.action s.live op.change).filterMap Entry.changed = [] := by
    cases op with
    | destroy r =>
      rw [Operation.change, answer]
      split <;> rfl
    | _ => rfl
  rw [Counter.history, Counter.after, List.filterMap_append, List.filterMap_cons]
  exact congrArg (s.history ++ op.change :: ·) hanswer

omit [DecidableEq τ] in
theorem after_live (s : Counter τ ρ) (op : Operation ρ) : (s.after op).live = op.change.apply s.live := by
  rw [Counter.live, after_history, aliveAfter_append, Counter.live]

omit [DecidableEq τ] in
theorem Sound.after (h : Sound s) (hfree : s.owner = none) (hlegal : op.Legal s)
    (hroom : (op.change.apply s.live).card < 2 ^ 32) : Sound (s.after op) where
  counted := by
    rw [after_live]
    cases op with
    | destroy r => exact h.decreased hlegal.1
    | copy other r => exact h.increased hlegal.2.2.1 hroom
    | construct r => exact h.increased hlegal.1 hroom
  owned := h.owned
  registered := ⟨h.registered.busy, h.registered.distinct⟩
  placed := by
    intro t' op' k hrun
    have hne : op'.reference ≠ op.reference := by
      rintro heq
      exact hlegal.unused (heq ▸ h.registered.busy t' op' k hrun)
    rw [after_live, ← h.placed t' op' k hrun]
    cases op with
    | destroy r => exact Finset.mem_erase.trans (and_iff_right hne)
    | _ => exact Finset.mem_insert.trans (or_iff_right hne)
  acted := by
    have hdue : (s.after op).due = [] := due_free hfree
    rw [hdue, List.append_nil, after_history, expected_append]
    exact congrArg (· ++ _) (h.logged (due_free hfree))

theorem Sound.performs {b : Counter τ ρ} {calls : List (τ × Operation ρ)} (h : Sound s)
    (hfree : s.owner = none) (hrunning : s.running = b.running) (hbusy : s.busy = b.busy)
    (hserial : Serial b s.live calls) :
    ∃ u, exec step s (calls.flatMap fun call => perform call.1 call.2) = some u ∧ u.owner = none ∧
      u.live = aliveAfter s.live (calls.map fun call => call.2.change) ∧
      u.referenceCount.toNat = u.live.card ∧
      u.log = s.log ++ expected s.action s.live (calls.map fun call => call.2.change) := by
  induction calls generalizing s with
  | nil => exact ⟨s, rfl, hfree, rfl, h.counted, (List.append_nil _).symm⟩
  | cons call calls ih =>
    obtain ⟨t, op⟩ := call
    obtain ⟨hidle, hallowed, hroom, hrest⟩ := hserial
    rw [← hrunning] at hidle
    rw [← hbusy] at hallowed
    rw [← after_live] at hrest
    obtain ⟨u, hu, howner, hlive, hcounted, hlog⟩ :=
      ih (h.after hfree hallowed hroom) hfree hrunning hbusy hrest
    rw [after_live] at hlive hlog
    refine ⟨u, ?_, howner, hlive, hcounted, ?_⟩
    · rw [List.flatMap_cons]
      exact exec_append.mpr ⟨_, perform_exec h hfree hidle hallowed, hu⟩
    · rw [hlog, Counter.after, List.append_assoc]
      rfl

theorem Sound.serves (h : Sound s) (hs : Within s) : Serves s where
  goesOn _ _ hrun howner := h.goesOn hs hrun howner
  performs hfree _ hserial := h.performs hfree rfl rfl hserial

end

theorem references_counted (action : Bool) (inputs : List (Input τ ρ))
    (hroom : Along step (fun _ _ t => t.live.card < 2 ^ 32) (init action) inputs) :
    Along step Right (init action) inputs ∧
      ∀ s, exec step (init action) inputs = some s → Serves s := by
  have hsound : ∀ s input (t : Counter τ ρ), Sound s → t.live.card < 2 ^ 32 →
      step s input = some t → Sound t := by
    intro s input t hs hroom ht
    exact (steps_of_step ht).sound hs hroom
  constructor
  · refine (along_congr_of hsound ?_ (init_sound action) hroom).mp hroom
    intro s input t hs hroom ht
    exact iff_of_true hroom ((steps_of_step ht).right hs (hsound s input t hs hroom ht))
  · intro s hs
    have hboth : Sound s ∧ Within s := by
      refine exec_invariant_along (I := fun s => Sound s ∧ Within s) ?_ ⟨init_sound action, nofun⟩
        hroom hs
      intro s input t ⟨hs, hwithin⟩ hroom ht
      exact ⟨hsound s input t hs hroom ht, (steps_of_step ht).within hwithin⟩
    exact hboth.1.serves hboth.2

def sharing : List (Input ℕ ℕ) := perform 0 (.construct 7) ++ perform 1 (.copy 7 8)

def releasing : List (Input ℕ ℕ) :=
  [.call 0 (.destroy 7), .call 1 (.destroy 8)] ++ List.replicate 5 (.advance 1) ++
    List.replicate 5 (.advance 0)

theorem shared_counted : ∃ s t, exec step (init true) sharing = some s ∧ s.referenceCount = 2 ∧
    exec step s releasing = some t ∧
      t.log = [.change (.born 7), .change (.born 8), .change (.died 8), .change (.died 7), .action] ∧
      Along step Right (init true) (sharing ++ releasing) ∧
      (∀ s, exec step (init true) (sharing ++ releasing) = some s → Serves s) :=
  ⟨_, _, rfl, rfl, rfl, rfl, references_counted true (sharing ++ releasing) (by decide)⟩

end

end NukeMs.CountedReferences
