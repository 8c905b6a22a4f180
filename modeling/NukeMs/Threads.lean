import Mathlib.Logic.Function.Basic
import Mathlib.Tactic.Common
import NukeMs.Runs

namespace NukeMs.Threads

open Runs

inductive Action
  | lock
  | unlock
  | enter
  | leave
  deriving DecidableEq

structure State (τ : Type) where
  owner : Option τ
  inside : τ → Bool
  rest : τ → List Action

variable {τ : Type} [DecidableEq τ]

def act (s : State τ) (t : τ) : Option (State τ) :=
  match s.rest t with
  | [] => none
  | .lock :: rest =>
    if s.owner = none then
      some { s with owner := some t, rest := Function.update s.rest t rest }
    else none
  | .unlock :: rest => some { s with owner := none, rest := Function.update s.rest t rest }
  | .enter :: rest =>
    some { s with
      inside := Function.update s.inside t true
      rest := Function.update s.rest t rest }
  | .leave :: rest =>
    some { s with
      inside := Function.update s.inside t false
      rest := Function.update s.rest t rest }

omit [DecidableEq τ] in
def start (programs : τ → List Action) : State τ := ⟨none, fun _ => false, programs⟩

def Exclusive (s : State τ) : Prop :=
  ∀ t t', s.inside t = true → s.inside t' = true → t = t'

/-- Two ways of going inside: with the mutex held all the time, or only before. -/
inductive Section
  | guarded
  | unguarded
  deriving DecidableEq

def Section.actions : Section → List Action
  | .guarded => [.lock, .enter, .leave, .unlock]
  | .unguarded => [.lock, .unlock, .enter, .leave]

def actions (sections : List Section) : List Action := sections.flatMap Section.actions

def Locking : Bool → List Action → Prop
  | owns, [] => owns = false
  | owns, .lock :: rest => owns = false ∧ Locking true rest
  | owns, .unlock :: rest => owns = true ∧ Locking false rest
  | owns, .enter :: rest | owns, .leave :: rest => Locking owns rest

def Covered : Bool → Bool → List Action → Prop
  | owns, inside, [] => inside = true → owns = true
  | owns, inside, .lock :: rest => (inside = true → owns = true) ∧ Covered true inside rest
  | owns, inside, .unlock :: rest => (inside = true → owns = true) ∧ Covered false inside rest
  | owns, inside, .enter :: rest => (inside = true → owns = true) ∧ Covered owns true rest
  | owns, inside, .leave :: rest => (inside = true → owns = true) ∧ Covered owns false rest

theorem Covered.owns {owns inside : Bool} {rest : List Action} (h : Covered owns inside rest)
    (hin : inside = true) : owns = true := by
  cases rest with
  | nil => exact h hin
  | cons action rest => cases action <;> exact h.1 hin

theorem locking_actions (sections : List Section) : Locking false (actions sections) := by
  induction sections with
  | nil => rfl
  | cons first sections ih =>
    cases first with
    | guarded => exact ⟨rfl, rfl, ih⟩
    | unguarded => exact ⟨rfl, rfl, ih⟩

theorem covered_actions (sections : List Section) (h : .unguarded ∉ sections) :
    Covered false false (actions sections) := by
  induction sections with
  | nil => exact nofun
  | cons first sections ih =>
    rw [List.mem_cons, not_or] at h
    cases first with
    | guarded => exact ⟨nofun, nofun, fun _ => rfl, nofun, ih h.2⟩
    | unguarded => exact absurd rfl h.1

structure Sound (programs : τ → List Section) (s : State τ) : Prop where
  locking : ∀ t, Locking (s.owner = some t) (s.rest t)
  covered : ∀ t, .unguarded ∉ programs t → Covered (s.owner = some t) (s.inside t) (s.rest t)
  idle : ∀ t, programs t = [] → s.rest t = [] ∧ s.inside t = false

section
variable {s u : State τ} {t : τ} {rest : List Action} {programs : τ → List Section}

theorem act_lock (h : s.rest t = .lock :: rest) (hfree : s.owner = none) :
    act s t = some { s with owner := some t, rest := Function.update s.rest t rest } := by
  simp only [act, h, if_pos hfree]

theorem act_unlock (h : s.rest t = .unlock :: rest) :
    act s t = some { s with owner := none, rest := Function.update s.rest t rest } := by
  simp only [act, h]

theorem act_enter (h : s.rest t = .enter :: rest) :
    act s t = some { s with
      inside := Function.update s.inside t true
      rest := Function.update s.rest t rest } := by
  simp only [act, h]

theorem act_leave (h : s.rest t = .leave :: rest) :
    act s t = some { s with
      inside := Function.update s.inside t false
      rest := Function.update s.rest t rest } := by
  simp only [act, h]

inductive Acted (s : State τ) (t : τ) : State τ → Prop
  | lock (rest : List Action) (hrest : s.rest t = .lock :: rest) (hfree : s.owner = none) :
    Acted s t { s with owner := some t, rest := Function.update s.rest t rest }
  | unlock (rest : List Action) (hrest : s.rest t = .unlock :: rest) :
    Acted s t { s with owner := none, rest := Function.update s.rest t rest }
  | enter (rest : List Action) (hrest : s.rest t = .enter :: rest) :
    Acted s t { s with
      inside := Function.update s.inside t true
      rest := Function.update s.rest t rest }
  | leave (rest : List Action) (hrest : s.rest t = .leave :: rest) :
    Acted s t { s with
      inside := Function.update s.inside t false
      rest := Function.update s.rest t rest }

theorem act_acted (h : act s t = some u) : Acted s t u := by
  cases hrest : s.rest t with
  | nil => simp [act, hrest] at h
  | cons action rest =>
    cases action with
    | lock =>
      have hfree : s.owner = none := by
        by_contra hc
        simp [act, hrest, hc] at h
      rw [act_lock hrest hfree] at h
      cases h
      exact .lock rest hrest hfree
    | unlock =>
      rw [act_unlock hrest] at h
      cases h
      exact .unlock rest hrest
    | enter =>
      rw [act_enter hrest] at h
      cases h
      exact .enter rest hrest
    | leave =>
      rw [act_leave hrest] at h
      cases h
      exact .leave rest hrest

theorem act_other (hs : Locking (s.owner = some t) (s.rest t)) (h : act s t = some u) {t' : τ}
    (hne : t' ≠ t) : u.rest t' = s.rest t' ∧ u.inside t' = s.inside t' ∧
      (u.owner = some t' ↔ s.owner = some t') := by
  have hne' : some t ≠ some t' := fun hc => hne (Option.some.inj hc).symm
  cases act_acted h with
  | lock rest hrest hfree => simp [hne, hne', hfree]
  | unlock rest hrest =>
    rw [hrest] at hs
    have howner : s.owner = some t := of_decide_eq_true hs.1
    simp [hne, hne', howner]
  | enter rest hrest => simp [hne]
  | leave rest hrest => simp [hne]

theorem act_locking (hs : Locking (s.owner = some t) (s.rest t)) (h : act s t = some u) :
    Locking (u.owner = some t) (u.rest t) := by
  cases act_acted h with
  | lock rest hrest hfree =>
    rw [hrest] at hs
    simpa using hs.2
  | unlock rest hrest =>
    rw [hrest] at hs
    simpa using hs.2
  | enter rest hrest =>
    rw [hrest] at hs
    have hs' : Locking (s.owner = some t) rest := hs
    simpa using hs'
  | leave rest hrest =>
    rw [hrest] at hs
    have hs' : Locking (s.owner = some t) rest := hs
    simpa using hs'

theorem act_covered (hs : Covered (s.owner = some t) (s.inside t) (s.rest t))
    (h : act s t = some u) : Covered (u.owner = some t) (u.inside t) (u.rest t) := by
  cases act_acted h with
  | lock rest hrest hfree =>
    rw [hrest] at hs
    simpa using hs.2
  | unlock rest hrest =>
    rw [hrest] at hs
    simpa using hs.2
  | enter rest hrest =>
    rw [hrest] at hs
    simpa using hs.2
  | leave rest hrest =>
    rw [hrest] at hs
    simpa using hs.2

theorem Sound.act (hs : Sound programs s) (h : act s t = some u) : Sound programs u := by
  have hother {t' : τ} (hne : t' ≠ t) := act_other (hs.locking t) h hne
  refine ⟨?_, ?_, ?_⟩
  · intro t'
    by_cases hne : t' = t
    · subst hne
      exact act_locking (hs.locking t') h
    · obtain ⟨hrest, -, howner⟩ := hother hne
      simpa only [hrest, howner] using hs.locking t'
  · intro t' ht'
    by_cases hne : t' = t
    · subst hne
      exact act_covered (hs.covered t' ht') h
    · obtain ⟨hrest, hinside, howner⟩ := hother hne
      simpa only [hrest, hinside, howner] using hs.covered t' ht'
  · intro t' ht'
    by_cases hne : t' = t
    · subst hne
      have hidle := (hs.idle t' ht').1
      simp [Threads.act, hidle] at h
    · obtain ⟨hrest, hinside, -⟩ := hother hne
      rw [hrest, hinside]
      exact hs.idle t' ht'

theorem start_sound (programs : τ → List Section) :
    Sound programs (start fun t => actions (programs t)) where
  locking t := locking_actions (programs t)
  covered t ht := covered_actions (programs t) ht
  idle t ht := ⟨by simp [start, ht, actions], rfl⟩

theorem Sound.exclusive (hs : Sound programs s)
    (h : ∀ t t', t ≠ t' → .unguarded ∈ programs t → programs t' = []) : Exclusive s := by
  intro t t' ht ht'
  by_contra hne
  have hguarded : .unguarded ∉ programs t := by
    intro hmem
    rw [(hs.idle t' (h t t' hne hmem)).2] at ht'
    cases ht'
  have hguarded' : .unguarded ∉ programs t' := by
    intro hmem
    rw [(hs.idle t (h t' t (Ne.symm hne) hmem)).2] at ht
    cases ht
  have howner : s.owner = some t := of_decide_eq_true ((hs.covered t hguarded).owns ht)
  have howner' : s.owner = some t' := of_decide_eq_true ((hs.covered t' hguarded').owns ht')
  exact hne (Option.some.inj (howner.symm.trans howner'))

def goneOn (s : State τ) (t : τ) (inside : Bool) (rest : List Action) : State τ :=
  { s with inside := Function.update s.inside t inside, rest := Function.update s.rest t rest }

theorem solo_section (first : Section) (rest : List Action) (hfree : s.owner = none)
    (hrest : s.rest t = first.actions ++ rest) :
    exec act s [t, t, t, t] = some (goneOn s t false rest) := by
  cases first with
  | guarded => simp [exec, act, hrest, hfree, Section.actions, goneOn]
  | unguarded => simp [exec, act, hrest, hfree, Section.actions, goneOn]

theorem solo (sections : List Section) (rest : List Action) (hfree : s.owner = none)
    (hrest : s.rest t = actions sections ++ rest) (hout : s.inside t = false) :
    ∃ schedule, exec act s schedule = some (goneOn s t false rest) := by
  induction sections generalizing s with
  | nil =>
    have hinside : Function.update s.inside t false = s.inside := by
      rw [← hout, Function.update_eq_self]
    have hsame : Function.update s.rest t rest = s.rest := by
      rw [show rest = s.rest t from hrest.symm, Function.update_eq_self]
    refine ⟨[], ?_⟩
    rw [goneOn, hinside, hsame]
    rfl
  | cons first sections ih =>
    have hfirst := solo_section first (actions sections ++ rest) hfree
      (by rw [hrest, actions, List.flatMap_cons, List.append_assoc]; rfl)
    obtain ⟨schedule, hschedule⟩ := ih (s := goneOn s t false (actions sections ++ rest)) hfree
      (by simp [goneOn]) (by simp [goneOn])
    refine ⟨[t, t, t, t] ++ schedule, exec_append.mpr ⟨_, hfirst, ?_⟩⟩
    rw [hschedule]
    simp [goneOn]

theorem solo_enter (first : Section) (rest : List Action) (hfree : s.owner = none)
    (hrest : s.rest t = first.actions ++ rest) :
    ∃ schedule u, exec act s schedule = some u ∧ u.inside = Function.update s.inside t true ∧
      (∀ t', t' ≠ t → u.rest t' = s.rest t') ∧ (first = .unguarded → u.owner = none) := by
  cases first with
  | guarded =>
    refine ⟨[t, t], ⟨some t, Function.update s.inside t true,
      Function.update s.rest t (.leave :: .unlock :: rest)⟩, ?_, rfl, ?_, nofun⟩
    · simp [exec, act, hrest, hfree, Section.actions]
    · intro t' hne
      simp [hne]
  | unguarded =>
    refine ⟨[t, t, t], ⟨none, Function.update s.inside t true,
      Function.update s.rest t (.leave :: rest)⟩, ?_, rfl, ?_, fun _ => rfl⟩
    · simp [exec, act, hrest, hfree, Section.actions]
    · intro t' hne
      simp [hne]

theorem solo_reaches (before : List Section) (first : Section) (rest : List Action)
    (hfree : s.owner = none) (hrest : s.rest t = actions before ++ (first.actions ++ rest))
    (hout : s.inside t = false) :
    ∃ schedule u, exec act s schedule = some u ∧ u.inside = Function.update s.inside t true ∧
      (∀ t', t' ≠ t → u.rest t' = s.rest t') ∧ (first = .unguarded → u.owner = none) := by
  obtain ⟨schedule, hbefore⟩ := solo before (first.actions ++ rest) hfree hrest hout
  obtain ⟨more, u, hu, hinside, hkept, howner⟩ := solo_enter (t := t) first rest
    (s := goneOn s t false (first.actions ++ rest)) hfree (by simp [goneOn])
  refine ⟨schedule ++ more, u, exec_append.mpr ⟨_, hbefore, hu⟩, ?_, ?_, howner⟩
  · rw [hinside]
    simp [goneOn]
  · intro t' hne
    rw [hkept t' hne]
    simp [goneOn, hne]

theorem overlap {t t' : τ} (hne : t ≠ t') (hmem : .unguarded ∈ programs t) (hsome : programs t' ≠ []) :
    ∃ schedule s, exec act (start fun t => actions (programs t)) schedule = some s ∧
      ¬ Exclusive s := by
  obtain ⟨before, after, hsplit⟩ := List.append_of_mem hmem
  obtain ⟨first, others, hothers⟩ := List.exists_cons_of_ne_nil hsome
  obtain ⟨schedule, s, hs, hinside, hkept, howner⟩ := solo_reaches (t := t)
    (s := start fun t => actions (programs t)) before .unguarded (actions after) rfl
    (by simp [start, hsplit, actions]) rfl
  obtain ⟨more, u, hu, hinside', -, -⟩ := solo_reaches (t := t') (s := s) [] first (actions others)
    (howner rfl) (by rw [hkept t' (Ne.symm hne)]; simp [start, hothers, actions])
    (by rw [hinside]; simp [start, Ne.symm hne])
  refine ⟨schedule ++ more, u, exec_append.mpr ⟨s, hs, hu⟩, fun hexclusive => hne ?_⟩
  apply hexclusive
  · rw [hinside', hinside]
    simp [hne]
  · rw [hinside']
    simp

theorem exclusive_iff (programs : τ → List Section) :
    (∀ schedule s, exec act (start fun t => actions (programs t)) schedule = some s →
      Exclusive s) ↔ ∀ t t', t ≠ t' → .unguarded ∈ programs t → programs t' = [] := by
  constructor
  · intro h t t' hne hmem
    by_contra hsome
    obtain ⟨schedule, s, hs, hno⟩ := overlap hne hmem hsome
    exact hno (h schedule s hs)
  · intro h schedule s hs
    have hsound := exec_invariant (fun _ _ _ hs h => Sound.act hs h) (start_sound programs) hs
    exact hsound.exclusive h

end

end NukeMs.Threads
