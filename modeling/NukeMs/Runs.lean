import Mathlib.Tactic.Common

namespace NukeMs.Runs

variable {S E : Type}

def exec (step : S → E → Option S) : S → List E → Option S
  | s, [] => some s
  | s, e :: es => (step s e).bind (fun t => exec step t es)

def Along (step : S → E → Option S) (Q : S → E → S → Prop) : S → List E → Prop
  | _, [] => True
  | s, e :: es => ∀ t, step s e = some t → Q s e t ∧ Along step Q t es

def Since (step : S → E → Option S) (A : S → E → Prop) (Q : S → E → S → Prop) : S → List E → Prop
  | _, [] => True
  | s, e :: es => ∀ t, step s e = some t → (A s e → Along step Q t es) ∧ Since step A Q t es

instance decidableAlong (step : S → E → Option S) (Q : S → E → S → Prop)
    [∀ s e t, Decidable (Q s e t)] : (s : S) → (es : List E) → Decidable (Along step Q s es)
  | _, [] => .isTrue trivial
  | s, e :: es =>
    match h : step s e with
    | none => .isTrue (fun _ ht => absurd (h.symm.trans ht) (by simp))
    | some t =>
      have := decidableAlong step Q t es
      decidable_of_iff (Q s e t ∧ Along step Q t es)
        ⟨fun hboth _ ht => Option.some_inj.mp (h.symm.trans ht) ▸ hboth, fun hall => hall t h⟩

variable {step : S → E → Option S} {Q R : S → E → S → Prop} {I : S → Prop}

@[simp] theorem exec_nil (s : S) : exec step s [] = some s := rfl

theorem exec_cons {s t : S} {e : E} {es : List E} :
    exec step s (e :: es) = some t ↔ ∃ u, step s e = some u ∧ exec step u es = some t := by
  simp [exec, Option.bind_eq_some_iff]

theorem exec_append {s t : S} {es fs : List E} :
    exec step s (es ++ fs) = some t ↔ ∃ u, exec step s es = some u ∧ exec step u fs = some t := by
  induction es generalizing s with
  | nil => simp
  | cons e es ih =>
    rw [List.cons_append, exec_cons]
    simp only [exec_cons, ih]
    constructor
    · rintro ⟨u, hu, v, hv, ht⟩
      exact ⟨v, ⟨u, hu, hv⟩, ht⟩
    · rintro ⟨v, ⟨u, hu, hv⟩, ht⟩
      exact ⟨u, hu, v, hv, ht⟩

theorem exec_invariant_along (hstep : ∀ s e t, I s → Q s e t → step s e = some t → I t)
    {s t : S} {es : List E} (hs : I s) (hQ : Along step Q s es)
    (h : exec step s es = some t) : I t := by
  induction es generalizing s with
  | nil => cases h; exact hs
  | cons e es ih =>
    obtain ⟨u, hu, ht⟩ := exec_cons.mp h
    exact ih (hstep s e u hs (hQ u hu).1 hu) (hQ u hu).2 ht

theorem along_of_invariant (hstep : ∀ s e t, I s → step s e = some t → I t)
    (hQ : ∀ s e t, I s → step s e = some t → Q s e t) {s : S} (hs : I s) (es : List E) :
    Along step Q s es := by
  induction es generalizing s with
  | nil => trivial
  | cons e es ih =>
    intro t ht
    exact ⟨hQ s e t hs ht, ih (hstep s e t hs ht)⟩

theorem along_true (s : S) (es : List E) : Along step (fun _ _ _ => True) s es :=
  along_of_invariant (I := fun _ => True) (fun _ _ _ _ _ => trivial) (fun _ _ _ _ _ => trivial)
    trivial es

theorem exec_invariant (hstep : ∀ s e t, I s → step s e = some t → I t) {s t : S} {es : List E}
    (hs : I s) (h : exec step s es = some t) : I t :=
  exec_invariant_along (fun s e t hs _ ht => hstep s e t hs ht) hs (along_true s es) h

/-- Step by step: two step properties that agree where the invariant and the first of them have
held so far describe the same runs, among those whose steps satisfy the assumption `P`. The
invariant needs to be kept only by steps with `Q`. -/
theorem along_congr_of {P : S → E → S → Prop}
    (hstep : ∀ s e t, I s → Q s e t → step s e = some t → I t)
    (hQR : ∀ s e t, I s → P s e t → step s e = some t → (Q s e t ↔ R s e t)) {s : S} (hs : I s)
    {es : List E} (hP : Along step P s es) : Along step Q s es ↔ Along step R s es := by
  induction es generalizing s with
  | nil => exact Iff.rfl
  | cons e es ih =>
    refine forall_congr' fun t => forall_congr' ?_
    intro ht
    obtain ⟨hp, hrest⟩ := hP t ht
    have hiff := hQR s e t hs hp ht
    constructor
    · rintro ⟨hq, hes⟩
      exact ⟨hiff.mp hq, (ih (hstep s e t hs hq ht) hrest).mp hes⟩
    · rintro ⟨hr, hes⟩
      have hq := hiff.mpr hr
      exact ⟨hq, (ih (hstep s e t hs hq ht) hrest).mpr hes⟩

theorem along_congr (hstep : ∀ s e t, I s → Q s e t → step s e = some t → I t)
    (hQR : ∀ s e t, I s → step s e = some t → (Q s e t ↔ R s e t)) {s : S} (hs : I s)
    (es : List E) : Along step Q s es ↔ Along step R s es :=
  along_congr_of hstep (fun s e t h _ ht => hQR s e t h ht) hs (along_true s es)

/-- A mark that a step leaves exactly when it does `D`, and that no step takes away: it is missing
after a run just if no step of the run did `D`. -/
theorem along_of_mark {F : S → Prop} {D : S → E → Prop}
    (hstep : ∀ s e t, I s → step s e = some t → I t)
    (hF : ∀ s e t, I s → step s e = some t → (F t ↔ F s ∨ D s e)) {s t : S} {es : List E}
    (hs : I s) (h : exec step s es = some t) :
    ¬ F t ↔ ¬ F s ∧ Along step (fun s e _ => ¬ D s e) s es := by
  induction es generalizing s with
  | nil => cases h; exact ⟨fun hF => ⟨hF, trivial⟩, fun hF => hF.1⟩
  | cons e es ih =>
    obtain ⟨u, hu, ht⟩ := exec_cons.mp h
    rw [ih (hstep s e u hs hu) ht, hF s e u hs hu, not_or, and_assoc]
    refine and_congr_right fun _ => ⟨fun ⟨hd, hes⟩ v hv => ?_, fun hes => hes u hu⟩
    cases hu.symm.trans hv
    exact ⟨hd, hes⟩

theorem along_since {F : S → Prop} {A : S → E → Prop}
    (hF : ∀ s e t, step s e = some t → (F t ↔ F s ∨ A s e)) (s : S) (es : List E) :
    Along step (fun s e t => F s → Q s e t) s es ↔
      (F s → Along step Q s es) ∧ Since step A Q s es := by
  induction es generalizing s with
  | nil => exact ⟨fun _ => ⟨fun _ => trivial, trivial⟩, fun _ => trivial⟩
  | cons e es ih =>
    constructor
    · intro h
      refine ⟨fun hs t ht => ?_, fun t ht => ?_⟩
      · exact ⟨(h t ht).1 hs, ((ih t).mp (h t ht).2).1 ((hF s e t ht).mpr (.inl hs))⟩
      · obtain ⟨hlater, hsince⟩ := (ih t).mp (h t ht).2
        exact ⟨fun ha => hlater ((hF s e t ht).mpr (.inr ha)), hsince⟩
    · rintro ⟨hs, hsince⟩ t ht
      refine ⟨fun hmark => (hs hmark t ht).1, (ih t).mpr ⟨fun hmark => ?_, (hsince t ht).2⟩⟩
      exact ((hF s e t ht).mp hmark).elim (fun hbefore => (hs hbefore t ht).2) (hsince t ht).1

theorem along_left {s : S} {es fs : List E} (h : Along step Q s (es ++ fs)) : Along step Q s es := by
  induction es generalizing s with
  | nil => trivial
  | cons e es ih => exact fun t ht => ⟨(h t ht).1, ih (h t ht).2⟩

theorem along_append {s t : S} {es fs : List E} (h : Along step Q s (es ++ fs))
    (ht : exec step s es = some t) : Along step Q t fs := by
  induction es generalizing s with
  | nil => cases ht; exact h
  | cons e es ih =>
    obtain ⟨u, hu, ht⟩ := exec_cons.mp ht
    exact ih (h u hu).2 ht

section
variable {T : Type} {wider : T → E → Option T} {f : T → S}

theorem exec_project (hstep : ∀ x e, (wider x e).map f = step (f x) e) (x : T) (es : List E) :
    (exec wider x es).map f = exec step (f x) es := by
  induction es generalizing x with
  | nil => rfl
  | cons e es ih =>
    rw [exec, exec, ← hstep x e]
    cases wider x e with
    | none => rfl
    | some y => exact ih y

theorem along_project (hstep : ∀ x e, (wider x e).map f = step (f x) e) (x : T) (es : List E) :
    Along wider (fun x e y => Q (f x) e (f y)) x es ↔ Along step Q (f x) es := by
  induction es generalizing x with
  | nil => exact Iff.rfl
  | cons e es ih =>
    rw [Along, Along, ← hstep x e]
    constructor
    · intro h t ht
      obtain ⟨y, hy, rfl⟩ := Option.map_eq_some_iff.mp ht
      exact ⟨(h y hy).1, (ih y).mp (h y hy).2⟩
    · intro h y hy
      obtain ⟨hq, hes⟩ := h (f y) (Option.map_eq_some_iff.mpr ⟨y, hy, rfl⟩)
      exact ⟨hq, (ih y).mpr hes⟩

end

end NukeMs.Runs
