import Mathlib.Tactic.Common

namespace NukeMs

inductive Reading (β α : Type) where
  | ret (value : α)
  | read (i : ℕ) (next : β → Reading β α)

namespace Reading

variable {β α γ : Type}

def bind : Reading β α → (α → Reading β γ) → Reading β γ
  | ret value, f => f value
  | read i next, f => read i (fun b => bind (next b) f)

instance : Monad (Reading β) where
  pure := ret
  bind := bind

def fetch (i : ℕ) : Reading β β := read i ret

def fetchRange (i : ℕ) : ℕ → Reading β (List β)
  | 0 => pure []
  | n + 1 => do
    let b ← fetch i
    let bs ← fetchRange (i + 1) n
    pure (b :: bs)

def run (mem : ℕ → β) : Reading β α → α
  | ret value => value
  | read i next => run mem (next (mem i))

def reads (mem : ℕ → β) : Reading β α → List ℕ
  | ret _ => []
  | read i next => i :: reads mem (next (mem i))

section
variable (mem : ℕ → β)

@[simp] theorem run_pure (a : α) : (pure a : Reading β α).run mem = a := rfl

@[simp] theorem reads_pure (a : α) : (pure a : Reading β α).reads mem = [] := rfl

@[simp] theorem run_fetch (i : ℕ) : (fetch i).run mem = mem i := rfl

@[simp] theorem reads_fetch (i : ℕ) : (fetch i).reads mem = [i] := rfl

@[simp] theorem run_bind (x : Reading β α) (f : α → Reading β γ) :
    (x >>= f).run mem = (f (x.run mem)).run mem := by
  induction x with
  | ret value => rfl
  | read i next ih => exact ih (mem i)

@[simp] theorem reads_bind (x : Reading β α) (f : α → Reading β γ) :
    (x >>= f).reads mem = x.reads mem ++ (f (x.run mem)).reads mem := by
  induction x with
  | ret value => rfl
  | read i next ih => exact congrArg (i :: ·) (ih (mem i))

@[simp] theorem run_fetchRange (i n : ℕ) :
    (fetchRange i n).run mem = (List.range' i n).map mem := by
  induction n generalizing i with
  | zero => rfl
  | succ n ih => simp [fetchRange, List.range'_succ, ih]

@[simp] theorem reads_fetchRange (i n : ℕ) : (fetchRange i n).reads mem = List.range' i n := by
  induction n generalizing i with
  | zero => rfl
  | succ n ih => simp [fetchRange, List.range'_succ, ih]

end

theorem run_congr {mem mem' : ℕ → β} (x : Reading β α) (h : ∀ i ∈ x.reads mem, mem' i = mem i) :
    x.run mem' = x.run mem ∧ x.reads mem' = x.reads mem := by
  induction x with
  | ret value => exact ⟨rfl, rfl⟩
  | read i next ih =>
    have hi : mem' i = mem i := h i List.mem_cons_self
    obtain ⟨hrun, hreads⟩ := ih (mem i) (fun j hj => h j (List.mem_cons_of_mem i hj))
    simp only [run, reads, hi]
    exact ⟨hrun, congrArg (i :: ·) hreads⟩

def Within (lo hi : ℕ) (x : Reading β α) : Prop :=
  ∀ mem, ∀ i ∈ x.reads mem, lo ≤ i ∧ i < hi

section
variable {lo hi : ℕ}

theorem Within.pure (a : α) : Within lo hi (Pure.pure a : Reading β α) := by
  intro mem i hi
  cases hi

theorem Within.bind {x : Reading β α} {f : α → Reading β γ} (hx : Within lo hi x)
    (hf : ∀ a, Within lo hi (f a)) : Within lo hi (x >>= f) := by
  intro mem i hmem
  rw [reads_bind, List.mem_append] at hmem
  exact hmem.elim (hx mem i) (hf _ mem i)

theorem Within.fetch {i : ℕ} (hlo : lo ≤ i) (hhi : i < hi) : Within lo hi (fetch i : Reading β β) := by
  intro mem j hj
  rw [reads_fetch, List.mem_singleton] at hj
  omega

theorem Within.fetchRange {i n : ℕ} (hlo : lo ≤ i) (hhi : i + n ≤ hi) :
    Within lo hi (fetchRange i n : Reading β (List β)) := by
  intro mem j hj
  rw [reads_fetchRange, List.mem_range'_1] at hj
  omega

theorem Within.run_congr {x : Reading β α} (hx : Within lo hi x) {mem mem' : ℕ → β}
    (h : ∀ i, lo ≤ i → i < hi → mem' i = mem i) : x.run mem' = x.run mem :=
  (Reading.run_congr x (fun i hi => h i (hx mem i hi).1 (hx mem i hi).2)).1

end

end Reading

theorem map_getD_range' {β : Type} (d : β) (block : List β) (i n : ℕ) (h : i + n ≤ block.length) :
    (List.range' i n).map (block.getD · d) = (block.drop i).take n := by
  induction n generalizing i with
  | zero => simp
  | succ n ih =>
    have hlt : i < block.length := by omega
    rw [List.range'_succ, List.map_cons, ih (i + 1) (by omega), List.drop_eq_getElem_cons hlt,
      List.take_succ_cons, List.getD_eq_getElem?_getD, List.getElem?_eq_getElem hlt, Option.getD_some]

end NukeMs
