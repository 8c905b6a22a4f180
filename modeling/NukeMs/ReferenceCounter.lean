import Mathlib.Algebra.Group.Nat.Defs
import Mathlib.Tactic.Common

/-!
`refcounter.hpp`: the counter is an `unsigned`, so it counts modulo `2 ^ 32`.
-/

namespace NukeMs

abbrev Unsigned := BitVec 32

namespace ReferenceCounter

def increase (referenceCount : Unsigned) : Unsigned := referenceCount + 1

def decrease (referenceCount : Unsigned) : Unsigned := referenceCount - 1

@[simp] theorem decrease_increase (n : Unsigned) : decrease (increase n) = n :=
  BitVec.add_sub_cancel n 1

theorem decrease_eq_zero_iff {n : Unsigned} : decrease n = 0 ↔ n = 1 := by
  constructor
  · intro h
    rw [← BitVec.sub_add_cancel n 1, show n - 1 = 0 from h]
    rfl
  · rintro rfl
    rfl

/-- The counter is one when there are some number of references, from `low` to `high`, on top of
those that it counts. -/
def ComesToOne (count : Unsigned) (low high : ℕ) : Prop :=
  ∃ n, low ≤ n ∧ n ≤ high ∧ count + BitVec.ofNat 32 n = 1

instance (count : Unsigned) (low high : ℕ) : Decidable (ComesToOne count low high) :=
  decidable_of_iff (∃ n, n < high + 1 ∧ low ≤ n ∧ count + BitVec.ofNat 32 n = 1) <| by
    simp only [ComesToOne, Nat.lt_succ_iff]
    exact exists_congr fun n => and_left_comm

section
variable {count : Unsigned} {low high : ℕ}

theorem comesToOne_add (k : ℕ) : ComesToOne (count + BitVec.ofNat 32 k) low high ↔
    ComesToOne count (low + k) (high + k) := by
  constructor
  · rintro ⟨n, hlow, hhigh, hone⟩
    refine ⟨n + k, by omega, by omega, ?_⟩
    rw [← hone, BitVec.add_assoc, Nat.add_comm, BitVec.ofNat_add]
  · rintro ⟨n, hlow, hhigh, hone⟩
    refine ⟨n - k, by omega, by omega, ?_⟩
    rw [← hone, BitVec.add_assoc, ← BitVec.ofNat_add, Nat.add_sub_cancel' (by omega)]

theorem comesToOne_empty (h : high < low) : ¬ ComesToOne count low high := by
  rintro ⟨n, hlow, hhigh, -⟩
  omega

theorem ComesToOne.mono {low' high' : ℕ} (h : ComesToOne count low high) (hlow : low' ≤ low)
    (hhigh : high ≤ high') : ComesToOne count low' high' := by
  obtain ⟨n, hn, hn', hone⟩ := h
  exact ⟨n, Nat.le_trans hlow hn, Nat.le_trans hn' hhigh, hone⟩

theorem comesToOne_or {low' high' : ℕ} (hlow : low ≤ low') (hnext : low' ≤ high + 1)
    (hhigh : high ≤ high') :
    ComesToOne count low high ∨ ComesToOne count low' high' ↔ ComesToOne count low high' := by
  constructor
  · rintro (h | h)
    · exact h.mono (Nat.le_refl _) hhigh
    · exact h.mono hlow (Nat.le_refl _)
  · rintro ⟨n, hn, hn', hone⟩
    by_cases hmiddle : n ≤ high
    · exact .inl ⟨n, hn, hmiddle, hone⟩
    · exact .inr ⟨n, by omega, hn', hone⟩

theorem comesToOne_iff (h : count.toNat + high ≤ 2 ^ 32) :
    ComesToOne count low high ↔ low + count.toNat ≤ 1 ∧ 1 ≤ high + count.toNat := by
  have hone : ∀ n, n ≤ high → (count + BitVec.ofNat 32 n = 1 ↔ count.toNat + n = 1) := by
    intro n hn
    constructor
    · intro hc
      bv_omega
    · intro hc
      bv_omega
  constructor
  · rintro ⟨n, hlow, hhigh, hn⟩
    rw [hone n hhigh] at hn
    omega
  · rintro ⟨hlow, hhigh⟩
    exact ⟨1 - count.toNat, by omega, by omega, (hone _ (by omega)).mpr (by omega)⟩

end

theorem increase_toNat {n : Unsigned} (h : n.toNat + 1 < 2 ^ 32) :
    (increase n).toNat = n.toNat + 1 := by
  rw [increase, BitVec.toNat_add]
  exact Nat.mod_eq_of_lt h

theorem decrease_toNat {n : Unsigned} (h : 0 < n.toNat) : (decrease n).toNat + 1 = n.toNat := by
  rw [decrease]
  bv_omega

end ReferenceCounter

end NukeMs
