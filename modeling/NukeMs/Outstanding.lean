import Mathlib.Tactic.Common

namespace NukeMs.Outstanding

variable {α : Type} {ops : List α} {i : ℕ} {op : α}

theorem mem_eraseIdx_or (hop : ops[i]? = some op) {other : α} (h : other ∈ ops) :
    other = op ∨ other ∈ ops.eraseIdx i := by
  obtain ⟨j, hj⟩ := List.mem_iff_getElem?.mp h
  by_cases hij : j = i
  · subst hij
    exact .inl (Option.some.inj (hj.symm.trans hop))
  · exact .inr (List.mem_eraseIdx_iff_getElem?.mpr ⟨j, hij, hj⟩)

theorem mem_of_mem_set {new other : α} (h : other ∈ ops.set i new) :
    other = new ∨ other ∈ ops.eraseIdx i := by
  obtain ⟨j, hj⟩ := List.mem_iff_getElem?.mp h
  by_cases hij : i = j
  · subst hij
    rw [List.getElem?_set_self'] at hj
    obtain ⟨old, -, hnew⟩ := Option.map_eq_some_iff.mp hj
    exact .inl hnew.symm
  · rw [List.getElem?_set_ne hij] at hj
    exact .inr (List.mem_eraseIdx_iff_getElem?.mpr ⟨j, Ne.symm hij, hj⟩)

theorem countP_eraseIdx (p : α → Bool) (hop : ops[i]? = some op) :
    (ops.eraseIdx i).countP p + (if p op then 1 else 0) = ops.countP p := by
  obtain ⟨hi, rfl⟩ := List.getElem?_eq_some_iff.mp hop
  conv_rhs => rw [← List.take_append_drop i ops, List.drop_eq_getElem_cons hi]
  rw [List.eraseIdx_eq_take_drop_succ, List.countP_append, List.countP_append, List.countP_cons,
    Nat.add_assoc]

theorem countP_eraseIdx_single {p : α → Bool} (hop : ops[i]? = some op) (hp : p op = true)
    (hsingle : ops.countP p ≤ 1) : (ops.eraseIdx i).countP p = 0 := by
  have hcount := countP_eraseIdx p hop
  rw [hp, if_pos rfl] at hcount
  omega

theorem countP_set (p : α → Bool) (hop : ops[i]? = some op) {other : α} (h : p other = p op) :
    (ops.set i other).countP p = ops.countP p := by
  obtain ⟨hi, rfl⟩ := List.getElem?_eq_some_iff.mp hop
  have herase := countP_eraseIdx p hop
  rw [List.countP_set hi, h, ← herase, Nat.add_sub_cancel]

theorem countP_set_of_not {p : α → Bool} (hop : ops[i]? = some op) {other : α} (h : p other = false) :
    (ops.set i other).countP p = (ops.eraseIdx i).countP p := by
  obtain ⟨hi, rfl⟩ := List.getElem?_eq_some_iff.mp hop
  have herase := countP_eraseIdx p hop
  rw [List.countP_set hi, h, if_neg Bool.false_ne_true, ← herase, Nat.add_sub_cancel, Nat.add_zero]

theorem countP_and_eq_iff (p q : α → Bool) :
    ops.countP (fun op => p op && q op) = ops.countP p ↔ ∀ op ∈ ops, p op = true → q op = true := by
  constructor
  · intro h op hmem hp
    have hsplit := List.countP_eq_countP_filter_add ops p q
    rw [List.countP_filter, h] at hsplit
    have hnone : (ops.filter (fun op => !q op)).countP p = 0 := by omega
    by_contra hq
    rw [Bool.not_eq_true] at hq
    exact List.countP_eq_zero.mp hnone op (List.mem_filter.mpr ⟨hmem, by simp [hq]⟩) hp
  · intro h
    apply List.countP_congr
    intro op hmem
    rw [Bool.and_eq_true]
    exact ⟨fun hboth => hboth.1, fun hp => ⟨hp, h op hmem hp⟩⟩

end NukeMs.Outstanding
