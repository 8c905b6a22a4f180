import Mathlib.Data.List.TakeWhile
import Mathlib.Tactic.Common

namespace Words

variable {α : Type} (sep : α → Bool)

def words (cs : List α) : List (List α) := (cs.splitOnP sep).filter (· ≠ [])

def Blank (cs : List α) : Prop := ∀ c ∈ cs, sep c = true

structure IsWord (w : List α) : Prop where
  nonempty : w ≠ []
  whole : ∀ c ∈ w, sep c = false

def Parted (rest : List α) : Prop := ∀ c ∈ rest.head?, sep c = true

variable {sep}

theorem blank_nil : Blank sep [] := List.forall_mem_nil _

theorem parted_nil : Parted sep [] := nofun

theorem parted_cons {c : α} (h : sep c = true) (cs : List α) : Parted sep (c :: cs) := by
  rintro _ ⟨⟩
  exact h

theorem Blank.parted {cs : List α} (h : Blank sep cs) (hne : cs ≠ []) (rest : List α) :
    Parted sep (cs ++ rest) := by
  obtain ⟨c, cs, rfl⟩ := List.exists_cons_of_ne_nil hne
  exact parted_cons (h c List.mem_cons_self) _

variable (sep) in
theorem exists_word (cs : List α) : Blank sep cs ∨ ∃ before w rest,
    cs = before ++ (w ++ rest) ∧ Blank sep before ∧ IsWord sep w ∧ Parted sep rest := by
  have hblank : Blank sep (cs.takeWhile sep) := fun c hc => List.mem_takeWhile_imp hc
  have hcs : cs.takeWhile sep ++ cs.dropWhile sep = cs := List.takeWhile_append_dropWhile
  cases hd : cs.dropWhile sep with
  | nil =>
    rw [hd, List.append_nil] at hcs
    exact .inl (hcs ▸ hblank)
  | cons c d =>
    have hc : sep c = false := by
      have hhead := List.head?_dropWhile_not sep cs
      rw [hd] at hhead
      exact hhead
    refine .inr ⟨cs.takeWhile sep, c :: d.takeWhile (!sep ·), d.dropWhile (!sep ·), ?_, hblank,
      ⟨List.cons_ne_nil _ _, ?_⟩, ?_⟩
    · rw [List.cons_append, List.takeWhile_append_dropWhile, ← hd, hcs]
    · intro x hx
      obtain rfl | hx := List.mem_cons.mp hx
      · exact hc
      · simpa using List.mem_takeWhile_imp hx
    · intro x hx
      have hhead := List.head?_dropWhile_not (!sep ·) d
      rw [Option.mem_def.mp hx] at hhead
      simpa using hhead

variable {w rest cs : List α} {ws : List (List α)}

@[simp] theorem words_nil : words sep [] = [] := rfl

@[simp] theorem words_sep {c : α} (h : sep c = true) (cs : List α) :
    words sep (c :: cs) = words sep cs := by
  rw [words, List.splitOnP_cons_eq_if_modifyHead, if_pos h]
  rfl

theorem words_blank_append (h : Blank sep w) (cs : List α) : words sep (w ++ cs) = words sep cs := by
  induction w with
  | nil => rfl
  | cons c w ih =>
    obtain ⟨hc, hw⟩ := List.forall_mem_cons.mp h
    rw [List.cons_append, words_sep hc, ih hw]

theorem words_blank (h : Blank sep cs) : words sep cs = [] := by
  rw [← List.append_nil cs, words_blank_append h, words_nil]

theorem words_word (hw : IsWord sep w) (hrest : Parted sep rest) :
    words sep (w ++ rest) = w :: words sep rest := by
  cases rest with
  | nil =>
    rw [List.append_nil, words, List.splitOnP_eq_singleton hw.whole]
    simp [hw.nonempty]
  | cons c rest =>
    have hc := hrest c rfl
    rw [words_sep hc, words, List.splitOnP_append_cons_of_forall_mem hw.whole c hc]
    simp [hw.nonempty, words]

theorem words_eq_cons_iff : words sep cs = w :: ws ↔ ∃ before rest, cs = before ++ (w ++ rest) ∧
    Blank sep before ∧ IsWord sep w ∧ Parted sep rest ∧ words sep rest = ws := by
  constructor
  · intro h
    obtain hblank | ⟨before, v, rest, rfl, hbefore, hv, hrest⟩ := exists_word sep cs
    · rw [words_blank hblank] at h
      cases h
    · rw [words_blank_append hbefore, words_word hv hrest] at h
      cases h
      exact ⟨before, rest, rfl, hbefore, hv, hrest, rfl⟩
  · rintro ⟨before, rest, rfl, hbefore, hw, hrest, rfl⟩
    rw [words_blank_append hbefore, words_word hw hrest]

theorem isWord_of_mem (h : w ∈ words sep cs) : IsWord sep w := by
  induction hws : words sep cs generalizing cs with
  | nil =>
    rw [hws] at h
    cases h
  | cons v ws ih =>
    obtain ⟨before, rest, -, -, hv, -, hrest⟩ := words_eq_cons_iff.mp hws
    rw [hws, List.mem_cons] at h
    obtain rfl | h := h
    · exact hv
    · exact ih (hrest ▸ h) hrest

end Words
