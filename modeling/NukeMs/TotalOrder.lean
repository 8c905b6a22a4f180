import Mathlib.Logic.Function.Basic
import Mathlib.Logic.Relation
import Mathlib.Tactic.Common

namespace TotalOrder

open Relation (ReflTransGen)

structure Room (ι α : Type) where
  log : List (ι × α)
  outbox : ι → List α
  joined : ι → Option ℕ
  read : ι → ℕ

namespace Room

section
variable {ι α : Type}

def empty : Room ι α := ⟨[], fun _ => [], fun _ => none, fun _ => 0⟩

def start (r : Room ι α) (k : ι) : ℕ := (r.joined k).getD 0

/-- The entries that are behind a member, whether it has read them or they are from before its time. -/
def known (r : Room ι α) (k : ι) : List (ι × α) := r.log.take (r.start k + r.read k)

def heard (r : Room ι α) (k : ι) : List α := ((r.known k).drop (r.start k)).map Prod.snd

variable [DecidableEq ι]

def messagesFrom (k : ι) (entries : List (ι × α)) : List α :=
  (entries.filter fun entry => entry.1 = k).map Prod.snd

def sent (r : Room ι α) (k : ι) : List α := messagesFrom k r.log ++ r.outbox k

inductive Step (r : Room ι α) : Room ι α → Prop
  | send (k : ι) (m : α) :
    Step r { r with outbox := Function.update r.outbox k (r.outbox k ++ [m]) }
  | enter (k : ι) (m : α) (rest : List α) (hnext : r.outbox k = m :: rest) :
    Step r { r with log := r.log ++ [(k, m)], outbox := Function.update r.outbox k rest }
  | join (k : ι) (hnew : r.joined k = none) :
    Step r { r with joined := Function.update r.joined k (some r.log.length) }
  | read (k : ι) (n : ℕ) (hjoined : r.joined k = some n) (hmore : n + r.read k < r.log.length) :
    Step r { r with read := Function.update r.read k (r.read k + 1) }

abbrev Reach : Room ι α → Room ι α → Prop := ReflTransGen Step

structure Sound (r : Room ι α) : Prop where
  bounded : ∀ k, r.start k + r.read k ≤ r.log.length
  outside : ∀ k, r.joined k = none → r.read k = 0

structure Grows (a b : Room ι α) : Prop where
  log : a.log <+: b.log
  sent : ∀ k, a.sent k <+: b.sent k
  joined : ∀ k n, a.joined k = some n → b.joined k = some n
  read : ∀ k, a.read k ≤ b.read k

end

section
variable {ι α : Type} [DecidableEq ι] {r a b : Room ι α} {j k : ι}

theorem messagesFrom_append (k : ι) (entries more : List (ι × α)) :
    messagesFrom k (entries ++ more) = messagesFrom k entries ++ messagesFrom k more := by
  rw [messagesFrom, messagesFrom, messagesFrom, List.filter_append, List.map_append]

theorem messagesFrom_mono {entries more : List (ι × α)} (h : entries <+: more) :
    messagesFrom k entries <+: messagesFrom k more := by
  obtain ⟨rest, rfl⟩ := h
  rw [messagesFrom_append]
  exact List.prefix_append _ _

theorem messagesFrom_cons (k : ι) (entry : ι × α) (entries : List (ι × α)) :
    messagesFrom k (entry :: entries) =
      (if entry.1 = k then [entry.2] else []) ++ messagesFrom k entries := by
  rw [messagesFrom, messagesFrom, List.filter_cons]
  by_cases h : entry.1 = k <;> simp [h]

omit [DecidableEq ι] in
theorem heard_eq (r : Room ι α) (k : ι) :
    r.heard k = ((r.log.map Prod.snd).drop (r.start k)).take (r.read k) := by
  rw [heard, known, List.drop_take, Nat.add_sub_cancel_left, List.map_take, List.map_drop]

omit [DecidableEq ι] in
theorem Sound.heard_length (h : Sound r) (k : ι) : (r.heard k).length = r.read k := by
  have hbounded := h.bounded k
  rw [heard_eq, List.length_take, List.length_drop, List.length_map]
  omega

omit [DecidableEq ι] in
theorem known_eq_log {r : Room ι α} {k : ι} (h : r.log.length ≤ r.start k + (r.heard k).length) :
    r.known k = r.log := by
  apply List.take_of_length_le
  rw [heard, List.length_map, List.length_drop, known, List.length_take] at h
  omega

omit [DecidableEq ι] in
theorem Sound.heard_enters (h : Sound r) (more : List (ι × α)) (outbox : ι → List α) (k : ι) :
    heard { r with log := r.log ++ more, outbox := outbox } k = r.heard k := by
  have hknown : known { r with log := r.log ++ more, outbox := outbox } k = r.known k :=
    List.take_append_of_le_length (h.bounded k)
  rw [heard, hknown]
  rfl

omit [DecidableEq ι] in
theorem Sound.heard_outside (h : Sound r) (hnew : r.joined k = none) : r.heard k = [] := by
  rw [heard_eq, h.outside k hnew, List.take_zero]

omit [DecidableEq ι] in
theorem empty_sound : Sound (empty : Room ι α) := ⟨fun _ => Nat.le_refl _, fun _ _ => rfl⟩

theorem Step.sound (h : Step a b) (ha : Sound a) : Sound b := by
  cases h with
  | send k m => exact ⟨ha.bounded, ha.outside⟩
  | enter k m rest hnext =>
    refine ⟨?_, ha.outside⟩
    intro i
    have hbounded := ha.bounded i
    rw [List.length_append]
    exact Nat.le_add_right_of_le hbounded
  | join k hnew =>
    have hzero := ha.outside k hnew
    constructor
    · intro i
      by_cases hi : i = k
      · subst hi
        simp [start, hzero]
      · simpa [start, Function.update_of_ne hi] using ha.bounded i
    · intro i hi
      by_cases hik : i = k
      · exact hik ▸ hzero
      · exact ha.outside i (by simpa [Function.update_of_ne hik] using hi)
  | read k n hjoined hmore =>
    constructor
    · intro i
      by_cases hi : i = k
      · subst hi
        simp only [start, hjoined, Option.getD_some, Function.update_self]
        omega
      · simpa [start, Function.update_of_ne hi] using ha.bounded i
    · intro i hi
      have hik : i ≠ k := by
        rintro rfl
        rw [hjoined] at hi
        cases hi
      simpa [Function.update_of_ne hik] using ha.outside i hi

theorem Reach.sound (h : Reach a b) (ha : Sound a) : Sound b := by
  induction h with
  | refl => exact ha
  | tail _ hstep ih => exact hstep.sound ih

theorem Grows.refl (r : Room ι α) : Grows r r :=
  ⟨List.prefix_rfl, fun _ => List.prefix_rfl, fun _ _ h => h, fun _ => Nat.le_refl _⟩

theorem Grows.trans {c : Room ι α} (h : Grows a b) (h' : Grows b c) : Grows a c where
  log := h.log.trans h'.log
  sent k := (h.sent k).trans (h'.sent k)
  joined k n hk := h'.joined k n (h.joined k n hk)
  read k := Nat.le_trans (h.read k) (h'.read k)

theorem Step.grows (h : Step a b) : Grows a b := by
  cases h with
  | send k m =>
    refine ⟨List.prefix_rfl, ?_, fun _ _ h => h, fun _ => Nat.le_refl _⟩
    intro i
    by_cases hi : i = k
    · subst hi
      simp only [sent, Function.update_self, ← List.append_assoc]
      exact List.prefix_append _ _
    · simp only [sent, Function.update_of_ne hi]
      exact List.prefix_rfl
  | enter k m rest hnext =>
    refine ⟨List.prefix_append _ _, ?_, fun _ _ h => h, fun _ => Nat.le_refl _⟩
    intro i
    by_cases hi : i = k
    · subst hi
      simp [sent, messagesFrom, hnext]
    · have hik : k ≠ i := fun h => hi h.symm
      simp [sent, messagesFrom, hik, Function.update_of_ne hi]
  | join k hnew =>
    refine ⟨List.prefix_rfl, fun _ => List.prefix_rfl, ?_, fun _ => Nat.le_refl _⟩
    intro i n hi
    have hik : i ≠ k := by
      rintro rfl
      rw [hnew] at hi
      cases hi
    simpa [Function.update_of_ne hik] using hi
  | read k n hjoined hmore =>
    refine ⟨List.prefix_rfl, fun _ => List.prefix_rfl, fun _ _ h => h, ?_⟩
    intro i
    by_cases hi : i = k
    · subst hi
      simp
    · simp [Function.update_of_ne hi]

theorem Reach.grows (h : Reach a b) : Grows a b := by
  induction h with
  | refl => exact .refl a
  | tail _ hstep ih => exact ih.trans hstep.grows

omit [DecidableEq ι] in
theorem known_total (r : Room ι α) (j k : ι) : r.known j <+: r.known k ∨ r.known k <+: r.known j :=
  List.prefix_or_prefix_of_prefix (List.take_prefix _ _) (List.take_prefix _ _)

omit [DecidableEq ι] in
theorem prefix_drop {β : Type} {l m : List β} (h : l <+: m) (n : ℕ) : l.drop n <+: m.drop n := by
  obtain ⟨rest, rfl⟩ := h
  rw [List.drop_append]
  exact List.prefix_append _ _

omit [DecidableEq ι] in
theorem heard_of_known (h : a.known k <+: b.known j) :
    (a.heard k).drop (b.start j - a.start k) <+: (b.heard j).drop (a.start k - b.start j) := by
  have hboth : a.start k + (b.start j - a.start k) = b.start j + (a.start k - b.start j) := by omega
  rw [heard, heard, ← List.map_drop, ← List.map_drop, List.drop_drop, List.drop_drop, hboth]
  exact (prefix_drop h _).map _

omit [DecidableEq ι] in
theorem heard_comparable (r : Room ι α) (j k : ι) :
    (r.heard k).drop (r.start j - r.start k) <+: (r.heard j).drop (r.start k - r.start j) ∨
      (r.heard j).drop (r.start k - r.start j) <+: (r.heard k).drop (r.start j - r.start k) :=
  (known_total r k j).imp heard_of_known heard_of_known

theorem Reach.causal (h : Reach a b)
    (hread : (a.sent k).length < (messagesFrom k (b.known j)).length) : a.known k <+: b.known j := by
  have hlog := h.grows.log
  have hka : a.known k <+: b.log := (List.take_prefix _ _).trans hlog
  have hjb : b.known j <+: b.log := List.take_prefix _ _
  obtain hle | hlt := List.prefix_or_prefix_of_prefix hka hjb
  · exact hle
  · -- what `j` has read would all have been in the log by then
    have hearly : b.known j <+: a.log := hlt.trans (List.take_prefix _ _)
    have hcount := ((messagesFrom_mono (k := k) hearly).trans (List.prefix_append _ (a.outbox k))).length_le
    exact absurd hread (Nat.not_lt.mpr hcount)

theorem reach_sends (r : Room ι α) (k : ι) (ms : List α) :
    Reach r { r with outbox := Function.update r.outbox k (r.outbox k ++ ms) } := by
  induction ms generalizing r with
  | nil =>
    rw [List.append_nil, Function.update_eq_self]
  | cons m ms ih =>
    refine ReflTransGen.head (.send k m) ?_
    have hrest := ih { r with outbox := Function.update r.outbox k (r.outbox k ++ [m]) }
    simpa [Function.update_idem, List.append_assoc] using hrest

theorem reach_reads (r : Room ι α) (k : ι) (n count : ℕ) (hjoined : r.joined k = some n)
    (hmore : n + r.read k + count ≤ r.log.length) :
    Reach r { r with read := Function.update r.read k (r.read k + count) } := by
  induction count with
  | zero => rw [Nat.add_zero, Function.update_eq_self]
  | succ count ih =>
    refine ReflTransGen.tail (ih (by omega)) ?_
    have hlast := Step.read (r := { r with read := Function.update r.read k (r.read k + count) }) k n
      hjoined (by simp only [Function.update_self]; omega)
    simpa [Function.update_idem, Nat.add_assoc] using hlast

theorem reach_enters (r : Room ι α) (more : List (ι × α)) (outbox : ι → List α)
    (hnext : ∀ k, r.outbox k = messagesFrom k more ++ outbox k) :
    Reach r { r with log := r.log ++ more, outbox := outbox } := by
  induction more generalizing r with
  | nil =>
    have heq : r.outbox = outbox := funext fun k => by simpa [messagesFrom] using hnext k
    rw [List.append_nil, ← heq]
  | cons entry more ih =>
    obtain ⟨k, m⟩ := entry
    have hk := hnext k
    rw [messagesFrom_cons, if_pos rfl, List.append_assoc] at hk
    refine ReflTransGen.head (.enter k m _ hk) ?_
    have hrest := ih { r with
      log := r.log ++ [(k, m)]
      outbox := Function.update r.outbox k ([] ++ (messagesFrom k more ++ outbox k)) } ?_
    · simpa [List.append_assoc] using hrest
    · intro i
      by_cases hi : i = k
      · subst hi
        simp
      · have hik : k ≠ i := fun h => hi h.symm
        simpa [messagesFrom_cons, hik, Function.update_of_ne hi] using hnext i

omit [DecidableEq ι] in
theorem heard_congr {r' : Room ι α} (hlog : r'.log = r.log) (hjoined : r'.joined k = r.joined k)
    (hread : r'.read k = r.read k) : r'.heard k = r.heard k := by
  rw [heard_eq, heard_eq, start, start, hlog, hjoined, hread]

theorem sent_enters {more : List (ι × α)} {outbox : ι → List α}
    (hnext : ∀ k, r.outbox k = messagesFrom k more ++ outbox k) (k : ι) :
    sent { r with log := r.log ++ more, outbox := outbox } k = r.sent k := by
  rw [sent, sent, messagesFrom_append, List.append_assoc, hnext]

theorem Sound.heard_joins (h : Sound r) (hnew : r.joined k = none) (n : ℕ) (j : ι) :
    heard { r with joined := Function.update r.joined k (some n) } j = r.heard j := by
  by_cases hj : j = k
  · subst hj
    rw [h.heard_outside hnew, heard_eq, h.outside j hnew, List.take_zero]
  · exact heard_congr rfl (Function.update_of_ne hj _ _) rfl

theorem reach_hears (h : Sound r) {new : List α}
    (hnext : r.heard k ++ new <+: (r.log.map Prod.snd).drop (r.start k))
    (hjoined : r.joined k = none → new = []) : ∃ read, Reach r { r with read := read } ∧
      heard { r with read := read } k = r.heard k ++ new ∧
      ∀ j, j ≠ k → heard { r with read := read } j = r.heard j := by
  refine ⟨Function.update r.read k (r.read k + new.length), ?_, ?_, ?_⟩
  · cases hk : r.joined k with
    | none =>
      rw [hjoined hk, List.length_nil, Nat.add_zero, Function.update_eq_self]
    | some n =>
      have hstart : r.start k = n := by rw [start, hk, Option.getD_some]
      have hlength := hnext.length_le
      have hbounded := h.bounded k
      rw [List.length_append, h.heard_length, List.length_drop, List.length_map] at hlength
      exact reach_reads r k n new.length hk (by omega)
  · have htake := List.prefix_iff_eq_take.mp hnext
    rw [List.length_append, h.heard_length] at htake
    rw [heard_eq, htake]
    simp [start]
  · intro j hj
    exact heard_congr rfl rfl (Function.update_of_ne hj _ _)

end

end Room

end TotalOrder
