import Mathlib.Data.List.Basic
import NukeMs.Runs

/-!
Composed writes on one stream. Each write that has been started puts its buffer on
the stream in any number of transfers, and the transfers of different writes may come
in any order. A sender is a machine that starts such writes.
-/

namespace NukeMs.ComposedWrites

open Runs

variable {α σ E : Type}

/-- The buffers handed over, what each write that is under way has left, what is on the stream, and
whether a write has failed. -/
structure Wire (α : Type) where
  handed : List (List α)
  rests : List (List α)
  sent : List α
  failed : Bool

inductive Fate
  | goesOn
  | through (k : ℕ)
  | fails (k : ℕ)
  | aborted

namespace Fate

def fits (under : ℕ) : Fate → Prop
  | .through k | .fails k => k < under
  | _ => True

def left (under : ℕ) : Fate → ℕ
  | .goesOn => under
  | .through _ | .fails _ => under - 1
  | .aborted => 0

end Fate

namespace Wire

def empty : Wire α := ⟨[], [], [], false⟩

def handOver (bs : List (List α)) (w : Wire α) : Wire α :=
  { w with handed := w.handed ++ bs, rests := w.rests ++ bs }

/-- A write that has succeeded has put all of its buffer on the stream, and one that has failed
puts nothing more on it. -/
def settle (w : Wire α) : Fate → Option (Wire α)
  | .goesOn => some w
  | .through k =>
    match w.rests[k]? with
    | some [] => some { w with rests := w.rests.eraseIdx k }
    | _ => none
  | .fails k =>
    if k < w.rests.length then some { w with rests := w.rests.eraseIdx k, failed := true } else none
  | .aborted => some { w with rests := [], failed := w.failed || !w.rests.isEmpty }

def transfer (i n : ℕ) (w : Wire α) : Option (Wire α) :=
  match w.rests[i]? with
  | none => none
  | some rest =>
    if 0 < n ∧ n ≤ rest.length then
      some { w with rests := w.rests.set i (rest.drop n), sent := w.sent ++ rest.take n }
    else none

def transferStep (w : Wire α) (t : ℕ × ℕ) : Option (Wire α) := transfer t.1 t.2 w

def Whole (w : Wire α) : Prop :=
  ∃ k part, w.sent = (w.handed.take k).flatten ++ part ∧ part <+: (w.handed.drop k).headD []

def Robust (w : Wire α) : Prop :=
  ∀ ts t, exec transferStep w ts = some t → Whole t

def busy (w : Wire α) : List (List α) := w.rests.filter fun rest => !rest.isEmpty

def Idle (w : Wire α) : Prop := ∀ rest ∈ w.rests, rest = []

structure Orderly (w : Wire α) : Prop where
  single : w.busy.length ≤ 1
  sent : w.sent ++ w.rests.flatten = w.handed.flatten

variable {w t : Wire α} {i n : ℕ}

theorem whole_of_prefix {handed : List (List α)} {sent : List α} (h : sent <+: handed.flatten) :
    ∃ k part, sent = (handed.take k).flatten ++ part ∧ part <+: (handed.drop k).headD [] := by
  induction handed generalizing sent with
  | nil =>
    rw [List.flatten_nil, List.prefix_nil] at h
    exact ⟨0, [], by simp [h], List.nil_prefix⟩
  | cons b bs ih =>
    rw [List.flatten_cons] at h
    by_cases hlen : sent.length ≤ b.length
    · exact ⟨0, sent, rfl, List.prefix_of_prefix_length_le h (List.prefix_append _ _) hlen⟩
    · obtain ⟨tail, rfl⟩ :=
        List.prefix_of_prefix_length_le (List.prefix_append b bs.flatten) h (by omega)
      rw [List.prefix_append_right_inj] at h
      obtain ⟨k, part, htail, hpart⟩ := ih h
      exact ⟨k + 1, part, by simp [htail], hpart⟩

theorem prefix_of_whole (h : w.Whole) : w.sent <+: w.handed.flatten := by
  obtain ⟨k, part, hsent, hpart⟩ := h
  have hsplit : w.handed.flatten = (w.handed.take k).flatten ++ (w.handed.drop k).flatten := by
    rw [← List.flatten_append, List.take_append_drop]
  rw [hsent, hsplit, List.prefix_append_right_inj]
  cases hd : w.handed.drop k with
  | nil =>
    rw [hd] at hpart
    exact hpart
  | cons b bs =>
    rw [hd] at hpart
    exact hpart.trans (List.prefix_append _ _)

theorem Whole.handOver (h : w.Whole) (bs : List (List α)) : (w.handOver bs).Whole := by
  apply whole_of_prefix
  change w.sent <+: (w.handed ++ bs).flatten
  rw [List.flatten_append]
  exact (prefix_of_whole h).trans (List.prefix_append _ _)

theorem transfer_eq_some : transfer i n w = some t ↔ ∃ rest, w.rests[i]? = some rest ∧ 0 < n ∧
    n ≤ rest.length ∧
      t = { w with rests := w.rests.set i (rest.drop n), sent := w.sent ++ rest.take n } := by
  unfold transfer
  cases h : w.rests[i]? with
  | none => simp
  | some rest =>
    simp only [Option.some.injEq, exists_eq_left']
    split
    next hn => simp [hn, eq_comm]
    next hn =>
      simp only [reduceCtorEq, false_iff, not_and]
      intro h0 hle
      exact absurd ⟨h0, hle⟩ hn

theorem transfer_of_getElem {rest : List α} (h : w.rests[i]? = some rest) (hpos : 0 < n)
    (hle : n ≤ rest.length) : w.transfer i n =
      some { w with rests := w.rests.set i (rest.drop n), sent := w.sent ++ rest.take n } :=
  transfer_eq_some.mpr ⟨rest, h, hpos, hle, rfl⟩

theorem flatten_busy (w : Wire α) : w.busy.flatten = w.rests.flatten :=
  List.flatten_filter_not_isEmpty

theorem busy_eq_nil : w.busy = [] ↔ w.Idle := by
  simp [busy, Idle]

theorem Orderly.whole (h : w.Orderly) : w.Whole :=
  whole_of_prefix (h.sent ▸ List.prefix_append _ _)

theorem Orderly.split {rest : List α} (h : w.Orderly) (hrest : w.rests[i]? = some rest)
    (hne : rest ≠ []) : ∃ before after, w.rests = before ++ rest :: after ∧ before.length = i ∧
      (∀ other ∈ before ++ after, other = []) ∧ w.sent ++ rest = w.handed.flatten := by
  obtain ⟨hi, rfl⟩ := List.getElem?_eq_some_iff.mp hrest
  have hsplit : w.rests = w.rests.take i ++ w.rests[i] :: w.rests.drop (i + 1) := by
    rw [← List.drop_eq_getElem_cons hi, List.take_append_drop]
  have hsingle := h.single
  have hsent := h.sent
  generalize w.rests[i] = rest at *
  generalize hbefore : w.rests.take i = before at hsplit
  have hlen : before.length = i := by
    rw [← hbefore, List.length_take, Nat.min_eq_left (Nat.le_of_lt hi)]
  generalize w.rests.drop (i + 1) = after at hsplit
  have hlive : (!rest.isEmpty) = true := by simpa using hne
  rw [busy, hsplit, List.filter_append, List.filter_cons, if_pos hlive, List.length_append,
    List.length_cons] at hsingle
  have hothers : ∀ other ∈ before ++ after, other = [] := by
    intro other hother
    have hnone : ((before ++ after).filter fun rest => !rest.isEmpty) = [] := by
      rw [List.filter_append, ← List.length_eq_zero_iff, List.length_append]
      omega
    simpa using List.filter_eq_nil_iff.mp hnone other hother
  refine ⟨before, after, hsplit, hlen, hothers, ?_⟩
  have hb : before.flatten = [] := by
    rw [List.flatten_eq_nil_iff]
    exact fun other hother => hothers other (List.mem_append_left _ hother)
  have ha : after.flatten = [] := by
    rw [List.flatten_eq_nil_iff]
    exact fun other hother => hothers other (List.mem_append_right _ hother)
  rwa [hsplit, List.flatten_append, List.flatten_cons, hb, ha, List.append_nil, List.nil_append]
    at hsent

theorem Orderly.transfer (h : w.Orderly) (ht : w.transfer i n = some t) : t.Orderly := by
  obtain ⟨rest, hrest, hpos, hle, rfl⟩ := transfer_eq_some.mp ht
  have hne : rest ≠ [] := List.ne_nil_of_length_pos (by omega)
  obtain ⟨before, after, hsplit, hlen, hothers, hsent⟩ := h.split hrest hne
  have hset : w.rests.set i (rest.drop n) = before ++ rest.drop n :: after := by
    rw [hsplit, ← hlen, List.set_append_right _ _ (Nat.le_refl _), Nat.sub_self, List.set_cons_zero]
  have hb : ∀ other ∈ before, other = [] := fun other hother => hothers other (List.mem_append_left _ hother)
  have ha : ∀ other ∈ after, other = [] := fun other hother => hothers other (List.mem_append_right _ hother)
  rw [hset]
  constructor
  · have hnone : ∀ l : List (List α), (∀ other ∈ l, other = []) → l.filter (fun rest => !rest.isEmpty) = [] := by
      intro l hl
      rw [List.filter_eq_nil_iff]
      intro other hother
      simp [hl other hother]
    rw [busy, List.filter_append, hnone before hb, List.nil_append, List.filter_cons, hnone after ha]
    split
    · exact Nat.le_refl 1
    · exact Nat.zero_le 1
  · change w.sent ++ rest.take n ++ (before ++ rest.drop n :: after).flatten = w.handed.flatten
    rw [List.flatten_append, List.flatten_cons, List.flatten_eq_nil_iff.mpr hb,
      List.flatten_eq_nil_iff.mpr ha, List.append_nil, List.nil_append, List.append_assoc,
      List.take_append_drop]
    exact hsent

theorem Orderly.robust (h : w.Orderly) : w.Robust := by
  intro ts t ht
  refine Orderly.whole (exec_invariant ?_ h ht)
  intro s e t hs hstep
  exact hs.transfer hstep

theorem empty_orderly : (empty : Wire α).Orderly := ⟨Nat.zero_le 1, rfl⟩

theorem Orderly.handOver (h : w.Orderly) (hidle : w.Idle) (b : List α) : (w.handOver [b]).Orderly := by
  have hbusy := busy_eq_nil.mpr hidle
  constructor
  · rw [busy] at hbusy
    change ((w.rests ++ [b]).filter fun rest => !rest.isEmpty).length ≤ 1
    rw [List.filter_append, hbusy, List.nil_append]
    exact List.length_filter_le _ [b]
  · change w.sent ++ (w.rests ++ [b]).flatten = (w.handed ++ [b]).flatten
    rw [List.flatten_append, List.flatten_append, ← List.append_assoc, h.sent]

theorem handOver_nil (w : Wire α) : w.handOver [] = w := by
  simp [handOver]

theorem settle_through {k : ℕ} : w.settle (.through k) = some t ↔
    w.rests[k]? = some [] ∧ t = { w with rests := w.rests.eraseIdx k } := by
  dsimp only [settle]
  split
  next h => simp [h, eq_comm]
  next h =>
    simp only [reduceCtorEq, false_iff, not_and]
    exact fun hc => absurd hc h

theorem settle_fields {fate : Fate} (h : w.settle fate = some t) :
    t.handed = w.handed ∧ t.sent = w.sent ∧ t.rests.length = fate.left w.rests.length ∧
      (w.failed = true → t.failed = true) := by
  cases fate with
  | goesOn =>
    cases h
    exact ⟨rfl, rfl, rfl, id⟩
  | through k =>
    obtain ⟨hk, rfl⟩ := settle_through.mp h
    exact ⟨rfl, rfl, List.length_eraseIdx_of_lt (List.getElem?_eq_some_iff.mp hk).1, id⟩
  | fails k =>
    simp only [settle, Option.ite_none_right_eq_some, Option.some.injEq] at h
    obtain ⟨hk, rfl⟩ := h
    exact ⟨rfl, rfl, List.length_eraseIdx_of_lt hk, fun _ => rfl⟩
  | aborted =>
    cases h
    exact ⟨rfl, rfl, rfl, fun hw => by simp [hw]⟩

theorem settle_unfailed {fate : Fate} (h : w.settle fate = some t) (hfine : t.failed = false) :
    w.failed = false ∧ t.busy = w.busy := by
  cases fate with
  | goesOn =>
    cases h
    exact ⟨hfine, rfl⟩
  | through k =>
    obtain ⟨hk, rfl⟩ := settle_through.mp h
    obtain ⟨hi, hnil⟩ := List.getElem?_eq_some_iff.mp hk
    have hsplit : w.rests = w.rests.take k ++ [] :: w.rests.drop (k + 1) := by
      rw [← hnil, ← List.drop_eq_getElem_cons hi, List.take_append_drop]
    refine ⟨hfine, ?_⟩
    change (w.rests.eraseIdx k).filter (fun rest => !rest.isEmpty) = w.rests.filter _
    conv_rhs => rw [hsplit]
    rw [List.eraseIdx_eq_take_drop_succ, List.filter_append, List.filter_append]
    rfl
  | fails k =>
    simp only [settle, Option.ite_none_right_eq_some, Option.some.injEq] at h
    obtain ⟨-, rfl⟩ := h
    cases hfine
  | aborted =>
    cases h
    simp only [Bool.or_eq_false_iff, Bool.not_eq_false', List.isEmpty_iff] at hfine
    refine ⟨hfine.1, ?_⟩
    rw [busy, busy, hfine.2]

theorem Orderly.settle {fate : Fate} (h : w.Orderly) (ht : w.settle fate = some t)
    (hfine : t.failed = false) : t.Orderly := by
  obtain ⟨hhanded, hsent, -, -⟩ := settle_fields ht
  obtain ⟨-, hbusy⟩ := settle_unfailed ht hfine
  refine ⟨hbusy ▸ h.single, ?_⟩
  rw [hhanded, hsent, ← flatten_busy, hbusy, flatten_busy]
  exact h.sent

end Wire

def Marked (a z : α) (b : List α) : Prop := ∃ x y tail, b = a :: x :: y :: z :: tail

theorem misplaced {a z : α} (haz : a ≠ z) {b rest : List α} (hb : Marked a z b) (hrest : rest ≠ [])
    (h4 : b.take 4 <+: rest ++ b) : ¬ b.take 1 ++ rest.take 3 <+: rest ++ b := by
  -- either the front of the new buffer does not fit where the rest of the old one is due, or
  -- going on with the old one after the first symbol of the new one does not
  obtain ⟨x, y, tail, rfl⟩ := hb
  match rest, hrest with
  | [r], _ =>
    simp only [List.take_succ_cons, List.take_zero, List.cons_append, List.nil_append,
      List.cons_prefix_cons, List.nil_prefix, and_true] at h4
    obtain ⟨rfl, rfl, rfl, rfl⟩ := h4
    exact absurd rfl haz
  | [r, s], _ =>
    intro h1
    simp only [List.take_succ_cons, List.take_zero, List.take_nil, List.cons_append, List.nil_append,
      List.cons_prefix_cons, List.nil_prefix, and_true] at h4 h1
    obtain ⟨rfl, rfl, rfl, rfl⟩ := h4
    exact haz h1.2.1
  | r :: s :: q :: more, _ =>
    obtain ⟨m, l, hml⟩ : ∃ m l, more ++ a :: x :: y :: z :: tail = m :: l := by
      cases more <;> exact ⟨_, _, rfl⟩
    intro h1
    simp only [List.take_succ_cons, List.take_zero, List.cons_append, List.nil_append, hml,
      List.cons_prefix_cons, List.nil_prefix, and_true] at h4 h1
    obtain ⟨-, -, -, rfl⟩ := h4
    obtain ⟨har, hrs, hsq, hqz⟩ := h1
    exact haz (har.trans (hrs.trans (hsq.trans hqz)))

namespace Wire

variable {w t : Wire α}

theorem Orderly.not_robust {a z : α} (haz : a ≠ z) {b : List α} (hb : Marked a z b)
    (h : w.Orderly) (hbusy : ¬ w.Idle) : ¬ (w.handOver [b]).Robust := by
  obtain ⟨rest, hmem, hrest⟩ : ∃ rest ∈ w.rests, rest ≠ [] := by
    simpa [Idle] using hbusy
  obtain ⟨j, hj⟩ := List.getElem?_of_mem hmem
  obtain ⟨-, -, -, -, -, hsent⟩ := h.split hj hrest
  have hlt : j < w.rests.length := (List.getElem?_eq_some_iff.mp hj).1
  have hfour : 4 ≤ b.length := by
    obtain ⟨x, y, tail, rfl⟩ := hb
    simp only [List.length_cons]
    omega
  have hpos : 0 < rest.length := List.length_pos_iff.mpr hrest
  have hexpected : (w.handOver [b]).handed.flatten = w.sent ++ (rest ++ b) := by
    change (w.handed ++ [b]).flatten = _
    rw [List.flatten_append, List.flatten_singleton, ← hsent, List.append_assoc]
  have hnew : (w.handOver [b]).rests[w.rests.length]? = some b := List.getElem?_concat_length
  have hold : (w.handOver [b]).rests[j]? = some rest := by
    rw [← hj]
    exact List.getElem?_append_left hlt
  have hfirst := transfer_of_getElem hnew (n := 4) (by omega) hfour
  have hmark := transfer_of_getElem hnew (n := 1) (by omega) (by omega)
  have hkeep : ((w.handOver [b]).rests.set w.rests.length (b.drop 1))[j]? = some rest := by
    rw [List.getElem?_set_ne (by omega), hold]
  generalize hrests : (w.handOver [b]).rests.set w.rests.length (b.drop 1) = rests at hmark hkeep
  have hsecond := transfer_of_getElem (w := ⟨(w.handOver [b]).handed, rests,
    (w.handOver [b]).sent ++ b.take 1, (w.handOver [b]).failed⟩) hkeep (n := min 3 rest.length)
    (by omega) (Nat.min_le_right _ _)
  intro hrobust
  have h4 := prefix_of_whole (hrobust [(w.rests.length, 4)] _ (exec_cons.mpr ⟨_, hfirst, rfl⟩))
  have h1 := prefix_of_whole (hrobust [(w.rests.length, 1), (j, min 3 rest.length)] _
    (exec_cons.mpr ⟨_, hmark, exec_cons.mpr ⟨_, hsecond, rfl⟩⟩))
  change w.sent ++ b.take 4 <+: (w.handOver [b]).handed.flatten at h4
  change w.sent ++ b.take 1 ++ rest.take (min 3 rest.length) <+: (w.handOver [b]).handed.flatten at h1
  rw [hexpected, List.prefix_append_right_inj] at h4
  rw [hexpected, List.append_assoc, List.prefix_append_right_inj,
    ← List.take_eq_take_min] at h1
  exact misplaced haz hb hrest h4 h1

end Wire

/-- A machine that starts writes on one connection. It knows how many of them are under way and
what each of its steps means for them; the connection opens at most once. -/
structure Sender (σ E α : Type) where
  init : σ
  step : σ → E → Option σ
  written : σ → List (List α)
  isOpen : σ → Bool
  underWay : σ → ℕ
  fate : σ → E → σ → Fate
  first : α
  fourth : α
  first_ne : first ≠ fourth
  Invariant : σ → Prop
  init_written : written init = []
  init_underWay : underWay init = 0
  init_invariant : Invariant init
  step_invariant : ∀ {s e t}, Invariant s → step s e = some t → Invariant t
  step_written : ∀ {s e t}, Invariant s → step s e = some t →
    written t = written s ∨ ∃ b, Marked first fourth b ∧ written t = written s ++ [b]
  step_underWay : ∀ {s e t}, Invariant s → step s e = some t → (fate s e t).fits (underWay s) ∧
    underWay t + (written s).length = (fate s e t).left (underWay s) + (written t).length
  step_isOpen : ∀ {s e t}, Invariant s → step s e = some t → isOpen t = true →
    isOpen s = true ∨ written s = []

structure Connection (σ α : Type) where
  sender : σ
  wire : Wire α

inductive Input (E : Type)
  | act (e : E)
  | transfer (i n : ℕ)

namespace Sender

variable (S : Sender σ E α)

def start : Connection σ α := ⟨S.init, Wire.empty⟩

def system (c : Connection σ α) : Input E → Option (Connection σ α)
  | .act e => (S.step c.sender e).bind fun t => (c.wire.settle (S.fate c.sender e t)).map fun w =>
      ⟨t, w.handOver ((S.written t).drop (S.written c.sender).length)⟩
  | .transfer i n =>
    if S.isOpen c.sender then (c.wire.transfer i n).map fun w => ⟨c.sender, w⟩ else none

/-- As long as no write has failed, the stream is whole, and on a connection that is open it stays
whole, however the writes under way go on. -/
def Keeps (c : Connection σ α) : Prop :=
  c.wire.failed = false → c.wire.Whole ∧ (S.isOpen c.sender = true → c.wire.Robust)

/-- As long as no write has failed, what is handed over to a connection that is open finds nothing
left of the writes before it. -/
def Separate (c : Connection σ α) (_ : Input E) (t : Connection σ α) : Prop :=
  t.wire.failed = false → S.isOpen t.sender = true → S.written t.sender ≠ S.written c.sender →
    c.wire.Idle

structure Aligned (c : Connection σ α) : Prop where
  invariant : S.Invariant c.sender
  handed : c.wire.handed = S.written c.sender
  underWay : c.wire.rests.length = S.underWay c.sender
  unwritten : S.written c.sender = [] → c.wire.rests = [] ∧ c.wire.sent = []

structure Sound (c : Connection σ α) : Prop extends S.Aligned c where
  whole : c.wire.failed = false → c.wire.Whole
  orderly : c.wire.failed = false → S.isOpen c.sender = true → c.wire.Orderly

variable {S} {c t : Connection σ α} {e : E}

theorem start_aligned : S.Aligned S.start :=
  ⟨S.init_invariant, S.init_written.symm, S.init_underWay.symm, fun _ => ⟨rfl, rfl⟩⟩

theorem start_sound : S.Sound S.start :=
  ⟨start_aligned, fun _ => Wire.empty_orderly.whole, fun _ _ => Wire.empty_orderly⟩

theorem written_mono {s r : σ} (hs : S.Invariant s) (h : S.step s e = some r) :
    ∃ bs, S.written r = S.written s ++ bs := by
  obtain hsame | ⟨b, -, hb⟩ := S.step_written hs h
  · exact ⟨[], hsame.trans (List.append_nil _).symm⟩
  · exact ⟨[b], hb⟩

theorem act_eq_some : S.system c (.act e) = some t ↔ ∃ w, S.step c.sender e = some t.sender ∧
    c.wire.settle (S.fate c.sender e t.sender) = some w ∧
      t.wire = w.handOver ((S.written t.sender).drop (S.written c.sender).length) := by
  simp only [system, Option.bind_eq_some_iff, Option.map_eq_some_iff]
  constructor
  · rintro ⟨s, hs, w, hw, rfl⟩
    exact ⟨w, hs, hw, rfl⟩
  · rintro ⟨w, hs, hw, ht⟩
    exact ⟨t.sender, hs, w, hw, by rw [← ht]⟩

theorem Aligned.act {w : Wire α} (hc : S.Aligned c) (hs : S.step c.sender e = some t.sender)
    (hw : c.wire.settle (S.fate c.sender e t.sender) = some w)
    (ht : t.wire = w.handOver ((S.written t.sender).drop (S.written c.sender).length)) : S.Aligned t := by
  obtain ⟨bs, hbs⟩ := written_mono hc.invariant hs
  obtain ⟨-, hcount⟩ := S.step_underWay hc.invariant hs
  obtain ⟨hhanded, hsent, hlen, -⟩ := Wire.settle_fields hw
  rw [hbs, List.drop_left] at ht
  rw [hbs, List.length_append] at hcount
  rw [hc.underWay] at hlen
  refine ⟨S.step_invariant hc.invariant hs, ?_, ?_, ?_⟩
  · rw [ht, hbs]
    exact congrArg (· ++ bs) (hhanded.trans hc.handed)
  · rw [ht]
    change (w.rests ++ bs).length = _
    rw [List.length_append]
    omega
  · intro hnone
    rw [hbs, List.append_eq_nil_iff] at hnone
    obtain ⟨hrests, hempty⟩ := hc.unwritten hnone.1
    have hzero : w.rests.length = 0 := by
      rw [hlen, ← hc.underWay, hrests]
      cases S.fate c.sender e t.sender <;> rfl
    rw [ht, hnone.2, Wire.handOver_nil]
    exact ⟨List.length_eq_zero_iff.mp hzero, hsent.trans hempty⟩

theorem Aligned.transfer {i n : ℕ} {w : Wire α} (hc : S.Aligned c) (hw : c.wire.transfer i n = some w) :
    S.Aligned ⟨c.sender, w⟩ := by
  obtain ⟨rest, hrest, hpos, hle, rfl⟩ := Wire.transfer_eq_some.mp hw
  refine ⟨hc.invariant, hc.handed, List.length_set.trans hc.underWay, ?_⟩
  intro hnone
  rw [(hc.unwritten hnone).1] at hrest
  cases hrest

theorem Aligned.act_of_step {s : σ} (hc : S.Aligned c) (h : S.step c.sender e = some s)
    (hthrough : ∀ k, S.fate c.sender e s = .through k → c.wire.rests[k]? = some []) :
    ∃ w, S.system c (.act e) = some ⟨s, w⟩ := by
  obtain ⟨hfits, -⟩ := S.step_underWay hc.invariant h
  have hsettles : ∃ w, c.wire.settle (S.fate c.sender e s) = some w := by
    cases hfate : S.fate c.sender e s with
    | goesOn => exact ⟨_, rfl⟩
    | through k => exact ⟨_, Wire.settle_through.mpr ⟨hthrough k hfate, rfl⟩⟩
    | fails k =>
      rw [hfate, ← hc.underWay] at hfits
      exact ⟨_, if_pos hfits⟩
    | aborted => exact ⟨_, rfl⟩
  obtain ⟨w, hw⟩ := hsettles
  refine ⟨w.handOver ((S.written s).drop (S.written c.sender).length), ?_⟩
  exact act_eq_some.mpr ⟨w, h, hw, rfl⟩

theorem system_step (hc : S.Sound c) (e : Input E) (h : S.system c e = some t) :
    (S.Keeps t ↔ S.Separate c e t) ∧ (S.Keeps t → S.Sound t) := by
  cases e with
  | transfer i n =>
    simp only [system, Option.ite_none_right_eq_some] at h
    obtain ⟨hopen, w, hw, rfl⟩ := h.imp_right Option.map_eq_some_iff.mp
    have hsame : w.failed = c.wire.failed := by
      obtain ⟨rest, -, -, -, rfl⟩ := Wire.transfer_eq_some.mp hw
      rfl
    have horderly : w.failed = false → w.Orderly := fun hfine =>
      (hc.orderly (hsame.symm.trans hfine) hopen).transfer hw
    refine ⟨iff_of_true ?_ fun _ _ hne => absurd rfl hne, fun _ => ⟨hc.toAligned.transfer hw, ?_, ?_⟩⟩
    · exact fun hfine => ⟨(horderly hfine).whole, fun _ => (horderly hfine).robust⟩
    · exact fun hfine => (horderly hfine).whole
    · exact fun hfine _ => horderly hfine
  | act e =>
    obtain ⟨w, hs, hw, ht⟩ := act_eq_some.mp h
    have haligned := hc.toAligned.act hs hw ht
    have hsame : t.wire.failed = w.failed := by
      rw [ht]
      rfl
    cases hfailed : t.wire.failed with
    | true =>
      have hnever : t.wire.failed ≠ false := by simp [hfailed]
      exact ⟨iff_of_true (fun hfine => absurd hfine hnever) (fun hfine => absurd hfine hnever),
        fun _ => ⟨haligned, fun hfine => absurd hfine hnever, fun hfine => absurd hfine hnever⟩⟩
    | false =>
      have hfine : w.failed = false := hsame.symm.trans hfailed
      obtain ⟨hfirst, hbusy⟩ := Wire.settle_unfailed hw hfine
      obtain ⟨hhanded, hsent, -, -⟩ := Wire.settle_fields hw
      have hwhole : t.wire.Whole := by
        have hold := hc.whole hfirst
        have hsettled : w.Whole := by
          unfold Wire.Whole at hold ⊢
          rwa [hhanded, hsent]
        rw [ht]
        exact hsettled.handOver _
      cases hopen : S.isOpen t.sender with
      | false =>
        have hnever : S.isOpen t.sender ≠ true := by simp [hopen]
        exact ⟨iff_of_true (fun _ => ⟨hwhole, fun ho => absurd ho hnever⟩) (fun _ ho => absurd ho hnever),
          fun _ => ⟨haligned, fun _ => hwhole, fun _ ho => absurd ho hnever⟩⟩
      | true =>
        have horderly : c.wire.Orderly := by
          obtain hwas | hnone := S.step_isOpen hc.invariant hs hopen
          · exact hc.orderly hfirst hwas
          · obtain ⟨hrests, hempty⟩ := hc.unwritten hnone
            have hhanded' := hc.handed.trans hnone
            exact ⟨by simp [Wire.busy, hrests], by simp [hrests, hempty, hhanded']⟩
        have hsettled := horderly.settle hw hfine
        have hidle : w.Idle ↔ c.wire.Idle := by
          rw [← Wire.busy_eq_nil, hbusy, Wire.busy_eq_nil]
        obtain hnew | ⟨b, hb, hwritten⟩ := S.step_written hc.invariant hs
        · rw [hnew, List.drop_length, Wire.handOver_nil] at ht
          rw [← ht] at hsettled
          exact ⟨iff_of_true (fun _ => ⟨hwhole, fun _ => hsettled.robust⟩) fun _ _ hne => absurd hnew hne,
            fun _ => ⟨haligned, fun _ => hwhole, fun _ _ => hsettled⟩⟩
        · have hne : S.written t.sender ≠ S.written c.sender := by
            rw [hwritten]
            simp
          rw [hwritten, List.drop_left] at ht
          by_cases hnone : w.Idle
          · have hnext := hsettled.handOver hnone b
            rw [← ht] at hnext
            exact ⟨iff_of_true (fun _ => ⟨hwhole, fun _ => hnext.robust⟩) fun _ _ _ => hidle.mp hnone,
              fun _ => ⟨haligned, fun _ => hwhole, fun _ _ => hnext⟩⟩
          · have hspoiled := hsettled.not_robust S.first_ne hb hnone
            rw [← ht] at hspoiled
            have hbroken : ¬ S.Keeps t := fun hkeeps => hspoiled ((hkeeps hfailed).2 hopen)
            exact ⟨iff_of_false hbroken fun hsep => hnone (hidle.mpr (hsep hfailed hopen hne)),
              fun hkeeps => absurd hkeeps hbroken⟩

def StaysWhole (S : Sender σ E α) (es : List (Input E)) : Prop :=
  Along S.system (fun _ _ t => S.Keeps t) S.start es

def Waits (S : Sender σ E α) (es : List (Input E)) : Prop := Along S.system S.Separate S.start es

theorem staysWhole_iff (S : Sender σ E α) (es : List (Input E)) : S.StaysWhole es ↔ S.Waits es :=
  along_congr (I := S.Sound) (fun _ e _ hc hr h => (system_step hc e h).2 hr)
    (fun _ e _ hc h => (system_step hc e h).1) start_sound es

end Sender

end NukeMs.ComposedWrites
