import NukeMs.Framing
import NukeMs.Runs

namespace NukeMs.Framing

open Runs

structure Transport (σ α : Type) where
  loop : σ
  buffered : List α
  closed : Bool

inductive Arrival (α : Type)
  | chunk (symbols : List α)
  | endOfFile
  | completion

variable {σ α : Type}

def Arrival.symbols : Arrival α → List α
  | .chunk symbols => symbols
  | _ => []

def arrived (arrivals : List (Arrival α)) : List α := arrivals.flatMap Arrival.symbols

def Reader.deliver (R : Reader σ α) (x : Transport σ α) : Arrival α → Option (Transport σ α)
  | .chunk symbols => if x.closed then none else some { x with buffered := x.buffered ++ symbols }
  | .endOfFile => if x.closed then none else some { x with closed := true }
  | .completion =>
    match R.wanted x.loop with
    | none => none
    | some n =>
      if n ≤ x.buffered.length then
        some { x with
          loop := R.filled x.loop (x.buffered.take n)
          buffered := x.buffered.drop n }
      else if x.closed then some { x with loop := R.endOfFile x.loop, buffered := [] }
      else none

def Format.parseBody (f : Format α) (n : ℕ) (bs : List α) : Parsed α :=
  if bs.length < n then ⟨[], bs.length, .cut⟩
  else if f.faulty (bs.take n) then ⟨[], n, .faulted⟩
  else (f.parse (bs.drop n)).prepend (bs.take n) n

section
variable {f : Format α} {hdr bs : List α} {n : ℕ}

theorem Format.parse_short (h : bs.length < f.headerLength) :
    (f.parse bs).payloads = [] ∧ (f.parse bs).ending = .cut := by
  rw [Format.parse, dif_pos h]
  exact ⟨rfl, rfl⟩

theorem Format.parse_reject (bs : List α) (hlen : hdr.length = f.headerLength) (hv : f.verdict hdr = .reject) :
    (f.parse (hdr ++ bs)).payloads = [] ∧ (f.parse (hdr ++ bs)).ending = .rejected := by
  rw [Format.parse, dif_neg (f.not_cut bs hlen), List.take_left' hlen, hv]
  exact ⟨rfl, rfl⟩

theorem Format.parse_fault (bs : List α) (hlen : hdr.length = f.headerLength) (hv : f.verdict hdr = .fault) :
    (f.parse (hdr ++ bs)).payloads = [] ∧ (f.parse (hdr ++ bs)).ending = .faulted := by
  rw [Format.parse, dif_neg (f.not_cut bs hlen), List.take_left' hlen, hv]
  exact ⟨rfl, rfl⟩

theorem Format.parse_body (bs : List α) (hlen : hdr.length = f.headerLength) (hv : f.verdict hdr = .body n) :
    (f.parse (hdr ++ bs)).payloads = (f.parseBody n bs).payloads ∧
      (f.parse (hdr ++ bs)).ending = (f.parseBody n bs).ending := by
  have hdrop : (hdr ++ bs).drop (f.headerLength + n) = bs.drop n := by
    rw [← List.drop_drop, List.drop_left' hlen]
  rw [Format.parse, dif_neg (f.not_cut bs hlen), List.take_left' hlen, hv]
  dsimp only
  rw [List.drop_left' hlen, hdrop, List.length_append, hlen, Format.parseBody]
  simp only [Nat.add_lt_add_iff_left]
  by_cases hshort : bs.length < n
  · rw [if_pos hshort, if_pos hshort]
    exact ⟨rfl, rfl⟩
  · rw [if_neg hshort, if_neg hshort]
    split
    · exact ⟨rfl, rfl⟩
    · exact ⟨rfl, rfl⟩

theorem Format.parseBody_short (h : bs.length < n) :
    (f.parseBody n bs).payloads = [] ∧ (f.parseBody n bs).ending = .cut := by
  rw [Format.parseBody, if_pos h]
  exact ⟨rfl, rfl⟩

theorem Format.parseBody_fault {body : List α} (bs : List α) (hf : f.faulty body = true) :
    (f.parseBody body.length (body ++ bs)).payloads = [] ∧
      (f.parseBody body.length (body ++ bs)).ending = .faulted := by
  have hlong : ¬ (body ++ bs).length < body.length := by
    rw [List.length_append]
    omega
  rw [Format.parseBody, if_neg hlong, List.take_left' rfl, if_pos hf]
  exact ⟨rfl, rfl⟩

theorem Format.parseBody_filled {body : List α} (bs : List α) (hf : f.faulty body = false) :
    (f.parseBody body.length (body ++ bs)).payloads = body :: (f.parse bs).payloads ∧
      (f.parseBody body.length (body ++ bs)).ending = (f.parse bs).ending := by
  have hlong : ¬ (body ++ bs).length < body.length := by
    rw [List.length_append]
    omega
  rw [Format.parseBody, if_neg hlong, List.take_left' rfl, if_neg (by simp [hf]),
    List.drop_left' rfl]
  exact ⟨rfl, rfl⟩

end

/-- What a loop has done with a stream and what it will do with the rest of it make up the parse
of the whole stream. -/
inductive Follows (f : Format α) (atHeader : List (List α) → σ → Prop)
    (atBody : List (List α) → ℕ → σ → Prop) (ended : List (List α) → Ending → σ → Prop)
    (whole rest : List α) (s : σ) : Prop
  | header (ps : List (List α)) (hs : atHeader ps s)
    (hpayloads : (f.parse whole).payloads = ps ++ (f.parse rest).payloads)
    (hending : (f.parse whole).ending = (f.parse rest).ending)
  | body (ps : List (List α)) (n : ℕ) (hs : atBody ps n s)
    (hpayloads : (f.parse whole).payloads = ps ++ (f.parseBody n rest).payloads)
    (hending : (f.parse whole).ending = (f.parseBody n rest).ending)
  | ended (hs : ended (f.parse whole).payloads (f.parse whole).ending s)

section
variable {R : Reader σ α} {f : Format α} {atHeader : List (List α) → σ → Prop}
  {atBody : List (List α) → ℕ → σ → Prop} {ended : List (List α) → Ending → σ → Prop}
  {whole rest : List α} {s : σ} {x y : Transport σ α} {arrivals : List (Arrival α)}

theorem Follows.filled (h : Implements R f atHeader atBody ended) {n : ℕ} {symbols : List α}
    (hx : Follows f atHeader atBody ended whole (symbols ++ rest) s) (hn : R.wanted s = some n)
    (hlen : symbols.length = n) :
    Follows f atHeader atBody ended whole rest (R.filled s symbols) := by
  cases hx with
  | header ps hs hpayloads hending =>
    have hheader : symbols.length = f.headerLength := by
      rw [hlen]
      exact Option.some.inj (hn.symm.trans (h.header_wanted hs))
    cases hv : f.verdict symbols with
    | reject =>
      obtain ⟨hp, he⟩ := Format.parse_reject rest hheader hv
      rw [hp, List.append_nil] at hpayloads
      refine .ended ?_
      rw [hpayloads, hending, he]
      exact h.header_reject hs hheader hv
    | fault =>
      obtain ⟨hp, he⟩ := Format.parse_fault rest hheader hv
      rw [hp, List.append_nil] at hpayloads
      refine .ended ?_
      rw [hpayloads, hending, he]
      exact h.header_fault hs hheader hv
    | body m =>
      obtain ⟨hp, he⟩ := Format.parse_body rest hheader hv
      exact .body ps m (h.header_body hs hheader hv) (hpayloads.trans (by rw [hp])) (hending.trans he)
  | body ps m hs hpayloads hending =>
    have hm : symbols.length = m := by
      rw [hlen]
      exact Option.some.inj (hn.symm.trans (h.body_wanted hs))
    subst hm
    cases hf : f.faulty symbols with
    | true =>
      obtain ⟨hp, he⟩ := Format.parseBody_fault rest hf
      rw [hp, List.append_nil] at hpayloads
      refine .ended ?_
      rw [hpayloads, hending, he]
      exact h.body_fault hs hf
    | false =>
      obtain ⟨hp, he⟩ := Format.parseBody_filled rest hf
      refine .header (ps ++ [symbols]) (h.body_filled hs hf) ?_ (hending.trans he)
      rw [hpayloads, hp, List.append_assoc]
      rfl
  | ended hs =>
    rw [h.ended_wanted hs] at hn
    cases hn

theorem Follows.cut (h : Implements R f atHeader atBody ended) {n : ℕ}
    (hx : Follows f atHeader atBody ended whole rest s) (hn : R.wanted s = some n)
    (hshort : rest.length < n) : Follows f atHeader atBody ended whole [] (R.endOfFile s) := by
  refine .ended ?_
  cases hx with
  | header ps hs hpayloads hending =>
    cases hn.symm.trans (h.header_wanted hs)
    obtain ⟨hp, he⟩ := Format.parse_short hshort
    rw [hp, List.append_nil] at hpayloads
    rw [hpayloads, hending, he]
    exact h.header_cut hs
  | body ps m hs hpayloads hending =>
    cases hn.symm.trans (h.body_wanted hs)
    obtain ⟨hp, he⟩ := Format.parseBody_short (f := f) hshort
    rw [hp, List.append_nil] at hpayloads
    rw [hpayloads, hending, he]
    exact h.body_cut hs
  | ended hs =>
    rw [h.ended_wanted hs] at hn
    cases hn

theorem deliver_completion (h : R.deliver x .completion = some y) :
    ∃ n, R.wanted x.loop = some n ∧ y.closed = x.closed ∧
      (n ≤ x.buffered.length ∧ y.loop = R.filled x.loop (x.buffered.take n) ∧
          y.buffered = x.buffered.drop n ∨
        x.buffered.length < n ∧ x.closed = true ∧ y.loop = R.endOfFile x.loop ∧ y.buffered = []) := by
  unfold Reader.deliver at h
  cases hn : R.wanted x.loop with
  | none => simp [hn] at h
  | some n =>
    refine ⟨n, rfl, ?_⟩
    by_cases hfull : n ≤ x.buffered.length
    · simp only [hn, if_pos hfull, Option.some.injEq] at h
      subst h
      exact ⟨rfl, .inl ⟨hfull, rfl, rfl⟩⟩
    · simp only [hn, if_neg hfull, Option.ite_none_right_eq_some, Option.some.injEq] at h
      obtain ⟨hclosed, rfl⟩ := h
      exact ⟨rfl, .inr ⟨Nat.not_le.mp hfull, hclosed, rfl, rfl⟩⟩

theorem arrived_closed (hx : exec R.deliver x arrivals = some y) (hclosed : x.closed = true) :
    arrived arrivals = [] := by
  induction arrivals generalizing x with
  | nil => rfl
  | cons arrival arrivals ih =>
    obtain ⟨z, hz, hy⟩ := exec_cons.mp hx
    cases arrival with
    | chunk symbols => simp [Reader.deliver, hclosed] at hz
    | endOfFile => simp [Reader.deliver, hclosed] at hz
    | completion =>
      obtain ⟨n, -, hsame, -⟩ := deliver_completion hz
      exact ih hy (hsame.trans hclosed)

theorem Follows.exec (h : Implements R f atHeader atBody ended)
    (hx : Follows f atHeader atBody ended whole (x.buffered ++ arrived arrivals) x.loop)
    (hrun : exec R.deliver x arrivals = some y) :
    Follows f atHeader atBody ended whole y.buffered y.loop := by
  induction arrivals generalizing x with
  | nil =>
    cases hrun
    rwa [arrived, List.flatMap_nil, List.append_nil] at hx
  | cons arrival arrivals ih =>
    obtain ⟨z, hz, hy⟩ := exec_cons.mp hrun
    refine ih ?_ hy
    cases arrival with
    | chunk symbols =>
      simp only [Reader.deliver, Option.ite_none_left_eq_some, Option.some.injEq] at hz
      obtain ⟨-, rfl⟩ := hz
      rw [List.append_assoc]
      exact hx
    | endOfFile =>
      simp only [Reader.deliver, Option.ite_none_left_eq_some, Option.some.injEq] at hz
      obtain ⟨-, rfl⟩ := hz
      exact hx
    | completion =>
      have hrest : arrived (.completion :: arrivals) = arrived arrivals := rfl
      rw [hrest] at hx
      obtain ⟨n, hn, hsame, ⟨hfull, hloop, hbuf⟩ | ⟨hshort, hclosed, hloop, hbuf⟩⟩ :=
        deliver_completion hz
      · rw [hloop, hbuf]
        rw [← List.take_append_drop n x.buffered, List.append_assoc] at hx
        exact Follows.filled h hx hn (List.length_take_of_le hfull)
      · have hnone := arrived_closed hy (hsame.trans hclosed)
        rw [hnone, List.append_nil] at hx
        rw [hloop, hbuf, hnone]
        exact Follows.cut h hx hn hshort

theorem Implements.finishes (h : Implements R f atHeader atBody ended) (m : ℕ)
    (hclosed : x.closed = true)
    (hx : (∃ ps, atHeader ps x.loop ∧ 2 * x.buffered.length ≤ m) ∨
      (∃ ps n, atBody ps n x.loop ∧ 2 * x.buffered.length + 1 ≤ m)) :
    ∃ k y, exec R.deliver x (List.replicate k .completion) = some y ∧ R.wanted y.loop = none := by
  -- the measure counts two reads for each symbol that is left, and one more within a packet
  induction m using Nat.strongRecOn generalizing x with
  | ind m ih =>
    have hpos := f.headerLength_pos
    have hmore {z : Transport σ α} (hz : R.deliver x .completion = some z)
        (hrest : ∃ k y, exec R.deliver z (List.replicate k .completion) = some y ∧
          R.wanted y.loop = none) :
        ∃ k y, exec R.deliver x (List.replicate k .completion) = some y ∧ R.wanted y.loop = none := by
      obtain ⟨k, y, hy, hend⟩ := hrest
      exact ⟨k + 1, y, exec_cons.mpr ⟨z, hz, hy⟩, hend⟩
    have hcut {n : ℕ} (hn : R.wanted x.loop = some n) (hshort : ¬ n ≤ x.buffered.length)
        (hend : R.wanted (R.endOfFile x.loop) = none) :
        ∃ k y, exec R.deliver x (List.replicate k .completion) = some y ∧ R.wanted y.loop = none := by
      refine hmore (z := ⟨R.endOfFile x.loop, [], x.closed⟩)
        (by simp [Reader.deliver, hn, hshort, hclosed]) ?_
      exact ⟨0, _, rfl, hend⟩
    obtain ⟨ps, hs, hm⟩ | ⟨ps, n, hs, hm⟩ := hx
    · have hn := h.header_wanted hs
      by_cases hfull : f.headerLength ≤ x.buffered.length
      · have hlen := List.length_take_of_le hfull
        refine hmore (z := ⟨R.filled x.loop (x.buffered.take f.headerLength),
          x.buffered.drop f.headerLength, x.closed⟩) (by simp [Reader.deliver, hn, hfull]) ?_
        cases hv : f.verdict (x.buffered.take f.headerLength) with
        | reject => exact ⟨0, _, rfl, h.ended_wanted (h.header_reject hs hlen hv)⟩
        | fault => exact ⟨0, _, rfl, h.ended_wanted (h.header_fault hs hlen hv)⟩
        | body n =>
          refine ih (m - 1) (by omega) hclosed (.inr ⟨ps, n, h.header_body hs hlen hv, ?_⟩)
          rw [List.length_drop]
          omega
      · exact hcut hn hfull (h.ended_wanted (h.header_cut hs))
    · have hn := h.body_wanted hs
      by_cases hfull : n ≤ x.buffered.length
      · have hlen := List.length_take_of_le hfull
        rw [← hlen] at hs
        refine hmore (z := ⟨R.filled x.loop (x.buffered.take n), x.buffered.drop n, x.closed⟩)
          (by simp [Reader.deliver, hn, hfull]) ?_
        cases hf : f.faulty (x.buffered.take n) with
        | true => exact ⟨0, _, rfl, h.ended_wanted (h.body_fault hs hf)⟩
        | false =>
          refine ih (m - 1) (by omega) hclosed (.inl ⟨_, h.body_filled hs hf, ?_⟩)
          rw [List.length_drop]
          omega
      · exact hcut hn hfull (h.ended_wanted (h.body_cut hs))

theorem Implements.delivered (h : Implements R f atHeader atBody ended) (hs : atHeader [] s)
    (hrun : exec R.deliver ⟨s, [], false⟩ arrivals = some y) (hclosed : y.closed = true) :
    (∃ k z, exec R.deliver y (List.replicate k .completion) = some z ∧ R.wanted z.loop = none) ∧
      (R.wanted y.loop = none →
        ended (f.parse (arrived arrivals)).payloads (f.parse (arrived arrivals)).ending y.loop) := by
  have hfollows : Follows f atHeader atBody ended (arrived arrivals) y.buffered y.loop :=
    Follows.exec h (.header [] hs rfl rfl) hrun
  cases hfollows with
  | header ps hs' _ _ =>
    refine ⟨h.finishes _ hclosed (.inl ⟨ps, hs', Nat.le_refl _⟩), ?_⟩
    intro hnone
    rw [h.header_wanted hs'] at hnone
    cases hnone
  | body ps n hs' _ _ =>
    refine ⟨h.finishes _ hclosed (.inr ⟨ps, n, hs', Nat.le_refl _⟩), ?_⟩
    intro hnone
    rw [h.body_wanted hs'] at hnone
    cases hnone
  | ended hs' => exact ⟨⟨0, y, rfl, h.ended_wanted hs'⟩, fun _ => hs'⟩

end

end NukeMs.Framing
