import Mathlib.Tactic.Common

/-!
Streams of packets that each consist of a header of fixed length and a body
whose length the header announces. `Format.parse` is what a receiver of such a
stream makes of a finite input; `Reader` is a receive loop that asks for its
input one read at a time, and `Implements` says that it follows the format.
-/

namespace NukeMs.Framing

inductive Verdict
  | body (n : ℕ)
  | reject
  | fault

inductive Ending
  | cut
  | rejected
  | faulted
  deriving DecidableEq

structure Format (α : Type) where
  headerLength : ℕ
  headerLength_pos : 0 < headerLength
  verdict : List α → Verdict
  faulty : List α → Bool

structure Parsed (α : Type) where
  payloads : List (List α)
  consumed : ℕ
  ending : Ending

variable {α σ : Type}

def Parsed.prepend (payload : List α) (n : ℕ) (p : Parsed α) : Parsed α :=
  ⟨payload :: p.payloads, n + p.consumed, p.ending⟩

def Format.parse (f : Format α) (bs : List α) : Parsed α :=
  if _h : bs.length < f.headerLength then ⟨[], bs.length, .cut⟩
  else match f.verdict (bs.take f.headerLength) with
    | .reject => ⟨[], f.headerLength, .rejected⟩
    | .fault => ⟨[], f.headerLength, .faulted⟩
    | .body n =>
      if bs.length < f.headerLength + n then ⟨[], bs.length, .cut⟩
      else
        let body := (bs.drop f.headerLength).take n
        if f.faulty body then ⟨[], f.headerLength + n, .faulted⟩
        else (f.parse (bs.drop (f.headerLength + n))).prepend body (f.headerLength + n)
termination_by bs.length
decreasing_by
  have := f.headerLength_pos
  rw [List.length_drop]
  omega

structure Reader (σ α : Type) where
  wanted : σ → Option ℕ
  filled : σ → List α → σ
  endOfFile : σ → σ

/-- Feed a finite input to a loop: a read completes when it is full, and fails at the end of the
input. The result is the last state and the number of symbols taken from the input. -/
def Reader.run (R : Reader σ α) : ℕ → σ → List α → σ × ℕ
  | 0, s, _ => (s, 0)
  | k + 1, s, bs =>
    match R.wanted s with
    | none => (s, 0)
    | some n =>
      if n ≤ bs.length then
        let (t, c) := R.run k (R.filled s (bs.take n)) (bs.drop n)
        (t, n + c)
      else
        let (t, c) := R.run k (R.endOfFile s) []
        (t, bs.length + c)

def Reader.feed (R : Reader σ α) (s : σ) (bs : List α) : σ × ℕ := R.run (2 * bs.length + 2) s bs

/-- The states of the loop in which it waits for a header, waits for a body of `n` symbols, or has
ended, each with the payloads handed up so far. -/
structure Implements (R : Reader σ α) (f : Format α) (atHeader : List (List α) → σ → Prop)
    (atBody : List (List α) → ℕ → σ → Prop) (ended : List (List α) → Ending → σ → Prop) : Prop where
  header_wanted : ∀ {ps s}, atHeader ps s → R.wanted s = some f.headerLength
  header_body : ∀ {ps s hdr n}, atHeader ps s → hdr.length = f.headerLength →
    f.verdict hdr = .body n → atBody ps n (R.filled s hdr)
  header_reject : ∀ {ps s hdr}, atHeader ps s → hdr.length = f.headerLength →
    f.verdict hdr = .reject → ended ps .rejected (R.filled s hdr)
  header_fault : ∀ {ps s hdr}, atHeader ps s → hdr.length = f.headerLength →
    f.verdict hdr = .fault → ended ps .faulted (R.filled s hdr)
  header_cut : ∀ {ps s}, atHeader ps s → ended ps .cut (R.endOfFile s)
  body_wanted : ∀ {ps n s}, atBody ps n s → R.wanted s = some n
  body_filled : ∀ {ps s body}, atBody ps body.length s → f.faulty body = false →
    atHeader (ps ++ [body]) (R.filled s body)
  body_fault : ∀ {ps s body}, atBody ps body.length s → f.faulty body = true →
    ended ps .faulted (R.filled s body)
  body_cut : ∀ {ps n s}, atBody ps n s → ended ps .cut (R.endOfFile s)
  ended_wanted : ∀ {ps e s}, ended ps e s → R.wanted s = none

section
variable {R : Reader σ α} {f : Format α} {atHeader : List (List α) → σ → Prop}
  {atBody : List (List α) → ℕ → σ → Prop} {ended : List (List α) → Ending → σ → Prop}

theorem Reader.run_none (k : ℕ) {s : σ} (bs : List α) (h : R.wanted s = none) :
    R.run k s bs = (s, 0) := by
  cases k with
  | zero => rfl
  | succ k => simp only [Reader.run, h]

theorem Reader.run_filled (k : ℕ) {s : σ} {bs : List α} {n : ℕ} (h : R.wanted s = some n)
    (hn : n ≤ bs.length) : R.run (k + 1) s bs =
      ((R.run k (R.filled s (bs.take n)) (bs.drop n)).1,
        n + (R.run k (R.filled s (bs.take n)) (bs.drop n)).2) := by
  simp only [Reader.run, h, if_pos hn]

theorem Reader.run_cut (k : ℕ) {s : σ} {bs : List α} {n : ℕ} (h : R.wanted s = some n)
    (hn : bs.length < n) (he : R.wanted (R.endOfFile s) = none) :
    R.run (k + 1) s bs = (R.endOfFile s, bs.length) := by
  simp only [Reader.run, h, if_neg (Nat.not_le.mpr hn), Reader.run_none k [] he, Nat.add_zero]

/-- A loop that implements a format, fed with any input, hands up the payloads of the parse, stops
where it stops and ends the way it ends. The fuel bounds the reads: two for each header. -/
theorem Implements.run_eq (h : Implements R f atHeader atBody ended) (k : ℕ) {ps : List (List α)}
    {s : σ} (bs : List α) (hs : atHeader ps s) (hk : 2 * bs.length + 2 ≤ k) :
    ended (ps ++ (f.parse bs).payloads) (f.parse bs).ending (R.run k s bs).1 ∧
      (R.run k s bs).2 = (f.parse bs).consumed := by
  induction hlen : bs.length using Nat.strongRecOn generalizing k ps s bs with
  | ind m ih =>
    obtain ⟨k, rfl⟩ : ∃ j, k = j + 2 := ⟨k - 2, by omega⟩
    have hpos := f.headerLength_pos
    rw [Format.parse]
    by_cases hcut : bs.length < f.headerLength
    · have hend := h.header_cut hs
      rw [dif_pos hcut, R.run_cut (k + 1) (h.header_wanted hs) hcut (h.ended_wanted hend)]
      exact ⟨by simpa using hend, rfl⟩
    · have htake : (bs.take f.headerLength).length = f.headerLength := by
        rw [List.length_take]; omega
      rw [dif_neg hcut, R.run_filled (k + 1) (h.header_wanted hs) (by omega)]
      cases hv : f.verdict (bs.take f.headerLength) with
      | reject =>
        have hend := h.header_reject hs htake hv
        rw [R.run_none (k + 1) _ (h.ended_wanted hend)]
        exact ⟨by simpa using hend, rfl⟩
      | fault =>
        have hend := h.header_fault hs htake hv
        rw [R.run_none (k + 1) _ (h.ended_wanted hend)]
        exact ⟨by simpa using hend, rfl⟩
      | body n =>
        have hbody := h.header_body hs htake hv
        have hdrop : (bs.drop f.headerLength).length = bs.length - f.headerLength := List.length_drop
        dsimp only
        by_cases hshort : bs.length < f.headerLength + n
        · have hend := h.body_cut hbody
          rw [if_pos hshort, R.run_cut k (h.body_wanted hbody) (by omega) (h.ended_wanted hend)]
          exact ⟨by simpa using hend, by simp only [hdrop]; omega⟩
        · have hn : ((bs.drop f.headerLength).take n).length = n := by
            rw [List.length_take]; omega
          rw [if_neg hshort, R.run_filled k (h.body_wanted hbody) (by omega), List.drop_drop]
          rw [← hn] at hbody
          by_cases hf : f.faulty ((bs.drop f.headerLength).take n)
          · have hend := h.body_fault hbody hf
            rw [if_pos hf, R.run_none k _ (h.ended_wanted hend)]
            exact ⟨by simpa using hend, by simp⟩
          · have hnext := h.body_filled hbody (by simpa using hf)
            have hless : (bs.drop (f.headerLength + n)).length < m := by
              rw [List.length_drop]; omega
            obtain ⟨he, hc⟩ := ih _ hless k (bs.drop (f.headerLength + n)) hnext (by omega) rfl
            rw [if_neg hf]
            refine ⟨by simpa [Parsed.prepend] using he, ?_⟩
            simp only [Parsed.prepend, hc]
            omega

theorem Implements.feed_eq (h : Implements R f atHeader atBody ended) {s : σ} (bs : List α)
    (hs : atHeader [] s) : ended (f.parse bs).payloads (f.parse bs).ending (R.feed s bs).1 ∧
      (R.feed s bs).2 = (f.parse bs).consumed :=
  h.run_eq (2 * bs.length + 2) bs hs (Nat.le_refl _)

theorem Implements.keeping (h : Implements R f atHeader atBody ended) {M : List (List α) → σ → Prop}
    (header : ∀ {ps s hdr}, atHeader ps s → M ps s → hdr.length = f.headerLength → M ps (R.filled s hdr))
    (header_cut : ∀ {ps s}, atHeader ps s → M ps s → M ps (R.endOfFile s))
    (body : ∀ {ps s body}, atBody ps body.length s → M ps s →
      M (if f.faulty body then ps else ps ++ [body]) (R.filled s body))
    (body_cut : ∀ {ps n s}, atBody ps n s → M ps s → M ps (R.endOfFile s)) :
    Implements R f (fun ps s => atHeader ps s ∧ M ps s) (fun ps n s => atBody ps n s ∧ M ps s)
      (fun ps e s => ended ps e s ∧ M ps s) where
  header_wanted hs := h.header_wanted hs.1
  header_body hs hlen hv := ⟨h.header_body hs.1 hlen hv, header hs.1 hs.2 hlen⟩
  header_reject hs hlen hv := ⟨h.header_reject hs.1 hlen hv, header hs.1 hs.2 hlen⟩
  header_fault hs hlen hv := ⟨h.header_fault hs.1 hlen hv, header hs.1 hs.2 hlen⟩
  header_cut hs := ⟨h.header_cut hs.1, header_cut hs.1 hs.2⟩
  body_wanted hs := h.body_wanted hs.1
  body_filled hs hf := ⟨h.body_filled hs.1 hf, by simpa [hf] using body hs.1 hs.2⟩
  body_fault hs hf := ⟨h.body_fault hs.1 hf, by simpa [hf] using body hs.1 hs.2⟩
  body_cut hs := ⟨h.body_cut hs.1, body_cut hs.1 hs.2⟩
  ended_wanted hs := h.ended_wanted hs.1

end

theorem Format.not_cut (f : Format α) {hdr : List α} (bs : List α)
    (hlen : hdr.length = f.headerLength) : ¬ (hdr ++ bs).length < f.headerLength := by
  rw [List.length_append]
  omega

theorem Format.parse_packet (f : Format α) {hdr body : List α} (rest : List α)
    (hlen : hdr.length = f.headerLength) (hv : f.verdict hdr = .body body.length) :
    f.parse (hdr ++ body ++ rest) =
      if f.faulty body then ⟨[], f.headerLength + body.length, .faulted⟩
      else (f.parse rest).prepend body (f.headerLength + body.length) := by
  have htotal : (hdr ++ body ++ rest).length = f.headerLength + body.length + rest.length := by
    rw [List.length_append, List.length_append, hlen]
  have htake : (hdr ++ body ++ rest).take f.headerLength = hdr := by
    rw [List.append_assoc, List.take_left' hlen]
  have hbody : ((hdr ++ body ++ rest).drop f.headerLength).take body.length = body := by
    rw [List.append_assoc, List.drop_left' hlen, List.take_left' rfl]
  have hrest : (hdr ++ body ++ rest).drop (f.headerLength + body.length) = rest :=
    List.drop_left' (by rw [List.length_append, hlen])
  conv_lhs => rw [Format.parse]
  rw [dif_neg (by omega), htake, hv]
  dsimp only
  rw [if_neg (by omega), hbody, hrest]

theorem Format.parse_append (f : Format α) {hdr body : List α} (rest : List α)
    (hlen : hdr.length = f.headerLength) (hv : f.verdict hdr = .body body.length)
    (hf : f.faulty body = false) : f.parse (hdr ++ body ++ rest) =
      (f.parse rest).prepend body (f.headerLength + body.length) := by
  rw [f.parse_packet rest hlen hv, hf]
  exact if_neg (by simp)

inductive Format.Breaks (f : Format α) : List α → Prop
  | header (hdr rest : List α) (hlen : hdr.length = f.headerLength) (hv : f.verdict hdr = .fault) :
    Breaks f (hdr ++ rest)
  | body (hdr body rest : List α) (hlen : hdr.length = f.headerLength)
    (hv : f.verdict hdr = .body body.length) (hf : f.faulty body = true) :
    Breaks f (hdr ++ body ++ rest)
  | packet (hdr body rest : List α) (hlen : hdr.length = f.headerLength)
    (hv : f.verdict hdr = .body body.length) (hf : f.faulty body = false) (hrest : Breaks f rest) :
    Breaks f (hdr ++ body ++ rest)

theorem Format.breaks_of_faulted (f : Format α) (bs : List α) (h : (f.parse bs).ending = .faulted) :
    f.Breaks bs := by
  induction hlen : bs.length using Nat.strongRecOn generalizing bs with
  | ind m ih =>
    have hpos := f.headerLength_pos
    rw [Format.parse] at h
    split at h
    · cases h
    next hcut =>
      have hhdr : (bs.take f.headerLength).length = f.headerLength := by
        rw [List.length_take]; omega
      split at h
      · cases h
      next hv =>
        rw [← List.take_append_drop f.headerLength bs]
        exact .header _ _ hhdr hv
      next n hv =>
        split at h
        · cases h
        next hshort =>
          have hbody : ((bs.drop f.headerLength).take n).length = n := by
            rw [List.length_take, List.length_drop]; omega
          have hsplit : bs = bs.take f.headerLength ++ (bs.drop f.headerLength).take n ++
              bs.drop (f.headerLength + n) := by
            rw [List.append_assoc, ← List.drop_drop, List.take_append_drop, List.take_append_drop]
          rw [← hbody] at hv
          dsimp only at h
          split at h
          next hf => exact hsplit ▸ .body _ _ _ hhdr hv hf
          next hf =>
            have hless : (bs.drop (f.headerLength + n)).length < m := by
              rw [List.length_drop]; omega
            have hrest := ih _ hless _ h rfl
            exact hsplit ▸ .packet _ _ _ hhdr hv (by simpa using hf) hrest

theorem Format.faulted_of_breaks (f : Format α) {bs : List α} (h : f.Breaks bs) :
    (f.parse bs).ending = .faulted := by
  induction h with
  | header hdr rest hlen hv =>
    rw [Format.parse, dif_neg (f.not_cut rest hlen), List.take_left' hlen, hv]
  | body hdr body rest hlen hv hf =>
    rw [f.parse_packet rest hlen hv, hf]
    rfl
  | packet hdr body rest hlen hv hf _ ih =>
    rw [f.parse_append rest hlen hv hf]
    exact ih

theorem Format.parse_eq_of_not_faulted (f g : Format α) (hlen : g.headerLength = f.headerLength)
    (hv : ∀ hdr, f.verdict hdr ≠ .fault → g.verdict hdr = f.verdict hdr)
    (hf : ∀ body, f.faulty body = false → g.faulty body = false) (bs : List α)
    (h : (f.parse bs).ending ≠ .faulted) : g.parse bs = f.parse bs := by
  induction hm : bs.length using Nat.strongRecOn generalizing bs with
  | ind m ih =>
    have hpos := f.headerLength_pos
    rw [Format.parse] at h ⊢
    conv_rhs => rw [Format.parse]
    rw [hlen]
    by_cases hcut : bs.length < f.headerLength
    · rw [dif_pos hcut, dif_pos hcut]
    · rw [dif_neg hcut] at h ⊢
      rw [dif_neg hcut]
      cases hverdict : f.verdict (bs.take f.headerLength) with
      | fault =>
        rw [hverdict] at h
        exact absurd rfl h
      | reject => rw [hv _ (by rw [hverdict]; nofun), hverdict]
      | body n =>
        rw [hverdict] at h
        rw [hv _ (by rw [hverdict]; nofun), hverdict]
        dsimp only at h ⊢
        by_cases hshort : bs.length < f.headerLength + n
        · rw [if_pos hshort, if_pos hshort]
        · rw [if_neg hshort] at h ⊢
          rw [if_neg hshort]
          cases hfaulty : f.faulty ((bs.drop f.headerLength).take n) with
          | true =>
            rw [hfaulty, if_pos rfl] at h
            exact absurd rfl h
          | false =>
            rw [hfaulty, if_neg (by decide)] at h
            have hless : (bs.drop (f.headerLength + n)).length < m := by
              rw [List.length_drop]; omega
            rw [hf _ hfaulty, ih _ hless _ h rfl]

end NukeMs.Framing
