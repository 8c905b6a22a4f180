import NukeMs.Chunks
import NukeMs.FramedStream

namespace NukeMs.Framing

open FramedStream

variable {α : Type}

def Format.resume (f : Format α) : Phase → List α → Parsed α
  | .header => f.parse
  | .body n => f.parseBody n

structure Format.Stands (f : Format α) (phase : Phase) (taken : List α) (handed : List (List α)) :
    Prop where
  payloads : ∀ rest, (f.parse (taken ++ rest)).payloads = handed ++ (f.resume phase rest).payloads
  ending : ∀ rest, (f.parse (taken ++ rest)).ending = (f.resume phase rest).ending

/-- A packet without a payload may be complete for the parse before its empty body has been read. -/
def Format.HandsUp (f : Format α) (taken : List α) (handed : List (List α)) : Prop :=
  (f.parse taken).payloads = handed ∨ (f.parse taken).payloads = handed ++ [[]]

namespace Format

variable {f : Format α} {phase : Phase} {taken hdr body : List α} {handed : List (List α)} {n : ℕ}

theorem parse_nil : (f.parse []).payloads = [] ∧ (f.parse []).ending = .cut :=
  parse_short f.headerLength_pos

theorem Stands.start : f.Stands .header [] [] := ⟨fun _ => rfl, fun _ => rfl⟩

theorem Stands.handed_header (h : f.Stands .header taken handed) :
    (f.parse taken).payloads = handed := by
  have hnow := h.payloads []
  rw [List.append_nil, resume, parse_nil.1, List.append_nil] at hnow
  exact hnow

theorem parseBody_nil (n : ℕ) :
    (f.parseBody n []).payloads = [] ∨ (f.parseBody n []).payloads = [[]] := by
  cases n with
  | succ n => exact .inl (parseBody_short (Nat.succ_pos n)).1
  | zero =>
    cases hf : f.faulty [] with
    | true => exact .inl (parseBody_fault [] hf).1
    | false =>
      have hfilled := (parseBody_filled [] hf).1
      rw [parse_nil.1] at hfilled
      exact .inr hfilled

theorem Stands.handsUp (h : f.Stands phase taken handed) : f.HandsUp taken handed := by
  cases phase with
  | header => exact .inl h.handed_header
  | body n =>
    have hnow := h.payloads []
    rw [List.append_nil, resume] at hnow
    rw [HandsUp, hnow]
    obtain hnone | hempty := parseBody_nil (f := f) n
    · exact .inl (by rw [hnone, List.append_nil])
    · exact .inr (by rw [hempty])

theorem Stands.takeHeader (h : f.Stands .header taken handed) (hlen : hdr.length = f.headerLength)
    (hv : f.verdict hdr = .body n) : f.Stands (.body n) (taken ++ hdr) handed := by
  constructor
  · intro rest
    rw [List.append_assoc, h.payloads, resume, resume, (parse_body rest hlen hv).1]
  · intro rest
    rw [List.append_assoc, h.ending, resume, resume, (parse_body rest hlen hv).2]

theorem Stands.refuse (h : f.Stands .header taken handed) (hlen : hdr.length = f.headerLength)
    (hv : ∀ n, f.verdict hdr ≠ .body n) : f.HandsUp (taken ++ hdr) handed := by
  have hnone : (f.parse hdr).payloads = [] := by
    rw [← List.append_nil hdr]
    cases hverdict : f.verdict hdr with
    | body n => exact absurd hverdict (hv n)
    | reject => exact (parse_reject [] hlen hverdict).1
    | fault => exact (parse_fault [] hlen hverdict).1
  left
  rw [h.payloads, resume, hnone, List.append_nil]

theorem Stands.takeBody (h : f.Stands (.body body.length) taken handed)
    (hf : f.faulty body = false) : f.Stands .header (taken ++ body) (handed ++ [body]) := by
  constructor
  · intro rest
    rw [List.append_assoc, h.payloads, resume, resume, (parseBody_filled rest hf).1,
      List.append_assoc]
    rfl
  · intro rest
    rw [List.append_assoc, h.ending, resume, resume, (parseBody_filled rest hf).2]

end Format

end NukeMs.Framing
