import Mathlib.Tactic.Common

namespace NukeMs.FramedStream

structure Layout (α : Type) where
  headerLength : ℕ
  headerLength_pos : 0 < headerLength
  header : ℕ → List α
  header_length : ∀ n, (header n).length = headerLength
  longest : ℕ
  header_inj : ∀ m n, m ≤ longest → n ≤ longest → header m = header n → m = n

inductive Phase
  | header
  | body (n : ℕ)

namespace Layout

variable {α : Type} (L : Layout α)

def packet (body : List α) : List α := L.header body.length ++ body

def stream (bodies : List (List α)) : List α := bodies.flatMap L.packet

def taken : Phase → List α
  | .header => []
  | .body n => L.header n

def wanted : Phase → ℕ
  | .header => L.headerLength
  | .body n => n

/-- The rest of the connection, in front of a reader that is still to take these bodies off it. -/
structure Sees (phase : Phase) (channel : List α) (bodies : List (List α)) : Prop where
  stream : L.taken phase ++ channel = L.stream bodies
  admitted : ∀ n, phase = .body n → n ≤ L.longest
  fits : ∀ body ∈ bodies, body.length ≤ L.longest

theorem stream_cons (body : List α) (bodies : List (List α)) :
    L.stream (body :: bodies) = L.header body.length ++ (body ++ L.stream bodies) := by
  rw [stream, List.flatMap_cons, packet, List.append_assoc]
  rfl

theorem stream_concat (bodies : List (List α)) (body : List α) :
    L.stream (bodies ++ [body]) = L.stream bodies ++ L.packet body := by
  rw [stream, stream, List.flatMap_append, List.flatMap_singleton]

variable {L} {phase : Phase} {channel front rest : List α} {bodies : List (List α)}

theorem Sees.start : L.Sees .header [] [] := ⟨rfl, nofun, nofun⟩

theorem Sees.send {body : List α} (h : L.Sees phase channel bodies) (hfits : body.length ≤ L.longest) :
    L.Sees phase (channel ++ L.packet body) (bodies ++ [body]) := by
  refine ⟨?_, h.admitted, ?_⟩
  · rw [← List.append_assoc, h.stream, stream_concat]
  · intro other hother
    rw [List.mem_append, List.mem_singleton] at hother
    obtain hold | rfl := hother
    · exact h.fits other hold
    · exact hfits

theorem Sees.sendAll (more : List (List α)) (h : L.Sees phase channel bodies)
    (hfits : ∀ body ∈ more, body.length ≤ L.longest) :
    L.Sees phase (channel ++ L.stream more) (bodies ++ more) := by
  induction more generalizing channel bodies with
  | nil =>
    rw [Layout.stream, List.flatMap_nil, List.append_nil, List.append_nil]
    exact h
  | cons body more ih =>
    have hnext := ih (h.send (hfits body List.mem_cons_self)) fun other hother =>
      hfits other (List.mem_cons_of_mem _ hother)
    rw [List.append_assoc, List.append_assoc] at hnext
    exact hnext

theorem Sees.bodies_of_front (h : L.Sees phase channel bodies) (hne : L.taken phase ++ channel ≠ []) :
    ∃ body more, bodies = body :: more := by
  cases bodies with
  | nil => exact absurd h.stream hne
  | cons body more => exact ⟨body, more, rfl⟩

theorem Sees.takeHeader (h : L.Sees .header (front ++ rest) bodies)
    (hlen : front.length = L.headerLength) : ∃ body more, bodies = body :: more ∧
      front = L.header body.length ∧ L.Sees (.body body.length) rest bodies := by
  have hfront : front ≠ [] := by
    intro hnil
    have hpos := L.headerLength_pos
    rw [hnil, List.length_nil] at hlen
    omega
  obtain ⟨body, more, rfl⟩ := h.bodies_of_front (List.append_ne_nil_of_left_ne_nil hfront _)
  have hstream : front ++ rest = L.stream (body :: more) := h.stream
  have hsplit := hstream
  rw [stream_cons] at hsplit
  obtain ⟨hheader, -⟩ := List.append_inj hsplit (by rw [hlen, L.header_length])
  have hbody : body.length ≤ L.longest := h.fits body List.mem_cons_self
  refine ⟨body, more, rfl, hheader, ?_, ?_, h.fits⟩
  · rw [← hstream, taken, hheader]
  · intro n hn
    cases hn
    exact hbody

theorem Sees.takeBody {n : ℕ} (h : L.Sees (.body n) (front ++ rest) bodies) (hlen : front.length = n) :
    ∃ more, bodies = front :: more ∧ L.Sees .header rest more := by
  have htaken : L.taken (.body n) ++ (front ++ rest) ≠ [] := by
    intro hnil
    have hpos := L.headerLength_pos
    have hlength := congrArg List.length (List.append_eq_nil_iff.mp hnil).1
    rw [taken, L.header_length, List.length_nil] at hlength
    omega
  obtain ⟨body, more, rfl⟩ := h.bodies_of_front htaken
  have hsplit := h.stream
  rw [taken, stream_cons] at hsplit
  obtain ⟨hheader, htail⟩ := List.append_inj hsplit (by rw [L.header_length, L.header_length])
  have hn : n = body.length :=
    L.header_inj n body.length (h.admitted n rfl) (h.fits body List.mem_cons_self) hheader
  obtain ⟨hfront, hrest⟩ := List.append_inj htail (by rw [hlen, hn])
  subst hfront
  refine ⟨more, rfl, hrest, nofun, ?_⟩
  intro other hother
  exact h.fits other (List.mem_cons_of_mem _ hother)

theorem Sees.wanted_le (h : L.Sees phase channel bodies) (hne : bodies ≠ []) :
    L.wanted phase ≤ channel.length := by
  obtain ⟨body, more, rfl⟩ := List.exists_cons_of_ne_nil hne
  have hstream := h.stream
  rw [stream_cons] at hstream
  cases phase with
  | header =>
    have hlength := congrArg List.length hstream
    rw [taken, List.nil_append, List.length_append, L.header_length] at hlength
    rw [wanted]
    omega
  | body n =>
    rw [taken] at hstream
    obtain ⟨hheader, htail⟩ := List.append_inj hstream (by rw [L.header_length, L.header_length])
    have hn : n = body.length :=
      L.header_inj n body.length (h.admitted n rfl) (h.fits body List.mem_cons_self) hheader
    rw [wanted, htail, List.length_append, hn]
    omega

theorem stream_eq_nil {xs : List (List α)} (h : L.stream xs = []) : xs = [] := by
  cases xs with
  | nil => rfl
  | cons body xs =>
    have hpos := L.headerLength_pos
    have hlength := congrArg List.length h
    rw [stream_cons, List.length_append, L.header_length, List.length_nil] at hlength
    omega

theorem stream_prefix_iff (xs ys : List (List α)) (hxs : ∀ body ∈ xs, body.length ≤ L.longest)
    (hys : ∀ body ∈ ys, body.length ≤ L.longest) : L.stream xs <+: L.stream ys ↔ xs <+: ys := by
  induction xs generalizing ys with
  | nil => exact iff_of_true List.nil_prefix List.nil_prefix
  | cons x xs ih =>
    obtain ⟨hx, hfirst⟩ := List.forall_mem_cons.mp hxs
    cases ys with
    | nil =>
      apply iff_of_false
      · intro hprefix
        cases L.stream_eq_nil (List.prefix_nil.mp hprefix)
      · simp
    | cons y ys =>
      obtain ⟨hy, hsecond⟩ := List.forall_mem_cons.mp hys
      constructor
      · rintro ⟨rest, hrest⟩
        rw [stream_cons, stream_cons, List.append_assoc, List.append_assoc] at hrest
        obtain ⟨hheader, htail⟩ := List.append_inj hrest (by rw [L.header_length, L.header_length])
        have hlength := L.header_inj _ _ hx hy hheader
        obtain ⟨rfl, hstream⟩ := List.append_inj htail hlength
        exact List.cons_prefix_cons.mpr ⟨rfl, (ih ys hfirst hsecond).mp ⟨rest, hstream⟩⟩
      · intro hprefix
        obtain ⟨rfl, hmore⟩ := List.cons_prefix_cons.mp hprefix
        rw [stream_cons, stream_cons, List.prefix_append_right_inj, List.prefix_append_right_inj]
        exact (ih ys hfirst hsecond).mpr hmore

end Layout

end NukeMs.FramedStream
