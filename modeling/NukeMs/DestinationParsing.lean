import NukeMs.ClientCalls

namespace NukeMs.Client

def blanks (n : ℕ) : List Char := List.replicate n ' '

def IsWord (w : List Char) : Prop := w ≠ [] ∧ ' ' ∉ w

def TwoWords (dest host service : List Char) : Prop :=
  IsWord host ∧ IsWord service ∧ ∃ before between after : ℕ,
    dest = blanks before ++ host ++ blanks (between + 1) ++ service ++ blanks after

/-- As the window composes it from the words of a `/connect` command. -/
def composeDestination (host service : List Char) : List Char := host ++ [' '] ++ service

section
variable {w acc cs rest : List Char} {ws : List (List Char)}

@[simp] theorem tokens_blank (cs : List Char) : tokens [] (' ' :: cs) = tokens [] cs := rfl

theorem tokens_blanks (n : ℕ) (cs : List Char) : tokens [] (blanks n ++ cs) = tokens [] cs := by
  induction n with
  | zero => rfl
  | succ n ih => exact ih

theorem tokens_blanks_eq_nil (n : ℕ) : tokens [] (blanks n) = [] := by
  rw [← List.append_nil (blanks n), tokens_blanks, tokens, if_pos rfl]

theorem tokens_char {c : Char} (h : c ≠ ' ') (acc cs : List Char) :
    tokens acc (c :: cs) = tokens (acc ++ [c]) cs := by
  rw [tokens, if_neg h]

theorem tokens_end (hacc : acc ≠ []) (cs : List Char) :
    tokens acc (' ' :: cs) = acc :: tokens [] cs := by
  rw [tokens, if_pos rfl, if_neg hacc]

theorem tokens_word (hw : ' ' ∉ w) (acc cs : List Char) : tokens acc (w ++ cs) = tokens (acc ++ w) cs := by
  induction w generalizing acc with
  | nil => simp
  | cons c w ih =>
    rw [List.mem_cons, not_or] at hw
    rw [List.cons_append, tokens_char (Ne.symm hw.1), ih hw.2, List.append_assoc, List.singleton_append]

def Parted (rest : List Char) : Prop := rest = [] ∨ ∃ cs, rest = ' ' :: cs

theorem tokens_parted (hw : IsWord w) (hrest : Parted rest) :
    tokens [] (w ++ rest) = w :: tokens [] rest := by
  rw [tokens_word hw.2, List.nil_append]
  rcases hrest with rfl | ⟨cs, rfl⟩
  · rw [tokens, if_neg hw.1, tokens, if_pos rfl]
  · rw [tokens_end hw.1, tokens_blank]

theorem parted_blanks (n : ℕ) : Parted (blanks n) := by
  cases n with
  | zero => exact .inl rfl
  | succ n => exact .inr ⟨blanks n, rfl⟩

theorem tokens_of_twoWords {dest host service : List Char} (h : TwoWords dest host service) :
    tokens [] dest = [host, service] := by
  obtain ⟨hhost, hservice, before, between, after, rfl⟩ := h
  have hparted : Parted (blanks (between + 1) ++ (service ++ blanks after)) := .inr ⟨_, rfl⟩
  simp only [List.append_assoc]
  rw [tokens_blanks, tokens_parted hhost hparted, tokens_blanks,
    tokens_parted hservice (parted_blanks after), tokens_blanks_eq_nil]

theorem rest_of_tokens (hacc : acc ≠ []) (cs : List Char) : ∃ u rest, cs = u ++ rest ∧ ' ' ∉ u ∧ Parted rest ∧
    tokens acc cs = (acc ++ u) :: tokens [] rest := by
  induction cs generalizing acc with
  | nil =>
    refine ⟨[], [], rfl, List.not_mem_nil, .inl rfl, ?_⟩
    rw [tokens, if_neg hacc, tokens, if_pos rfl, List.append_nil]
  | cons c cs ih =>
    by_cases hc : c = ' '
    · subst hc
      refine ⟨[], ' ' :: cs, rfl, List.not_mem_nil, .inr ⟨cs, rfl⟩, ?_⟩
      rw [tokens_end hacc, tokens_blank, List.append_nil]
    · obtain ⟨u, rest, rfl, hu, hrest, htokens⟩ := ih (List.concat_ne_nil c acc)
      refine ⟨c :: u, rest, rfl, ?_, hrest, ?_⟩
      · rw [List.mem_cons, not_or]
        exact ⟨Ne.symm hc, hu⟩
      · rw [tokens_char hc, htokens, List.append_assoc, List.singleton_append]

theorem word_or_blanks (cs : List Char) : (∃ n, cs = blanks n) ∨ ∃ n w rest,
    cs = blanks n ++ (w ++ rest) ∧ IsWord w ∧ Parted rest ∧ tokens [] cs = w :: tokens [] rest := by
  induction cs with
  | nil => exact .inl ⟨0, rfl⟩
  | cons c cs ih =>
    by_cases hc : c = ' '
    · subst hc
      rcases ih with ⟨n, rfl⟩ | ⟨n, w, rest, rfl, hw, hrest, htokens⟩
      · exact .inl ⟨n + 1, rfl⟩
      · exact .inr ⟨n + 1, w, rest, rfl, hw, hrest, htokens⟩
    · obtain ⟨u, rest, rfl, hu, hrest, htokens⟩ := rest_of_tokens (List.cons_ne_nil c []) cs
      refine .inr ⟨0, c :: u, rest, rfl, ⟨List.cons_ne_nil c u, ?_⟩, hrest, ?_⟩
      · rw [List.mem_cons, not_or]
        exact ⟨Ne.symm hc, hu⟩
      · rw [tokens_char hc, List.nil_append, htokens, List.singleton_append]

theorem word_of_tokens (h : tokens [] cs = w :: ws) : ∃ n rest,
    cs = blanks n ++ (w ++ rest) ∧ IsWord w ∧ Parted rest ∧ tokens [] rest = ws := by
  rcases word_or_blanks cs with ⟨n, rfl⟩ | ⟨n, v, rest, rfl, hv, hrest, htokens⟩
  · rw [tokens_blanks_eq_nil] at h
    cases h
  · rw [htokens] at h
    cases h
    exact ⟨n, rest, rfl, hv, hrest, rfl⟩

theorem blanks_of_tokens (h : tokens [] cs = []) : ∃ n, cs = blanks n := by
  rcases word_or_blanks cs with hblanks | ⟨n, v, rest, rfl, hv, hrest, htokens⟩
  · exact hblanks
  · rw [htokens] at h
    cases h

end

theorem tokens_eq_iff (dest host service : List Char) :
    tokens [] dest = [host, service] ↔ TwoWords dest host service := by
  refine ⟨?_, tokens_of_twoWords⟩
  intro h
  obtain ⟨before, rest, rfl, hhost, hparted, hrest⟩ := word_of_tokens h
  obtain ⟨between, rest', rfl, hservice, -, hend⟩ := word_of_tokens hrest
  obtain ⟨after, rfl⟩ := blanks_of_tokens hend
  cases between with
  | zero =>
    obtain ⟨c, service, rfl⟩ := List.exists_cons_of_ne_nil hservice.1
    rcases hparted with hnil | ⟨cs, hcons⟩
    · cases hnil
    · have hblank : c = ' ' := (List.cons.inj hcons).1
      exact absurd hservice.2 (by simp [hblank])
  | succ between =>
    refine ⟨hhost, hservice, before, between, after, ?_⟩
    simp only [List.append_assoc]

theorem parseDestinationString_iff (dest host service : List Char) :
    parseDestinationString dest = some (host, service) ↔ TwoWords dest host service := by
  rw [← tokens_eq_iff, parseDestinationString]
  split
  next h s hs => rw [hs]; simp
  next hne =>
    constructor
    · intro h
      cases h
    · intro h
      exact absurd h (hne host service)

structure DestinationsParsed [Host] : Prop where
  performed : ∀ dest thread attempt c,
    connectTo dest thread c = performAll attempt (connectToCalls dest thread) c
  passes : ∀ dest thread host service,
    .processEvent (.connectRequest host service thread) ∈ connectToCalls dest thread ↔
      TwoWords dest host service
  once : ∀ dest thread host service, TwoWords dest host service →
    connectToCalls dest thread = [.processEvent (.connectRequest host service thread)]
  unique : ∀ dest host service host' service', TwoWords dest host service →
    TwoWords dest host' service' → host' = host ∧ service' = service
  refused : ∀ dest thread, (∀ host service, ¬ TwoWords dest host service) →
    connectToCalls dest thread = [.connectStatReport invalidSite]
  untouched : ∀ dest thread c, (∀ host service, ¬ TwoWords dest host service) →
    connectTo dest thread c = { c with effects := c.effects ++ [.connectStatReport invalidSite] }
  composed : ∀ host service thread, IsWord host → IsWord service →
    connectToCalls (composeDestination host service) thread =
      [.processEvent (.connectRequest host service thread)]

theorem connectToCalls_twoWords {dest host service : List Char} (thread : ThreadStart)
    (h : TwoWords dest host service) :
    connectToCalls dest thread = [.processEvent (.connectRequest host service thread)] := by
  rw [connectToCalls, (parseDestinationString_iff dest host service).mpr h]

theorem connectToCalls_refused {dest : List Char} (thread : ThreadStart)
    (h : ∀ host service, ¬ TwoWords dest host service) :
    connectToCalls dest thread = [.connectStatReport invalidSite] := by
  have hnone : parseDestinationString dest = none := by
    rw [Option.eq_none_iff_forall_not_mem]
    rintro ⟨host, service⟩ hsome
    exact h host service ((parseDestinationString_iff dest host service).mp hsome)
  rw [connectToCalls, hnone]

theorem twoWords_compose {host service : List Char} (hhost : IsWord host) (hservice : IsWord service) :
    TwoWords (composeDestination host service) host service := by
  refine ⟨hhost, hservice, 0, 0, 0, ?_⟩
  simp [composeDestination, blanks]

theorem destinationsParsed [Host] : DestinationsParsed where
  performed dest thread attempt c := connectTo_eq attempt c dest thread
  passes dest thread host service := by
    rw [← parseDestinationString_iff, connectToCalls]
    cases parseDestinationString dest with
    | none => simp
    | some site => simp [Prod.ext_iff, eq_comm]
  once dest thread host service h := connectToCalls_twoWords thread h
  unique dest host service host' service' h h' := by
    rw [← parseDestinationString_iff] at h h'
    rw [h, Option.some_inj, Prod.ext_iff] at h'
    exact ⟨h'.1.symm, h'.2.symm⟩
  refused dest thread h := connectToCalls_refused thread h
  untouched dest thread c h := by
    rw [connectTo_eq 0, connectToCalls_refused thread h]
    rfl
  composed host service thread hhost hservice :=
    connectToCalls_twoWords thread (twoWords_compose hhost hservice)

end NukeMs.Client
