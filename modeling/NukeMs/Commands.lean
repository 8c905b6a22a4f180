import NukeMs.MainFrame

namespace NukeMs.Gui

open Client Words

abbrev Blanks (str : WxString) : Prop := str ≠ [] ∧ Blank whitespace str

def Names (name str rest : WxString) : Prop := str = name ++ rest ∧ Parted whitespace rest

/-- A character that is taken for the blank between host and service once it is narrowed. -/
def HidesBlank (str : WxString) : Prop := ' ' ∈ str.map native

instance (str : WxString) : Decidable (HidesBlank str) :=
  inferInstanceAs (Decidable (' ' ∈ str.map native))

structure PrintArguments (rest arg : WxString) : Prop where
  word : IsWord whitespace arg
  split : ∃ before after, Blanks before ∧ Parted whitespace after ∧ rest = before ++ (arg ++ after)

structure ConnectArguments (rest host service : WxString) : Prop where
  hostWord : IsWord whitespace host
  serviceWord : IsWord whitespace service
  split : ∃ before between after, Blanks before ∧ Blanks between ∧ Parted whitespace after ∧
    rest = before ++ (host ++ (between ++ (service ++ after)))

structure Interpreted [WxConv] (str : WxString) : Prop where
  close : interpret str = .close ↔ ∃ rest, Names (wxT "/exit") str rest
  disconnect : interpret str = .disconnect ↔ ∃ rest, Names (wxT "/disconnect") str rest
  connectTo : ∀ dest, interpret str = .connectTo dest ↔ ∃ rest host service,
    Names (wxT "/connect") str rest ∧ ConnectArguments rest host service ∧
      dest = composeDestination (host.map native) (service.map native)
  sendUserMessage : ∀ msg, interpret str = .sendUserMessage msg ↔
    isCommand str = false ∧ msg = wxString2str str
  printMessage : ∀ arg, IsWord whitespace arg → (interpret str = .printMessage (wxT "*  " ++ arg) ↔
    ∃ rest, Names (wxT "/print") str rest ∧ PrintArguments rest arg)

section
variable {str rest host service arg : WxString} {name tok : WxString} {toks : List WxString}

theorem words_command_iff (hcommand : isCommand str = true) :
    words whitespace str = name :: toks ↔
      ∃ rest, IsWord whitespace name ∧ Names name str rest ∧ words whitespace rest = toks := by
  rw [words_eq_cons_iff]
  constructor
  · rintro ⟨before, rest, rfl, hbefore, hname, hrest, htoks⟩
    have hnil : before = [] := by
      cases before with
      | nil => rfl
      | cons c before =>
        have hslash : c = 0x2F := by simpa [isCommand] using hcommand
        have hc := hbefore c List.mem_cons_self
        rw [hslash] at hc
        exact absurd hc (by decide)
    subst hnil
    exact ⟨rest, hname, ⟨rfl, hrest⟩, htoks⟩
  · rintro ⟨rest, hname, ⟨rfl, hrest⟩, htoks⟩
    exact ⟨[], rest, rfl, blank_nil, hname, hrest, htoks⟩

theorem blanks_of_parted {before w rest : WxString} (hp : Parted whitespace (before ++ (w ++ rest)))
    (hbefore : Blank whitespace before) (hw : IsWord whitespace w) : Blanks before := by
  refine ⟨?_, hbefore⟩
  rintro rfl
  obtain ⟨c, w, rfl⟩ := List.exists_cons_of_ne_nil hw.nonempty
  have hblank := hp c rfl
  rw [hw.whole c List.mem_cons_self] at hblank
  cases hblank

theorem printArguments_iff (hp : Parted whitespace rest) (arg : WxString) :
    (∃ toks, words whitespace rest = arg :: toks) ↔ PrintArguments rest arg := by
  constructor
  · rintro ⟨toks, h⟩
    obtain ⟨before, after, rfl, hbefore, harg, hafter, -⟩ := words_eq_cons_iff.mp h
    exact ⟨harg, before, after, blanks_of_parted hp hbefore harg, hafter, rfl⟩
  · rintro ⟨harg, before, after, hbefore, hafter, rfl⟩
    exact ⟨_, words_eq_cons_iff.mpr ⟨before, after, rfl, hbefore.2, harg, hafter, rfl⟩⟩

theorem connectArguments_iff (hp : Parted whitespace rest) (host service : WxString) :
    (∃ toks, words whitespace rest = host :: service :: toks) ↔ ConnectArguments rest host service := by
  constructor
  · rintro ⟨toks, h⟩
    obtain ⟨before, rest', rfl, hbefore, hhost, hrest', hservice⟩ := words_eq_cons_iff.mp h
    obtain ⟨between, after, rfl, hbetween, hservice, hafter, -⟩ := words_eq_cons_iff.mp hservice
    exact ⟨hhost, hservice, before, between, after, blanks_of_parted hp hbefore hhost,
      blanks_of_parted hrest' hbetween hservice, hafter, rfl⟩
  · rintro ⟨hhost, hservice, before, between, after, hbefore, hbetween, hafter, rfl⟩
    refine ⟨words whitespace after, ?_⟩
    rw [words_blank_append hbefore.2, words_word hhost (hbetween.2.parted hbetween.1 _),
      words_blank_append hbetween.2, words_word hservice hafter]

theorem invalidCommand_ne (harg : IsWord whitespace arg) :
    invalidCommand ≠ .printMessage (wxT "*  " ++ arg) := by
  intro h
  have hsplit : wxT "*  Invalid command syntax!" = wxT "*  " ++ wxT "Invalid command syntax!" := by decide
  have hline : wxT "*  Invalid command syntax!" = wxT "*  " ++ arg := Action.printMessage.inj h
  rw [hsplit] at hline
  have hblank := harg.whole 0x20 (List.append_cancel_left hline ▸ by decide)
  exact absurd hblank (by decide)

structure Parsed (toks : List WxString) (action : Action) : Prop where
  close : action = .close ↔ ∃ rest, toks = wxT "/exit" :: rest
  disconnect : action = .disconnect ↔ ∃ rest, toks = wxT "/disconnect" :: rest
  connectTo : ∀ dest, action = .connectTo dest ↔ ∃ host service rest,
    toks = wxT "/connect" :: host :: service :: rest ∧
      dest = composeDestination (host.map native) (service.map native)
  printMessage : ∀ arg, IsWord whitespace arg →
    (action = .printMessage (wxT "*  " ++ arg) ↔ ∃ rest, toks = wxT "/print" :: arg :: rest)
  sendUserMessage : ∀ msg, action ≠ .sendUserMessage msg

theorem parsed_invalid {toks : List WxString} (hexit : ∀ rest, toks ≠ wxT "/exit" :: rest)
    (hdisconnect : ∀ rest, toks ≠ wxT "/disconnect" :: rest)
    (hconnect : ∀ host service rest, toks ≠ wxT "/connect" :: host :: service :: rest)
    (hprint : ∀ arg rest, toks ≠ wxT "/print" :: arg :: rest) : Parsed toks invalidCommand where
  close := by simp [invalidCommand, hexit]
  disconnect := by simp [invalidCommand, hdisconnect]
  connectTo dest := by simp [invalidCommand, hconnect]
  printMessage arg harg := by simp [invalidCommand_ne harg, hprint]
  sendUserMessage msg := by simp [invalidCommand]

theorem parsed (str : WxString) : Parsed (words whitespace str) (parseCommand str) := by
  have hnames : wxT "/exit" ≠ wxT "/disconnect" ∧ wxT "/exit" ≠ wxT "/print" ∧
      wxT "/exit" ≠ wxT "/connect" ∧ wxT "/disconnect" ≠ wxT "/print" ∧
      wxT "/disconnect" ≠ wxT "/connect" ∧ wxT "/print" ≠ wxT "/connect" := by decide
  unfold parseCommand
  split
  next hw =>
    rw [hw]
    apply parsed_invalid <;> simp
  next tok toks hw =>
    rw [hw]
    split_ifs with hexit hdisconnect hprint hconnect
    · subst hexit
      constructor <;> simp [hnames]
    · subst hdisconnect
      constructor <;> simp [hnames, hexit]
    · subst hprint
      cases toks with
      | nil => apply parsed_invalid <;> simp [hnames, hexit, hdisconnect]
      | cons arg toks => constructor <;> simp [hnames, hexit, hdisconnect]
    · subst hconnect
      obtain _ | ⟨host, _ | ⟨service, toks⟩⟩ := toks
      · apply parsed_invalid <;> simp [hexit, hdisconnect, hprint]
      · apply parsed_invalid <;> simp [hexit, hdisconnect, hprint]
      · constructor <;> simp [hexit, hdisconnect, hprint, eq_comm]
    · apply parsed_invalid <;> simp [hexit, hdisconnect, hprint, hconnect]

theorem isWord_of_all (hne : name ≠ []) (hall : name.all (!whitespace ·) = true) :
    IsWord whitespace name := by
  refine ⟨hne, ?_⟩
  intro c hc
  simpa using List.all_eq_true.mp hall c hc

theorem names_iff (hcommand : isCommand str = true) (hname : IsWord whitespace name) :
    (∃ toks, words whitespace str = name :: toks) ↔ ∃ rest, Names name str rest := by
  constructor
  · rintro ⟨toks, hw⟩
    obtain ⟨rest, -, hnames, -⟩ := (words_command_iff hcommand).mp hw
    exact ⟨rest, hnames⟩
  · rintro ⟨rest, hnames⟩
    exact ⟨_, (words_command_iff hcommand).mpr ⟨rest, hname, hnames, rfl⟩⟩

theorem isCommand_of_names (hslash : isCommand name = true) (h : Names name str rest) :
    isCommand str = true := by
  obtain ⟨rfl, -⟩ := h
  cases name with
  | nil => cases hslash
  | cons c name => exact hslash

theorem interpreted [WxConv] (str : WxString) : Interpreted str := by
  cases hcommand : isCommand str with
  | false =>
    have hname : ∀ name rest, isCommand name = true → ¬ Names name str rest := by
      intro name rest hslash hnames
      rw [isCommand_of_names hslash hnames] at hcommand
      cases hcommand
    have hsend : interpret str = .sendUserMessage (wxString2str str) := by
      rw [interpret, hcommand, if_neg Bool.false_ne_true]
    constructor
    · simp [hsend, hname (wxT "/exit") _ rfl]
    · simp [hsend, hname (wxT "/disconnect") _ rfl]
    · simp [hsend, hname (wxT "/connect") _ rfl]
    · simp [hsend, hcommand, eq_comm]
    · simp [hsend, hname (wxT "/print") _ rfl]
  | true =>
    have hparse : interpret str = parseCommand str := by rw [interpret, hcommand, if_pos rfl]
    have h := parsed str
    rw [← hparse] at h
    constructor
    · rw [h.close]
      exact names_iff hcommand (isWord_of_all (by decide) rfl)
    · rw [h.disconnect]
      exact names_iff hcommand (isWord_of_all (by decide) rfl)
    · intro dest
      rw [h.connectTo]
      constructor
      · rintro ⟨host, service, toks, hw, rfl⟩
        obtain ⟨rest, -, hnames, hrest⟩ := (words_command_iff hcommand).mp hw
        exact ⟨rest, host, service, hnames,
          (connectArguments_iff hnames.2 host service).mp ⟨toks, hrest⟩, rfl⟩
      · rintro ⟨rest, host, service, hnames, harguments, rfl⟩
        obtain ⟨toks, hrest⟩ := (connectArguments_iff hnames.2 host service).mpr harguments
        have hname : IsWord whitespace (wxT "/connect") := isWord_of_all (by decide) rfl
        exact ⟨host, service, toks, (words_command_iff hcommand).mpr ⟨rest, hname, hnames, hrest⟩, rfl⟩
    · simp [hcommand, h.sendUserMessage]
    · intro arg harg
      rw [h.printMessage arg harg]
      constructor
      · rintro ⟨toks, hw⟩
        obtain ⟨rest, -, hnames, hrest⟩ := (words_command_iff hcommand).mp hw
        exact ⟨rest, hnames, (printArguments_iff hnames.2 arg).mp ⟨toks, hrest⟩⟩
      · rintro ⟨rest, hnames, harguments⟩
        obtain ⟨toks, hrest⟩ := (printArguments_iff hnames.2 arg).mpr harguments
        have hname : IsWord whitespace (wxT "/print") := isWord_of_all (by decide) rfl
        exact ⟨toks, (words_command_iff hcommand).mpr ⟨rest, hname, hnames, hrest⟩⟩

theorem printed_of_interpret [WxConv] {line : WxString} (h : interpret str = .printMessage line) :
    line = wxT "*  Invalid command syntax!" ∨ ∃ arg, IsWord whitespace arg ∧ line = wxT "*  " ++ arg := by
  unfold interpret parseCommand at h
  split at h
  · split at h
    · exact .inl (Action.printMessage.inj h).symm
    next tok toks hw =>
      split_ifs at h
      · split at h
        · exact .inl (Action.printMessage.inj h).symm
        next arg toks =>
          have harg : arg ∈ words whitespace str := by
            rw [hw]
            exact List.mem_cons_of_mem _ List.mem_cons_self
          exact .inr ⟨arg, isWord_of_mem harg, (Action.printMessage.inj h).symm⟩
      · split at h
        · cases h
        · exact .inl (Action.printMessage.inj h).symm
      · exact .inl (Action.printMessage.inj h).symm
  · cases h

theorem native_ne_nil (h : host ≠ []) : host.map native ≠ [] := by
  rw [ne_eq, List.map_eq_nil_iff]
  exact h

theorem parse_composed_iff (hhost : IsWord whitespace host) (hservice : IsWord whitespace service) :
    parseDestinationString (composeDestination (host.map native) (service.map native)) =
        some (host.map native, service.map native) ↔ ¬ HidesBlank host ∧ ¬ HidesBlank service := by
  rw [parseDestinationString_iff]
  constructor
  · rintro ⟨hword, hword', -⟩
    exact ⟨hword.2, hword'.2⟩
  · rintro ⟨hplain, hplain'⟩
    exact twoWords_compose ⟨native_ne_nil hhost.nonempty, hplain⟩
      ⟨native_ne_nil hservice.nonempty, hplain'⟩

theorem connect_passes [WxConv] (hname : Names (wxT "/connect") str rest)
    (harguments : ConnectArguments rest host service) : ∃ dest, interpret str = .connectTo dest ∧
      (parseDestinationString dest = some (host.map native, service.map native) ↔
        ¬ HidesBlank host ∧ ¬ HidesBlank service) :=
  ⟨_, ((interpreted str).connectTo _).mpr ⟨rest, host, service, hname, harguments, rfl⟩,
    parse_composed_iff harguments.hostWord harguments.serviceWord⟩

theorem connectArguments_of_words (hhost : IsWord whitespace host)
    (hservice : IsWord whitespace service) :
    ConnectArguments (wxT " " ++ (host ++ (wxT " " ++ (service ++ [])))) host service := by
  have hblank : Blanks (wxT " ") := ⟨List.cons_ne_nil _ _, by rintro _ (_ | ⟨_, ⟨⟩⟩); rfl⟩
  exact ⟨hhost, hservice, wxT " ", wxT " ", [], hblank, hblank, parted_nil, rfl⟩

theorem connect_passes_plain :
    (∃ dest, @interpret utf8Conv (wxT "/connect a b") = .connectTo dest ∧
      parseDestinationString dest = some (['a'], ['b'])) ∧
    ∃ dest, @interpret utf8Conv (wxT "/connect aĠ b") = .connectTo dest ∧
      parseDestinationString dest ≠ some (['a', ' '], ['b']) := by
  have hhost : IsWord whitespace (wxT "a") := isWord_of_all (by decide) rfl
  have hhiding : IsWord whitespace (wxT "aĠ") := isWord_of_all (by decide) rfl
  have hservice : IsWord whitespace (wxT "b") := isWord_of_all (by decide) rfl
  constructor
  · obtain ⟨dest, hdest, hparse⟩ := @connect_passes (wxT "/connect a b") (wxT " a b") (wxT "a") (wxT "b")
      utf8Conv ⟨rfl, parted_cons rfl _⟩
      (connectArguments_of_words hhost hservice)
    exact ⟨dest, hdest, hparse.mpr ⟨by decide, by decide⟩⟩
  · obtain ⟨dest, hdest, hparse⟩ := @connect_passes (wxT "/connect aĠ b") (wxT " aĠ b") (wxT "aĠ")
      (wxT "b") utf8Conv ⟨rfl, parted_cons rfl _⟩
      (connectArguments_of_words hhiding hservice)
    exact ⟨dest, hdest, fun hsame => (hparse.mp hsame).1 (by decide)⟩

end

end NukeMs.Gui
