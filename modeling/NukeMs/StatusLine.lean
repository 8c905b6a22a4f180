import NukeMs.Transcript

namespace NukeMs.Gui

open Client Runs

def disconnectedLine : WxString := wxT "*  Connection state: disconnected."

def connectedLine : WxString := wxT "*  New connection state: connected."

def unreasonedLines : List WxString :=
  [wxT "*  Connection state: Connecting.", wxT "*  Connection state: connected."]

def isStatusLine (line : WxString) : Bool :=
  (wxT "*  New connection state: ").isPrefixOf line || (wxT "*  Connection state: ").isPrefixOf line

inductive Notice : WxString → Prop
  | message (text : WxString) : Notice (wxT ">> " ++ text)
  | disconnected : Notice disconnectedLine
  | lost (msg : WxString) : Notice (wxT "*  New connection state: disconnected; " ++ msg)
  | connected : Notice connectedLine
  | unsent (reason : WxString) : Notice (wxT "*  Failed to send message: " ++ reason)

section
variable [WxConv]

theorem slot_notice {effect : Effect} {line : WxString} (husual : effect.Usual)
    (h : slot effect = some line) : Notice line := by
  cases effect with
  | rcvMessage msg =>
    cases h
    exact .message _
  | connectStatReport rprt =>
    obtain ⟨newstate, reason, msg⟩ := rprt
    cases newstate <;> cases reason <;> cases husual <;> cases h
    · exact .lost _
    · exact .lost _
    · exact .disconnected
    · exact .connected
    · exact .connected
  | sendReport rprt =>
    simp only [slot, slotSendReport] at h
    split at h
    · cases h
    · cases h
      exact .unsent _
  | _ => cases h

omit [WxConv] in
theorem Notice.reasoned {line : WxString} (h : Notice line) : line ∉ unreasonedLines := by
  cases h with
  | message text => simp [unreasonedLines, wxT]
  | disconnected => decide
  | lost msg => simp [unreasonedLines, wxT]
  | connected => decide
  | unsent reason => simp [unreasonedLines, wxT]

omit [WxConv] in
theorem word_quiet {arg : WxString} (h : Words.IsWord whitespace arg) :
    isStatusLine (wxT "*  " ++ arg) = false := by
  have hsplit : wxT "*  New connection state: " = wxT "*  " ++ wxT "New connection state: " ∧
      wxT "*  Connection state: " = wxT "*  " ++ wxT "Connection state: " := by decide
  have hblank (start : WxString) (hstart : 0x20 ∈ start) : ¬ start <+: arg := by
    intro hbegins
    exact absurd (h.whole 0x20 (hbegins.subset hstart)) (by decide)
  rw [isStatusLine, hsplit.1, hsplit.2, Bool.or_eq_false_iff, ← Bool.not_eq_true, ← Bool.not_eq_true,
    List.isPrefixOf_iff_prefix, List.isPrefixOf_iff_prefix, List.prefix_append_right_inj,
    List.prefix_append_right_inj]
  exact ⟨hblank _ (by decide), hblank _ (by decide)⟩

theorem dialogue_quiet {str line : WxString} (h : line ∈ dialogue str) : isStatusLine line = false := by
  obtain rfl | hanswer := List.mem_cons.mp h
  · simp [isStatusLine, wxT, List.isPrefixOf]
  · cases hinterpret : interpret str with
    | printMessage answer =>
      rw [hinterpret] at hanswer
      obtain rfl : line = answer := by simpa [Action.answer] using hanswer
      obtain rfl | ⟨arg, harg, rfl⟩ := printed_of_interpret hinterpret
      · decide
      · exact word_quiet harg
    | _ =>
      rw [hinterpret] at hanswer
      cases hanswer

theorem Watches.user_quiet {s : MainFrame} (h : Watches s) {entry : Entry}
    (hentry : entry ∈ s.frame.history) (huser : entry.byNode = none) : isStatusLine entry.line = false := by
  have hline : entry.byUser = some entry.line := by
    cases entry with
    | notified str => cases huser
    | _ => rfl
  have hmem : entry.line ∈ s.frame.entered.flatMap dialogue := by
    rw [← h.tracks.dialogue]
    exact List.mem_append_left _ (List.mem_filterMap.mpr ⟨entry, hentry, hline⟩)
  obtain ⟨str, -, hstr⟩ := List.mem_flatMap.mp hmem
  exact dialogue_quiet hstr

theorem Watches.entry_reasoned {s : MainFrame} (h : Watches s) {entry : Entry}
    (hentry : entry ∈ s.frame.history) :
    entry.line ∉ unreasonedLines ∧ ∀ line, entry = .notified line → Notice line := by
  cases hnode : entry.byNode with
  | none =>
    have hquiet := h.user_quiet hentry hnode
    have hstatus : ∀ line ∈ unreasonedLines, isStatusLine line = true := by decide
    constructor
    · intro hline
      rw [hstatus _ hline] at hquiet
      cases hquiet
    · rintro line rfl
      cases hnode
  | some line =>
    obtain rfl := Entry.eq_notified hnode
    have hmem : line ∈ s.clientnode.effects.filterMap slot := by
      rw [← h.tracks.notified]
      exact List.mem_filterMap.mpr ⟨_, hentry, rfl⟩
    obtain ⟨effect, heffect, hslot⟩ := List.mem_filterMap.mp hmem
    have hnotice := slot_notice (h.usual effect heffect) hslot
    refine ⟨hnotice.reasoned, ?_⟩
    rintro _ ⟨⟩
    exact hnotice

theorem lines_reasoned [Host] {inputs : List Input} {s : MainFrame}
    (h : exec step init inputs = some s) : ∀ entry ∈ s.frame.history,
      entry.line ∉ unreasonedLines ∧ ∀ line, entry = .notified line → Notice line :=
  fun _ hentry => (run_watches h).entry_reasoned hentry

omit [WxConv] in
theorem lines_reasoned_connect : ∃ s,
    exec (@step littleEndianHost utf8Conv) init connectCommand = some s ∧
      s.frame.history.length = 2 ∧ ∀ entry ∈ s.frame.history,
        entry.line ∉ unreasonedLines ∧ ∀ line, entry = .notified line → Notice line :=
  ⟨_, rfl, rfl, @lines_reasoned utf8Conv littleEndianHost connectCommand _ rfl⟩

def lastStatus (s : MainFrame) : Option WxString :=
  ((s.frame.history.map Entry.line).filter isStatusLine).getLast?

theorem Watches.statusLines {s : MainFrame} (h : Watches s) :
    (s.frame.history.map Entry.line).filter isStatusLine =
      (s.clientnode.effects.filterMap slot).filter isStatusLine := by
  rw [← h.tracks.notified]
  exact Entry.filter_lines fun _ hentry huser => h.user_quiet hentry huser

theorem slot_connection {effect : Effect} (husual : effect.Usual) :
    ((slot effect).filter isStatusLine).map (fun line => decide (line = connectedLine)) =
      effect.connection := by
  cases effect with
  | rcvMessage msg => simp [slot, slotReceiveMessage, isStatusLine, wxT, Effect.connection]
  | connectStatReport rprt =>
    obtain ⟨newstate, reason, msg⟩ := rprt
    have hlost (text : WxString) : isStatusLine (wxT "*  New connection state: disconnected; " ++ text) = true ∧
        wxT "*  New connection state: disconnected; " ++ text ≠ connectedLine := by
      constructor
      · simp [isStatusLine, wxT, List.isPrefixOf]
      · simp [connectedLine, wxT]
    have hends : isStatusLine disconnectedLine = true ∧ disconnectedLine ≠ connectedLine ∧
        isStatusLine connectedLine = true := by decide
    cases newstate <;> cases reason <;> cases husual <;>
      simp [slot, slotConnectionStatusReport, Effect.connection, ← disconnectedLine.eq_1,
        ← connectedLine.eq_1, hlost, hends]
  | sendReport rprt =>
    cases hstate : rprt.sendState <;>
      simp [slot, slotSendReport, hstate, isStatusLine, wxT, Effect.connection]
  | _ => rfl

theorem Watches.lastStatus_iff {s : MainFrame} (h : Watches s) :
    lastStatus s = some connectedLine ↔ lastConnection s.clientnode = some true := by
  have hlines : lastConnection s.clientnode =
      (lastStatus s).map fun line => decide (line = connectedLine) := by
    rw [lastConnection, lastStatus, h.statusLines, ← List.getLast?_map, List.filter_filterMap,
      List.map_filterMap]
    refine congrArg List.getLast? (List.filterMap_congr ?_)
    exact fun effect heffect => (slot_connection (h.usual effect heffect)).symm
  rw [hlines]
  cases lastStatus s <;> simp

omit [WxConv] in
/-- A text none of whose characters is taken for a blank but the blanks. -/
def Plain (str : WxString) : Prop := ∀ c ∈ str, native c = ' ' → whitespace c = true

omit [WxConv] in
theorem Plain.word {str w : WxString} (h : Plain str) (hw : Words.IsWord whitespace w)
    (hmem : ∀ c ∈ w, c ∈ str) : ¬ HidesBlank w := by
  intro hblank
  obtain ⟨c, hc, hnative⟩ := List.mem_map.mp hblank
  have hspace := h c (hmem c hc) hnative
  rw [hw.whole c hc] at hspace
  cases hspace

theorem Plain.parses {str : WxString} {dest : List Char} (h : Plain str)
    (hinterpret : interpret str = .connectTo dest) : parseDestinationString dest ≠ none := by
  obtain ⟨rest, host, service, ⟨rfl, -⟩, ⟨hhost, hservice, before, between, after, -, -, -, rfl⟩, rfl⟩ :=
    ((interpreted str).connectTo dest).mp hinterpret
  have hplain : ¬ HidesBlank host ∧ ¬ HidesBlank service := by
    refine ⟨h.word hhost ?_, h.word hservice ?_⟩ <;> intro c hc <;> simp [hc]
  rw [(parse_composed_iff hhost hservice).mpr hplain]
  nofun

omit [WxConv] in
theorem onPrintMessage_entered {f g : Frame} (h : f.onPrintMessage = some g) : g.entered = f.entered := by
  unfold Frame.onPrintMessage at h
  split at h
  · cases h
  · cases h
    rfl

theorem Takes.entered {f g : Frame} {call : Option Client.Input} (h : Takes f call g) :
    f.entered <+: g.entered := by
  cases h with
  | key keyCode controlDown shiftDown edited htodo =>
    unfold Frame.processEvent Frame.onEnter
    dsimp only
    split
    · split
      · exact List.prefix_rfl
      · exact (List.prefix_append _ _).filterMap _
    · exact List.prefix_rfl
  | proceed thread action htodo =>
    cases action with
    | printMessage str => exact (List.prefix_append _ _).filterMap _
    | _ => exact List.prefix_rfl
  | print _ htodo hprint => exact (onPrintMessage_entered hprint).symm ▸ List.prefix_rfl
  | quit htodo => exact List.prefix_rfl
  | network input hthread => exact List.prefix_rfl

theorem notify_entered (new : List Effect) (f : Frame) : f.entered <+: (f.notify new).entered := by
  rw [Frame.notify, Frame.notify_lines]
  exact (List.prefix_append _ _).filterMap _

theorem Takes.parses {f g : Frame} {effects : List Effect} {dest : List Char} {thread : ThreadStart}
    (h : Takes f (some (.connectTo dest thread)) g) (hf : f.Tracks effects)
    (hplain : ∀ str ∈ f.entered, Plain str) : parseDestinationString dest ≠ none := by
  generalize hcall : some (Client.Input.connectTo dest thread) = call at h
  cases h with
  | proceed thread action htodo =>
    obtain ⟨str, hlast, rfl⟩ := hf.todo _ htodo
    refine (hplain str (List.mem_of_getLast? hlast)).parses ?_
    cases haction : interpret str <;> rw [haction] at hcall <;> cases hcall
    rfl
  | network input hthread =>
    cases hcall
    cases hthread
  | _ => cases hcall

end

section
variable [Host] [WxConv] {s t : MainFrame}

theorem step_entered {input : Input} (h : step s input = some t) :
    s.frame.entered <+: t.frame.entered := by
  obtain ⟨frame, call, htakes, ⟨-, rfl⟩ | ⟨_, c, -, -, rfl⟩⟩ := step_takes h
  · exact htakes.entered
  · exact htakes.entered.trans (notify_entered _ _)

theorem step_tells {input : Input} (hw : Watches s) (h : Tells s.clientnode)
    (hplain : ∀ str ∈ s.frame.entered, Plain str) (hstep : step s input = some t) :
    Tells t.clientnode := by
  obtain ⟨frame, call, htakes, ⟨-, rfl⟩ | ⟨input, c, rfl, hc, rfl⟩⟩ := step_takes hstep
  · exact h
  · refine Client.tells_step h hc ?_
    cases input with
    | connectTo dest thread =>
      rintro ⟨hparse, -⟩
      exact htakes.parses hw.tracks hplain hparse
    | _ => exact id

theorem status_run {inputs : List Input} (h : exec step init inputs = some s)
    (hplain : ∀ str ∈ s.frame.entered, Plain str) :
    lastStatus s = some connectedLine ↔ s.clientnode.state = .connected := by
  have hinv : Watches s ∧ ((∀ str ∈ s.frame.entered, Plain str) → Tells s.clientnode) := by
    refine exec_invariant (I := fun s => Watches s ∧
      ((∀ str ∈ s.frame.entered, Plain str) → Tells s.clientnode)) ?_
      ⟨init_watches, fun _ => tells_init⟩ h
    rintro s input t ⟨hw, htells⟩ hstep
    refine ⟨step_watches hw hstep, ?_⟩
    intro hall
    have hbefore : ∀ str ∈ s.frame.entered, Plain str := fun str hstr =>
      hall str ((step_entered hstep).subset hstr)
    exact step_tells hw (htells hbefore) hbefore hstep
  exact hinv.1.lastStatus_iff.trans (hinv.2 hplain)

omit [Host] [WxConv] in
theorem status_run_connect : ∃ s,
    exec (@step littleEndianHost utf8Conv) init connectCommand = some s ∧
      s.clientnode.state = .connected ∧
      (lastStatus s = some connectedLine ↔ s.clientnode.state = .connected) := by
  refine ⟨_, rfl, rfl, @status_run littleEndianHost utf8Conv _ connectCommand rfl ?_⟩
  intro str hstr
  have hentered : str ∈ [wxT "/connect a b"] := hstr
  obtain rfl : str = wxT "/connect a b" := by simpa using hentered
  exact List.forall_iff_forall_mem.mp (by decide)

end

end NukeMs.Gui
