import Mathlib.Data.List.Basic
import NukeMs.Commands
import NukeMs.Runs
import NukeMs.Signals

namespace NukeMs.Gui

open Client Runs

def ended (lines : List WxString) : WxString := lines.flatMap (· ++ wxT "\n")

namespace Entry

def text : Entry → Option WxString
  | .entered str => some str
  | _ => none

def byUser : Entry → Option WxString
  | .notified _ => none
  | entry => some entry.line

def byNode : Entry → Option WxString
  | .notified str => some str
  | _ => none

theorem eq_notified {entry : Entry} {line : WxString} (h : entry.byNode = some line) :
    entry = .notified line := by
  cases entry with
  | notified str => exact congrArg Entry.notified (Option.some.inj h)
  | _ => cases h

theorem filter_lines {p : WxString → Bool} {entries : List Entry}
    (hquiet : ∀ entry ∈ entries, entry.byNode = none → p entry.line = false) :
    (entries.map Entry.line).filter p = (entries.filterMap Entry.byNode).filter p := by
  rw [List.filter_filterMap, List.filter_map, ← List.filterMap_eq_map, List.filterMap_filter]
  apply List.filterMap_congr
  intro entry hentry
  cases hnode : entry.byNode with
  | none =>
    rw [Function.comp_apply, hquiet entry hentry hnode]
    rfl
  | some line =>
    obtain rfl := eq_notified hnode
    cases hline : p line <;> simp [Option.filter, Entry.line, hline]

end Entry

def Action.answer : Action → List WxString
  | .printMessage str => [str]
  | _ => []

def dialogue [WxConv] (str : WxString) : List WxString :=
  (wxT "<< " ++ str) :: (interpret str).answer

namespace Frame

def entered (f : Frame) : List WxString := f.history.filterMap Entry.text

def owed (f : Frame) : List WxString := f.todo.toList.flatMap Action.answer

structure Tracks [WxConv] (f : Frame) (effects : List Effect) : Prop where
  shown : f.textDisplayBox ++ ended f.pendingEvents = ended (f.history.map Entry.line)
  notified : f.history.filterMap Entry.byNode = effects.filterMap slot
  dialogue : f.history.filterMap Entry.byUser ++ f.owed = f.entered.flatMap dialogue
  todo : ∀ action, f.todo = some action → ∃ str, f.entered.getLast? = some str ∧ action = interpret str

section
variable {f : Frame} {effects new : List Effect}

theorem ended_append (lines more : List WxString) : ended (lines ++ more) = ended lines ++ ended more :=
  List.flatMap_append

theorem notify_lines (lines : List WxString) (f : Frame) :
    lines.foldl (fun f str => print (.notified str) f) f = { f with
      pendingEvents := f.pendingEvents ++ lines
      history := f.history ++ lines.map Entry.notified } := by
  induction lines generalizing f with
  | nil => simp
  | cons str lines ih =>
    rw [List.foldl_cons, ih]
    simp [print, printMessage, Entry.line]

variable [WxConv]

theorem init_tracks : Tracks init (Client.init).effects where
  shown := rfl
  notified := rfl
  dialogue := rfl
  todo := nofun

theorem Tracks.owed_none (h : f.Tracks effects) (htodo : f.todo = none) :
    f.history.filterMap Entry.byUser = f.entered.flatMap Gui.dialogue := by
  have hdialogue := h.dialogue
  rw [owed, htodo] at hdialogue
  simpa using hdialogue

theorem Tracks.print_shown (h : f.Tracks effects) (entry : Entry) :
    f.textDisplayBox ++ ended (f.pendingEvents ++ [entry.line]) =
      ended ((f.history ++ [entry]).map Entry.line) := by
  rw [ended_append, List.map_append, ended_append, ← h.shown, List.append_assoc]
  rfl

theorem Tracks.onEnter (h : f.Tracks effects) (htodo : f.todo = none) : f.onEnter.Tracks effects := by
  unfold Frame.onEnter
  dsimp only
  split
  · exact ⟨h.shown, h.notified, h.dialogue, h.todo⟩
  · refine ⟨h.print_shown (.entered f.textInputBox), ?_, ?_, ?_⟩
    · simp only [print, printMessage, List.filterMap_append, h.notified]
      exact List.append_nil _
    · simp only [print, printMessage, entered, owed, List.filterMap_append, List.flatMap_append,
        h.owed_none htodo, List.append_assoc]
      rfl
    · rintro _ ⟨⟩
      refine ⟨f.textInputBox, ?_, rfl⟩
      simp [print, printMessage, entered, Entry.text]

theorem Tracks.processEvent (h : f.Tracks effects) (htodo : f.todo = none) (keyCode : ℕ)
    (controlDown shiftDown : Bool) (edited : WxString) :
    (f.processEvent keyCode controlDown shiftDown edited).Tracks effects := by
  unfold Frame.processEvent
  split
  · exact h.onEnter htodo
  · exact ⟨h.shown, h.notified, h.dialogue, h.todo⟩

theorem Tracks.onPrintMessage {g : Frame} (h : f.Tracks effects) (hg : f.onPrintMessage = some g) :
    g.Tracks effects := by
  unfold Frame.onPrintMessage at hg
  split at hg
  · cases hg
  next str rest hpending =>
    cases hg
    refine ⟨?_, h.notified, h.dialogue, h.todo⟩
    rw [← h.shown, hpending, List.append_assoc]
    rfl

theorem Tracks.finish {action : Action} (h : f.Tracks effects) (htodo : f.todo = some action) :
    (f.finish action).Tracks effects := by
  have hdialogue := h.dialogue
  rw [owed, htodo, Option.toList_some, List.flatMap_singleton] at hdialogue
  cases action with
  | printMessage str =>
    refine ⟨h.print_shown (.answered str), ?_, ?_, nofun⟩
    · simp only [Frame.finish, print, printMessage, List.filterMap_append, h.notified]
      exact List.append_nil _
    · have hnone : [Entry.answered str].filterMap Entry.text = [] := rfl
      simp only [Frame.finish, print, printMessage, entered, owed, List.filterMap_append, hnone,
        List.append_nil]
      exact (List.append_nil _).trans hdialogue
  | _ => exact ⟨h.shown, h.notified, hdialogue, nofun⟩

omit [WxConv] in
theorem filterMap_notified {α : Type} {g : Entry → Option α} (hg : ∀ str, g (.notified str) = none)
    (lines : List WxString) : (lines.map Entry.notified).filterMap g = [] := by
  rw [List.filterMap_eq_nil_iff, List.forall_mem_map]
  exact fun str _ => hg str

theorem Tracks.notify (h : f.Tracks effects) (new : List Effect) : (f.notify new).Tracks (effects ++ new) := by
  have huser := filterMap_notified (g := Entry.byUser) (fun _ => rfl) (new.filterMap slot)
  have htext := filterMap_notified (g := Entry.text) (fun _ => rfl) (new.filterMap slot)
  have hline : ∀ lines : List WxString, (lines.map Entry.notified).map Entry.line = lines := by
    intro lines
    rw [List.map_map]
    exact List.map_id lines
  have hnode : ∀ lines : List WxString, (lines.map Entry.notified).filterMap Entry.byNode = lines := by
    intro lines
    rw [List.filterMap_map]
    exact List.filterMap_some
  rw [Frame.notify, notify_lines]
  refine ⟨?_, ?_, ?_, ?_⟩
  · dsimp only
    rw [ended_append, List.map_append, ended_append, ← List.append_assoc, h.shown, hline]
  · dsimp only
    rw [List.filterMap_append, List.filterMap_append, h.notified, hnode]
  · simp only [entered, owed, List.filterMap_append, huser, htext, List.append_nil]
    exact h.dialogue
  · simp only [entered, List.filterMap_append, htext, List.append_nil]
    exact h.todo

end

end Frame

section
variable [WxConv] {f g : Frame} {input : Input} {call : Option Client.Input}

inductive Takes (f : Frame) : Option Client.Input → Frame → Prop
  | key (keyCode : ℕ) (controlDown shiftDown : Bool) (edited : WxString) (htodo : f.todo = none) :
    Takes f none (f.processEvent keyCode controlDown shiftDown edited)
  | proceed (thread : ThreadStart) (action : Action) (htodo : f.todo = some action) :
    Takes f (action.call thread) (f.finish action)
  | print (g : Frame) (htodo : f.todo = none) (hprint : f.onPrintMessage = some g) : Takes f none g
  | quit (htodo : f.todo = none) : Takes f none { f with closed := true }
  | network (input : Client.Input) (hthread : ofThread input = true) : Takes f (some input) f

theorem takes_of_take (h : f.take input = some (g, call)) : Takes f call g := by
  cases input with
  | charEvent keyCode controlDown shiftDown edited =>
    simp only [Frame.take, Option.ite_none_right_eq_some, Bool.and_eq_true, Option.isNone_iff_eq_none,
      Option.some.injEq, Prod.mk.injEq] at h
    obtain ⟨⟨htodo, -⟩, rfl, rfl⟩ := h
    exact .key keyCode controlDown shiftDown edited htodo
  | proceed thread =>
    simp only [Frame.take, Option.map_eq_some_iff, Prod.mk.injEq] at h
    obtain ⟨action, htodo, rfl, rfl⟩ := h
    exact .proceed thread action htodo
  | printEvent =>
    simp only [Frame.take, Option.ite_none_right_eq_some, Option.isNone_iff_eq_none,
      Option.map_eq_some_iff, Prod.mk.injEq] at h
    obtain ⟨htodo, _, hprint, rfl, rfl⟩ := h
    exact .print _ htodo hprint
  | quit =>
    simp only [Frame.take, Option.ite_none_right_eq_some, Bool.and_eq_true, Option.isNone_iff_eq_none,
      Option.some.injEq, Prod.mk.injEq] at h
    obtain ⟨⟨htodo, -⟩, rfl, rfl⟩ := h
    exact .quit htodo
  | network input =>
    simp only [Frame.take, Option.ite_none_right_eq_some, Option.some.injEq, Prod.mk.injEq] at h
    obtain ⟨hthread, rfl, rfl⟩ := h
    exact .network input hthread

theorem Takes.tracks {effects : List Effect} (h : Takes f call g) (hf : f.Tracks effects) :
    g.Tracks effects := by
  cases h with
  | key keyCode controlDown shiftDown edited htodo => exact hf.processEvent htodo _ _ _ _
  | proceed thread action htodo => exact hf.finish htodo
  | print _ htodo hprint => exact hf.onPrintMessage hprint
  | quit htodo => exact ⟨hf.shown, hf.notified, hf.dialogue, hf.todo⟩
  | network input hthread => exact hf

variable [Host] {s t : MainFrame}

theorem step_takes (h : step s input = some t) : ∃ frame call, Takes s.frame call frame ∧
    ((call = none ∧ t = { s with frame := frame }) ∨ ∃ input c, call = some input ∧
      Client.step s.clientnode input = some c ∧
      t = ⟨c, frame.notify (newEffects s.clientnode c)⟩) := by
  unfold step at h
  split at h
  · cases h
  next frame hframe =>
    cases h
    exact ⟨frame, none, takes_of_take hframe, .inl ⟨rfl, rfl⟩⟩
  next frame input hframe =>
    obtain ⟨c, hc, rfl⟩ := Option.map_eq_some_iff.mp h
    exact ⟨frame, some input, takes_of_take hframe, .inr ⟨input, c, rfl, hc, rfl⟩⟩

structure Watches (s : MainFrame) : Prop where
  tracks : s.frame.Tracks s.clientnode.effects
  usual : ∀ effect ∈ s.clientnode.effects, effect.Usual

omit [Host] in
theorem init_watches : Watches init where
  tracks := Frame.init_tracks
  usual effect h := by
    have hinit : effect ∈ [.transit .waiting, .close] := h
    obtain rfl | rfl : effect = .transit .waiting ∨ effect = .close := by simpa using hinit
    all_goals trivial

theorem Watches.hears {frame : Frame} {input : Client.Input} {c : ClientNode} (h : Watches s)
    (hframe : frame.Tracks s.clientnode.effects) (hstep : Client.step s.clientnode input = some c) :
    Watches ⟨c, frame.notify (newEffects s.clientnode c)⟩ := by
  obtain ⟨new, hnew, husual⟩ := step_adds hstep
  constructor
  · dsimp only
    rw [newEffects_append hnew, hnew]
    exact hframe.notify new
  · dsimp only
    rw [hnew]
    intro effect heffect
    exact (List.mem_append.mp heffect).elim (h.usual effect) (husual effect)

theorem step_watches (h : Watches s) (hstep : step s input = some t) : Watches t := by
  obtain ⟨frame, call, htakes, ⟨-, rfl⟩ | ⟨_, c, -, hc, rfl⟩⟩ := step_takes hstep
  · exact ⟨htakes.tracks h.tracks, h.usual⟩
  · exact h.hears (htakes.tracks h.tracks) hc

theorem run_watches {inputs : List Input} (h : exec step init inputs = some s) : Watches s :=
  exec_invariant (fun _ _ _ hs hstep => step_watches hs hstep) init_watches h

theorem transcript_run {inputs : List Input} (h : exec step init inputs = some s) :
    s.frame.Tracks s.clientnode.effects :=
  (run_watches h).tracks

end

def connectCommand : List Input :=
  let endpoint : Endpoint := ⟨"127.0.0.1", 34443⟩
  [.charEvent 0 false false (wxT "/connect a b"), .charEvent Frame.wxkReturn false false [],
    .proceed .started, .network (.complete 0 ⟨none, [endpoint], []⟩), .network (.handler 0),
    .network (.complete 0 ⟨none, [], []⟩), .printEvent, .network (.handler 0)]

theorem transcript_run_connect : ∃ s, exec (@step littleEndianHost utf8Conv) init connectCommand = some s ∧
    s.frame.pendingEvents = [wxT "*  New connection state: connected."] ∧
    @Frame.Tracks utf8Conv s.frame s.clientnode.effects :=
  ⟨_, rfl, rfl, @transcript_run utf8Conv littleEndianHost _ connectCommand rfl⟩

end NukeMs.Gui
