import NukeMs.BroadcastRoom
import NukeMs.Transcript

namespace NukeMs

namespace Gui

def spoken [WxConv] (str : WxString) : Option (List Byte) :=
  if isCommand str then none else some (wxString2str str)

def Action.msg : Action → Option (List Byte)
  | .sendUserMessage msg => some msg
  | _ => none

def sending : Client.Input → Option (List Byte)
  | .sendUserMessage msg _ => some msg
  | _ => none

def isMessageLine (line : WxString) : Bool := (wxT ">> ").isPrefixOf line

end Gui

open Gui

structure ChatRoom where
  network : Network
  frame : ℕ → Frame

namespace ChatRoom

inductive Event
  | breaks (k : ℕ)
  | server (input : Server.Input)
  | window (k : ℕ) (input : Gui.Input)

def begin (start : ℕ → ClientNode) (frames : ℕ → Frame) : ChatRoom := ⟨Network.begin start, frames⟩

def step [HandlerCopies] [Host] [WxConv] (s : ChatRoom) : Event → Option ChatRoom
  | .breaks k => (Network.step s.network (.breaks k)).map fun net => { s with network := net }
  | .server input => (Network.step s.network (.server input)).map fun net => { s with network := net }
  | .window k input =>
    match (s.frame k).take input with
    | none => none
    | some (frame, none) => some { s with frame := Function.update s.frame k frame }
    | some (frame, some call) => (Network.step s.network (.client k call)).map fun net =>
      ⟨net, Function.update s.frame k
        (frame.notify (Client.newEffects (s.network.client k) (net.client k)))⟩

end ChatRoom

namespace Gui

open Client

structure Since [WxConv] (base f : Frame) (effects : List Effect) (sent : List (List Byte))
    (new : List Entry) : Prop where
  history : f.history = base.history ++ new
  notified : new.filterMap Entry.byNode = effects.filterMap slot
  spoken : sent ++ (f.todo.bind Action.msg).toList = (new.filterMap Entry.text).filterMap Gui.spoken
  quiet : ∀ entry ∈ new, entry.byNode = none → isMessageLine entry.line = false
  todo : ∀ line, f.todo = some (.printMessage line) → isMessageLine line = false

section
variable [WxConv] {base f g : Frame} {effects : List Effect} {sent : List (List Byte)}
  {new : List Entry} {call : Option Client.Input}

theorem interpret_msg (str : WxString) : (interpret str).msg = spoken str := by
  have hinterpreted := interpreted str
  cases hcommand : isCommand str with
  | false =>
    rw [((hinterpreted.sendUserMessage _).mpr ⟨hcommand, rfl⟩), spoken, hcommand]
    rfl
  | true =>
    rw [spoken, hcommand, if_pos rfl]
    cases haction : interpret str with
    | sendUserMessage msg =>
      rw [((hinterpreted.sendUserMessage msg).mp haction).1] at hcommand
      cases hcommand
    | _ => rfl

theorem printed_quiet {str line : WxString} (h : interpret str = .printMessage line) :
    isMessageLine line = false := by
  obtain rfl | ⟨arg, -, rfl⟩ := printed_of_interpret h
  · rfl
  · rfl

theorem Since.say (h : Since base f effects sent new) (entry : Entry) {sent' : List (List Byte)}
    (hhistory : g.history = f.history ++ [entry]) (hnode : entry.byNode = none)
    (hspoken : sent' ++ (g.todo.bind Action.msg).toList =
      sent ++ (f.todo.bind Action.msg).toList ++ (entry.text.bind Gui.spoken).toList)
    (hquiet : isMessageLine entry.line = false)
    (htodo : ∀ line, g.todo = some (.printMessage line) → isMessageLine line = false) :
    Since base g effects sent' (new ++ [entry]) where
  history := by rw [hhistory, h.history, List.append_assoc]
  notified := by
    rw [List.filterMap_append, h.notified, List.filterMap_cons_none hnode]
    exact List.append_nil _
  spoken := by
    rw [hspoken, h.spoken, List.filterMap_append, List.filterMap_append]
    cases htext : entry.text with
    | none => simp [htext]
    | some str => cases hstr : Gui.spoken str <;> simp [htext, hstr]
  quiet other hother := by
    obtain hother | hother := List.mem_append.mp hother
    · exact h.quiet other hother
    · obtain rfl := List.mem_singleton.mp hother
      exact fun _ => hquiet
  todo := htodo

theorem Since.onEnter (h : Since base f effects sent new) (htodo : f.todo = none) :
    ∃ new, Since base f.onEnter effects sent new := by
  unfold Frame.onEnter
  dsimp only
  split
  · exact ⟨new, h.history, h.notified, h.spoken, h.quiet, h.todo⟩
  · refine ⟨_, h.say (.entered f.textInputBox) rfl rfl ?_ rfl ?_⟩
    · rw [htodo]
      simp [interpret_msg, Entry.text]
    · rintro line hline
      exact printed_quiet (Option.some.inj hline)

theorem Since.finish (h : Since base f effects sent new) {action : Action} (thread : ThreadStart)
    (htodo : f.todo = some action) : ∃ new, Since base (f.finish action) effects
      (sent ++ ((action.call thread).bind sending).toList) new := by
  have hspoken := h.spoken
  rw [htodo, Option.bind_some] at hspoken
  cases action with
  | printMessage str =>
    refine ⟨_, h.say (.answered str) rfl rfl ?_ (h.todo str htodo) nofun⟩
    rw [htodo]
    rfl
  | sendUserMessage msg =>
    exact ⟨new, h.history, h.notified, (List.append_nil _).trans hspoken, h.quiet, nofun⟩
  | _ =>
    rw [← List.append_nil sent] at hspoken
    exact ⟨new, h.history, h.notified, hspoken, h.quiet, nofun⟩

theorem Takes.since (htakes : Takes f call g) (h : Since base f effects sent new) :
    ∃ new, Since base g effects (sent ++ (call.bind sending).toList) new := by
  have hnone : sent ++ (none : Option (List Byte)).toList = sent := List.append_nil _
  cases htakes with
  | key keyCode controlDown shiftDown edited htodo =>
    rw [Option.bind_none, hnone]
    unfold Frame.processEvent
    split
    · exact h.onEnter htodo
    · exact ⟨new, h.history, h.notified, h.spoken, h.quiet, h.todo⟩
  | proceed thread action htodo => exact h.finish thread htodo
  | print _ htodo hprint =>
    rw [Option.bind_none, hnone]
    unfold Frame.onPrintMessage at hprint
    split at hprint
    · cases hprint
    · cases hprint
      exact ⟨new, h.history, h.notified, h.spoken, h.quiet, h.todo⟩
  | quit htodo =>
    rw [Option.bind_none, hnone]
    exact ⟨new, h.history, h.notified, h.spoken, h.quiet, h.todo⟩
  | network input hthread =>
    have hsending : sending input = none := by
      cases input <;> first | rfl | cases hthread
    rw [Option.bind_some, hsending, hnone]
    exact ⟨new, h⟩

theorem Since.notify (h : Since base f effects sent new) (more : List Effect) :
    ∃ new, Since base (f.notify more) (effects ++ more) sent new := by
  rw [Frame.notify, Frame.notify_lines]
  refine ⟨new ++ (more.filterMap slot).map Entry.notified, ?_, ?_, ?_, ?_, h.todo⟩
  · dsimp only
    rw [h.history, List.append_assoc]
  · rw [List.filterMap_append, List.filterMap_append, h.notified, List.filterMap_map]
    exact congrArg (_ ++ ·) List.filterMap_some
  · rw [List.filterMap_append, Frame.filterMap_notified (g := Entry.text) (fun _ => rfl), List.append_nil]
    exact h.spoken
  · intro entry hentry hnode
    obtain hentry | hentry := List.mem_append.mp hentry
    · exact h.quiet entry hentry hnode
    · obtain ⟨line, -, rfl⟩ := List.mem_map.mp hentry
      cases hnode

end

end Gui

namespace ChatRoom

open Runs Network

def text [WxConv] (msg : NearUserMessage) : WxString := str2wxString msg.stringwrap.messageString

structure Talks [WxConv] (start : ℕ → ClientNode) (frames : ℕ → Frame) (s : ChatRoom) : Prop where
  effects : ∀ k, (start k).effects <+: (s.network.client k).effects
  since : ∀ k, ∃ new, Since (frames k) (s.frame k) (Client.newEffects (start k) (s.network.client k))
    ((s.network.sent k).map fun msg => msg.stringwrap.messageString) new

theorem asked_sending (c : ClientNode) (input : Client.Input) :
    (Client.asked c input).toList.map (fun msg => msg.stringwrap.messageString) =
      (sending input).toList := by
  cases input <;> rfl

theorem newEffects_trans {a b c : ClientNode} (hab : a.effects <+: b.effects)
    (hbc : b.effects <+: c.effects) :
    Client.newEffects a c = Client.newEffects a b ++ Client.newEffects b c := by
  obtain ⟨new, hnew⟩ := hab
  obtain ⟨more, hmore⟩ := hbc
  rw [Client.newEffects_append hnew.symm, Client.newEffects_append hmore.symm]
  apply Client.newEffects_append
  rw [← hmore, ← hnew, List.append_assoc]

section
variable [WxConv] {start : ℕ → ClientNode} {frames : ℕ → Frame} {s t : ChatRoom}

theorem Talks.takes {k : ℕ} {frame : Frame} (hs : Talks start frames s)
    (h : Takes (s.frame k) none frame) :
    Talks start frames { s with frame := Function.update s.frame k frame } := by
  refine ⟨hs.effects, ?_⟩
  intro j
  obtain ⟨new, hnew⟩ := hs.since j
  by_cases hj : j = k
  · subst hj
    dsimp only
    rw [Function.update_self]
    simpa using h.since hnew
  · dsimp only
    rw [Function.update_of_ne hj]
    exact ⟨new, hnew⟩

variable [HandlerCopies] [Host]

theorem Talks.calls {k : ℕ} {frame : Frame} {call : Client.Input} {net : Network}
    (hs : Talks start frames s) (h : Takes (s.frame k) (some call) frame)
    (hnet : Network.step s.network (.client k call) = some net) :
    Talks start frames ⟨net, Function.update s.frame k
      (frame.notify (Client.newEffects (s.network.client k) (net.client k)))⟩ := by
  obtain ⟨c', rest, -, -, hstep, rfl⟩ := client_step hnet
  have hgrows : (s.network.client k).effects <+: c'.effects := by
    obtain ⟨more, hmore, -⟩ := Client.step_adds hstep
    exact ⟨more, hmore.symm⟩
  constructor
  · intro j
    by_cases hj : j = k
    · subst hj
      dsimp only
      rw [Function.update_self]
      exact (hs.effects j).trans hgrows
    · dsimp only
      rw [Function.update_of_ne hj]
      exact hs.effects j
  · intro j
    obtain ⟨new, hnew⟩ := hs.since j
    by_cases hj : j = k
    · subst hj
      dsimp only
      rw [Function.update_self, Function.update_self, Function.update_self, List.map_append,
        asked_sending, newEffects_trans (hs.effects j) hgrows]
      obtain ⟨taken, htaken⟩ := h.since hnew
      exact htaken.notify _
    · dsimp only
      rw [Function.update_of_ne hj, Function.update_of_ne hj, Function.update_of_ne hj]
      exact ⟨new, hnew⟩

end

end ChatRoom

end NukeMs
