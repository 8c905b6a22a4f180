import NukeMs.DestinationParsing
import NukeMs.SessionIsolation
import NukeMs.Words

/-!
The window of the client: `gui.cpp`, `gui.hpp` and `main.cpp`. A step is one event of
the toolkit, the rest of `OnEnter` once the machine is free, or a step of the thread
that runs the handlers of the node.
-/

namespace NukeMs

namespace Gui

open Client

/-- `wxChar` is `wchar_t`. -/
abbrev WxChar := BitVec 32

abbrev WxString := List WxChar

def wxT (literal : String) : WxString := literal.toList.map fun c => BitVec.ofNat 32 c.toNat

class WxConv where
  toUTF8 : WxString → List Byte
  fromUTF8 : List Byte → WxString

abbrev utf8Conv : WxConv where
  toUTF8 str := (str.flatMap fun c => String.utf8EncodeChar (Char.ofNat c.toNat)).map UInt8.toBitVec
  fromUTF8 bytes := ((String.fromUTF8? (bytes.map UInt8.ofBitVec).toByteArray).map wxT).getD []

/-- The part of a block that a function sees which takes it as a C string. -/
def cString (bytes : List Byte) : List Byte := bytes.takeWhile (· ≠ 0)

def nativeBytes (str : String) : List Byte := str.toList.map fun c => BitVec.ofNat 8 c.toNat

/-- The character of a `native_string` that a `wxChar` is narrowed to. -/
def native (c : WxChar) : Char := Char.ofNat (c.toNat % 2 ^ 8)

section
variable [WxConv]

def wxString2str (wxstr : WxString) : List Byte := cString (WxConv.toUTF8 wxstr)

def str2wxString (str : List Byte) : WxString := WxConv.fromUTF8 (cString str)

def slotReceiveMessage (msg : NearUserMessage) : WxString :=
  wxT ">> " ++ str2wxString msg.stringwrap.messageString

def slotConnectionStatusReport (rprt : ConnectionStatusReport) : Option WxString :=
  match rprt.newstate with
  | .disconnected =>
    if rprt.statechangeReason = .noReason ∨ rprt.statechangeReason = .userRequested then
      some (wxT "*  Connection state: disconnected.")
    else
      some (wxT "*  New connection state: disconnected; " ++ str2wxString (nativeBytes rprt.msg))
  | .connecting =>
    if rprt.statechangeReason = .noReason then some (wxT "*  Connection state: Connecting.") else none
  | .connected =>
    if rprt.statechangeReason = .noReason then some (wxT "*  Connection state: connected.")
    else some (wxT "*  New connection state: connected.")

def slotSendReport (rprt : SendReport) : Option WxString :=
  if rprt.sendState then none
  else some (wxT "*  Failed to send message: " ++ str2wxString (nativeBytes rprt.reasonStr))

/-- The constructor of the window connects the slots to the signals of the node. -/
def slot : Effect → Option WxString
  | .rcvMessage msg => some (slotReceiveMessage msg)
  | .connectStatReport rprt => slotConnectionStatusReport rprt
  | .sendReport rprt => slotSendReport rprt
  | _ => none

end

inductive Action
  | close
  | disconnect
  | connectTo (dest : List Char)
  | sendUserMessage (msg : List Byte)
  | printMessage (str : WxString)
  deriving DecidableEq

def isCommand (str : WxString) : Bool := str.head? = some 0x2F

def whitespace (c : WxChar) : Bool := (wxT " \t\r\n").contains c

def invalidCommand : Action := .printMessage (wxT "*  Invalid command syntax!")

def parseCommand (str : WxString) : Action :=
  -- the tokenizer drops empty tokens, and tokens that are left over are not looked at
  match Words.words whitespace str with
  | [] => invalidCommand
  | tok :: toks =>
    if tok = wxT "/exit" then .close
    else if tok = wxT "/disconnect" then .disconnect
    else if tok = wxT "/print" then
      match toks with
      | [] => invalidCommand
      | arg :: _ => .printMessage (wxT "*  " ++ arg)
    else if tok = wxT "/connect" then
      match toks with
      | host :: service :: _ =>
        .connectTo (composeDestination (host.map native) (service.map native))
      | _ => invalidCommand
    else invalidCommand

def interpret [WxConv] (str : WxString) : Action :=
  if isCommand str then parseCommand str else .sendUserMessage (wxString2str str)

inductive Entry
  | entered (str : WxString)
  | answered (str : WxString)
  | notified (str : WxString)

def Entry.line : Entry → WxString
  | .entered str => wxT "<< " ++ str
  | .answered str | .notified str => str

/-- The events that have been added to the window and not been processed are the lines to be printed.
The history records what they were printed for. -/
structure Frame where
  textInputBox : WxString
  textDisplayBox : WxString
  pendingEvents : List WxString
  todo : Option Action
  closed : Bool
  history : List Entry

namespace Frame

def init : Frame := ⟨[], [], [], none, false, []⟩

def printMessage (str : WxString) (f : Frame) : Frame :=
  { f with pendingEvents := f.pendingEvents ++ [str] }

def print (entry : Entry) (f : Frame) : Frame :=
  printMessage entry.line { f with history := f.history ++ [entry] }

def onPrintMessage (f : Frame) : Option Frame :=
  match f.pendingEvents with
  | [] => none
  | str :: rest => some { f with
      textDisplayBox := f.textDisplayBox ++ (str ++ wxT "\n")
      pendingEvents := rest }

def notify [WxConv] (effects : List Effect) (f : Frame) : Frame :=
  (effects.filterMap slot).foldl (fun f str => print (.notified str) f) f

/-- Up to the call that has to wait for the machine. -/
def onEnter [WxConv] (f : Frame) : Frame :=
  let inputString := f.textInputBox
  let f := { f with textInputBox := [] }
  if inputString = [] then f
  else { print (.entered inputString) f with todo := some (interpret inputString) }

def wxkReturn : ℕ := 13

/-- `edited` is what the toolkit makes of a key that is not the return key. -/
def processEvent [WxConv] (keyCode : ℕ) (controlDown shiftDown : Bool) (edited : WxString) (f : Frame) :
    Frame :=
  if keyCode = wxkReturn && !controlDown && !shiftDown then onEnter f
  else { f with textInputBox := edited }

def finish (action : Action) (f : Frame) : Frame :=
  let f := { f with todo := none }
  match action with
  | .close => { f with closed := true }
  | .printMessage str => print (.answered str) f
  | _ => f

end Frame

def Action.call (thread : ThreadStart) : Action → Option Client.Input
  | .disconnect => some .disconnect
  | .connectTo dest => some (.connectTo dest thread)
  | .sendUserMessage msg => some (.sendUserMessage msg UniqueUserID.userIdNone)
  | .close | .printMessage _ => none

def ofThread : Client.Input → Bool
  | .complete _ _ | .handler _ => true
  | .connectTo _ _ | .disconnect | .sendUserMessage _ _ => false

inductive Input
  | charEvent (keyCode : ℕ) (controlDown shiftDown : Bool) (edited : WxString)
  | proceed (thread : ThreadStart)
  | printEvent
  | quit
  | network (input : Client.Input)

/-- What the window itself does, and the step of the node that goes with it. While `OnEnter` has not
returned, the window takes no other event. -/
def Frame.take [WxConv] (f : Frame) : Input → Option (Frame × Option Client.Input)
  | .charEvent keyCode controlDown shiftDown edited =>
    if f.todo.isNone && !f.closed then some (f.processEvent keyCode controlDown shiftDown edited, none)
    else none
  | .proceed thread => f.todo.map fun action => (f.finish action, action.call thread)
  | .printEvent => if f.todo.isNone then f.onPrintMessage.map fun f => (f, none) else none
  | .quit => if f.todo.isNone && !f.closed then some ({ f with closed := true }, none) else none
  | .network input => if ofThread input then some (f, some input) else none

end Gui

structure MainFrame where
  clientnode : ClientNode
  frame : Gui.Frame

namespace Gui

open Client

def init : MainFrame := ⟨Client.init, Frame.init⟩

/-- The slots are called before the step of the node is over. -/
def step [Host] [WxConv] (s : MainFrame) (input : Input) : Option MainFrame :=
  match s.frame.take input with
  | none => none
  | some (frame, none) => some { s with frame := frame }
  | some (frame, some call) => (Client.step s.clientnode call).map fun t =>
    ⟨t, frame.notify (newEffects s.clientnode t)⟩

end Gui

end NukeMs
