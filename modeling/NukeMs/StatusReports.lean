import NukeMs.ClientSteps
import NukeMs.Runs

namespace NukeMs.Client

open Runs

def Effect.newstate : Effect → Option ConnectState
  | .connectStatReport rprt => some rprt.newstate
  | _ => none

def lastNewstate (c : ClientNode) : Option ConnectState := (c.effects.filterMap Effect.newstate).getLast?

structure Agrees (c : ClientNode) : Prop where
  connected : ∀ newstate, lastNewstate c = some newstate →
    (newstate = .connected ↔ c.state = .connected)
  waiting : ∀ newstate, lastNewstate c = some newstate → c.state = .waiting → newstate = .disconnected

def Reports : ConnectState → MachineState → Prop
  | .disconnected, .waiting | .disconnected, .negotiating => True
  | .connecting, .negotiating => True
  | .connected, .connected => True
  | _, _ => False

theorem agrees_iff (c : ClientNode) :
    Agrees c ↔ ∀ newstate, lastNewstate c = some newstate → Reports newstate c.state := by
  constructor
  · intro h newstate hlast
    have hc := h.connected newstate hlast
    have hw := h.waiting newstate hlast
    cases newstate <;> cases hs : c.state <;> simp_all [Reports]
  · intro h
    constructor
    · intro newstate hlast
      have hr := h newstate hlast
      cases newstate <;> cases hs : c.state <;> simp_all [Reports]
    · intro newstate hlast hw
      have hr := h newstate hlast
      rw [hw] at hr
      cases newstate
      · rfl
      · cases hr
      · cases hr

section
variable (c : ClientNode)

theorem lastNewstate_emit (effect : Effect) :
    lastNewstate (emit effect c) = effect.newstate.or (lastNewstate c) := by
  have happend : (c.effects ++ [effect]).filterMap Effect.newstate =
      c.effects.filterMap Effect.newstate ++ effect.newstate.toList := by
    rw [List.filterMap_append]
    cases h : effect.newstate <;> simp [h]
  rw [lastNewstate, emit, happend]
  cases effect.newstate <;> simp [lastNewstate]

theorem lastNewstate_report (newstate : ConnectState) (reason : StatechangeReason) (msg : String) :
    lastNewstate (report newstate reason msg c) = some newstate :=
  lastNewstate_emit c _

theorem lastNewstate_transit (state : MachineState) :
    lastNewstate (transit state c) = lastNewstate c :=
  lastNewstate_emit { c with state := state } _

theorem lastNewstate_enterWaiting : lastNewstate (enterWaiting c) = lastNewstate c := by
  rw [enterWaiting, stopIOOperations, closeSocket, lastNewstate_emit]
  exact lastNewstate_transit c .waiting

theorem lastNewstate_start (attempt : ℕ) (kind : OpKind) :
    lastNewstate (start attempt kind c) = lastNewstate c :=
  lastNewstate_emit { c with pending := c.pending ++ [⟨attempt, kind, none⟩] } _

end

variable {c t : ClientNode}

theorem Agrees.of_last {newstate : ConnectState} (hlast : lastNewstate c = some newstate)
    (h : Reports newstate c.state) : Agrees c := by
  rw [agrees_iff, hlast]
  rintro _ ⟨⟩
  exact h

theorem Agrees.keep (h : Agrees c) (hlast : lastNewstate t = lastNewstate c)
    (hstate : t.state = c.state) : Agrees t := by
  rw [agrees_iff, hlast, hstate]
  exact (agrees_iff c).mp h

theorem Agrees.silent (h : Agrees c) {effect : Effect} (he : effect.newstate = none) :
    Agrees (emit effect c) := by
  refine h.keep ?_ rfl
  rw [lastNewstate_emit, he, Option.none_or]

theorem Agrees.start (h : Agrees c) (attempt : ℕ) (kind : OpKind) : Agrees (start attempt kind c) :=
  h.keep (lastNewstate_start c attempt kind) rfl

theorem Agrees.closeSocket (h : Agrees c) : Agrees (closeSocket c) := by
  refine Agrees.silent ?_ rfl
  exact h.keep rfl rfl

theorem agrees_enterWaiting (reason : StatechangeReason) (msg : String) (c : ClientNode) :
    Agrees (enterWaiting (report .disconnected reason msg c)) := by
  have hlast := lastNewstate_report c .disconnected reason msg
  rw [← lastNewstate_enterWaiting] at hlast
  exact Agrees.of_last hlast trivial

theorem agrees_report {newstate : ConnectState} (reason : StatechangeReason) (msg : String)
    (h : Reports newstate c.state) : Agrees (report newstate reason msg c) :=
  Agrees.of_last (lastNewstate_report c newstate reason msg) h

theorem agrees_connectReport (success : Bool) (message : String) (c : ClientNode) :
    Agrees (StateNegotiating.reactConnectReport success message c) := by
  unfold StateNegotiating.reactConnectReport
  split
  · have hlast := lastNewstate_report c .connected .userRequested message
    rw [← lastNewstate_transit _ .connected] at hlast
    exact Agrees.of_last hlast trivial
  · exact agrees_enterWaiting _ _ c

theorem Agrees.connectRequest (h : Agrees c) (hs : c.state = .waiting) (host service : List Char)
    (thread : ThreadStart) : Agrees (StateWaiting.reactConnectRequest host service thread c) := by
  unfold StateWaiting.reactConnectRequest
  cases thread.errmsg with
  | some errmsg => exact agrees_connectReport false errmsg _
  | none =>
    rw [agrees_iff]
    intro newstate hlast
    rw [lastNewstate_transit, lastNewstate_start] at hlast
    rw [h.waiting newstate hlast hs]
    trivial

theorem agrees_init : Agrees init := by
  rw [agrees_iff]
  rintro _ ⟨⟩

section
variable [Host]

theorem Agrees.rcvdMessage (h : Agrees c) (data : SegmentationLayer SerializedData) :
    Agrees (StateConnected.reactRcvdMessage data c) := by
  unfold StateConnected.reactRcvdMessage
  dsimp only
  split
  · exact h.keep rfl rfl
  · split
    · split
      · exact h.silent rfl
      · exact h
    · exact h

theorem Agrees.processEvent (h : Agrees c) (evt : Event) : Agrees (processEvent evt c) := by
  unfold Client.processEvent
  split
  next hs => exact h.connectRequest hs _ _ _
  next => exact h.silent rfl
  next => exact agrees_connectReport _ _ c
  next => exact agrees_enterWaiting _ _ c
  next => exact h.silent rfl
  next hs => exact agrees_report _ _ (hs ▸ trivial)
  next => exact agrees_enterWaiting _ _ c
  next => exact h.start _ _
  next => exact agrees_enterWaiting _ _ c
  next => exact h.rcvdMessage _
  next hs => exact agrees_report _ _ (hs ▸ trivial)
  next => exact h

theorem keeps_agrees : Keeps Agrees where
  processEvent evt _ _ h := h.processEvent evt
  start attempt kind _ _ h := h.start attempt kind
  closeSocket _ h := h.closeSocket
  resolved _ _ _ h := h.silent rfl
  handedUp _ _ h := h.silent rfl

theorem Agrees.runHandler (h : Agrees c) (op : Op) (outcome : Outcome) :
    Agrees (runHandler op outcome c) :=
  keeps_agrees.runHandler (fun _ _ _ _ h => h.silent rfl) op outcome h

def misreports (c : ClientNode) : Input → Bool
  | .connectTo dest _ => (parseDestinationString dest).isNone && c.state = .connected
  | _ => false

theorem Agrees.connectTo (h : Agrees c) (dest : List Char) (thread : ThreadStart) :
    Agrees (connectTo dest thread c) ↔ misreports c (.connectTo dest thread) = false := by
  unfold Client.connectTo misreports
  cases hparse : parseDestinationString dest with
  | some parsed => exact iff_of_true (h.processEvent _) (by simp [hparse])
  | none =>
    have hlast := lastNewstate_report c .disconnected .connectFailed "Invalid remote site identifier"
    by_cases hs : c.state = .connected
    · refine iff_of_false ?_ (by simp [hparse, hs])
      intro hagrees
      cases (hagrees.connected _ hlast).mpr hs
    · refine iff_of_true (agrees_report _ _ ?_) (by simp [hs])
      cases hstate : c.state with
      | waiting => trivial
      | negotiating => trivial
      | connected => exact absurd hstate hs

theorem agrees_step (input : Input) (h : Agrees c) (hstep : step c input = some t) :
    Agrees t ↔ misreports c input = false := by
  cases (steps_of_step hstep).2 with
  | connectTo dest thread => exact h.connectTo dest thread
  | disconnect => exact iff_of_true (h.processEvent _) rfl
  | sendUserMessage msg recipient =>
    have hnext : Agrees { c with lastMsgId := getNextMessageId c } := h.keep rfl rfl
    exact iff_of_true (hnext.processEvent _) rfl
  | complete i outcome op => exact iff_of_true (h.keep rfl rfl) rfl
  | handler i op outcome =>
    have htaken : Agrees { c with pending := c.pending.eraseIdx i } := h.keep rfl rfl
    exact iff_of_true (htaken.runHandler op outcome) rfl

theorem agrees_run (es : List Input) : Along step (fun _ _ t => Agrees t) init es ↔
    Along step (fun s input _ => misreports s input = false) init es :=
  along_congr (I := Agrees) (fun _ _ _ _ h _ => h)
    (fun _ input _ h hstep => agrees_step input h hstep) agrees_init es

end

def refusedRequest : List Input :=
  let endpoint : Endpoint := ⟨"127.0.0.1", 34443⟩
  [.connectTo ['a', ' ', 'b'] .started, .complete 0 ⟨none, [endpoint], []⟩, .handler 0,
    .complete 0 ⟨none, [], []⟩, .handler 0, .connectTo ['a'] .started]

theorem refusedRequest_disagrees :
    ∃ t, exec (@step littleEndianHost) init refusedRequest = some t ∧ ¬ Agrees t := by
  refine ⟨_, rfl, ?_⟩
  intro h
  cases (h.connected .disconnected rfl).mpr rfl

end NukeMs.Client
