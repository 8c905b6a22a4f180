import NukeMs.ClientSteps

namespace NukeMs.Client

def picked {α : Type} (f : Effect → Option α) (c : ClientNode) : List α := c.effects.filterMap f

structure Quiet {α : Type} (f : Effect → Option α) : Prop where
  report : ∀ rprt, f (.connectStatReport rprt) = none
  transit : ∀ state, f (.transit state) = none
  close : f .close = none
  start : ∀ attempt kind, (∀ buffer, kind ≠ .write buffer) → f (.start attempt kind) = none
  resolved : ∀ attempt endpoints, f (.resolved attempt endpoints) = none
  handedUp : ∀ payload, f (.handedUp payload) = none

section
variable {α : Type} {f : Effect → Option α} (c : ClientNode)

theorem picked_emit (effect : Effect) : picked f (emit effect c) = picked f c ++ (f effect).toList := by
  rw [picked, emit, List.filterMap_append]
  cases h : f effect <;> simp [picked, h]

theorem picked_emit_of_none {effect : Effect} (h : f effect = none) :
    picked f (emit effect c) = picked f c := by
  rw [picked_emit, h]
  exact List.append_nil _

variable (hq : Quiet f)
include hq

theorem picked_report (newstate : ConnectState) (reason : StatechangeReason) (msg : String) :
    picked f (report newstate reason msg c) = picked f c :=
  picked_emit_of_none c (hq.report _)

theorem picked_transit (state : MachineState) : picked f (transit state c) = picked f c :=
  picked_emit_of_none { c with state := state } (hq.transit state)

theorem picked_closeSocket : picked f (closeSocket c) = picked f c :=
  picked_emit_of_none { c with pending := c.pending.map Op.abort } hq.close

theorem picked_start (attempt : ℕ) {kind : OpKind} (h : ∀ buffer, kind ≠ .write buffer) :
    picked f (start attempt kind c) = picked f c :=
  picked_emit_of_none { c with pending := c.pending ++ [⟨attempt, kind, none⟩] } (hq.start _ _ h)

theorem picked_enterWaiting : picked f (enterWaiting c) = picked f c := by
  rw [enterWaiting, stopIOOperations, picked_closeSocket _ hq, picked_transit _ hq]

theorem picked_connectReport (success : Bool) (message : String) :
    picked f (StateNegotiating.reactConnectReport success message c) = picked f c := by
  unfold StateNegotiating.reactConnectReport
  split
  · rw [picked_transit _ hq, picked_report _ hq]
  · rw [picked_enterWaiting _ hq, picked_report _ hq]

theorem picked_connectRequest (host service : List Char) (thread : ThreadStart) :
    picked f (StateWaiting.reactConnectRequest host service thread c) = picked f c := by
  have hnext : picked f (transit .negotiating (start (c.attempt + 1) (.resolve host service)
      { c with attempt := c.attempt + 1 })) = picked f c := by
    rw [picked_transit _ hq, picked_start _ hq _ (by simp)]
    rfl
  unfold StateWaiting.reactConnectRequest
  cases thread.errmsg with
  | none => exact hnext
  | some errmsg => exact (picked_connectReport _ hq false errmsg).trans hnext

variable [Host] (hmessage : ∀ m, f (.rcvMessage m) = none)
include hmessage

omit hq in
theorem picked_rcvdMessage (data : SegmentationLayer SerializedData) :
    picked f (StateConnected.reactRcvdMessage data c) = picked f c := by
  unfold StateConnected.reactRcvdMessage
  dsimp only
  split
  · rfl
  · split
    · split
      next m _ => exact picked_emit_of_none c (hmessage m)
      next => rfl
    · rfl

theorem picked_processEvent {evt : Event} (hevt : ∀ data, evt ≠ .sendMsg data) :
    picked f (processEvent evt c) = picked f c := by
  have hleave (reason : StatechangeReason) (msg : String) :
      picked f (enterWaiting (report .disconnected reason msg c)) = picked f c := by
    rw [picked_enterWaiting _ hq, picked_report _ hq]
  unfold processEvent
  split
  next => exact picked_connectRequest c hq _ _ _
  next data _ => exact absurd rfl (hevt data)
  next => exact picked_connectReport c hq _ _
  next => exact hleave _ _
  next data _ => exact absurd rfl (hevt data)
  next => exact picked_report c hq _ _ _
  next => exact hleave _ _
  next data _ => exact absurd rfl (hevt data)
  next => exact hleave _ _
  next => exact picked_rcvdMessage c hmessage _
  next => exact picked_report c hq _ _ _
  next => rfl

omit c in
theorem keeps_picked (picks : List α) : Keeps (fun c => picked f c = picks) where
  processEvent _ c hevt h := (picked_processEvent c hq hmessage hevt).trans h
  start attempt _ c hkind h := (picked_start c hq attempt hkind).trans h
  closeSocket c h := (picked_closeSocket c hq).trans h
  resolved attempt endpoints c h := (picked_emit_of_none c (hq.resolved attempt endpoints)).trans h
  handedUp payload c h := (picked_emit_of_none c (hq.handedUp payload)).trans h

end

def Effect.writeOf (attempt : ℕ) : Effect → Option (List Byte)
  | .start n (.write buffer) => if n = attempt then some buffer else none
  | _ => none

def writes (attempt : ℕ) (c : ClientNode) : List (List Byte) :=
  c.effects.filterMap (Effect.writeOf attempt)

section
variable (n : ℕ) (c : ClientNode)

theorem quiet_writeOf : Quiet (Effect.writeOf n) where
  report _ := rfl
  transit _ := rfl
  close := rfl
  start attempt kind h := by
    cases kind with
    | write buffer => exact absurd rfl (h buffer)
    | _ => rfl
  resolved _ _ := rfl
  handedUp _ := rfl

theorem writes_emit (effect : Effect) :
    writes n (emit effect c) = writes n c ++ (effect.writeOf n).toList := picked_emit c effect

theorem writes_emit_of_none {effect : Effect} (h : effect.writeOf n = none) :
    writes n (emit effect c) = writes n c := picked_emit_of_none c h

theorem writes_start {kind : OpKind} (attempt : ℕ) (h : ∀ buffer, kind ≠ .write buffer) :
    writes n (start attempt kind c) = writes n c := picked_start c (quiet_writeOf n) attempt h

end

section
variable [Host] (n : ℕ) (c : ClientNode)

theorem writes_processEvent {evt : Event} (h : ∀ data, evt ≠ .sendMsg data) :
    writes n (processEvent evt c) = writes n c :=
  picked_processEvent c (quiet_writeOf n) (fun _ => rfl) h

theorem writes_sendMsg (data : NearUserMessage) : writes n (processEvent (.sendMsg data) c) =
    writes n c ++ if c.state = .connected ∧ c.attempt = n then [SegmentationLayer.packet data.bytes]
      else [] := by
  unfold processEvent
  cases hs : c.state with
  | waiting => exact (writes_emit_of_none n c rfl).trans (List.append_nil _).symm
  | negotiating => exact (writes_emit_of_none n c rfl).trans (List.append_nil _).symm
  | connected =>
    have hbuffer := (SegmentationLayer.serializes data.serializes).buffer_eq
    dsimp only
    rw [StateConnected.reactSendMsg, hbuffer, start, writes_emit]
    by_cases hn : c.attempt = n
    · simp only [Effect.writeOf, hn, and_self, if_true]
      rfl
    · simp only [Effect.writeOf, hn, and_false, if_false]
      rfl

end

end NukeMs.Client
