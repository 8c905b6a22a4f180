import NukeMs.ClientSteps
import NukeMs.ComposedWrites
import NukeMs.ConnectedClient
import NukeMs.Outstanding
import NukeMs.PeerOperations

namespace NukeMs

open SegmentationLayerBase ComposedWrites

theorem packet_marked (payload : List Byte) :
    Marked layerId 0 (SegmentationLayer.packet payload) := ⟨_, _, payload, rfl⟩

/-- The operation at place `i` is over. Those that `writes` picks out are the writes under way. -/
def fateOf {α : Type} (writes : α → Bool) (ops : List α) (i : ℕ) (succeeded : Bool) : Fate :=
  match ops[i]? with
  | none => .goesOn
  | some op =>
    let k := (ops.take i).countP writes
    if writes op then if succeeded then .through k else .fails k else .goesOn

section
variable {α : Type} {writes : α → Bool} {ops : List α} {op : α} {i : ℕ}

theorem fateOf_fits (hop : ops[i]? = some op) (succeeded : Bool) :
    (fateOf writes ops i succeeded).fits (ops.countP writes) := by
  obtain ⟨hi, hget⟩ := List.getElem?_eq_some_iff.mp hop
  have hsplit := List.take_append_drop i ops
  rw [List.drop_eq_getElem_cons hi, hget] at hsplit
  have hcount := congrArg (List.countP writes) hsplit
  rw [List.countP_append, List.countP_cons] at hcount
  rw [fateOf, hop]
  dsimp only
  split
  next hw =>
    rw [if_pos hw] at hcount
    have hlt : (ops.take i).countP writes < ops.countP writes := by omega
    split <;> exact hlt
  next => trivial

theorem fateOf_left (hop : ops[i]? = some op) (succeeded : Bool) :
    (fateOf writes ops i succeeded).left (ops.countP writes) = (ops.eraseIdx i).countP writes := by
  have hcount := Outstanding.countP_eraseIdx writes hop
  rw [fateOf, hop]
  dsimp only
  split
  next hw =>
    rw [if_pos hw] at hcount
    have hleft : ops.countP writes - 1 = (ops.eraseIdx i).countP writes := by omega
    split <;> exact hleft
  next hw =>
    rw [if_neg hw] at hcount
    exact hcount.symm

end

def Operation.isWrite (op : Operation) : Bool := !op.isRead

def Completion.succeeded : Completion → Bool
  | .ok _ => true
  | .error _ => false

namespace Server

variable [HandlerCopies] [Host] {s t : DispatchingServer} {input : Input}

def peerOpen (p : ℕ) (s : DispatchingServer) : Bool := (s.peer p).socketOpen && !(s.peer p).destroyed

def peerWrites (p : ℕ) (s : DispatchingServer) : ℕ := (s.peer p).pending.countP Operation.isWrite

def writeFate (p : ℕ) (s : DispatchingServer) : Input → Fate
  | .completed u i result =>
    if u = p ∧ (s.peer p).destroyed = false then
      fateOf Operation.isWrite (s.peer p).pending i (Completion.succeeded result)
    else .goesOn
  | .accepted _ => .goesOn

theorem handled_writes (p : Peer) (i : ℕ) (op : Operation) (result : Completion) :
    let r := reaction op result
    (p.handled i op result r).pending.countP Operation.isWrite =
      (p.pending.eraseIdx i).countP Operation.isWrite + if r.isBroadcast then 1 else 0 := by
  dsimp only
  rw [handled_pending, List.countP_append]
  congr 1
  cases hr : reaction op result with
  | start next =>
    obtain ⟨bytes, body, -, -, -, rfl⟩ := reaction_start hr
    rfl
  | _ => rfl

structure Writing (p : ℕ) (s : DispatchingServer) : Prop where
  wellFormed : WellFormed s
  fresh : s.created ≤ p → writesTo p s.trace = []

omit [HandlerCopies] [Host] in
theorem Writing.fresh_writes {p : ℕ} (hs : Writing p s) (hp : s.created ≤ p) : peerWrites p s = 0 := by
  rw [peerWrites, hs.wellFormed.fresh p hp]
  rfl

structure WriteStep (p : ℕ) (s : DispatchingServer) (input : Input) (t : DispatchingServer) : Prop where
  written : writesTo p t.trace = writesTo p s.trace ∨
    ∃ b, Marked layerId 0 b ∧ writesTo p t.trace = writesTo p s.trace ++ [b]
  fits : (writeFate p s input).fits (peerWrites p s)
  underWay : peerWrites p t + (writesTo p s.trace).length =
    (writeFate p s input).left (peerWrites p s) + (writesTo p t.trace).length
  isOpen : peerOpen p t = true → peerOpen p s = true ∨ writesTo p s.trace = []

omit [HandlerCopies] [Host] in
theorem WriteStep.same {p : ℕ} (hfate : writeFate p s input = .goesOn)
    (hw : writesTo p t.trace = writesTo p s.trace) (hp : t.peer p = s.peer p) : WriteStep p s input t where
  written := .inl hw
  fits := hfate ▸ trivial
  underWay := by
    rw [hw, hfate, peerWrites, hp]
    rfl
  isOpen ho := by
    rw [peerOpen, hp] at ho
    exact .inl ho

omit [Host] in
theorem Writing.accepted {p : ℕ} (hs : Writing p s) :
    WriteStep p s (.accepted none) (acceptHandler none s) := by
  have hwritten := acceptHandler_written (s := s) p
  have hpeer := acceptHandler_peer hs.wellFormed p
  by_cases hp : p = s.created
  · rw [if_pos hp] at hpeer
    refine ⟨.inl hwritten, trivial, ?_, fun _ => .inr (hs.fresh (by omega))⟩
    rw [hwritten, peerWrites, hpeer]
    change _ = peerWrites p s + _
    rw [hs.fresh_writes (by omega)]
    rfl
  · rw [if_neg hp] at hpeer
    refine ⟨.inl hwritten, trivial, ?_, fun ho => .inl ?_⟩
    · rw [hwritten, peerWrites, hpeer]
      split <;> rfl
    · rw [peerOpen, hpeer] at ho
      split at ho
      · simp at ho
      · exact ho

theorem Writing.handled {p u i : ℕ} {op : Operation} {result : Completion} (hs : Writing p s)
    (hd : (s.peer u).destroyed = false) (hop : (s.peer u).pending[i]? = some op) :
    WriteStep p s (.completed u i result) (invoke op result u (modify u (Peer.taken i op result) s)) := by
  obtain ⟨hp, hcases⟩ := handled_cases i op result hs.wellFormed hd
  have hwrites := handled_writes (s.peer u) i op result
  generalize invoke op result u (modify u (Peer.taken i op result) s) = t at *
  by_cases hu : p = u
  · subst hu
    have hfate : writeFate p s (.completed p i result) =
        fateOf Operation.isWrite (s.peer p).pending i (Completion.succeeded result) :=
      if_pos ⟨rfl, hd⟩
    have hfits : (writeFate p s (.completed p i result)).fits (peerWrites p s) :=
      hfate ▸ fateOf_fits hop _
    have hleft : (writeFate p s (.completed p i result)).left (peerWrites p s) =
        ((s.peer p).pending.eraseIdx i).countP Operation.isWrite := hfate ▸ fateOf_left hop _
    have hopen : peerOpen p t = true → peerOpen p s = true := by
      intro ho
      rw [peerOpen, hp, Bool.and_eq_true] at ho
      rw [peerOpen, hd, socketOpen_of_handled ho.1]
      rfl
    obtain ⟨body, hr, hb⟩ | ⟨hb, hl, -⟩ := hcases
    · have hwritten := hb.written p
      rw [hd, if_neg (by decide)] at hwritten
      refine ⟨.inr ⟨_, packet_marked body, hwritten⟩, hfits, ?_, fun ho => .inl (hopen ho)⟩
      rw [hleft, peerWrites, hp, hwrites, hr, hwritten, List.length_append, List.length_singleton,
        Reaction.isBroadcast, if_pos rfl, Nat.add_assoc, Nat.add_comm 1]
    · refine ⟨.inl (hl.written p), hfits, ?_, fun ho => .inl (hopen ho)⟩
      rw [hleft, peerWrites, hp, hwrites, hb, hl.written]
      rfl
  · have hfate : writeFate p s (.completed u i result) = .goesOn := if_neg fun h => hu h.1.symm
    obtain ⟨body, hr, hb⟩ | ⟨hb, hl, -⟩ := hcases
    · have hother := hb.other p hu
      have hwritten := hb.written p
      cases hgone : (s.peer p).destroyed with
      | true =>
        rw [hgone, if_pos rfl] at hother hwritten
        exact .same hfate (hwritten.trans (List.append_nil _)) hother
      | false =>
        rw [hgone, if_neg (by decide)] at hother hwritten
        refine ⟨.inr ⟨_, packet_marked body, hwritten⟩, hfate ▸ trivial, ?_, fun ho => .inl ?_⟩
        · rw [peerWrites, hother, Peer.queue_pending, List.countP_append, hfate, hwritten,
            List.length_append, Nat.add_assoc, Nat.add_comm (List.countP _ _) (List.length _)]
          rfl
        · rw [peerOpen, hother, Bool.and_eq_true] at ho
          rw [peerOpen, hgone, Bool.and_eq_true]
          exact ⟨ho.1, rfl⟩
    · exact .same hfate (hl.written p) (hl.other p hu)

theorem Writing.writes {p : ℕ} (hs : Writing p s) (h : step s input = some t) : WriteStep p s input t := by
  obtain ⟨-, hstep⟩ := step_stepped h
  cases hstep with
  | refused error => exact .same rfl rfl rfl
  | accepted => exact hs.accepted
  | gone u i result hd =>
    have hfate : writeFate p s (.completed u i result) = .goesOn := by
      refine if_neg fun ⟨hu, hlive⟩ => ?_
      rw [← hu, hd] at hlive
      cases hlive
    refine .same hfate ?_ rfl
    rw [log_trace, writesTo_append]
    exact List.append_nil _
  | handled u i op result hd hop => exact hs.handled hd hop

theorem Writing.step {p : ℕ} (hs : Writing p s) (h : Server.step s input = some t) : Writing p t := by
  have ht := step_wellFormed hs.wellFormed h
  refine ⟨ht, fun hp => ?_⟩
  have hcount := (hs.writes h).underWay
  have hnone : peerWrites p t = 0 := by
    rw [peerWrites, ht.fresh p hp]
    rfl
  rw [hs.fresh (Nat.le_trans (step_created hs.wellFormed h) hp), hnone, List.length_nil] at hcount
  exact List.length_eq_zero_iff.mp (by omega)

def peerSender (p : ℕ) : Sender DispatchingServer Input Byte where
  init := init
  step := step
  written s := writesTo p s.trace
  isOpen := peerOpen p
  underWay := peerWrites p
  fate s input _ := writeFate p s input
  first := layerId
  fourth := 0
  first_ne := by decide
  Invariant := Writing p
  init_written := rfl
  init_underWay := rfl
  init_invariant := ⟨init_wellFormed, fun _ => rfl⟩
  step_invariant hs h := hs.step h
  step_written hs h := (hs.writes h).written
  step_underWay hs h := ⟨(hs.writes h).fits, (hs.writes h).underWay⟩
  step_isOpen hs h ho := (hs.writes h).isOpen ho

end Server

namespace ConnectedClient

variable {d t : ConnectedClient} {input : Input}

def writeFate (d : ConnectedClient) : Input → Fate
  | .completed i result => fateOf Operation.isWrite d.pending i (Completion.succeeded result)
  | _ => .goesOn

def openWrites (d : ConnectedClient) : ℕ := d.pending.countP Operation.isWrite

/-- The socket goes with the client that owns it. -/
def socketOpen (d : ConnectedClient) : Bool := !d.isShutdown && d.owned

structure Unwriting (d t : ConnectedClient) : Prop where
  written : t.written = d.written
  openWrites : t.openWrites = d.openWrites
  isOpen : t.socketOpen = true → d.socketOpen = true

theorem Unwriting.refl (d : ConnectedClient) : Unwriting d d := ⟨rfl, rfl, id⟩

theorem Unwriting.disconnect (d : ConnectedClient) : Unwriting d (disconnect d) := ⟨rfl, rfl, nofun⟩

theorem Unwriting.start {op : Operation} (h : Unwriting d t) (hop : op.isRead = true) :
    Unwriting d (start op t) := by
  refine ⟨h.written, ?_, h.isOpen⟩
  rw [ConnectedClient.openWrites, ConnectedClient.start, List.countP_append, List.countP_singleton,
    Operation.isWrite, hop]
  exact h.openWrites

theorem Unwriting.signal (sig : Signal) (d : ConnectedClient) : Unwriting d (signal sig d) :=
  ⟨rfl, rfl, id⟩

variable [Host]

theorem runHandler_unwriting (op : Operation) (result : Completion) (d : ConnectedClient) :
    Unwriting d (runHandler op result d) := by
  unfold runHandler
  split
  · cases op with
    | write buffer =>
      cases result with
      | ok bytes => exact .refl d
      | error error => exact .disconnect d
    | readBody size =>
      cases result with
      | ok body => exact (Unwriting.signal _ d).start rfl
      | error error => exact .disconnect d
    | readHeader =>
      cases result with
      | error error => exact .disconnect d
      | ok bytes =>
        simp only [receiveHeaderHandler]
        split
        · exact (Unwriting.refl d).start rfl
        · split
          · exact .disconnect d
          · exact ⟨rfl, rfl, id⟩
  · exact .refl d

structure WriteStep (d : ConnectedClient) (input : Input) (t : ConnectedClient) : Prop where
  written : t.written = d.written ∨ ∃ b, Marked layerId 0 b ∧ t.written = d.written ++ [b]
  fits : (writeFate d input).fits d.openWrites
  underWay : t.openWrites + d.written.length = (writeFate d input).left d.openWrites + t.written.length
  isOpen : t.socketOpen = true → d.socketOpen = true

omit [Host] in
theorem WriteStep.unwriting (hfate : writeFate d input = .goesOn) (h : Unwriting d t) :
    WriteStep d input t where
  written := .inl h.written
  fits := hfate ▸ trivial
  underWay := by
    rw [hfate, h.openWrites, h.written]
    rfl
  isOpen := h.isOpen

theorem sendPacket_writes {α : Type} [BasicMessageLayer α] {m : α} {bs : List Byte}
    (hfate : writeFate d input = .goesOn) (h : Serializes m bs) :
    WriteStep d input (sendPacket ⟨m⟩ d) := by
  have hwritten : (sendPacket ⟨m⟩ d).written = d.written ++ [SegmentationLayer.packet bs] := by
    change d.written ++ [serializedBuffer (SegmentationLayer.mk m)] = _
    rw [(SegmentationLayer.serializes h).buffer_eq]
  refine ⟨.inr ⟨_, packet_marked bs, hwritten⟩, hfate ▸ trivial, ?_, id⟩
  rw [hfate, hwritten, List.length_append, Nat.add_comm d.written.length, ← Nat.add_assoc]
  exact congrArg (· + _) List.countP_append

theorem step_writes (h : step d input = some t) : WriteStep d input t := by
  unfold step at h
  split at h
  · cases h
  · cases input with
    | completed i result =>
      dsimp only at h
      split at h
      · cases h
      next op hop =>
        split at h
        · cases h
          have hruns := runHandler_unwriting op result (taken i op result d)
          refine ⟨.inl hruns.written, fateOf_fits hop _, ?_, hruns.isOpen⟩
          rw [hruns.openWrites, hruns.written]
          exact congrArg (· + _) (fateOf_left hop _).symm
        · cases h
    | sendPacket packet =>
      dsimp only at h
      split at h
      · cases h
        exact sendPacket_writes rfl packet.innerLayer.serializes
      · cases h
    | sendUserMessage packet =>
      dsimp only at h
      split at h
      · cases h
        exact sendPacket_writes rfl packet.innerLayer.serializes
      · cases h
    | shutdown =>
      dsimp only at h
      split at h
      · cases h
        exact .unwriting rfl ⟨rfl, rfl, nofun⟩
      · cases h
    | dropped =>
      cases h
      refine .unwriting rfl ⟨rfl, rfl, ?_⟩
      intro ho
      cases (Bool.and_eq_true_iff.mp ho).2

def sender (connectionId : ℤ) : Sender ConnectedClient Input Byte where
  init := makeInstance connectionId
  step := step
  written d := d.written
  isOpen := socketOpen
  underWay := openWrites
  fate d input _ := writeFate d input
  first := layerId
  fourth := 0
  first_ne := by decide
  Invariant _ := True
  init_written := rfl
  init_underWay := rfl
  init_invariant := trivial
  step_invariant _ _ := trivial
  step_written _ h := (step_writes h).written
  step_underWay _ h := ⟨(step_writes h).fits, (step_writes h).underWay⟩
  step_isOpen _ h ho := .inl ((step_writes h).isOpen ho)

end ConnectedClient

namespace Client

structure SocketLog where
  closed : ℕ
  writes : List (List Byte)

/-- Of the writes those that are started when the socket has been closed `n` times. -/
def SocketLog.next (n : ℕ) (l : SocketLog) : Effect → SocketLog
  | .close => { l with closed := l.closed + 1 }
  | .start _ (.write buffer) => if l.closed = n then { l with writes := l.writes ++ [buffer] } else l
  | _ => l

def socket (n : ℕ) (c : ClientNode) : SocketLog := c.effects.foldl (SocketLog.next n) ⟨0, []⟩

def Op.sending (op : Op) : Bool := op.kind.isWrite && op.outcome.isNone

def sending (c : ClientNode) : ℕ := c.pending.countP Op.sending

def openWrites (n : ℕ) (c : ClientNode) : ℕ := if (socket n c).closed = n then sending c else 0

def writeFate (n : ℕ) (c : ClientNode) (input : Input) (t : ClientNode) : Fate :=
  if (socket n t).closed = (socket n c).closed then
    match input with
    | .complete i outcome =>
      if (socket n c).closed = n then fateOf Op.sending c.pending i outcome.error.isNone else .goesOn
    | _ => .goesOn
  else .aborted

section
variable {n : ℕ} {c t : ClientNode}

theorem socket_emit (n : ℕ) (effect : Effect) (c : ClientNode) :
    socket n (emit effect c) = (socket n c).next n effect := by
  rw [socket, emit, List.foldl_append]
  rfl

theorem sending_abort (op : Op) : op.abort.sending = false := by
  obtain ⟨attempt, kind, o⟩ := op
  cases kind <;> cases o <;> rfl

theorem sending_closeSocket (c : ClientNode) : sending (closeSocket c) = 0 := by
  rw [sending, closeSocket, emit_pending, List.countP_map, List.countP_eq_zero]
  intro op _
  rw [Function.comp_apply, sending_abort]
  exact Bool.false_ne_true

structure Spares (n : ℕ) (c t : ClientNode) : Prop where
  writes : (socket n t).writes = (socket n c).writes
  sending : (socket n t).closed = (socket n c).closed ∧ sending t = sending c ∨
    (socket n c).closed < (socket n t).closed ∧ sending t = 0

theorem Spares.of_eq (hs : socket n t = socket n c) (hp : t.pending = c.pending) : Spares n c t :=
  ⟨by rw [hs], .inl ⟨by rw [hs], by rw [Client.sending, hp, Client.sending]⟩⟩

theorem Spares.trans {r : ClientNode} (h : Spares n c t) (k : Spares n t r) : Spares n c r := by
  refine ⟨k.writes.trans h.writes, ?_⟩
  obtain ⟨hk, hsame⟩ | ⟨hk, hnone⟩ := k.sending
  · rw [hk, hsame]
    exact h.sending
  · refine .inr ⟨?_, hnone⟩
    obtain ⟨hh, -⟩ | ⟨hh, -⟩ := h.sending <;> omega

theorem Spares.emit {effect : Effect} (h : Spares n c t)
    (hnone : (socket n t).next n effect = socket n t) : Spares n c (emit effect t) :=
  h.trans (.of_eq ((socket_emit n effect t).trans hnone) rfl)

theorem Spares.transit (h : Spares n c t) (state : MachineState) : Spares n c (transit state t) :=
  (h.trans (t := t) (r := { t with state := state }) ⟨rfl, .inl ⟨rfl, rfl⟩⟩).emit rfl

theorem Spares.report (h : Spares n c t) (newstate : ConnectState) (reason : StatechangeReason)
    (msg : String) : Spares n c (report newstate reason msg t) := h.emit rfl

theorem Spares.closeSocket (h : Spares n c t) : Spares n c (closeSocket t) := by
  have hsocket : socket n (Client.closeSocket t) = (socket n t).next n .close := socket_emit n _ _
  refine h.trans ⟨?_, .inr ⟨?_, sending_closeSocket t⟩⟩
  · rw [hsocket]
    rfl
  · rw [hsocket]
    exact Nat.lt_succ_self _

theorem Spares.start {kind : OpKind} (h : Spares n c t) (attempt : ℕ)
    (hkind : ∀ buffer, kind ≠ .write buffer) : Spares n c (start attempt kind t) := by
  have hsame : (socket n t).next n (.start attempt kind) = socket n t := by
    cases kind with
    | write buffer => exact absurd rfl (hkind buffer)
    | _ => rfl
  have hsocket : socket n (Client.start attempt kind t) = socket n t :=
    (socket_emit n _ { t with pending := t.pending ++ [⟨attempt, kind, none⟩] }).trans hsame
  refine h.trans ⟨by rw [hsocket], .inl ⟨by rw [hsocket], ?_⟩⟩
  rw [Client.sending, start_pending, List.countP_append]
  cases kind with
  | write buffer => exact absurd rfl (hkind buffer)
  | _ => rfl

theorem Spares.enterWaiting (h : Spares n c t) : Spares n c (enterWaiting t) :=
  (h.transit .waiting).closeSocket

theorem Spares.leave (h : Spares n c t) (reason : StatechangeReason) (msg : String) :
    Spares n c (Client.enterWaiting (Client.report .disconnected reason msg t)) :=
  (h.report _ _ _).enterWaiting

theorem Spares.connectReport (h : Spares n c t) (success : Bool) (message : String) :
    Spares n c (StateNegotiating.reactConnectReport success message t) := by
  cases success with
  | true => exact (h.report _ _ _).transit _
  | false => exact h.leave _ _

theorem Spares.connectRequest (h : Spares n c t) (host service : List Char) (thread : ThreadStart) :
    Spares n c (StateWaiting.reactConnectRequest host service thread t) := by
  have hnext : Spares n c (Client.transit .negotiating (Client.start (t.attempt + 1)
      (.resolve host service) { t with attempt := t.attempt + 1 })) := by
    apply Spares.transit
    exact (h.trans (r := { t with attempt := t.attempt + 1 }) ⟨rfl, .inl ⟨rfl, rfl⟩⟩).start _ (by simp)
  unfold StateWaiting.reactConnectRequest
  cases thread.errmsg with
  | none => exact hnext
  | some errmsg => exact hnext.connectReport false errmsg

variable [Host]

theorem Spares.rcvdMessage (h : Spares n c t) (data : SegmentationLayer SerializedData) :
    Spares n c (StateConnected.reactRcvdMessage data t) := by
  unfold StateConnected.reactRcvdMessage
  dsimp only
  split
  · exact h.trans ⟨rfl, .inl ⟨rfl, rfl⟩⟩
  · split
    · split
      · exact h.emit rfl
      · exact h
    · exact h

theorem Spares.processEvent {evt : Event} (h : Spares n c t) (hevt : ∀ data, evt ≠ .sendMsg data) :
    Spares n c (processEvent evt t) := by
  unfold Client.processEvent
  split
  next => exact h.connectRequest _ _ _
  next data _ => exact absurd rfl (hevt data)
  next => exact h.connectReport _ _
  next => exact h.leave _ _
  next data _ => exact absurd rfl (hevt data)
  next => exact h.report _ _ _
  next => exact h.leave _ _
  next data _ => exact absurd rfl (hevt data)
  next => exact h.leave _ _
  next => exact h.rcvdMessage _
  next => exact h.report _ _ _
  next => exact h

theorem keeps_spares : Keeps (Spares n c) where
  processEvent _ _ hevt h := h.processEvent hevt
  start attempt _ _ hkind h := h.start attempt hkind
  closeSocket _ h := h.closeSocket
  resolved _ _ _ h := h.emit rfl
  handedUp _ _ h := h.emit rfl

structure Writing (n : ℕ) (c : ClientNode) : Prop where
  unused : (socket n c).closed < n → (socket n c).writes = []

structure WriteStep (n : ℕ) (c : ClientNode) (input : Input) (t : ClientNode) : Prop where
  closed : (socket n c).closed ≤ (socket n t).closed
  written : (socket n t).writes = (socket n c).writes ∨
    ∃ b, Marked layerId 0 b ∧ (socket n t).writes = (socket n c).writes ++ [b]
  fits : (writeFate n c input t).fits (openWrites n c)
  underWay : openWrites n t + (socket n c).writes.length =
    (writeFate n c input t).left (openWrites n c) + (socket n t).writes.length

omit [Host] in
theorem openWrites_of_closed_ne (h : (socket n c).closed ≠ n) : openWrites n c = 0 := if_neg h

omit [Host] in
theorem writeFate_goesOn {input : Input} (hclosed : (socket n t).closed = (socket n c).closed)
    (hinput : ∀ i outcome, input ≠ .complete i outcome) : writeFate n c input t = .goesOn := by
  unfold writeFate
  rw [if_pos hclosed]
  cases input with
  | complete i outcome => exact absurd rfl (hinput i outcome)
  | _ => rfl

omit [Host] in
theorem Spares.writeStep {input : Input} (h : Spares n c t)
    (hinput : ∀ i outcome, input ≠ .complete i outcome) : WriteStep n c input t := by
  obtain ⟨hclosed, hsending⟩ | ⟨hclosed, hnone⟩ := h.sending
  · have hfate : writeFate n c input t = .goesOn := by
      unfold writeFate
      rw [if_pos hclosed]
      cases input with
      | complete i outcome => exact absurd rfl (hinput i outcome)
      | _ => rfl
    refine ⟨hclosed.ge, .inl h.writes, hfate ▸ trivial, ?_⟩
    rw [hfate, h.writes, openWrites, hclosed, hsending]
    rfl
  · have hfate : writeFate n c input t = .aborted := if_neg hclosed.ne'
    have hzero : openWrites n t = 0 := by
      rw [openWrites, hnone, ite_self]
    refine ⟨hclosed.le, .inl h.writes, hfate ▸ trivial, ?_⟩
    rw [hfate, hzero, h.writes]
    rfl

theorem sendMsg_writeStep {input : Input} (data : NearUserMessage)
    (hinput : ∀ i outcome, input ≠ .complete i outcome) :
    WriteStep n c input (processEvent (.sendMsg data) c) := by
  have hspared : Spares n c c := ⟨rfl, .inl ⟨rfl, rfl⟩⟩
  unfold processEvent
  cases hs : c.state with
  | waiting => exact (hspared.emit rfl).writeStep hinput
  | negotiating => exact (hspared.emit rfl).writeStep hinput
  | connected =>
    have hbuffer := (SegmentationLayer.serializes data.serializes).buffer_eq
    dsimp only
    rw [StateConnected.reactSendMsg, hbuffer]
    have hsocket : socket n (start c.attempt (.write (SegmentationLayer.packet data.bytes)) c) =
        (socket n c).next n (.start c.attempt (.write (SegmentationLayer.packet data.bytes))) :=
      socket_emit n _ _
    have hsending : sending (start c.attempt (.write (SegmentationLayer.packet data.bytes)) c) =
        sending c + 1 := List.countP_append
    generalize start c.attempt (.write (SegmentationLayer.packet data.bytes)) c = t at *
    dsimp only [SocketLog.next] at hsocket
    have hclosed : (socket n t).closed = (socket n c).closed := by
      rw [hsocket]
      split <;> rfl
    have hfate : writeFate n c input t = .goesOn := writeFate_goesOn hclosed hinput
    by_cases hn : (socket n c).closed = n
    · rw [if_pos hn] at hsocket
      have hwritten : (socket n t).writes =
          (socket n c).writes ++ [SegmentationLayer.packet data.bytes] := by rw [hsocket]
      refine ⟨hclosed.ge, .inr ⟨_, packet_marked _, hwritten⟩, hfate ▸ trivial, ?_⟩
      rw [openWrites, hclosed, if_pos hn, hsending, hfate, openWrites, if_pos hn, hwritten,
        List.length_append, Nat.add_assoc, Nat.add_comm 1]
      rfl
    · rw [if_neg hn] at hsocket
      refine ⟨hclosed.ge, .inl (by rw [hsocket]), hfate ▸ trivial, ?_⟩
      rw [openWrites_of_closed_ne (hclosed ▸ hn), openWrites_of_closed_ne hn, hfate, hsocket]
      rfl

omit [Host] in
theorem complete_writeStep {i : ℕ} {outcome : Outcome} {op : Op}
    (hop : c.pending[i]? = some op) : WriteStep n c (.complete i outcome)
      { c with pending := c.pending.set i { op with outcome := some outcome } } := by
  have hcount : (c.pending.set i { op with outcome := some outcome }).countP Op.sending =
      (c.pending.eraseIdx i).countP Op.sending :=
    Outstanding.countP_set_of_not hop (by rw [Op.sending, Option.isNone_some, Bool.and_false])
  by_cases hn : (socket n c).closed = n
  · have hopen : openWrites n c = c.pending.countP Op.sending := if_pos hn
    have hfate : writeFate n c (.complete i outcome)
        { c with pending := c.pending.set i { op with outcome := some outcome } } =
          fateOf Op.sending c.pending i outcome.error.isNone := (if_pos rfl).trans (if_pos hn)
    refine ⟨le_rfl, .inl rfl, ?_, ?_⟩
    · rw [hfate, hopen]
      exact fateOf_fits hop _
    · rw [hfate, hopen, fateOf_left hop, ← hcount]
      exact congrArg (· + _) (if_pos hn)
  · have hfate : writeFate n c (.complete i outcome)
        { c with pending := c.pending.set i { op with outcome := some outcome } } = .goesOn :=
      (if_pos rfl).trans (if_neg hn)
    refine ⟨le_rfl, .inl rfl, hfate ▸ trivial, ?_⟩
    rw [hfate, openWrites_of_closed_ne hn]
    exact congrArg (· + _) (if_neg hn)

theorem step_writes {input : Input} (h : step c input = some t) : WriteStep n c input t := by
  have hspared : Spares n c c := ⟨rfl, .inl ⟨rfl, rfl⟩⟩
  cases (steps_of_step h).2 with
  | connectTo dest thread =>
    refine Spares.writeStep ?_ nofun
    unfold connectTo
    split
    · exact hspared.processEvent nofun
    · exact hspared.emit rfl
  | disconnect =>
    have hdone : Spares n c (processEvent .disconnectRequest c) := hspared.processEvent nofun
    exact hdone.writeStep nofun
  | sendUserMessage msg recipient =>
    have hsends : WriteStep n { c with lastMsgId := getNextMessageId c }
      (.sendUserMessage msg recipient) (sendUserMessage msg recipient c) := sendMsg_writeStep _ nofun
    exact ⟨hsends.closed, hsends.written, hsends.fits, hsends.underWay⟩
  | complete i outcome op hop => exact complete_writeStep hop
  | handler i op outcome hop hsome =>
    have hcount := Outstanding.countP_eraseIdx Op.sending hop
    rw [Op.sending, hsome, Option.isNone_some, Bool.and_false, if_neg Bool.false_ne_true] at hcount
    have htaken : Spares n c { c with pending := c.pending.eraseIdx i } :=
      ⟨rfl, .inl ⟨rfl, hcount⟩⟩
    exact (keeps_spares.runHandler (fun _ _ _ _ h => h.emit rfl) op outcome htaken).writeStep nofun

theorem Writing.step {input : Input} (hc : Writing n c) (h : Client.step c input = some t) :
    Writing n t := by
  have hstep := step_writes (n := n) h
  refine ⟨fun hlt => ?_⟩
  have hold : (socket n c).closed < n := Nat.lt_of_le_of_lt hstep.closed hlt
  have hcount := hstep.underWay
  rw [openWrites_of_closed_ne hlt.ne, hc.unused hold, List.length_nil] at hcount
  exact List.length_eq_zero_iff.mp (by omega)

/-- The connection on the socket once it has been closed `n` times, until it is closed again. -/
def sender (n : ℕ) : Sender ClientNode Input Byte where
  init := init
  step := step
  written c := (socket n c).writes
  isOpen c := (socket n c).closed = n
  underWay := openWrites n
  fate := writeFate n
  first := layerId
  fourth := 0
  first_ne := by decide
  Invariant := Writing n
  init_written := rfl
  init_underWay := by
    rw [openWrites]
    exact ite_self _
  init_invariant := ⟨fun _ => rfl⟩
  step_invariant hc h := hc.step h
  step_written _ h := (step_writes h).written
  step_underWay _ h := ⟨(step_writes h).fits, (step_writes h).underWay⟩
  step_isOpen hc h ho := by
    have hle := (step_writes (n := n) h).closed
    rw [decide_eq_true_eq] at ho ⊢
    obtain heq | hlt := Nat.eq_or_lt_of_le hle
    · exact .inl (heq.trans ho)
    · rw [ho] at hlt
      exact .inr (hc.unused hlt)

end

end Client

section
variable [HandlerCopies] [Host]

/-- For each of the senders: as long as no write of the connection has failed, its stream consists of
whole packets in every state of a run, whatever the partial writes are, just if no packet is handed
over while an earlier one has bytes left to write. -/
theorem packetsWhole_iff :
    (∀ p es, (Server.peerSender p).StaysWhole es ↔ (Server.peerSender p).Waits es) ∧
    (∀ n es, (Client.sender n).StaysWhole es ↔ (Client.sender n).Waits es) ∧
    ∀ id es, (ConnectedClient.sender id).StaysWhole es ↔ (ConnectedClient.sender id).Waits es :=
  ⟨fun p es => (Server.peerSender p).staysWhole_iff es, fun n es => (Client.sender n).staysWhole_iff es,
    fun id es => (ConnectedClient.sender id).staysWhole_iff es⟩

end

def slowBroadcast : List (ComposedWrites.Input Server.Input) :=
  [.act (.accepted none), .act (.completed 0 0 (.ok [0x80, 5, 0, 0])),
    .act (.completed 0 0 (.ok [0x41])), .transfer 0 1,
    .act (.completed 0 1 (.ok [0x80, 5, 0, 0])), .act (.completed 0 1 (.ok [0x42])), .transfer 1 1]

theorem slowBroadcast_spoils : ∃ c, Runs.exec (@Server.peerSender bindCopies littleEndianHost 0).system
    (@Server.peerSender bindCopies littleEndianHost 0).start slowBroadcast = some c ∧
      c.wire.failed = false ∧ Server.peerOpen 0 c.sender = true ∧ c.wire.sent = [0x80, 0x80] ∧
      ¬ c.wire.Whole := by
  refine ⟨_, rfl, rfl, rfl, rfl, ?_⟩
  intro h
  obtain ⟨tail, htail⟩ := ComposedWrites.Wire.prefix_of_whole h
  cases htail

end NukeMs
