import NukeMs.ClientNode
import NukeMs.ConnectedClient
import NukeMs.PeerLifecycle

namespace NukeMs

open SegmentationLayerBase Framing

def Operation.wanted : Operation → Option ℕ
  | .readHeader => some headerLength
  | .readBody size => some size
  | .write _ => none

theorem implements_receiverFormat [Host] {σ : Type} {R : Reader σ Byte} {oversized : Exn}
    {caught : Exn → Bool} {faulty : List Byte → Bool} {atHeader : List (List Byte) → σ → Prop}
    {atBody : List (List Byte) → ℕ → σ → Prop} {ended : List (List Byte) → Ending → σ → Prop}
    (header_wanted : ∀ {ps s}, atHeader ps s → R.wanted s = some headerLength)
    (header_admitted : ∀ {ps s hdr body}, atHeader ps s → hdr.length = headerLength →
      admitHeader oversized hdr = .ok body → atBody ps body.length (R.filled s hdr))
    (header_refused : ∀ {ps s hdr e}, atHeader ps s → hdr.length = headerLength →
      admitHeader oversized hdr = .error e →
        ended ps (if caught e then .rejected else .faulted) (R.filled s hdr))
    (header_cut : ∀ {ps s}, atHeader ps s → ended ps .cut (R.endOfFile s))
    (body_wanted : ∀ {ps n s}, atBody ps n s → R.wanted s = some n)
    (body_filled : ∀ {ps s body}, atBody ps body.length s → faulty body = false →
      atHeader (ps ++ [body]) (R.filled s body))
    (body_fault : ∀ {ps s body}, atBody ps body.length s → faulty body = true →
      ended ps .faulted (R.filled s body))
    (body_cut : ∀ {ps n s}, atBody ps n s → ended ps .cut (R.endOfFile s))
    (ended_wanted : ∀ {ps e s}, ended ps e s → R.wanted s = none) :
    Implements R (receiverFormat oversized caught faulty) atHeader atBody ended where
  header_wanted := header_wanted
  header_body {ps s hdr n} h hlen hv := by
    simp only [receiverFormat] at hv
    split at hv
    next body hadm =>
      cases hv
      exact header_admitted h hlen hadm
    next => split at hv <;> cases hv
  header_reject {ps s hdr} h hlen hv := by
    simp only [receiverFormat] at hv
    split at hv
    · cases hv
    next e hadm =>
      split at hv
      next hcaught =>
        have hended := header_refused h hlen hadm
        rwa [if_pos hcaught] at hended
      next => cases hv
  header_fault {ps s hdr} h hlen hv := by
    simp only [receiverFormat] at hv
    split at hv
    · cases hv
    next e hadm =>
      split at hv
      next => cases hv
      next hcaught =>
        have hended := header_refused h hlen hadm
        rwa [if_neg hcaught] at hended
  header_cut := header_cut
  body_wanted := body_wanted
  body_filled := body_filled
  body_fault := body_fault
  body_cut := body_cut
  ended_wanted := ended_wanted

def Signal.payload : Signal → Option (List Byte)
  | .receivedMessage _ data => some data.bytes
  | .disconnected _ => none

namespace ConnectedClient

def payloads (d : ConnectedClient) : List (List Byte) := d.signals.filterMap Signal.payload

structure Waiting (d₀ : ConnectedClient) (op : Operation) (ps : List (List Byte))
    (d : ConnectedClient) : Prop where
  escaped : d.escaped = none
  owned : d.owned = true
  pending : d.pending = [op]
  payloads : d.payloads = d₀.payloads ++ ps

structure TornDown (d₀ : ConnectedClient) (ps : List (List Byte)) (d : ConnectedClient) : Prop where
  escaped : d.escaped = none
  pending : d.pending = []
  isShutdown : d.isShutdown = true
  disconnected : d.signals.getLast? = some (.disconnected d.connectionId)
  payloads : d.payloads = d₀.payloads ++ ps

section
variable {d₀ d : ConnectedClient} {op : Operation} {ps : List (List Byte)} {result : Completion}

theorem payloads_signal (sig : Signal) (d : ConnectedClient) :
    (signal sig d).payloads = d.payloads ++ sig.payload.toList := by
  unfold payloads signal
  rw [List.filterMap_append]
  cases sig <;> rfl

theorem payloads_disconnect (d : ConnectedClient) : (disconnect d).payloads = d.payloads := by
  rw [disconnect, payloads_signal]
  exact List.append_nil _

theorem Waiting.start (next : Operation) (h : Waiting d₀ op ps d) :
    Waiting d₀ next ps (start next (taken 0 op result d)) where
  escaped := h.escaped
  owned := h.owned
  pending := by
    change d.pending.eraseIdx 0 ++ [next] = [next]
    rw [h.pending]
    rfl
  payloads := h.payloads

theorem Waiting.disconnect (h : Waiting d₀ op ps d) :
    TornDown d₀ ps (disconnect (taken 0 op result d)) where
  escaped := h.escaped
  pending := by
    change d.pending.eraseIdx 0 = []
    rw [h.pending]
    rfl
  isShutdown := rfl
  disconnected := List.getLast?_concat
  payloads := (payloads_disconnect _).trans h.payloads

end

section
variable [Host]

def complete (result : Completion) (d : ConnectedClient) : ConnectedClient :=
  (step d (.completed 0 result)).getD d

def receiveLoop : Reader ConnectedClient Byte where
  wanted d :=
    if d.escaped = none then
      match d.pending with
      | [op] => op.wanted
      | _ => none
    else none
  filled d bytes := complete (.ok bytes) d
  endOfFile d := complete (.error endOfFile) d

variable {d₀ d : ConnectedClient} {op : Operation} {ps : List (List Byte)}

theorem Waiting.wanted (h : Waiting d₀ op ps d) : receiveLoop.wanted d = op.wanted := by
  simp only [receiveLoop, h.escaped, h.pending, if_true]

theorem Waiting.complete {result : Completion} (h : Waiting d₀ op ps d)
    (hadm : op.admits result = true) : complete result d = match op with
      | .readHeader => receiveHeaderHandler result (taken 0 op result d)
      | .readBody _ => receiveBodyHandler result (taken 0 op result d)
      | .write _ => sendHandler result (taken 0 op result d) := by
  have howned : (taken 0 op result d).owned = true := h.owned
  unfold ConnectedClient.complete step
  rw [h.escaped, h.pending]
  simp only [Option.isSome_none, Bool.false_eq_true, if_false, List.getElem?_cons_zero, hadm,
    if_true, Option.getD_some, runHandler, howned]
  cases op <;> rfl

theorem Waiting.cut (h : Waiting d₀ op ps d) (hread : op.isRead = true) :
    TornDown d₀ ps (receiveLoop.endOfFile d) := by
  change TornDown d₀ ps (ConnectedClient.complete (.error endOfFile) d)
  rw [h.complete rfl]
  cases op with
  | readHeader => exact h.disconnect
  | readBody size => exact h.disconnect
  | write buffer => cases hread

theorem Waiting.body {body : List Byte} (h : Waiting d₀ (.readBody body.length) ps d) :
    Waiting d₀ .readHeader (ps ++ [body]) (receiveLoop.filled d body) := by
  change Waiting d₀ .readHeader (ps ++ [body]) (ConnectedClient.complete (.ok body) d)
  rw [h.complete (by simp [Operation.admits])]
  refine ⟨h.escaped, h.owned, ?_, ?_⟩
  · change d.pending.eraseIdx 0 ++ [.readHeader] = [.readHeader]
    rw [h.pending]
    rfl
  · change (signal (.receivedMessage d.connectionId (SerializedData.ofBlock body))
      (taken 0 (.readBody body.length) (.ok body) d)).payloads = _
    rw [payloads_signal, Signal.payload, SerializedData.bytes_ofBlock, ← List.append_assoc]
    exact congrArg (· ++ [body]) h.payloads

theorem Waiting.header {hdr : List Byte} (h : Waiting d₀ .readHeader ps d)
    (hlen : hdr.length = headerLength) :
    receiveLoop.filled d hdr = match admitHeader (.msgLayerError "Oversized packet.") hdr with
      | .ok body => ConnectedClient.start (.readBody body.length) (taken 0 .readHeader (.ok hdr) d)
      | .error e =>
        if e.isMsgLayerError then ConnectedClient.disconnect (taken 0 .readHeader (.ok hdr) d)
        else { taken 0 .readHeader (.ok hdr) d with escaped := some e } := by
  change ConnectedClient.complete (.ok hdr) d = _
  rw [h.complete (by simp [Operation.admits, hlen])]
  rfl

def Ended (d₀ : ConnectedClient) (ps : List (List Byte)) : Ending → ConnectedClient → Prop
  | .faulted, d => d.escaped ≠ none
  | _, d => TornDown d₀ ps d

theorem Ended.wanted {e : Ending} (h : Ended d₀ ps e d) : receiveLoop.wanted d = none := by
  have hdown (h : TornDown d₀ ps d) : receiveLoop.wanted d = none := by
    simp only [receiveLoop, h.pending, ite_self]
  cases e with
  | faulted => exact if_neg h
  | cut => exact hdown h
  | rejected => exact hdown h

theorem receiveLoop_implements (d₀ : ConnectedClient) : Implements receiveLoop connectedClientFormat
    (Waiting d₀ .readHeader) (fun ps n => Waiting d₀ (.readBody n) ps) (Ended d₀) := by
  refine implements_receiverFormat Waiting.wanted ?_ ?_
    (fun h => h.cut rfl) Waiting.wanted (fun h _ => h.body) nofun (fun h => h.cut rfl) Ended.wanted
  · intro ps d hdr body h hlen hadm
    rw [h.header hlen, hadm]
    exact h.start _
  · intro ps d hdr e h hlen hadm
    rw [h.header hlen, hadm]
    dsimp only
    split
    · exact h.disconnect
    · exact Option.some_ne_none _

end

end ConnectedClient

namespace Client

def OpKind.wanted : OpKind → Option ℕ
  | .readHeader => some headerLength
  | .readBody size => some size
  | _ => none

def Effect.payload : Effect → Option (List Byte)
  | .handedUp payload => some payload
  | _ => none

def payloads (c : ClientNode) : List (List Byte) := c.effects.filterMap Effect.payload

structure Waiting (c₀ : ClientNode) (kind : OpKind) (ps : List (List Byte)) (c : ClientNode) :
    Prop where
  faulted : c.faulted = false
  state : c.state = .connected
  pending : ∃ attempt, c.pending = [⟨attempt, kind, none⟩]
  payloads : payloads c = payloads c₀ ++ ps

structure TornDown (c₀ : ClientNode) (ps : List (List Byte)) (c : ClientNode) : Prop where
  faulted : c.faulted = false
  state : c.state = .waiting
  pending : c.pending = []
  disconnected : ∃ effects msg, c.effects =
    effects ++ [.connectStatReport ⟨.disconnected, .socketClosed, msg⟩, .transit .waiting, .close]
  payloads : payloads c = payloads c₀ ++ ps

section
variable {c₀ c : ClientNode} {kind : OpKind} {ps : List (List Byte)}

theorem payloads_emit (effect : Effect) (c : ClientNode) :
    payloads (emit effect c) = payloads c ++ effect.payload.toList := by
  unfold payloads emit
  rw [List.filterMap_append]
  cases effect <;> rfl

theorem payloads_silent {effect : Effect} (h : effect.payload = none) (c : ClientNode) :
    payloads (emit effect c) = payloads c := by
  rw [payloads_emit, h]
  exact List.append_nil _

theorem payloads_disconnected (msg : String) (c : ClientNode) :
    payloads (StateConnected.reactDisconnected msg c) = payloads c := by
  unfold payloads
  change (c.effects ++ [_] ++ [_] ++ [_]).filterMap Effect.payload = _
  simp [Effect.payload]

end

section
variable [Host]

def complete (outcome : Outcome) (c : ClientNode) : ClientNode :=
  ((step c (.complete 0 outcome)).bind fun c => step c (.handler 0)).getD c

def receiveLoop : Reader ClientNode Byte where
  wanted c :=
    if c.faulted then none
    else match c.pending with
      | [op] => op.kind.wanted
      | _ => none
  filled c bytes := complete ⟨none, [], bytes⟩ c
  endOfFile c := complete ⟨some endOfFile, [], []⟩ c

variable {c₀ c : ClientNode} {kind : OpKind} {ps : List (List Byte)}

def idle (c : ClientNode) : ClientNode := { c with pending := [] }

theorem Waiting.wanted (h : Waiting c₀ kind ps c) : receiveLoop.wanted c = kind.wanted := by
  obtain ⟨attempt, hp⟩ := h.pending
  simp only [receiveLoop, h.faulted, hp, Bool.false_eq_true, if_false]

theorem Waiting.complete {outcome : Outcome} (h : Waiting c₀ kind ps c)
    (hadm : kind.admits outcome = true) : ∃ attempt o,
      complete outcome c = runHandler ⟨attempt, kind, o⟩ outcome (idle c) := by
  obtain ⟨attempt, hp⟩ := h.pending
  refine ⟨attempt, some outcome, ?_⟩
  unfold Client.complete step
  simp [h.faulted, hp, hadm, idle]

theorem Waiting.disconnect (h : Waiting c₀ kind ps c) (msg : String) :
    TornDown c₀ ps (processEvent (.disconnected msg) (idle c)) := by
  have hstate : (idle c).state = .connected := h.state
  unfold processEvent
  rw [hstate]
  refine ⟨h.faulted, rfl, rfl, ⟨c.effects, msg, ?_⟩, ?_⟩
  · change c.effects ++ [_] ++ [_] ++ [_] = _
    rw [List.append_assoc, List.append_assoc]
    rfl
  · rw [payloads_disconnected]
    exact h.payloads

theorem Waiting.cut (h : Waiting c₀ kind ps c) (hread : kind.wanted.isSome = true) :
    TornDown c₀ ps (receiveLoop.endOfFile c) := by
  have hadm : kind.admits ⟨some endOfFile, [], []⟩ = true := by
    cases kind <;> rfl
  obtain ⟨attempt, o, hc⟩ := h.complete hadm
  change TornDown c₀ ps (Client.complete _ c)
  rw [hc]
  cases kind with
  | readHeader => exact h.disconnect _
  | readBody size => exact h.disconnect _
  | resolve host service => cases hread
  | connect endpoint rest => cases hread
  | write buffer => cases hread

theorem Waiting.header {hdr : List Byte} (h : Waiting c₀ .readHeader ps c)
    (hlen : hdr.length = headerLength) : ∃ attempt, receiveLoop.filled c hdr =
      match admitHeader (.msgLayerError "Oversized packet.") hdr with
      | .ok body => start attempt (.readBody body.length) (idle c)
      | .error e => processEvent (.disconnected e.what) (idle c) := by
  have hadm : OpKind.readHeader.admits ⟨none, [], hdr⟩ = true := by simp [OpKind.admits, hlen]
  obtain ⟨attempt, o, hc⟩ := h.complete hadm
  exact ⟨attempt, hc⟩

theorem reactRcvdMessage_empty (c : ClientNode) :
    StateConnected.reactRcvdMessage ⟨SerializedData.ofBlock []⟩ c = { c with faulted := true } := rfl

theorem reactRcvdMessage_cons (b : Byte) (body : List Byte) (c : ClientNode) :
    let t := StateConnected.reactRcvdMessage ⟨SerializedData.ofBlock (b :: body)⟩ c
    t = c ∨ ∃ usermsg, t = emit (.rcvMessage usermsg) c := by
  dsimp only
  unfold StateConnected.reactRcvdMessage
  dsimp only [SerializedData.ofBlock, List.getElem?_cons_zero]
  split
  · split
    next usermsg _ => exact .inr ⟨usermsg, rfl⟩
    next => exact .inl rfl
  · exact .inl rfl

theorem Waiting.body {body : List Byte} (h : Waiting c₀ (.readBody body.length) ps c) :
    ∃ attempt t, t = StateConnected.reactRcvdMessage ⟨SerializedData.ofBlock body⟩
        (emit (.handedUp body) (idle c)) ∧
      receiveLoop.filled c body = if t.faulted then t else start attempt .readHeader t := by
  have hadm : (OpKind.readBody body.length).admits ⟨none, [], body⟩ = true := by
    simp [OpKind.admits]
  have hstate : (emit (.handedUp body) (idle c)).state = .connected := h.state
  obtain ⟨attempt, o, hc⟩ := h.complete hadm
  refine ⟨attempt, _, rfl, hc.trans ?_⟩
  simp only [runHandler, receiveSegmentationBodyHandler, processEvent, hstate]

def Torn (c₀ : ClientNode) (ps : List (List Byte)) : Ending → ClientNode → Prop
  | .faulted, c => c.faulted = true
  | _, c => TornDown c₀ ps c

theorem Torn.wanted {e : Ending} (h : Torn c₀ ps e c) : receiveLoop.wanted c = none := by
  have hdown (h : TornDown c₀ ps c) : receiveLoop.wanted c = none := by
    simp only [receiveLoop, h.pending, ite_self]
  cases e with
  | faulted => exact if_pos h
  | cut => exact hdown h
  | rejected => exact hdown h

theorem receiveLoop_implements (c₀ : ClientNode) : Implements receiveLoop clientFormat
    (Waiting c₀ .readHeader) (fun ps n => Waiting c₀ (.readBody n) ps) (Torn c₀) := by
  refine implements_receiverFormat Waiting.wanted (fun {ps c hdr body} h hlen hadm => ?_)
    (fun {ps c hdr e} h hlen hadm => ?_) (fun h => h.cut rfl) Waiting.wanted
    (fun {ps c body} h hf => ?_) (fun {ps c body} h hf => ?_) (fun h => h.cut rfl) Torn.wanted
  · obtain ⟨attempt, ht⟩ := h.header hlen
    rw [ht, hadm]
    refine ⟨h.faulted, h.state, ⟨attempt, rfl⟩, ?_⟩
    exact (payloads_silent rfl _).trans h.payloads
  · obtain ⟨attempt, ht⟩ := h.header hlen
    rw [ht, hadm]
    exact h.disconnect _
  · obtain ⟨attempt, t, ht, hfilled⟩ := h.body
    rw [hfilled]
    cases body with
    | nil => cases hf
    | cons b body =>
      have hhanded : payloads (emit (.handedUp (b :: body)) (idle c)) =
          payloads c₀ ++ (ps ++ [b :: body]) := by
        rw [payloads_emit, ← List.append_assoc]
        exact congrArg (· ++ [b :: body]) h.payloads
      have hcases := reactRcvdMessage_cons b body (emit (.handedUp (b :: body)) (idle c))
      dsimp only at hcases
      rw [← ht] at hcases
      have hkept : t.faulted = false ∧ t.state = .connected ∧ t.pending = [] ∧
          payloads t = payloads c₀ ++ (ps ++ [b :: body]) := by
        obtain ht | ⟨usermsg, ht⟩ := hcases
        · rw [ht]
          exact ⟨h.faulted, h.state, rfl, hhanded⟩
        · rw [ht]
          exact ⟨h.faulted, h.state, rfl, (payloads_silent rfl _).trans hhanded⟩
      obtain ⟨hfault, hstate, hpending, hpayloads⟩ := hkept
      rw [hfault, if_neg (by decide)]
      refine ⟨hfault, hstate, ⟨attempt, ?_⟩, (payloads_silent rfl _).trans hpayloads⟩
      change t.pending ++ [_] = _
      rw [hpending]
      rfl
  · obtain ⟨attempt, t, ht, hfilled⟩ := h.body
    rw [List.isEmpty_iff] at hf
    subst hf
    rw [reactRcvdMessage_empty] at ht
    subst ht
    exact hfilled ▸ rfl

end

end Client

namespace Server

/-- The state between two arrivals: no counter is off, and there is room for a packet to everybody. -/
structure Settled [HandlerCopies] (s : DispatchingServer) : Prop where
  wellFormed : WellFormed s
  status : s.status = .running
  lives : ∀ v, (s.peer v).Lives
  room : ∀ v, (s.peer v).pending.length ≤ mostPending

structure Waiting [HandlerCopies] (u : ℕ) (s₀ : DispatchingServer) (op : Operation)
    (ps : List (List Byte)) (s : DispatchingServer) : Prop where
  wellFormed : WellFormed s
  status : s.status = .running
  lives : ∀ v, (s.peer v).Lives
  room : ∀ v, (s.peer v).pending.length < mostPending
  errorHappened : (s.peer u).errorHappened = false
  pending : (s.peer u).pending = [op]
  payloads : handedUp s.trace = handedUp s₀.trace ++ ps.map (fun p => (u, p))

structure TornDown (u : ℕ) (s₀ : DispatchingServer) (ps : List (List Byte)) (s : DispatchingServer) :
    Prop where
  status : s.status = .running
  pending : (s.peer u).pending = []
  errorHappened : (s.peer u).errorHappened = true
  socketOpen : (s.peer u).socketOpen = false
  listed : ¬ IsListed u s
  payloads : handedUp s.trace = handedUp s₀.trace ++ ps.map (fun p => (u, p))

section
variable [HandlerCopies] {u : ℕ} {s₀ s : DispatchingServer} {op : Operation} {ps : List (List Byte)}

theorem Waiting.settled (h : Waiting u s₀ op ps s) : Settled s :=
  ⟨h.wellFormed, h.status, h.lives, fun v => (h.room v).le⟩

theorem Waiting.destroyed (h : Waiting u s₀ op ps s) : (s.peer u).destroyed = false :=
  (h.lives u).alive h.pending

theorem Waiting.getElem (h : Waiting u s₀ op ps s) : (s.peer u).pending[0]? = some op := by
  rw [h.pending]
  rfl

def Peer.written (p : Peer) : Peer :=
  match p.pending.findIdx? (fun op => !op.isRead) with
  | none => p
  | some i => p.handled i (.write []) (.ok []) .rest

theorem Peer.written_of_reads {p : Peer} (h : p.pending.all Operation.isRead = true) :
    p.written = p := by
  have hnone : p.pending.findIdx? (fun op => !op.isRead) = none := by
    rw [List.findIdx?_eq_none_iff]
    intro op hop
    rw [List.all_eq_true.mp h op hop]
    rfl
  rw [written, hnone]

variable [Host]

def complete (u : ℕ) (result : Completion) (s : DispatchingServer) : DispatchingServer :=
  (step s (.completed u 0 result)).getD s

def written (s : DispatchingServer) (v : ℕ) : DispatchingServer :=
  match (s.peer v).pending.findIdx? (fun op => !op.isRead) with
  | none => s
  | some i => (step s (.completed v i (.ok []))).getD s

/-- A packet is out on each connection before the next read completes. -/
def sent (s : DispatchingServer) : DispatchingServer := (List.range s.created).foldl written s

def receiveLoop (u : ℕ) : Reader DispatchingServer Byte where
  wanted s :=
    if s.status = .running ∧ (s.peer u).destroyed = false then
      match (s.peer u).pending with
      | [op] => op.wanted
      | _ => none
    else none
  filled s bytes := sent (complete u (.ok bytes) s)
  endOfFile s := complete u (.error endOfFile) s

structure Writes (v : ℕ) (s t : DispatchingServer) : Prop where
  settled : Settled t
  alone : Local v s t
  peer : t.peer v = (s.peer v).written

omit [Host] in
theorem handled_write {p : Peer} {i : ℕ} (buffer : List Byte) :
    p.handled i (.write buffer) (.ok []) .rest = p.handled i (.write []) (.ok []) .rest := rfl

theorem written_cases (hs : Settled s) (v : ℕ) :
    ((s.peer v).pending.all Operation.isRead = true ∧ written s v = s) ∨
      ∃ i buffer, (s.peer v).pending[i]? = some (.write buffer) ∧
        (s.peer v).destroyed = false ∧
        written s v = invoke (.write buffer) (.ok []) v
          (modify v (Peer.taken i (.write buffer) (.ok [])) s) ∧
        (s.peer v).written = (s.peer v).handled i (.write buffer) (.ok []) .rest := by
  cases hfind : (s.peer v).pending.findIdx? (fun op => !op.isRead) with
  | none =>
    refine .inl ⟨?_, by rw [written, hfind]⟩
    rw [List.all_eq_true]
    intro op hop
    simpa using List.findIdx?_eq_none_iff.mp hfind op hop
  | some i =>
    obtain ⟨hi, hop, -⟩ := List.findIdx?_eq_some_iff_getElem.mp hfind
    cases hget : (s.peer v).pending[i] with
    | write buffer =>
      have hsome : (s.peer v).pending[i]? = some (.write buffer) := by
        rw [List.getElem?_eq_getElem hi, hget]
      have hlive : (s.peer v).destroyed = false := by
        rw [← Bool.not_eq_true, (hs.lives v).pending]
        exact List.ne_nil_of_mem (List.mem_of_getElem? hsome)
      refine .inr ⟨i, buffer, hsome, hlive, ?_, ?_⟩
      · simp [written, hfind, step, hsome, hs.status, hlive, Operation.admits]
      · rw [Peer.written, hfind]
        exact handled_write buffer
    | readHeader => rw [hget] at hop; cases hop
    | readBody n => rw [hget] at hop; cases hop

theorem written_writes (hs : Settled s) (v : ℕ) : written s v = s ∧ (s.peer v).written = s.peer v ∨
    Writes v s (written s v) := by
  obtain ⟨hreads, hsame⟩ | ⟨i, buffer, hop, hlive, ht, hp⟩ := written_cases hs v
  · exact .inl ⟨hsame, Peer.written_of_reads hreads⟩
  · obtain ⟨hl, hpeer, hstatus⟩ := invoke_local i (.write buffer) (.ok []) hs.wellFormed hlive rfl
    have hr : reaction (.write buffer) (.ok []) = .rest := rfl
    have hlives := (hs.lives v).handled (.ok []) hlive hop (hs.room v) (by simp [hr])
    rw [← ht] at hl hpeer hstatus
    rw [hr] at hpeer hstatus hlives
    refine .inr ⟨⟨hl.wellFormed (hs.wellFormed.owns hlive) (hs.wellFormed.lt_created hlive)
      hs.wellFormed, hstatus.trans hs.status, ?_, ?_⟩, hl, hpeer.trans hp.symm⟩
    · intro w
      by_cases hw : w = v
      · rw [hw, hpeer]
        exact hlives
      · rw [hl.other w hw]
        exact hs.lives w
    · intro w
      have hroom := hs.room w
      by_cases hw : w = v
      · subst hw
        have hlen := entered_length (.ok []) hop
        rw [Peer.entered_pending] at hlen
        rw [hpeer, handled_pending]
        simp only [started, List.append_nil]
        omega
      · rw [hl.other w hw]
        exact hroom

theorem foldl_written (vs : List ℕ) (hnodup : vs.Nodup) (hs : Settled s) :
    Settled (vs.foldl written s) ∧ handedUp (vs.foldl written s).trace = handedUp s.trace ∧
      ∀ w, (vs.foldl written s).peer w = if w ∈ vs then (s.peer w).written else s.peer w := by
  induction vs generalizing s with
  | nil => exact ⟨hs, rfl, fun w => by simp⟩
  | cons v vs ih =>
    obtain ⟨hv, hrest⟩ := List.nodup_cons.mp hnodup
    rw [List.foldl_cons]
    have hfirst : Settled (written s v) ∧ handedUp (written s v).trace = handedUp s.trace ∧
        ∀ w, (written s v).peer w = if w = v then (s.peer w).written else s.peer w := by
      obtain ⟨hsame, hpeer⟩ | h := written_writes hs v
      · rw [hsame]
        refine ⟨hs, rfl, ?_⟩
        intro w
        split
        next hw => rw [hw, hpeer]
        next => rfl
      · refine ⟨h.settled, h.alone.handed, ?_⟩
        intro w
        split
        next hw => rw [hw, h.peer]
        next hw => exact h.alone.other w hw
    obtain ⟨hsettled, hhanded, hpeer⟩ := hfirst
    obtain ⟨hend, hall, hpeers⟩ := ih hrest hsettled
    refine ⟨hend, hall.trans hhanded, ?_⟩
    intro w
    rw [hpeers]
    by_cases hw : w = v
    · subst hw
      rw [if_neg hv, hpeer, if_pos rfl, if_pos List.mem_cons_self]
    · rw [hpeer, if_neg hw]
      simp only [List.mem_cons, hw, false_or]

theorem sent_settled (hs : Settled s) : Settled (sent s) ∧ handedUp (sent s).trace = handedUp s.trace ∧
    ∀ w, (sent s).peer w = (s.peer w).written := by
  obtain ⟨hsettled, hhanded, hpeer⟩ := foldl_written (List.range s.created) List.nodup_range hs
  refine ⟨hsettled, hhanded, ?_⟩
  intro w
  rw [sent, hpeer]
  split
  · rfl
  next hw =>
    rw [hs.wellFormed.fresh w (by simpa using hw)]
    rfl

omit [Host] in
theorem written_pending_le (p : Peer) : p.written.pending.length ≤ p.pending.length := by
  rw [Peer.written]
  split
  · exact le_rfl
  · rw [handled_pending]
    simp only [started, List.append_nil]
    exact List.length_eraseIdx_le _ _

omit [Host] in
theorem queue_written_length {p : Peer} {buffer : List Byte} :
    (p.queue (.write buffer)).written.pending.length = p.pending.length := by
  cases hfind : (p.queue (.write buffer)).pending.findIdx? (fun op => !op.isRead) with
  | none =>
    have hnone := List.findIdx?_eq_none_iff.mp hfind (.write buffer) (by simp)
    cases hnone
  | some i =>
    obtain ⟨hi, -⟩ := List.findIdx?_eq_some_iff_getElem.mp hfind
    simp only [Peer.written, hfind]
    rw [handled_pending]
    simp only [started, List.append_nil, List.length_eraseIdx_of_lt hi]
    simp

omit [Host] in
theorem two_le_mostPending : 2 ≤ mostPending := by
  have hfew := HandlerCopies.few
  have hroom := mostPending_add
  omega

theorem Waiting.wanted (h : Waiting u s₀ op ps s) : (receiveLoop u).wanted s = op.wanted := by
  simp only [receiveLoop, h.status, h.destroyed, h.pending, and_self, if_true]

theorem Waiting.complete {result : Completion} (h : Waiting u s₀ op ps s)
    (hadm : op.admits result = true) :
    complete u result s = invoke op result u (modify u (Peer.taken 0 op result) s) := by
  unfold Server.complete step
  simp [h.getElem, h.status, hadm, h.destroyed]

structure Reads (u : ℕ) (op : Operation) (result : Completion) (s t : DispatchingServer) : Prop where
  settled : Settled t
  alone : Local u s t
  peer : t.peer u = (s.peer u).handled 0 op result (reaction op result)

theorem Waiting.handled {result : Completion} (h : Waiting u s₀ op ps s)
    (hadm : op.admits result = true) (hb : (reaction op result).isBroadcast = false)
    (he : ∀ e, reaction op result ≠ .escape e) : Reads u op result s (Server.complete u result s) := by
  obtain ⟨hl, hp, hstatus⟩ := invoke_local 0 op result h.wellFormed h.destroyed hb
  have hsame : (reaction op result).status s.status = s.status := by
    cases hr : reaction op result with
    | escape e => exact absurd hr (he e)
    | _ => rfl
  have hlives := (h.lives u).handled result h.destroyed h.getElem (h.room u).le he
  have htwo := two_le_mostPending
  have hstarts : (started (reaction op result)).length ≤ 2 := started_length _
  rw [h.complete hadm]
  refine ⟨⟨hl.wellFormed (h.wellFormed.owns h.destroyed) (h.wellFormed.lt_created h.destroyed)
    h.wellFormed, hstatus.trans (hsame.trans h.status), ?_, ?_⟩, hl, hp⟩
  · intro v
    by_cases hv : v = u
    · rw [hv, hp]
      exact hlives
    · rw [hl.other v hv]
      exact h.lives v
  · intro v
    by_cases hv : v = u
    · rw [hv, hp, handled_pending, h.pending]
      exact hstarts.trans htwo
    · rw [hl.other v hv]
      exact (h.room v).le

theorem Waiting.fail {result : Completion} {errmsg : String} (h : Waiting u s₀ op ps s)
    (hadm : op.admits result = true) (hr : reaction op result = .fail errmsg) :
    TornDown u s₀ ps (Server.complete u result s) := by
  have hreads := h.handled hadm (by rw [hr]; rfl) (by simp [hr])
  obtain ⟨hsettled, hl, hp⟩ := hreads
  generalize Server.complete u result s = t at *
  have hpending : (t.peer u).pending = [] := by
    rw [hp, handled_pending, hr, h.pending]
    rfl
  have hgone : (t.peer u).destroyed = true := (hsettled.lives u).pending.mpr hpending
  have hfail : (t.peer u).errorHappened = true ∧ (t.peer u).socketOpen = false := by
    have herr : ((s.peer u).entered 0 op result).errorHappened = false := h.errorHappened
    rw [hp, hr]
    simp only [Peer.handled, Peer.react, Peer.fail, herr]
    exact ⟨rfl, rfl⟩
  refine ⟨hsettled.status, hpending, hfail.1, hfail.2, ?_, hl.handed.trans h.payloads⟩
  rw [hsettled.wellFormed.isListed_iff, hgone]
  decide

theorem TornDown.sent (hs : Settled s) (h : TornDown u s₀ ps s) : TornDown u s₀ ps (Server.sent s) := by
  obtain ⟨hsettled, hhanded, hpeer⟩ := sent_settled hs
  have hsame : (Server.sent s).peer u = s.peer u := by
    rw [hpeer]
    exact Peer.written_of_reads (by rw [h.pending]; rfl)
  refine ⟨hsettled.status, ?_, ?_, ?_, ?_, hhanded.trans h.payloads⟩
  · rw [hsame, h.pending]
  · rw [hsame, h.errorHappened]
  · rw [hsame, h.socketOpen]
  · have hgone := h.listed
    rw [hs.wellFormed.isListed_iff] at hgone
    rw [hsettled.wellFormed.isListed_iff, hsame]
    exact hgone

theorem Waiting.reject {result : Completion} {errmsg : String} (h : Waiting u s₀ op ps s)
    (hadm : op.admits result = true) (hr : reaction op result = .fail errmsg) :
    TornDown u s₀ ps (Server.sent (Server.complete u result s)) :=
  (h.fail hadm hr).sent (h.handled hadm (by rw [hr]; rfl) (by simp [hr])).settled

theorem Waiting.start {result : Completion} {next : Operation} (h : Waiting u s₀ op ps s)
    (hadm : op.admits result = true) (hr : reaction op result = .start next)
    (hread : next.isRead = true) : Waiting u s₀ next ps (Server.sent (Server.complete u result s)) := by
  obtain ⟨hmiddle, hl, hp⟩ := h.handled hadm (by rw [hr]; rfl) (by simp [hr])
  generalize Server.complete u result s = t at *
  obtain ⟨hsettled, hhanded, hpeer⟩ := sent_settled hmiddle
  have hpending : (t.peer u).pending = [next] := by
    rw [hp, handled_pending, hr, h.pending]
    rfl
  have hsame : (Server.sent t).peer u = t.peer u := by
    rw [hpeer]
    exact Peer.written_of_reads (by rw [hpending]; simp [hread])
  refine ⟨hsettled.wellFormed, hsettled.status, hsettled.lives, ?_, ?_, ?_,
    hhanded.trans (hl.handed.trans h.payloads)⟩
  · intro v
    by_cases hv : v = u
    · rw [hv, hsame, hpending]
      exact two_le_mostPending
    · rw [hpeer, hl.other v hv]
      exact (written_pending_le _).trans_lt (h.room v)
  · rw [hsame, hp, handled_errorHappened, hr]
    exact ⟨h.errorHappened, nofun⟩
  · rw [hsame, hpending]

theorem Waiting.escape {result : Completion} {e : Exn} (h : Waiting u s₀ op ps s)
    (hadm : op.admits result = true) (hr : reaction op result = .escape e) :
    (Server.complete u result s).status = .threw e := by
  obtain ⟨-, -, hstatus⟩ := invoke_local 0 op result h.wellFormed h.destroyed (by rw [hr]; rfl)
  rw [h.complete hadm, hstatus, hr]
  rfl

theorem sent_of_status (h : s.status ≠ .running) : Server.sent s = s := by
  have hstays : ∀ v, written s v = s := by
    intro v
    unfold written
    split
    · rfl
    next i _ =>
      have hnone : step s (.completed v i (.ok [])) = none := by
        cases hstep : step s (.completed v i (.ok [])) with
        | none => rfl
        | some t => exact absurd (step_stepped hstep).1 h
      rw [hnone, Option.getD_none]
  unfold Server.sent
  induction List.range s.created with
  | nil => rfl
  | cons v vs ih => rw [List.foldl_cons, hstays, ih]

theorem Waiting.broadcasts {body : List Byte} (h : Waiting u s₀ (.readBody body.length) ps s) :
    let t := Server.complete u (.ok body) s
    Broadcasts u body s t ∧ Settled t ∧
      (t.peer u).pending = [.write (SegmentationLayer.packet body), .readHeader] ∧
      t.peer u = (s.peer u).handled 0 (.readBody body.length) (.ok body) (.broadcast body) := by
  have hadm : (Operation.readBody body.length).admits (.ok body) = true := by simp [Operation.admits]
  have hr : reaction (.readBody body.length) (.ok body) = .broadcast body := rfl
  obtain ⟨hb, hp⟩ := invoke_broadcast (i := 0) h.wellFormed h.destroyed hr
  have hlives := (h.lives u).handled (.ok body) h.destroyed h.getElem (h.room u).le (by simp [hr])
  dsimp only
  rw [h.complete hadm]
  rw [hr, ← hp] at hlives
  generalize invoke (.readBody body.length) (.ok body) u _ = t at *
  have hpending : (t.peer u).pending = [.write (SegmentationLayer.packet body), .readHeader] := by
    rw [hp, handled_pending, h.pending]
    rfl
  refine ⟨hb, ⟨hb.wellFormed, (hb.status fun v hv => (h.lives v).not_loses hv (h.room v).le).trans h.status, ?_, ?_⟩,
    hpending, hp⟩
  · intro v
    by_cases hv : v = u
    · exact hv ▸ hlives
    · rw [hb.other v hv]
      split
      · exact h.lives v
      next hd => exact (h.lives v).queue_write (by simpa using hd) (h.room v).le
  · intro v
    by_cases hv : v = u
    · rw [hv, hpending]
      exact two_le_mostPending
    · rw [hb.other v hv]
      split
      · exact (h.room v).le
      · rw [Peer.queue_pending, List.length_append, List.length_singleton]
        exact h.room v

theorem Waiting.body {body : List Byte} (h : Waiting u s₀ (.readBody body.length) ps s) :
    Waiting u s₀ .readHeader (ps ++ [body]) ((receiveLoop u).filled s body) := by
  obtain ⟨hb, hmiddle, hpending, hp⟩ := h.broadcasts
  change Waiting u s₀ .readHeader (ps ++ [body]) (Server.sent (Server.complete u (.ok body) s))
  generalize Server.complete u (.ok body) s = t at *
  obtain ⟨hsettled, hhanded, hpeer⟩ := sent_settled hmiddle
  have hself : (Server.sent t).peer u = (t.peer u).handled 0 (.write []) (.ok []) .rest := by
    rw [hpeer, Peer.written, hpending]
    rfl
  have hleft : ((Server.sent t).peer u).pending = [.readHeader] := by
    rw [hself, handled_pending, hpending]
    rfl
  refine ⟨hsettled.wellFormed, hsettled.status, hsettled.lives, ?_, ?_, hleft, ?_⟩
  · intro v
    by_cases hv : v = u
    · rw [hv, hleft]
      exact two_le_mostPending
    · rw [hpeer, hb.other v hv]
      split
      · exact (written_pending_le _).trans_lt (h.room v)
      · rw [queue_written_length]
        exact h.room v
  · rw [hself, handled_errorHappened, hp, handled_errorHappened]
    exact ⟨⟨h.errorHappened, by simp⟩, by simp⟩
  · rw [hhanded, hb.handed, h.payloads, List.append_assoc, List.map_append]
    rfl

def Torn (u : ℕ) (s₀ : DispatchingServer) (ps : List (List Byte)) : Ending → DispatchingServer → Prop
  | .faulted, s => s.status ≠ .running
  | _, s => TornDown u s₀ ps s

theorem Torn.wanted {e : Ending} (h : Torn u s₀ ps e s) : (receiveLoop u).wanted s = none := by
  have hdown (h : TornDown u s₀ ps s) : (receiveLoop u).wanted s = none := by
    simp only [receiveLoop, h.pending, ite_self]
  cases e with
  | faulted => exact if_neg fun hc => h hc.1
  | cut => exact hdown h
  | rejected => exact hdown h

theorem implements_peerFormat {waiting : Operation → List (List Byte) → DispatchingServer → Prop}
    {down : List (List Byte) → DispatchingServer → Prop}
    {ended : List (List Byte) → Ending → DispatchingServer → Prop}
    (to_waiting : ∀ {op ps s}, waiting op ps s → Waiting u s₀ op ps s)
    (start : ∀ {op next ps s bytes}, waiting op ps s → op.admits (.ok bytes) = true →
      reaction op (.ok bytes) = .start next → next.isRead = true →
        waiting next ps ((receiveLoop u).filled s bytes))
    (reject : ∀ {op ps s bytes errmsg}, waiting op ps s → op.admits (.ok bytes) = true →
      reaction op (.ok bytes) = .fail errmsg → down ps ((receiveLoop u).filled s bytes))
    (fail : ∀ {op ps s errmsg}, waiting op ps s → reaction op (.error endOfFile) = .fail errmsg →
      down ps ((receiveLoop u).endOfFile s))
    (body : ∀ {ps s body}, waiting (.readBody body.length) ps s →
      waiting .readHeader (ps ++ [body]) ((receiveLoop u).filled s body))
    (faulted : ∀ {ps s}, s.status ≠ .running → ended ps .faulted s)
    (rejected : ∀ {ps s}, down ps s → ended ps .rejected s)
    (cut : ∀ {ps s}, down ps s → ended ps .cut s)
    (ended_wanted : ∀ {ps e s}, ended ps e s → (receiveLoop u).wanted s = none) :
    Implements (receiveLoop u) peerFormat (waiting .readHeader) (fun ps n => waiting (.readBody n) ps)
      ended := by
  refine implements_receiverFormat (fun h => (to_waiting h).wanted) ?_ ?_
    (fun h => cut (fail h rfl)) (fun h => (to_waiting h).wanted) (fun h _ => body h) (by simp)
    (fun h => cut (fail h rfl)) ended_wanted
  · intro ps s hdr body h hlen hadm
    have hfills : Operation.readHeader.admits (.ok hdr) = true := by simp [Operation.admits, hlen]
    have hr : reaction .readHeader (.ok hdr) = .start (.readBody body.length) := by
      simp only [reaction, hadm]
    exact start h hfills hr rfl
  · intro ps s hdr e h hlen hadm
    have hfills : Operation.readHeader.admits (.ok hdr) = true := by simp [Operation.admits, hlen]
    have hr : reaction .readHeader (.ok hdr) =
        if e = .invalidHeaderError then .fail e.what else .escape e := by
      simp only [reaction, hadm]
    by_cases he : e = .invalidHeaderError
    · rw [if_pos he] at hr
      rw [if_pos (by simpa using he)]
      exact rejected (reject h hfills hr)
    · rw [if_neg he] at hr
      have hthrew := (to_waiting h).escape hfills hr
      have hover : (Server.complete u (.ok hdr) s).status ≠ .running := by simp [hthrew]
      rw [if_neg (by simpa using he)]
      refine faulted ?_
      change (Server.sent (Server.complete u (.ok hdr) s)).status ≠ .running
      rwa [sent_of_status hover]

theorem receiveLoop_implements (u : ℕ) (s₀ : DispatchingServer) :
    Implements (receiveLoop u) peerFormat (Waiting u s₀ .readHeader)
      (fun ps n => Waiting u s₀ (.readBody n) ps) (Torn u s₀) :=
  implements_peerFormat id Waiting.start Waiting.reject (fun h hr => h.fail rfl hr) Waiting.body
    id id id Torn.wanted

end

end Server

end NukeMs
