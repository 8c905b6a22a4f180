import Mathlib.Data.List.Perm.Basic
import NukeMs.SendAnswers

namespace NukeMs.Client

open Runs

def OpKind.readsHeader : OpKind → Bool
  | .readHeader => true
  | _ => false

/-- The handler of each pending operation may carry a buffer. The buffers are numbered in the order
in which they are made. -/
structure HeaderBuffers where
  held : List (Option ℕ)
  allocated : ℕ
  deleted : List ℕ
  leaked : List ℕ
  strayed : Bool

namespace HeaderBuffers

def make (b : HeaderBuffers) : HeaderBuffers :=
  { b with held := b.held ++ [some b.allocated], allocated := b.allocated + 1 }

def use (rcvbuf : Option ℕ) (b : HeaderBuffers) : HeaderBuffers :=
  match rcvbuf with
  | none => b
  | some n => { b with strayed := b.strayed || b.deleted.contains n }

def release (outcome : Outcome) (rcvbuf : Option ℕ) (b : HeaderBuffers) : HeaderBuffers :=
  match rcvbuf with
  | none => b
  | some n =>
    -- `return` comes before `delete[] rcvbuf`
    if outcome.aborted then { b with leaked := b.leaked ++ [n] }
    else { b.use rcvbuf with deleted := b.deleted ++ [n] }

def follow (t : ClientNode) (b : HeaderBuffers) : HeaderBuffers :=
  { b with held := b.held ++ List.replicate (t.pending.length - b.held.length) none }

def makesBuffer (kind : OpKind) (outcome : Outcome) (t : ClientNode) : Bool :=
  match kind, outcome.error with
  | .connect _ _, none => true
  | .readBody _, none => !t.faulted
  | _, _ => false

def handled (i : ℕ) (kind : OpKind) (outcome : Outcome) (t : ClientNode) (b : HeaderBuffers) :
    HeaderBuffers :=
  let rcvbuf := b.held[i]?.join
  let b := release outcome rcvbuf { b with held := b.held.eraseIdx i }
  if makesBuffer kind outcome t then b.make else b.follow t

end HeaderBuffers

structure BufferedNode where
  node : ClientNode
  buffers : HeaderBuffers

def BufferedNode.init : BufferedNode := ⟨Client.init, ⟨[], 0, [], [], false⟩⟩

section
variable [Host]

def HeaderBuffers.next (c t : ClientNode) (b : HeaderBuffers) : Input → HeaderBuffers
  | .complete i _ => b.use b.held[i]?.join
  | .handler i =>
    match c.pending[i]? with
    | some ⟨_, kind, some outcome⟩ => b.handled i kind outcome t
    | _ => b
  | _ => b.follow t

def BufferedNode.step (x : BufferedNode) (input : Input) : Option BufferedNode :=
  (Client.step x.node input).map fun t => ⟨t, x.buffers.next x.node t input⟩

end

def headers (c : ClientNode) : List Bool := c.pending.map fun op => op.kind.readsHeader

structure Ledger (c : ClientNode) (b : HeaderBuffers) : Prop where
  carried : b.held.map Option.isSome = headers c
  once : (b.held.filterMap id ++ b.deleted ++ b.leaked).Perm (List.range b.allocated)
  strayed : b.strayed = false

section
variable {c t : ClientNode} {b : HeaderBuffers} {n i : ℕ}

theorem headers_abort (ops : List Op) :
    (ops.map Op.abort).map (fun op => op.kind.readsHeader) = ops.map fun op => op.kind.readsHeader := by
  rw [List.map_map]
  apply List.map_congr_left
  intro op _
  rw [Function.comp_apply, isWrite_abort]

theorem readsHeader_of_negotiates {kind : OpKind} (h : kind.negotiates = true) :
    kind.readsHeader = false := by
  cases kind with
  | resolve host service => rfl
  | connect endpoint rest => rfl
  | _ => cases h

theorem Ledger.length (h : Ledger c b) : b.held.length = c.pending.length := by
  have hlength := congrArg List.length h.carried
  rwa [headers, List.length_map, List.length_map] at hlength

theorem Ledger.live (h : Ledger c b) (hn : b.held[i]? = some (some n)) :
    n ∉ b.deleted := by
  have hheld : n ∈ b.held.filterMap id :=
    List.mem_filterMap.mpr ⟨some n, List.mem_of_getElem? hn, rfl⟩
  have hnodup := h.once.nodup_iff.mpr List.nodup_range
  rw [List.append_assoc, List.nodup_append] at hnodup
  intro hdeleted
  exact hnodup.2.2 n hheld n (List.mem_append_left _ hdeleted) rfl

theorem Ledger.strayed_use (h : Ledger c b) (hn : b.held[i]? = some (some n)) :
    (b.use (some n)).strayed = false := by
  change (b.strayed || b.deleted.contains n) = false
  rw [h.strayed, Bool.false_or, Bool.eq_false_iff, ne_eq, List.contains_iff_mem]
  exact h.live hn

theorem Ledger.use (h : Ledger c b) : Ledger c (b.use b.held[i]?.join) := by
  cases hn : b.held[i]?.join with
  | none => exact h
  | some n => exact ⟨h.carried, h.once, h.strayed_use (Option.join_eq_some_iff.mp hn)⟩

theorem Ledger.follow {k : ℕ} (h : Ledger c b)
    (ht : headers t = headers c ++ List.replicate k false) : Ledger t (b.follow t) := by
  have hgrown : t.pending.length - b.held.length = k := by
    have hheld := h.length
    have hlength := congrArg List.length ht
    rw [headers, headers, List.length_append, List.length_map, List.length_map, List.length_replicate]
      at hlength
    omega
  refine ⟨?_, ?_, h.strayed⟩
  · change (b.held ++ List.replicate _ none).map Option.isSome = headers t
    rw [hgrown, ht, List.map_append, h.carried, List.map_replicate]
    rfl
  · change ((b.held ++ List.replicate _ none).filterMap id ++ _ ++ _).Perm _
    rw [List.filterMap_append, List.filterMap_replicate_of_none rfl, List.append_nil]
    exact h.once

theorem Ledger.make (h : Ledger c b) (ht : headers t = headers c ++ [true]) :
    Ledger t b.make := by
  refine ⟨?_, ?_, h.strayed⟩
  · change (b.held ++ [some b.allocated]).map Option.isSome = headers t
    rw [ht, List.map_append, h.carried]
    rfl
  · change ((b.held ++ [some b.allocated]).filterMap id ++ b.deleted ++ b.leaked).Perm
      (List.range (b.allocated + 1))
    have hone : [some b.allocated].filterMap id = [b.allocated] := rfl
    rw [List.filterMap_append, hone, List.range_succ]
    apply List.Perm.trans _ (h.once.append_right [b.allocated])
    rw [List.perm_iff_count]
    intro n
    simp only [List.count_append]
    omega

theorem held_erased (hi : b.held[i]? = some none) :
    (b.held.filterMap id).Perm ((b.held.eraseIdx i).filterMap id) := by
  obtain ⟨hlt, hget⟩ := List.getElem?_eq_some_iff.mp hi
  have hperm := (List.getElem_cons_eraseIdx_perm hlt).symm.filterMap id
  rwa [hget] at hperm

theorem held_taken (hi : b.held[i]? = some (some n)) :
    (b.held.filterMap id).Perm (n :: (b.held.eraseIdx i).filterMap id) := by
  obtain ⟨hlt, hget⟩ := List.getElem?_eq_some_iff.mp hi
  have hperm := (List.getElem_cons_eraseIdx_perm hlt).symm.filterMap id
  rwa [hget] at hperm

theorem Ledger.release (outcome : Outcome) (h : Ledger c b) (hi : i < c.pending.length) :
    Ledger { c with pending := c.pending.eraseIdx i }
      (HeaderBuffers.release outcome b.held[i]?.join { b with held := b.held.eraseIdx i }) := by
  have hcarried : (b.held.eraseIdx i).map Option.isSome =
      headers { c with pending := c.pending.eraseIdx i } := by
    rw [headers, ← List.eraseIdx_map, ← List.eraseIdx_map]
    exact congrArg (List.eraseIdx · i) h.carried
  have hlt : i < b.held.length := h.length.symm ▸ hi
  have hget := List.getElem?_eq_getElem hlt
  generalize b.held[i] = rcvbuf at hget
  rw [hget, Option.join_some]
  cases rcvbuf with
  | none =>
    refine ⟨hcarried, ?_, h.strayed⟩
    exact (((held_erased hget).symm.append_right _).append_right _).trans h.once
  | some n =>
    have hmoved (deleted leaked : List ℕ) (hmore : ∀ m, (deleted ++ leaked).count m =
        (b.deleted ++ b.leaked).count m + [n].count m) :
        ((b.held.eraseIdx i).filterMap id ++ deleted ++ leaked).Perm (List.range b.allocated) := by
      apply List.Perm.trans _ h.once
      rw [List.perm_iff_count]
      intro m
      have htaken := (held_taken hget).count_eq m
      have hcount := hmore m
      simp only [List.count_append, List.count_cons, List.count_nil] at htaken hcount ⊢
      omega
    unfold HeaderBuffers.release
    dsimp only
    split
    · refine ⟨hcarried, hmoved _ _ ?_, h.strayed⟩
      intro m
      simp only [List.count_append]
      omega
    · refine ⟨hcarried, hmoved _ _ ?_, h.strayed_use hget⟩
      intro m
      change (b.deleted ++ [n] ++ b.leaked).count m = _
      simp only [List.count_append]
      omega

theorem headers_of_pending {ops : List Op} (hp : t.pending = c.pending ++ ops)
    (hops : ∀ op ∈ ops, op.kind.readsHeader = false) :
    headers t = headers c ++ List.replicate ops.length false := by
  have hnone : ops.map (fun op => op.kind.readsHeader) = List.replicate ops.length false := by
    rw [List.eq_replicate_iff, List.length_map]
    refine ⟨rfl, ?_⟩
    intro header hheader
    obtain ⟨op, hop, rfl⟩ := List.mem_map.mp hheader
    exact hops op hop
  rw [headers, hp, List.map_append, hnone, headers]

theorem headers_of_started {op : Op} (hp : t.pending = c.pending ++ [op])
    (hop : op.kind.readsHeader = false) : headers t = headers c ++ List.replicate 1 false := by
  apply headers_of_pending hp
  intro op' hop'
  rwa [List.mem_singleton.mp hop']

theorem headers_of_abort {ops : List Op} (hp : t.pending = (c.pending ++ ops).map Op.abort)
    (hops : ∀ op ∈ ops, op.kind.readsHeader = false) :
    headers t = headers c ++ List.replicate ops.length false := by
  rw [headers, hp, headers_abort]
  exact headers_of_pending (t := { c with pending := c.pending ++ ops }) rfl hops

end

section
variable [Host] {c t : ClientNode} {b : HeaderBuffers}

theorem headers_called {sent : Option NearUserMessage} (h : Called c sent t) :
    ∃ k, headers t = headers c ++ List.replicate k false := by
  cases h with
  | stay hsent hs hp => exact ⟨0, headers_of_pending (hp.trans (List.append_nil _).symm) nofun⟩
  | wait hsent started hs hstarted hp =>
    exact ⟨_, headers_of_abort hp fun op hop => readsHeader_of_negotiates (hstarted op hop)⟩
  | request hsent attempt host service hs hp => exact ⟨1, headers_of_started hp rfl⟩
  | write data hsent attempt hc hs hp => exact ⟨1, headers_of_started hp rfl⟩

theorem headers_disconnected (msg : String) :
    headers (processEvent (.disconnected msg) c) = headers c := by
  rw [processEvent_disconnected]
  split
  · exact headers_abort c.pending
  · rfl

theorem headers_connectReport (success : Bool) (message : String) :
    headers (processEvent (.connectReport success message) c) = headers c := by
  rw [processEvent_connectReport]
  split
  · cases success with
    | true => rfl
    | false => exact headers_abort c.pending
  · rfl

theorem headers_headerHandler (attempt : ℕ) (error : Option ErrorCode) (rcvbuf : List Byte) :
    ∃ k, headers (receiveSegmentationHeaderHandler attempt error rcvbuf c) =
      headers c ++ List.replicate k false := by
  unfold receiveSegmentationHeaderHandler
  split
  · refine ⟨0, ?_⟩
    split
    · exact (List.append_nil _).symm
    · exact (headers_disconnected _).trans (List.append_nil _).symm
  · split
    · exact ⟨1, headers_of_started (start_pending ..) rfl⟩
    · exact ⟨0, (headers_disconnected _).trans (List.append_nil _).symm⟩

theorem headers_bodyHandler (attempt : ℕ) (rcvbuf : List Byte) :
    let t := receiveSegmentationBodyHandler attempt none rcvbuf c
    headers t = headers c ++ if t.faulted then [] else [true] := by
  have hrcvd := (rcvdMessage_state (c := emit (.handedUp rcvbuf) c) ⟨SerializedData.ofBlock rcvbuf⟩).2
  unfold receiveSegmentationBodyHandler
  dsimp only
  by_cases hfault : (processEvent (.rcvdMessage ⟨SerializedData.ofBlock rcvbuf⟩)
      (emit (.handedUp rcvbuf) c)).faulted = true
  · rw [if_pos hfault, if_pos hfault, headers, hrcvd]
    exact (List.append_nil _).symm
  · rw [if_neg hfault, start_faulted, if_neg hfault, headers, start_pending, hrcvd, List.map_append]
    rfl

theorem headers_resolveHandler (attempt : ℕ) (error : Option ErrorCode) (endpoints : List Endpoint) :
    ∃ k, headers (resolveHandler attempt error endpoints c) = headers c ++ List.replicate k false := by
  have hsame : ∃ k, headers c = headers c ++ List.replicate k false := ⟨0, (List.append_nil _).symm⟩
  unfold resolveHandler
  split
  · split
    · exact hsame
    · rwa [headers_connectReport]
  · rwa [headers_connectReport]
  · exact ⟨1, headers_of_started (start_pending ..) rfl⟩

theorem headers_connectHandler (attempt : ℕ) (error : ErrorCode) (rest : List Endpoint) :
    ∃ k, headers (connectHandler attempt (some error) rest c) = headers c ++ List.replicate k false := by
  unfold connectHandler
  cases rest with
  | cons next rest =>
    refine ⟨1, ?_⟩
    have hnext := headers_of_started (t := start attempt (.connect next rest) (closeSocket c))
      (start_pending ..) rfl
    rw [hnext]
    exact congrArg (· ++ _) (headers_abort c.pending)
  | nil =>
    have hsame : ∃ k, headers c = headers c ++ List.replicate k false :=
      ⟨0, (List.append_nil _).symm⟩
    dsimp only
    split
    · exact hsame
    · rwa [headers_connectReport]

theorem headers_connected (attempt : ℕ) (rest : List Endpoint) :
    headers (connectHandler attempt none rest c) = headers c ++ [true] := by
  change headers (processEvent _ (start attempt .readHeader c)) = _
  rw [headers_connectReport, headers, start_pending, List.map_append]
  rfl

theorem headers_writeHandler (error : Option ErrorCode) : headers (writeHandler error c) = headers c := by
  cases error with
  | none => rfl
  | some error => exact headers_disconnected error.message

theorem headers_runHandler (op : Op) (outcome : Outcome) (c : ClientNode) :
    let t := runHandler op outcome c
    if HeaderBuffers.makesBuffer op.kind outcome t then headers t = headers c ++ [true]
    else ∃ k, headers t = headers c ++ List.replicate k false := by
  obtain ⟨attempt, kind, o⟩ := op
  obtain ⟨error, endpoints, bytes⟩ := outcome
  cases kind with
  | resolve host service => exact headers_resolveHandler attempt error endpoints
  | connect endpoint rest =>
    cases error with
    | none => exact headers_connected attempt rest
    | some error => exact headers_connectHandler attempt error rest
  | readHeader => exact headers_headerHandler attempt error bytes
  | readBody size =>
    cases error with
    | some error => exact ⟨0, (headers_disconnected _).trans (List.append_nil _).symm⟩
    | none =>
      have hbody := headers_bodyHandler (c := c) attempt bytes
      dsimp only at hbody
      change if !(receiveSegmentationBodyHandler attempt none bytes c).faulted then
        headers (receiveSegmentationBodyHandler attempt none bytes c) = _ else
          ∃ k, headers (receiveSegmentationBodyHandler attempt none bytes c) = _
      rw [hbody]
      cases (receiveSegmentationBodyHandler attempt none bytes c).faulted with
      | true => exact ⟨0, rfl⟩
      | false => rfl
  | write buffer => exact ⟨0, (headers_writeHandler error).trans (List.append_nil _).symm⟩

/-- The handler of a header read that was aborted returns before it has deleted its buffer. -/
def Abandons (c : ClientNode) (input : Input) : Prop :=
  ∃ i op outcome, input = .handler i ∧ c.pending[i]? = some op ∧ op.kind = .readHeader ∧
    op.outcome = some outcome ∧ outcome.aborted = true

omit [Host] in
theorem Ledger.buffer_iff (h : Ledger c b) {i : ℕ} {op : Op} (hop : c.pending[i]? = some op) :
    (∃ n, b.held[i]?.join = some n) ↔ op.kind = .readHeader := by
  have hcarried : (b.held.map Option.isSome)[i]? = (headers c)[i]? := by rw [h.carried]
  rw [headers, List.getElem?_map, List.getElem?_map, hop, Option.map_some] at hcarried
  obtain ⟨rcvbuf, hget, hsome⟩ := Option.map_eq_some_iff.mp hcarried
  rw [hget, Option.join_some, ← Option.isSome_iff_exists, hsome]
  cases op.kind <;> simp [OpKind.readsHeader]

omit [Host] in
theorem handled_leaked (h : Ledger c b) {i : ℕ} {op : Op} {outcome : Outcome}
    (hop : c.pending[i]? = some op) (hsome : op.outcome = some outcome) :
    (b.handled i op.kind outcome t).leaked = [] ↔ b.leaked = [] ∧ ¬ Abandons c (.handler i) := by
  have hhandled : (b.handled i op.kind outcome t).leaked =
      (HeaderBuffers.release outcome b.held[i]?.join { b with held := b.held.eraseIdx i }).leaked := by
    unfold HeaderBuffers.handled
    split <;> rfl
  have habandons : Abandons c (.handler i) ↔ op.kind = .readHeader ∧ outcome.aborted = true := by
    constructor
    · rintro ⟨_, op', outcome', ⟨⟩, hop', hkind, hout, haborted⟩
      cases hop.symm.trans hop'
      cases hsome.symm.trans hout
      exact ⟨hkind, haborted⟩
    · rintro ⟨hkind, haborted⟩
      exact ⟨i, op, outcome, rfl, hop, hkind, hsome, haborted⟩
  rw [hhandled, habandons, ← h.buffer_iff hop]
  cases b.held[i]?.join with
  | none => simp [HeaderBuffers.release]
  | some n => cases ha : outcome.aborted <;> simp [HeaderBuffers.release, HeaderBuffers.use, ha]

theorem Ledger.handled {i : ℕ} {op : Op} (outcome : Outcome) (h : Ledger c b)
    (hop : c.pending[i]? = some op) :
    let t := runHandler op outcome { c with pending := c.pending.eraseIdx i }
    Ledger t (b.handled i op.kind outcome t) := by
  obtain ⟨hi, -⟩ := List.getElem?_eq_some_iff.mp hop
  have hreleased := h.release outcome hi
  have hheaders := headers_runHandler op outcome { c with pending := c.pending.eraseIdx i }
  unfold HeaderBuffers.handled
  dsimp only at hheaders ⊢
  split at hheaders
  next hmakes =>
    rw [if_pos hmakes]
    exact hreleased.make hheaders
  next hmakes =>
    rw [if_neg hmakes]
    obtain ⟨k, hk⟩ := hheaders
    exact hreleased.follow hk

theorem Ledger.called {sent : Option NearUserMessage} (h : Ledger c b) (hcalled : Called c sent t) :
    Ledger t (b.follow t) := by
  obtain ⟨k, hk⟩ := headers_called hcalled
  exact h.follow hk

omit [Host] in
theorem use_leaked (rcvbuf : Option ℕ) (b : HeaderBuffers) : (b.use rcvbuf).leaked = b.leaked := by
  cases rcvbuf <;> rfl

omit [Host] in
theorem leaked_iff {b' : HeaderBuffers} {input : Input} (hinput : ∀ i, input ≠ .handler i)
    (hsame : b'.leaked = b.leaked) : b'.leaked = [] ↔ b.leaked = [] ∧ ¬ Abandons c input := by
  have hkept : ¬ Abandons c input := by
    rintro ⟨i, -, -, rfl, -⟩
    exact hinput i rfl
  rw [hsame, and_iff_left hkept]

omit [Host] in
theorem headers_complete {i : ℕ} {op : Op} (outcome : Outcome) (hop : c.pending[i]? = some op) :
    headers { c with pending := c.pending.set i { op with outcome := some outcome } } = headers c := by
  obtain ⟨hi, hget⟩ := List.getElem?_eq_some_iff.mp hop
  have hlt : i < (c.pending.map fun op => op.kind.readsHeader).length := by rwa [List.length_map]
  have hkind : op.kind.readsHeader = (c.pending.map fun op => op.kind.readsHeader)[i] := by
    rw [List.getElem_map, hget]
  rw [headers, List.map_set, hkind, List.set_getElem_self hlt, headers]

theorem Ledger.step {input : Input} (h : Ledger c b) (hstep : step c input = some t) :
    Ledger t (b.next c t input) ∧
      ((b.next c t input).leaked = [] ↔ b.leaked = [] ∧ ¬ Abandons c input) := by
  obtain ⟨-, hsteps⟩ := steps_of_step hstep
  cases hsteps with
  | connectTo dest thread =>
    exact ⟨h.called (called_connectTo c dest thread), leaked_iff nofun rfl⟩
  | disconnect => exact ⟨h.called (called_disconnect c), leaked_iff nofun rfl⟩
  | sendUserMessage msg recipient =>
    exact ⟨h.called (called_sendUserMessage c msg recipient), leaked_iff nofun rfl⟩
  | complete i outcome op hop hnone hadm =>
    have hused := h.use (i := i)
    exact ⟨⟨hused.carried.trans (headers_complete outcome hop).symm, hused.once, hused.strayed⟩,
      leaked_iff nofun (use_leaked _ b)⟩
  | handler i op outcome hop hsome =>
    have hnext (t : ClientNode) : b.next c t (.handler i) = b.handled i op.kind outcome t := by
      obtain ⟨attempt, kind, o⟩ := op
      subst hsome
      simp only [HeaderBuffers.next, hop]
    rw [hnext]
    exact ⟨h.handled outcome hop, handled_leaked h hop hsome⟩

theorem BufferedNode.step_node (x : BufferedNode) (input : Input) :
    (BufferedNode.step x input).map BufferedNode.node = Client.step x.node input := by
  rw [BufferedNode.step, Option.map_map]
  exact Option.map_id'

omit [Host] in
theorem init_ledger : Ledger init BufferedNode.init.buffers := ⟨rfl, .refl [], rfl⟩

theorem headerBuffers_run (inputs : List Input) {x : BufferedNode}
    (h : exec BufferedNode.step BufferedNode.init inputs = some x) :
    exec step init inputs = some x.node ∧ Ledger x.node x.buffers ∧
      (x.buffers.leaked = [] ↔ Along step (fun c input _ => ¬ Abandons c input) init inputs) := by
  have hkept (x : BufferedNode) (input : Input) (y : BufferedNode) (hx : Ledger x.node x.buffers)
      (hstep : BufferedNode.step x input = some y) : Ledger y.node y.buffers ∧
        (y.buffers.leaked ≠ [] ↔ x.buffers.leaked ≠ [] ∨ Abandons x.node input) := by
    obtain ⟨t, ht, rfl⟩ := Option.map_eq_some_iff.mp hstep
    obtain ⟨hledger, hleaked⟩ := hx.step ht
    refine ⟨hledger, ?_⟩
    rw [ne_eq, hleaked, not_and_or, not_not]
  have hledger : ∀ x input y, Ledger x.node x.buffers → BufferedNode.step x input = some y →
      Ledger y.node y.buffers := fun x input y hx hstep => (hkept x input y hx hstep).1
  have hrun := exec_project BufferedNode.step_node BufferedNode.init inputs
  have hmark := along_of_mark hledger (fun x input y hx hstep => (hkept x input y hx hstep).2)
    init_ledger h
  have halong := along_project (Q := fun c input _ => ¬ Abandons c input) BufferedNode.step_node
    BufferedNode.init inputs
  rw [h] at hrun
  refine ⟨hrun.symm, exec_invariant hledger init_ledger h, ?_⟩
  rw [halong, not_not] at hmark
  exact hmark.trans (and_iff_right (not_not_intro rfl))

end

def shortSession : List Input :=
  [.connectTo ['a', ' ', 'b'] .started, .complete 0 ⟨none, [⟨"127.0.0.1", 34443⟩], []⟩, .handler 0,
    .complete 0 ⟨none, [], []⟩, .handler 0, .complete 0 ⟨none, [], [0x80, 5, 0, 0]⟩, .handler 0,
    .complete 0 ⟨none, [], [0x42]⟩, .handler 0, .disconnect, .handler 0]

theorem headerBuffers_run_shortSession : ∃ x,
    exec (@BufferedNode.step littleEndianHost) BufferedNode.init shortSession = some x ∧
      x.node.pending = [] ∧ x.buffers.deleted = [0] ∧ x.buffers.leaked = [1] ∧
      ¬ Along (@step littleEndianHost) (fun c input _ => ¬ Abandons c input) init shortSession := by
  obtain ⟨-, -, hleaked⟩ := @headerBuffers_run littleEndianHost shortSession _ rfl
  exact ⟨_, rfl, rfl, rfl, rfl, fun halong => nomatch hleaked.mpr halong⟩

end NukeMs.Client
