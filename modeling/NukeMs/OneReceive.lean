import NukeMs.ClientSteps
import NukeMs.Outstanding
import NukeMs.Runs

namespace NukeMs.Client

open Runs

def Op.receiving (op : Op) : Bool := op.kind.receives && op.live

def receiving (c : ClientNode) : ℕ := c.pending.countP Op.receiving

def OneReceive (c : ClientNode) : Prop := c.state = .connected → receiving c = 1

def NotInterrupted (c : ClientNode) (input : Input) : Prop :=
  ∀ i outcome op, input = .complete i outcome → c.pending[i]? = some op →
    op.kind.receives = true → outcome.aborted = false

def OpKind.keepsReceive (kind : OpKind) (outcome : Outcome) (c : ClientNode) : Prop :=
  match kind, outcome.error, c.state with
  | .connect _ _, none, .negotiating => receiving c = 0
  | .connect _ _, none, .connected => False
  -- the socket is closed for the next endpoint
  | .connect _ (_ :: _), some _, .connected =>
    ∀ op ∈ c.pending, op.receiving = true → op.outcome.isSome = true
  | .readBody _, none, .connected => outcome.bytes ≠ []
  | _, _, _ => True

def KeepsReceive (c : ClientNode) (input : Input) : Prop :=
  ∀ i op outcome, input = .handler i → c.pending[i]? = some op → op.outcome = some outcome →
    op.kind.keepsReceive outcome c

section
variable {c t : ClientNode}

theorem oneReceive_init : OneReceive init := nofun

theorem receiving_fresh (attempt : ℕ) (kind : OpKind) :
    [(⟨attempt, kind, none⟩ : Op)].countP Op.receiving = if kind.receives then 1 else 0 := by
  rw [List.countP_singleton]
  simp [Op.receiving, Op.live]

theorem receiving_complete {op : Op} {outcome : Outcome} (hnone : op.outcome = none)
    (ha : op.kind.receives = true → outcome.aborted = false) :
    Op.receiving { op with outcome := some outcome } = op.receiving := by
  unfold Op.receiving Op.live
  cases hr : op.kind.receives with
  | false => rfl
  | true => simp [hnone, ha hr]

theorem receiving_of_outcome {op : Op} {outcome : Outcome} (hsome : op.outcome = some outcome) :
    op.receiving = (op.kind.receives && !outcome.aborted) := by
  simp [Op.receiving, Op.live, hsome]

theorem receiving_abort (op : Op) : op.abort.receiving = (op.receiving && op.outcome.isSome) := by
  obtain ⟨attempt, kind, outcome⟩ := op
  cases outcome with
  | some outcome => simp [Op.abort]
  | none =>
    cases kind <;> rfl

theorem receiving_aborted (ops : List Op) : (ops.map Op.abort).countP Op.receiving =
    ops.countP (fun op => op.receiving && op.outcome.isSome) := by
  rw [List.countP_map]
  exact List.countP_congr fun op _ => by rw [Function.comp_apply, receiving_abort]

theorem OneReceive.called [Host] {sent : Option NearUserMessage} (h : OneReceive c)
    (hcalled : Called c sent t) : OneReceive t := by
  intro hs
  cases hcalled with
  | stay hsent hstate hp =>
    rw [receiving, hp]
    exact h (hstate.symm.trans hs)
  | wait hsent started hstate => cases hstate.symm.trans hs
  | request hsent attempt host service hstate => cases hstate.symm.trans hs
  | write data hsent attempt hc hstate hp =>
    rw [receiving, hp, List.countP_append, receiving_fresh]
    exact h hc

theorem OneReceive.complete {op : Op} {outcome : Outcome} {i : ℕ} (h : OneReceive c)
    (hop : c.pending[i]? = some op) (hnone : op.outcome = none)
    (ha : op.kind.receives = true → outcome.aborted = false) :
    OneReceive { c with pending := c.pending.set i { op with outcome := some outcome } } := by
  intro hs
  have hsame := receiving_complete hnone ha
  rw [receiving, Outstanding.countP_set Op.receiving hop hsame]
  exact h hs

theorem keepsReceive_connect {outcome : Outcome} (endpoint : Endpoint) (rest : List Endpoint)
    (herror : outcome.error = none) (hkeeps : (OpKind.connect endpoint rest).keepsReceive outcome c) :
    c.state ≠ .connected ∧ (c.state = .negotiating → receiving c = 0) := by
  unfold OpKind.keepsReceive at hkeeps
  rw [herror] at hkeeps
  cases hs : c.state with
  | waiting => exact ⟨nofun, nofun⟩
  | negotiating =>
    rw [hs] at hkeeps
    exact ⟨nofun, fun _ => hkeeps⟩
  | connected =>
    rw [hs] at hkeeps
    exact hkeeps.elim

theorem keepsReceive_retry {outcome : Outcome} (endpoint next : Endpoint) (rest : List Endpoint)
    (herror : outcome.error.isSome) (hs : c.state = .connected) :
    (OpKind.connect endpoint (next :: rest)).keepsReceive outcome c ↔
      ∀ op ∈ c.pending, op.receiving = true → op.outcome.isSome = true := by
  obtain ⟨error, herror⟩ := Option.isSome_iff_exists.mp herror
  unfold OpKind.keepsReceive
  rw [herror, hs]

theorem keepsReceive_iff {kind : OpKind} {outcome : Outcome}
    (hkind : ∀ endpoint rest, kind ≠ .connect endpoint rest) :
    kind.keepsReceive outcome c ↔ (c.state = .connected → kind.emptyBody outcome = false) := by
  obtain ⟨error, endpoints, bytes⟩ := outcome
  unfold OpKind.keepsReceive OpKind.emptyBody
  cases kind with
  | connect endpoint rest => exact absurd rfl (hkind endpoint rest)
  | readBody size => cases error <;> cases c.state <;> simp
  | resolve host service => simp
  | readHeader => simp
  | write buffer => simp

theorem not_connect_of_emptyBody {kind : OpKind} {outcome : Outcome}
    (h : kind.emptyBody outcome = true) (endpoint : Endpoint) (rest : List Endpoint) :
    kind ≠ .connect endpoint rest := by
  rintro rfl
  cases h

theorem receiving_of_emptyBody {op : Op} {outcome : Outcome} (hsome : op.outcome = some outcome)
    (h : op.kind.emptyBody outcome = true) : op.receiving = true := by
  rw [receiving_of_outcome hsome]
  obtain ⟨attempt, kind, o⟩ := op
  cases kind with
  | readBody size =>
    simp only [OpKind.emptyBody, Bool.and_eq_true, Option.isNone_iff_eq_none] at h
    simp [OpKind.receives, Outcome.aborted, h.1]
  | resolve host service => cases h
  | connect endpoint rest => cases h
  | readHeader => cases h
  | write buffer => cases h

theorem OneReceive.handled {op : Op} {outcome : Outcome} {i : ℕ} (h : OneReceive c)
    (hop : c.pending[i]? = some op) (hsome : op.outcome = some outcome)
    (hhandled : Handled { c with pending := c.pending.eraseIdx i } op outcome t)
    (hkeeps : op.kind.keepsReceive outcome c) : OneReceive t := by
  intro hs
  have hcount := Outstanding.countP_eraseIdx Op.receiving hop
  rw [receiving_of_outcome hsome] at hcount
  cases hhandled with
  | stay hstate hp hn hr =>
    have hc : c.state = .connected := hstate.symm.trans hs
    have hidle : (op.kind.receives && !outcome.aborted) = false := by
      cases hreceives : op.kind.receives with
      | false => rfl
      | true =>
        rcases hr hc hreceives with ha | hempty
        · rw [ha]
          rfl
        · rw [(keepsReceive_iff (not_connect_of_emptyBody hempty)).mp hkeeps hc] at hempty
          cases hempty
    rw [hidle] at hcount
    rw [receiving, hp]
    exact hcount.trans (h hc)
  | wait hstate => cases hstate.symm.trans hs
  | connected endpoint rest hkind herror hstate hp =>
    rw [hkind] at hkeeps hcount
    obtain ⟨hne, hnone⟩ := keepsReceive_connect endpoint rest herror hkeeps
    rw [hstate] at hs
    split at hs
    next hc =>
      have hleft : (c.pending.eraseIdx i).countP Op.receiving = 0 := hcount.trans (hnone hc)
      rw [receiving, hp, List.countP_append, receiving_fresh, hleft]
      rfl
    next => exact absurd hs hne
  | next kind hstate hp hn hr hb =>
    have hc := hstate.symm.trans hs
    rw [receiving, hp, List.countP_append, receiving_fresh, hr]
    refine Eq.trans ?_ (hcount.trans (h hc))
    cases hreceives : op.kind.receives with
    | false => rfl
    | true => simp [Outcome.aborted, hb hreceives]
  | retry endpoint next rest hkind herror hstate hp =>
    have hc : c.state = .connected := hstate.symm.trans hs
    rw [hkind] at hkeeps hcount
    have hdone := (keepsReceive_retry endpoint next rest herror hc).mp hkeeps
    rw [receiving, hp, List.countP_append, receiving_fresh, receiving_aborted,
      (Outstanding.countP_and_eq_iff _ _).mpr fun op' hmem => hdone op' (List.mem_of_mem_eraseIdx hmem)]
    exact hcount.trans (h hc)

end

section
variable [Host] {c t : ClientNode}

theorem keepsReceive_of_connect {attempt : ℕ} {endpoint : Endpoint} {rest : List Endpoint}
    {outcome : Outcome} {i : ℕ} (h : OneReceive c)
    (hop : c.pending[i]? = some ⟨attempt, .connect endpoint rest, some outcome⟩)
    (ht : OneReceive (connectHandler attempt outcome.error rest
      { c with pending := c.pending.eraseIdx i })) :
    (OpKind.connect endpoint rest).keepsReceive outcome c := by
  have hcount : (c.pending.eraseIdx i).countP Op.receiving = receiving c :=
    Outstanding.countP_eraseIdx Op.receiving hop
  obtain ⟨error, endpoints, bytes⟩ := outcome
  unfold OpKind.keepsReceive
  unfold connectHandler at ht
  cases error with
  | none =>
    dsimp only at ht
    rw [processEvent_connectReport, start_state] at ht
    cases hs : c.state with
    | waiting => trivial
    | negotiating =>
      rw [hs, if_pos rfl] at ht
      have hone : (c.pending.eraseIdx i ++ [_]).countP Op.receiving = 1 := ht rfl
      rw [List.countP_append, receiving_fresh, hcount] at hone
      exact Nat.succ.inj hone
    | connected =>
      rw [hs, if_neg nofun] at ht
      have hone : (c.pending.eraseIdx i ++ [_]).countP Op.receiving = 1 := ht rfl
      rw [List.countP_append, receiving_fresh, hcount, h hs] at hone
      cases hone
  | some error =>
    cases rest with
    | nil => cases c.state <;> trivial
    | cons next rest =>
      cases hs : c.state with
      | waiting => trivial
      | negotiating => trivial
      | connected =>
        have hone : ((c.pending.eraseIdx i).map Op.abort ++ [_]).countP Op.receiving = 1 := ht hs
        rw [List.countP_append, receiving_fresh, receiving_aborted] at hone
        have hall := (Outstanding.countP_and_eq_iff _ _).mp (hone.trans (hcount.trans (h hs)).symm)
        intro op hmem hreceiving
        rcases Outstanding.mem_eraseIdx_or hop hmem with rfl | hin
        · rfl
        · exact hall op hin hreceiving

theorem keepsReceive_of_oneReceive {op : Op} {outcome : Outcome} {i : ℕ} (hf : c.faulted = false)
    (h : OneReceive c) (hop : c.pending[i]? = some op) (hsome : op.outcome = some outcome)
    (ht : OneReceive (runHandler op outcome { c with pending := c.pending.eraseIdx i })) :
    op.kind.keepsReceive outcome c := by
  by_cases hconnect : ∃ endpoint rest, op.kind = .connect endpoint rest
  · obtain ⟨attempt, kind, o⟩ := op
    obtain ⟨endpoint, rest, rfl⟩ := hconnect
    cases hsome
    exact keepsReceive_of_connect h hop ht
  · rw [keepsReceive_iff fun endpoint rest hkind => hconnect ⟨endpoint, rest, hkind⟩]
    intro hs
    rw [← Bool.not_eq_true]
    intro hempty
    have hstays := emptyBody_stays (c := { c with pending := c.pending.eraseIdx i }) hf hs hempty
    have hcount := Outstanding.countP_eraseIdx Op.receiving hop
    have hone := ht hstays.1
    have hbefore : c.pending.countP Op.receiving = 1 := h hs
    rw [receiving, hstays.2] at hone
    rw [receiving_of_emptyBody hsome hempty, hbefore, hone] at hcount
    cases hcount

theorem oneReceive_iff (input : Input) (h : OneReceive c) (hassumed : NotInterrupted c input)
    (hstep : step c input = some t) : OneReceive t ↔ KeepsReceive c input := by
  obtain ⟨hf, hcases⟩ := steps_of_step hstep
  cases hcases with
  | connectTo dest thread => exact iff_of_true (h.called (called_connectTo c dest thread)) nofun
  | disconnect =>
    exact iff_of_true (h.called (called_disconnect c)) nofun
  | sendUserMessage msg recipient =>
    exact iff_of_true (h.called (called_sendUserMessage c msg recipient)) nofun
  | complete i outcome op hop hnone =>
    exact iff_of_true (h.complete hop hnone (hassumed i outcome op rfl hop)) nofun
  | handler i op outcome hop hsome =>
    constructor
    · rintro ht i op' outcome' ⟨⟩ hop' hsome'
      cases hop.symm.trans hop'
      cases hsome.symm.trans hsome'
      exact keepsReceive_of_oneReceive hf h hop hsome ht
    · intro hkeeps
      have hhandled := handled_runHandler (c := { c with pending := c.pending.eraseIdx i }) op outcome hf
      exact h.handled hop hsome hhandled (hkeeps i op outcome rfl hop hsome)

def Input.spares : Input → Bool
  | .complete _ outcome => !outcome.aborted
  | _ => true

theorem notInterrupted_along {es : List Input} (h : ∀ input ∈ es, input.spares = true) (s : ClientNode) :
    Along step (fun s input _ => NotInterrupted s input) s es := by
  induction es generalizing s with
  | nil => trivial
  | cons input es ih =>
    refine fun t _ => ⟨?_, ih (fun input' hmem => h input' (List.mem_cons_of_mem _ hmem)) t⟩
    rintro i outcome op rfl hop hreceives
    have hspares := h _ List.mem_cons_self
    rwa [Input.spares, Bool.not_eq_true'] at hspares

theorem oneReceive_run (es : List Input)
    (hassumed : Along step (fun s input _ => NotInterrupted s input) init es) :
    Along step (fun _ _ t => OneReceive t) init es ↔
      Along step (fun s input _ => KeepsReceive s input) init es :=
  along_congr_of (I := OneReceive) (fun _ _ _ _ h _ => h)
    (fun _ input _ h hassumed hstep => oneReceive_iff input h hassumed hstep) oneReceive_init
    hassumed

end

def lateRetry : List Input :=
  let endpoint : Endpoint := ⟨"127.0.0.1", 34443⟩
  let other : Endpoint := ⟨"127.0.0.2", 34443⟩
  [.connectTo ['a', ' ', 'b'] .started, .disconnect, .connectTo ['c', ' ', 'd'] .started,
    .complete 0 ⟨none, [endpoint], []⟩, .handler 0, .complete 1 ⟨none, [], []⟩, .handler 1,
    .complete 0 ⟨none, [other, endpoint], []⟩, .handler 0,
    .complete 1 ⟨some ⟨false, "Transport endpoint is already connected"⟩, [], []⟩, .handler 1]

theorem lateRetry_assumed :
    Along (@step littleEndianHost) (fun s input _ => NotInterrupted s input) init lateRetry :=
  @notInterrupted_along littleEndianHost lateRetry (by decide) init

theorem lateRetry_deaf : ∃ t, exec (@step littleEndianHost) init lateRetry = some t ∧
    t.state = .connected ∧ receiving t = 0 ∧ ¬ OneReceive t :=
  ⟨_, rfl, rfl, rfl, fun h => nomatch h rfl⟩

theorem oneReceive_run_lateRetry :
    ¬ Along (@step littleEndianHost) (fun s input _ => KeepsReceive s input) init lateRetry := by
  rw [← @oneReceive_run littleEndianHost lateRetry lateRetry_assumed]
  intro h
  have hrun : Along (@step littleEndianHost) (fun _ _ t => OneReceive t) init
    (lateRetry.take 10 ++ [.handler 1]) := h
  have hlast := (along_append hrun rfl _ rfl).1
  exact nomatch hlast rfl

end NukeMs.Client
