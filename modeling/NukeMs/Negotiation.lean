import NukeMs.ClientSteps
import NukeMs.Outstanding
import NukeMs.Runs

namespace NukeMs.Client

open Runs

def NotCancelled (c : ClientNode) (input : Input) : Prop :=
  ∀ i outcome op, input = .complete i outcome → c.pending[i]? = some op →
    op.kind.negotiates = true → outcome.aborted = false

def Op.promising (op : Op) : Bool := op.kind.negotiates && op.live

structure Negotiates (c : ClientNode) : Prop where
  promising : c.state = .negotiating → ∃ op ∈ c.pending, op.promising = true
  faulted : c.faulted = true → c.state = .connected

def CanGoOn [Host] (c : ClientNode) (i : ℕ) (op : Op) : Prop :=
  (op.outcome = none ∧ ∀ outcome, op.kind.admits outcome = true →
    ∃ t, step c (.complete i outcome) = some t) ∨ ∃ t, step c (.handler i) = some t

section
variable {c t : ClientNode}

theorem promising_fresh (attempt : ℕ) {kind : OpKind} (h : kind.negotiates = true) :
    Op.promising ⟨attempt, kind, none⟩ = true := by
  simp [Op.promising, Op.live, h]

theorem not_promising_of_aborted {op : Op} {outcome : Outcome} (hsome : op.outcome = some outcome)
    (ha : outcome.aborted = true) : op.promising = false := by
  simp [Op.promising, Op.live, hsome, ha]

theorem negotiates_init : Negotiates init := ⟨nofun, nofun⟩

theorem Negotiates.called [Host] {sent : Option NearUserMessage} (h : Negotiates c)
    (hcalled : Called c sent t) (hf : t.faulted = false) : Negotiates t := by
  constructor
  · intro hs
    cases hcalled with
    | stay hsent hstate hp =>
      rw [hp]
      exact h.promising (hstate.symm.trans hs)
    | wait hsent started hstate => cases hstate.symm.trans hs
    | request hsent attempt host service hstate hp =>
      rw [hp]
      exact ⟨_, List.mem_append_right _ (List.mem_singleton_self _), promising_fresh _ rfl⟩
    | write data hsent attempt hc hstate => cases hstate.symm.trans hs
  · intro hfault
    rw [hf] at hfault
    cases hfault

theorem Negotiates.handled {op : Op} {outcome : Outcome} {i : ℕ} (h : Negotiates c)
    (hop : c.pending[i]? = some op) (hsome : op.outcome = some outcome)
    (hhandled : Handled { c with pending := c.pending.eraseIdx i } op outcome t)
    (hs : t.state = .negotiating) : ∃ op' ∈ t.pending, op'.promising = true := by
  -- the promising operation is still there, or it is the one whose handler has run
  have hleft : c.state = .negotiating → op.promising = true ∨
      ∃ op' ∈ c.pending.eraseIdx i, op'.promising = true := by
    intro hc
    obtain ⟨op', hmem, hpromising⟩ := h.promising hc
    rcases Outstanding.mem_eraseIdx_or hop hmem with rfl | hin
    · exact .inl hpromising
    · exact .inr ⟨op', hin, hpromising⟩
  cases hhandled with
  | stay hstate hp hn hr =>
    rw [hp]
    have hc := hstate.symm.trans hs
    rcases hleft hc with hpromising | hin
    · have hnegotiates : op.kind.negotiates = true := by
        rw [Op.promising, Bool.and_eq_true] at hpromising
        exact hpromising.1
      rw [not_promising_of_aborted hsome (hn hc hnegotiates)] at hpromising
      cases hpromising
    · exact hin
  | wait hstate => cases hstate.symm.trans hs
  | connected endpoint rest hkind herror hstate hp =>
    rw [hstate] at hs
    split at hs
    · cases hs
    next hne => exact absurd hs hne
  | next kind hstate hp hn =>
    rw [hp]
    rcases hleft (hstate.symm.trans hs) with hpromising | ⟨op', hin, hpromising⟩
    · rw [Op.promising, Bool.and_eq_true] at hpromising
      exact ⟨_, List.mem_append_right _ (List.mem_singleton_self _),
        promising_fresh _ (hn.trans hpromising.1)⟩
    · exact ⟨op', List.mem_append_left _ hin, hpromising⟩
  | retry endpoint next rest hkind herror hstate hp =>
    rw [hp]
    exact ⟨_, List.mem_append_right _ (List.mem_singleton_self _), promising_fresh _ rfl⟩

theorem promising_complete {op : Op} {outcome : Outcome} {i : ℕ} (hop : c.pending[i]? = some op)
    (ha : op.kind.negotiates = true → outcome.aborted = false)
    (h : ∃ op' ∈ c.pending, op'.promising = true) :
    ∃ op' ∈ c.pending.set i { op with outcome := some outcome }, op'.promising = true := by
  obtain ⟨op', hmem, hpromising⟩ := h
  obtain ⟨j, hj⟩ := List.mem_iff_getElem?.mp hmem
  by_cases hij : j = i
  · subst hij
    cases hop.symm.trans hj
    rw [Op.promising, Bool.and_eq_true] at hpromising
    have hlt := (List.getElem?_eq_some_iff.mp hop).1
    refine ⟨_, List.mem_set hlt _, ?_⟩
    simp [Op.promising, Op.live, hpromising.1, ha hpromising.1]
  · refine ⟨op', List.mem_iff_getElem?.mpr ⟨j, ?_⟩, hpromising⟩
    rw [List.getElem?_set_ne (Ne.symm hij)]
    exact hj

end

section
variable [Host] {c t : ClientNode}

theorem negotiates_step (input : Input) (h : Negotiates c) (hassumed : NotCancelled c input)
    (hstep : step c input = some t) : Negotiates t := by
  obtain ⟨hf, hcases⟩ := steps_of_step hstep
  cases hcases with
  | connectTo dest thread =>
    exact h.called (called_connectTo c dest thread) ((connectTo_faulted dest thread).trans hf)
  | disconnect =>
    exact h.called (called_disconnect c)
      ((processEvent_faulted .disconnectRequest nofun).trans hf)
  | sendUserMessage msg recipient =>
    exact h.called (called_sendUserMessage c msg recipient)
      ((processEvent_faulted (.sendMsg (usermsg msg recipient c)) nofun).trans hf)
  | complete i outcome op hop hnone hadm =>
    refine ⟨?_, h.faulted⟩
    intro hs
    exact promising_complete hop (hassumed i outcome op rfl hop) (h.promising hs)
  | handler i op outcome hop hsome =>
    have hhandled := handled_runHandler (c := { c with pending := c.pending.eraseIdx i }) op outcome hf
    exact ⟨h.handled hop hsome hhandled, runHandler_faulted op outcome hf⟩

theorem canGoOn (hf : c.faulted = false) {i : ℕ} {op : Op} (hop : c.pending[i]? = some op) :
    CanGoOn c i op := by
  cases hsome : op.outcome with
  | none =>
    refine .inl ⟨hsome, ?_⟩
    intro outcome hadm
    refine ⟨{ c with pending := c.pending.set i { op with outcome := some outcome } }, ?_⟩
    simp [step, hf, hop, hsome, hadm]
  | some outcome =>
    refine .inr ⟨runHandler op outcome { c with pending := c.pending.eraseIdx i }, ?_⟩
    simp [step, hf, hop, hsome]

theorem negotiation_run (es : List Input)
    (hassumed : Along step (fun s input _ => NotCancelled s input) init es)
    {t : ClientNode} (h : exec step init es = some t) (hs : t.state = .negotiating) :
    ∃ i op, t.pending[i]? = some op ∧ op.kind.negotiates = true ∧ op.live = true ∧ CanGoOn t i op := by
  have hinv : Negotiates t := exec_invariant_along
    (fun _ input _ hnegotiates hassumed hstep => negotiates_step input hnegotiates hassumed hstep)
    negotiates_init hassumed h
  obtain ⟨op, hmem, hpromising⟩ := hinv.promising hs
  obtain ⟨i, hop⟩ := List.mem_iff_getElem?.mp hmem
  rw [Op.promising, Bool.and_eq_true] at hpromising
  have hf : t.faulted = false := by
    rw [← Bool.not_eq_true]
    intro hfault
    cases hs.symm.trans (hinv.faulted hfault)
  exact ⟨i, op, hop, hpromising.1, hpromising.2, canGoOn hf hop⟩

end

def serverA : Endpoint := ⟨"10.0.0.1", 34443⟩

def serverB : Endpoint := ⟨"10.0.0.2", 34443⟩

def leftover : List Input :=
  [.connectTo ['a', ' ', 'b'] .started, .complete 0 ⟨none, [serverA, serverB], []⟩, .handler 0,
    .disconnect, .connectTo ['c', ' ', 'd'] .started, .handler 0, .complete 0 ⟨none, [serverA], []⟩,
    .handler 0]

theorem notCancelled_of_resolved (c : ClientNode) (i : ℕ) (endpoints : List Endpoint) :
    NotCancelled c (.complete i ⟨none, endpoints, []⟩) := by
  rintro i outcome op ⟨⟩ _ _
  rfl

theorem leftover_notCancelled : Along (@step littleEndianHost) (fun s input _ => NotCancelled s input)
    init leftover :=
  fun _ _ => ⟨nofun, fun _ _ => ⟨notCancelled_of_resolved _ _ _, fun _ _ => ⟨nofun, fun _ _ => ⟨nofun,
    fun _ _ => ⟨nofun, fun _ _ => ⟨nofun, fun _ _ => ⟨notCancelled_of_resolved _ _ _, fun _ _ =>
      ⟨nofun, trivial⟩⟩⟩⟩⟩⟩⟩⟩

theorem negotiation_run_leftover : ∃ t : ClientNode,
    exec (@step littleEndianHost) init leftover = some t ∧ t.state = .negotiating ∧
      t.pending = [⟨1, .connect serverB [], none⟩, ⟨2, .connect serverA [], none⟩] ∧
      ∃ i op, t.pending[i]? = some op ∧ op.kind.negotiates = true ∧ op.live = true ∧
        @CanGoOn littleEndianHost t i op :=
  ⟨_, rfl, rfl, rfl, @negotiation_run littleEndianHost leftover leftover_notCancelled _ rfl rfl⟩

end NukeMs.Client
