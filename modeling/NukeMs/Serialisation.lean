import NukeMs.ClientNode
import NukeMs.Threads

namespace NukeMs.Client

open SegmentationLayerBase Runs Threads

/-- A named `scoped_lock` is released at the end of its scope. -/
def scopedLock (scope : List Action) : List Action := .lock :: scope ++ [.unlock]

/-- `boost::mutex::scoped_lock{machine_mutex};` is a temporary, and it is released at once. -/
def scopedLockTemporary : List Action := [.lock, .unlock]

def processEventActions : List Action := [.enter, .leave]

inductive PublicCall
  | connectTo (dest : List Char)
  | sendUserMessage (msg : List Byte) (recipient : UniqueUserID)
  | disconnect

def PublicCall.actions : PublicCall → List Action
  | .connectTo dest =>
    match parseDestinationString dest with
    | some _ => scopedLockTemporary ++ processEventActions
    | none => []
  | .sendUserMessage _ _ => scopedLockTemporary ++ processEventActions
  | .disconnect => scopedLockTemporary ++ processEventActions

def PublicCall.processesEvent (c : PublicCall) : Bool := Action.enter ∈ c.actions

theorem PublicCall.actions_eq (c : PublicCall) :
    c.actions = if c.processesEvent then Section.unguarded.actions else [] := by
  have hcases : c.actions = [] ∨ c.actions = Section.unguarded.actions := by
    cases c with
    | connectTo dest =>
      simp only [actions]
      split
      · exact .inr rfl
      · exact .inl rfl
    | sendUserMessage msg recipient => exact .inr rfl
    | disconnect => exact .inr rfl
  obtain h | h := hcases
  · rw [processesEvent, h]
    rfl
  · rw [processesEvent, h]
    rfl

structure HandlerCall where
  kind : OpKind
  outcome : Outcome

section
variable [Host]

def resolveHandlerActions (error : Option ErrorCode) (endpoints : List Endpoint) : List Action :=
  match endpoints, error with
  | [], some error => if error.operationAborted then [] else scopedLock processEventActions
  | [], none => scopedLock processEventActions
  | _ :: _, _ => []

def connectHandlerActions (error : Option ErrorCode) (rest : List Endpoint) : List Action :=
  match error, rest with
  | none, _ => scopedLock processEventActions
  | some _, _ :: _ => []
  | some error, [] => if error.operationAborted then [] else scopedLock processEventActions

def writeHandlerActions (error : Option ErrorCode) : List Action :=
  match error with
  | none => []
  | some _ => scopedLock processEventActions

def receiveSegmentationHeaderHandlerActions (error : Option ErrorCode) (rcvbuf : List Byte) :
    List Action :=
  match error with
  | some error => if error.operationAborted then [] else scopedLock processEventActions
  | none =>
    match admitHeader (.msgLayerError "Oversized packet.") rcvbuf with
    | .ok _ => []
    | .error _ => scopedLock processEventActions

def receiveSegmentationBodyHandlerActions (error : Option ErrorCode) : List Action :=
  match error with
  | some _ => scopedLock processEventActions
  -- the lock stands in a block of its own, which ends before the next read is started
  | none => scopedLock processEventActions

def HandlerCall.actions (h : HandlerCall) : List Action :=
  match h.kind with
  | .resolve _ _ => resolveHandlerActions h.outcome.error h.outcome.endpoints
  | .connect _ rest => connectHandlerActions h.outcome.error rest
  | .readHeader => receiveSegmentationHeaderHandlerActions h.outcome.error h.outcome.bytes
  | .readBody _ => receiveSegmentationBodyHandlerActions h.outcome.error
  | .write _ => writeHandlerActions h.outcome.error

def HandlerCall.processesEvent (h : HandlerCall) : Bool := Action.enter ∈ h.actions

theorem HandlerCall.actions_eq (h : HandlerCall) :
    h.actions = if h.processesEvent then Section.guarded.actions else [] := by
  have hcases : h.actions = [] ∨ h.actions = Section.guarded.actions := by
    unfold actions
    split
    · unfold resolveHandlerActions
      split
      · split
        · exact .inl rfl
        · exact .inr rfl
      · exact .inr rfl
      · exact .inl rfl
    · unfold connectHandlerActions
      split
      · exact .inr rfl
      · exact .inl rfl
      · split
        · exact .inl rfl
        · exact .inr rfl
    · unfold receiveSegmentationHeaderHandlerActions
      split
      · split
        · exact .inl rfl
        · exact .inr rfl
      · split
        · exact .inl rfl
        · exact .inr rfl
    · unfold receiveSegmentationBodyHandlerActions
      split
      · exact .inr rfl
      · exact .inr rfl
    · unfold writeHandlerActions
      split
      · exact .inl rfl
      · exact .inr rfl
  obtain hactions | hactions := hcases
  · rw [processesEvent, hactions]
    rfl
  · rw [processesEvent, hactions]
    rfl

end

section
variable [Host]

theorem runHandler_of_no_event {op : Op} {outcome : Outcome} (c : ClientNode)
    (h : (HandlerCall.mk op.kind outcome).processesEvent = false) :
    (runHandler op outcome c).state = c.state := by
  have hnone : (HandlerCall.mk op.kind outcome).actions = [] := by
    rw [HandlerCall.actions_eq, h]
    rfl
  obtain ⟨attempt, kind, o⟩ := op
  obtain ⟨error, endpoints, bytes⟩ := outcome
  cases kind with
  | resolve host service =>
    simp only [HandlerCall.actions, resolveHandlerActions] at hnone
    simp only [runHandler, resolveHandler]
    split at hnone
    next error =>
      split at hnone
      next haborted => simp only [if_pos haborted]
      next => cases hnone
    · cases hnone
    · rfl
  | connect endpoint rest =>
    simp only [HandlerCall.actions, connectHandlerActions] at hnone
    simp only [runHandler, connectHandler]
    split at hnone
    · cases hnone
    · rfl
    · split at hnone
      next haborted => simp only [if_pos haborted]
      next => cases hnone
  | readHeader =>
    simp only [HandlerCall.actions, receiveSegmentationHeaderHandlerActions] at hnone
    simp only [runHandler, receiveSegmentationHeaderHandler]
    cases error with
    | some error =>
      dsimp only at hnone ⊢
      split at hnone
      next haborted => simp only [if_pos haborted]
      next => cases hnone
    | none =>
      cases hadm : admitHeader (.msgLayerError "Oversized packet.") bytes with
      | ok body => rfl
      | error e =>
        rw [hadm] at hnone
        cases hnone
  | readBody size => cases error <;> cases hnone
  | write buffer =>
    cases error with
    | none => rfl
    | some error => cases hnone

theorem connectTo_of_no_event {dest : List Char} (thread : ThreadStart) (c : ClientNode)
    (h : (PublicCall.connectTo dest).processesEvent = false) :
    (connectTo dest thread c).state = c.state := by
  have hnone : (PublicCall.connectTo dest).actions = [] := by
    rw [PublicCall.actions_eq, h]
    rfl
  simp only [PublicCall.actions] at hnone
  simp only [connectTo]
  split at hnone
  · cases hnone
  next hdest =>
    rw [hdest]
    rfl

end

inductive Thread
  | application (n : ℕ)
  | io (n : ℕ)
  deriving DecidableEq

section
variable [Host]

def program (calls : ℕ → List PublicCall) (handlers : ℕ → List HandlerCall) : Thread → List Action
  | .application n => (calls n).flatMap PublicCall.actions
  | .io n => (handlers n).flatMap HandlerCall.actions

def sections (calls : ℕ → List PublicCall) (handlers : ℕ → List HandlerCall) : Thread → List Section
  | .application n => (calls n).flatMap fun c => if c.processesEvent then [.unguarded] else []
  | .io n => (handlers n).flatMap fun h => if h.processesEvent then [.guarded] else []

variable {calls : ℕ → List PublicCall} {handlers : ℕ → List HandlerCall}

theorem program_eq (t : Thread) :
    program calls handlers t = Threads.actions (sections calls handlers t) := by
  cases t with
  | application n =>
    rw [program, sections, Threads.actions, List.flatMap_assoc]
    refine congrArg (List.flatMap · _) (funext ?_)
    intro c
    rw [c.actions_eq]
    cases c.processesEvent <;> rfl
  | io n =>
    rw [program, sections, Threads.actions, List.flatMap_assoc]
    refine congrArg (List.flatMap · _) (funext ?_)
    intro h
    rw [h.actions_eq]
    cases h.processesEvent <;> rfl

theorem unguarded_mem {t : Thread} : .unguarded ∈ sections calls handlers t ↔
    ∃ n, t = .application n ∧ ∃ c ∈ calls n, c.processesEvent = true := by
  cases t with
  | application n => simp [sections]
  | io n => simp [sections]

theorem sections_eq_nil {t : Thread} : sections calls handlers t = [] ↔ match t with
    | .application n => ∀ c ∈ calls n, c.processesEvent = false
    | .io n => ∀ h ∈ handlers n, h.processesEvent = false := by
  cases t with
  | application n => simp [sections]
  | io n => simp [sections]

theorem serialised_iff (calls : ℕ → List PublicCall) (handlers : ℕ → List HandlerCall) :
    (∀ schedule s, exec act (Threads.start (program calls handlers)) schedule = some s → Exclusive s) ↔
      ∀ n, (∃ c ∈ calls n, c.processesEvent = true) →
        (∀ m, m ≠ n → ∀ c ∈ calls m, c.processesEvent = false) ∧
          ∀ m, ∀ h ∈ handlers m, h.processesEvent = false := by
  have hprogram : program calls handlers = fun t => Threads.actions (sections calls handlers t) :=
    funext program_eq
  rw [hprogram, exclusive_iff]
  constructor
  · intro h n hn
    constructor
    · intro m hm
      have hnone := h (.application n) (.application m) (by simp [Ne.symm hm])
        (unguarded_mem.mpr ⟨n, rfl, hn⟩)
      exact sections_eq_nil.mp hnone
    · intro m
      have hnone := h (.application n) (.io m) nofun (unguarded_mem.mpr ⟨n, rfl, hn⟩)
      exact sections_eq_nil.mp hnone
  · intro h t t' hne hmem
    obtain ⟨n, rfl, hn⟩ := unguarded_mem.mp hmem
    obtain ⟨hcalls, hhandlers⟩ := h n hn
    rw [sections_eq_nil]
    cases t' with
    | application m => exact hcalls m fun hm => hne (by rw [hm])
    | io m => exact hhandlers m

end

theorem twoDisconnects_overlap : ∃ schedule s,
    exec act (Threads.start (@program littleEndianHost (fun n => if n < 2 then [.disconnect] else [])
      fun _ => [])) schedule = some s ∧
    s.inside (.application 0) = true ∧ s.inside (.application 1) = true ∧ ¬ Exclusive s := by
  refine ⟨[.application 0, .application 0, .application 0, .application 1, .application 1,
    .application 1], _, rfl, rfl, rfl, ?_⟩
  intro h
  exact absurd (h (.application 0) (.application 1) rfl rfl) nofun

end NukeMs.Client
