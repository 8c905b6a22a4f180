import NukeMs.ClientCalls

namespace NukeMs.Client

def Call.armed : Call → Option (List Endpoint)
  | .start (.connect _ rest) => some rest
  | _ => none

def Call.tried : Call → Option Endpoint
  | .start (.connect endpoint _) => some endpoint
  | _ => none

def Call.reported : Call → Option (Bool × String)
  | .processEvent (.connectReport success message) => some (success, message)
  | _ => none

def tried (calls : List Call) : List Endpoint := calls.filterMap Call.tried

def reported (calls : List Call) : List (Bool × String) := calls.filterMap Call.reported

def continueTrial (calls : List Call) : List (Option ErrorCode) → List Call
  | [] => calls
  | outcome :: outcomes =>
    match calls.findSome? Call.armed with
    | none => calls
    | some rest => calls ++ continueTrial (connectHandlerCalls outcome rest) outcomes

def trial (error : Option ErrorCode) (endpoints : List Endpoint) (outcomes : List (Option ErrorCode)) :
    List Call :=
  continueTrial (resolveHandlerCalls error endpoints) outcomes

def Failed (outcome : Option ErrorCode) : Prop :=
  ∃ error, outcome = some error ∧ error.operationAborted = false

structure TriesInOrder (endpoints : List Endpoint) (outcomes : List (Option ErrorCode))
    (calls : List Call) : Prop where
  inOrder : tried calls <+: endpoints
  success : ∀ failures after, outcomes = failures ++ none :: after → (∀ o ∈ failures, Failed o) →
    failures.length < endpoints.length →
      tried calls = endpoints.take (failures.length + 1) ∧
        reported calls = [(true, "Connection succeeded.")]
  failure : ∀ failures error after, outcomes = failures ++ some error :: after →
    (∀ o ∈ failures, Failed o) → error.operationAborted = false →
      failures.length + 1 = endpoints.length →
        tried calls = endpoints ∧ reported calls = [(false, error.message)]
  aborted : ∀ failures error after, outcomes = failures ++ some error :: after →
    (∀ o ∈ failures, Failed o) → error.operationAborted = true → failures.length < endpoints.length →
      tried calls = endpoints.take (failures.length + 1) ∧ reported calls = []
  pending : (∀ o ∈ outcomes, Failed o) → outcomes.length < endpoints.length →
    tried calls = endpoints.take (outcomes.length + 1) ∧ reported calls = []

def afterConnect (rest : List Endpoint) : List (Option ErrorCode) → List Call
  | [] => []
  | outcome :: outcomes => continueTrial (connectHandlerCalls outcome rest) outcomes

section
variable {rest : List Endpoint} {outcomes : List (Option ErrorCode)} {error : ErrorCode}

theorem continueTrial_armed {calls : List Call} (h : calls.findSome? Call.armed = some rest) :
    continueTrial calls outcomes = calls ++ afterConnect rest outcomes := by
  cases outcomes with
  | nil => rw [continueTrial, afterConnect, List.append_nil]
  | cons outcome outcomes => rw [continueTrial, h, afterConnect]

theorem continueTrial_unarmed {calls : List Call} (h : calls.findSome? Call.armed = none) :
    continueTrial calls outcomes = calls := by
  cases outcomes with
  | nil => rw [continueTrial]
  | cons outcome outcomes => rw [continueTrial, h]

theorem afterConnect_success : afterConnect rest (none :: outcomes) = connectHandlerCalls none rest := by
  rw [afterConnect, continueTrial_unarmed]
  cases rest <;> rfl

theorem afterConnect_next {next : Endpoint} : afterConnect (next :: rest) (some error :: outcomes) =
    [.closeSocket, .start (.connect next rest)] ++ afterConnect rest outcomes := by
  have harmed : (connectHandlerCalls (some error) (next :: rest)).findSome? Call.armed = some rest := rfl
  rw [afterConnect, continueTrial_armed harmed]
  rfl

theorem afterConnect_last : afterConnect [] (some error :: outcomes) =
    connectHandlerCalls (some error) [] := by
  rw [afterConnect, continueTrial_unarmed]
  unfold connectHandlerCalls
  by_cases h : error.operationAborted = true <;> simp [h, Call.armed]

@[simp] theorem tried_append (calls more : List Call) : tried (calls ++ more) = tried calls ++ tried more :=
  List.filterMap_append

@[simp] theorem reported_append (calls more : List Call) :
    reported (calls ++ more) = reported calls ++ reported more :=
  List.filterMap_append

theorem tried_afterConnect (rest : List Endpoint) (outcomes : List (Option ErrorCode)) :
    tried (afterConnect rest outcomes) <+: rest := by
  induction outcomes generalizing rest with
  | nil => exact List.nil_prefix
  | cons outcome outcomes ih =>
    cases outcome with
    | none =>
      rw [afterConnect_success]
      cases rest <;> exact List.nil_prefix
    | some error =>
      cases rest with
      | nil =>
        rw [afterConnect_last, connectHandlerCalls]
        split <;> exact List.nil_prefix
      | cons next rest =>
        rw [afterConnect_next, tried_append]
        exact List.cons_prefix_cons.mpr ⟨rfl, ih rest⟩

theorem afterConnect_errors {errors : List (Option ErrorCode)} (herrors : ∀ o ∈ errors, o.isSome = true)
    (hlen : errors.length ≤ rest.length) (outcomes : List (Option ErrorCode)) : ∃ calls, afterConnect rest (errors ++ outcomes) =
      calls ++ afterConnect (rest.drop errors.length) outcomes ∧
        tried calls = rest.take errors.length ∧ reported calls = [] := by
  induction errors generalizing rest with
  | nil => exact ⟨[], rfl, rfl, rfl⟩
  | cons outcome errors ih =>
    obtain ⟨error, rfl⟩ := Option.isSome_iff_exists.mp (herrors outcome List.mem_cons_self)
    cases rest with
    | nil => exact absurd hlen (Nat.not_succ_le_zero _)
    | cons next rest =>
      obtain ⟨calls, hcalls, htried, hreported⟩ := ih
        (fun o ho => herrors o (List.mem_cons_of_mem _ ho)) (Nat.le_of_succ_le_succ hlen)
      refine ⟨[.closeSocket, .start (.connect next rest)] ++ calls, ?_, ?_, ?_⟩
      · rw [List.cons_append, afterConnect_next, hcalls, List.append_assoc]
        rfl
      · rw [tried_append, htried]
        rfl
      · rw [reported_append, hreported]
        rfl

theorem isSome_of_failed {failures : List (Option ErrorCode)} (h : ∀ o ∈ failures, Failed o) :
    ∀ o ∈ failures, o.isSome = true := by
  intro o ho
  obtain ⟨error, rfl, -⟩ := h o ho
  rfl

theorem trial_errors (resolveError : Option ErrorCode) (first : Endpoint)
    {errors : List (Option ErrorCode)} (herrors : ∀ o ∈ errors, o.isSome = true)
    (hlen : errors.length ≤ rest.length) (outcomes : List (Option ErrorCode)) :
    tried (trial resolveError (first :: rest) (errors ++ outcomes)) =
        (first :: rest).take (errors.length + 1) ++
          tried (afterConnect (rest.drop errors.length) outcomes) ∧
      reported (trial resolveError (first :: rest) (errors ++ outcomes)) =
        reported (afterConnect (rest.drop errors.length) outcomes) := by
  obtain ⟨calls, hcalls, htried, hreported⟩ := afterConnect_errors herrors hlen outcomes
  have htrial : trial resolveError (first :: rest) (errors ++ outcomes) =
      [.resolved (first :: rest), .start (.connect first rest)] ++ (calls ++
        afterConnect (rest.drop errors.length) outcomes) := by
    rw [← hcalls, trial]
    cases resolveError <;> exact continueTrial_armed rfl
  rw [htrial, tried_append, tried_append, reported_append, reported_append, htried, hreported]
  exact ⟨rfl, rfl⟩

end

def AbortedLast (endpoints : List Endpoint) (outcomes : List (Option ErrorCode)) : Prop :=
  ∀ failures error after, outcomes = failures ++ some error :: after → (∀ o ∈ failures, Failed o) →
    error.operationAborted = true → endpoints.length ≤ failures.length + 1

theorem triesInOrder (resolveError : Option ErrorCode) (first : Endpoint) (rest : List Endpoint)
    {outcomes : List (Option ErrorCode)} (hlast : AbortedLast (first :: rest) outcomes) :
    TriesInOrder (first :: rest) outcomes (trial resolveError (first :: rest) outcomes) where
  inOrder := by
    have hnone : ∀ o ∈ ([] : List (Option ErrorCode)), o.isSome = true := by simp
    obtain ⟨htried, -⟩ := trial_errors resolveError first hnone (Nat.zero_le rest.length) outcomes
    rw [List.nil_append] at htried
    rw [htried]
    exact List.cons_prefix_cons.mpr ⟨rfl, tried_afterConnect rest outcomes⟩
  success failures after houtcomes hfailed hlen := by
    obtain ⟨htried, hreported⟩ := trial_errors resolveError first
      (isSome_of_failed hfailed) (Nat.le_of_lt_succ hlen) (none :: after)
    rw [← houtcomes, afterConnect_success] at htried hreported
    rw [htried, hreported]
    exact ⟨List.append_nil _, rfl⟩
  failure failures error after houtcomes hfailed hfine hlen := by
    rw [List.length_cons, Nat.add_right_cancel_iff] at hlen
    obtain ⟨htried, hreported⟩ := trial_errors resolveError first
      (isSome_of_failed hfailed) (Nat.le_of_eq hlen) (some error :: after)
    have hcalls : connectHandlerCalls (some error) [] =
        [.processEvent (.connectReport false error.message)] := by
      simp [connectHandlerCalls, hfine]
    rw [← houtcomes, hlen, List.drop_length, afterConnect_last, hcalls] at htried hreported
    rw [htried, hreported, ← List.length_cons, List.take_length]
    exact ⟨List.append_nil _, rfl⟩
  aborted failures error after houtcomes hfailed haborted hlen := by
    have hend : failures.length = rest.length := by
      have := hlast failures error after houtcomes hfailed haborted
      rw [List.length_cons] at this hlen
      omega
    obtain ⟨htried, hreported⟩ := trial_errors resolveError first
      (isSome_of_failed hfailed) (Nat.le_of_eq hend) (some error :: after)
    have hcalls : connectHandlerCalls (some error) [] = [] := by
      simp [connectHandlerCalls, haborted]
    rw [← houtcomes, hend, List.drop_length, afterConnect_last, hcalls] at htried hreported
    rw [htried, hreported, hend]
    exact ⟨List.append_nil _, rfl⟩
  pending hfailed hlen := by
    obtain ⟨htried, hreported⟩ := trial_errors resolveError first
      (isSome_of_failed hfailed) (Nat.le_of_lt_succ hlen) []
    rw [List.append_nil] at htried hreported
    rw [htried, hreported]
    exact ⟨List.append_nil _, rfl⟩

/-- `connectHandler` looks for the next endpoint before it looks for an abortion. -/
theorem trial_iff [Host] (resolveError : Option ErrorCode) (first : Endpoint) (rest : List Endpoint)
    (outcomes : List (Option ErrorCode)) :
    (∀ attempt c, resolveHandler attempt resolveError (first :: rest) c =
      performAll attempt (resolveHandlerCalls resolveError (first :: rest)) c) ∧
    (∀ attempt c outcome left, connectHandler attempt outcome left c =
      performAll attempt (connectHandlerCalls outcome left) c) ∧
    (TriesInOrder (first :: rest) outcomes (trial resolveError (first :: rest) outcomes) ↔
      AbortedLast (first :: rest) outcomes) := by
  refine ⟨fun attempt c => resolveHandler_eq attempt c resolveError (first :: rest),
    fun attempt c => connectHandler_eq attempt c, ?_, triesInOrder resolveError first rest⟩
  intro h failures error after houtcomes hfailed haborted
  by_contra hmore
  rw [List.length_cons] at hmore
  have herrors : ∀ o ∈ failures ++ [some error], o.isSome = true := by
    intro o ho
    rcases List.mem_append.mp ho with hf | he
    · exact isSome_of_failed hfailed o hf
    · rw [List.mem_singleton.mp he]
      rfl
  have hlen : (failures ++ [some error]).length ≤ rest.length := by
    rw [List.length_append, List.length_singleton]
    omega
  obtain ⟨htried, -⟩ := trial_errors resolveError first herrors hlen after
  rw [List.append_assoc, List.singleton_append, ← houtcomes,
    (h.aborted failures error after houtcomes hfailed haborted (by rw [List.length_cons]; omega)).1] at htried
  have hlength := congrArg List.length htried
  simp only [List.length_append, List.length_take, List.length_cons] at hlength
  omega

def twoEndpoints : List Endpoint := [⟨"::1", 34443⟩, ⟨"127.0.0.1", 34443⟩]

theorem abortedTrial_goesOn : ¬ TriesInOrder twoEndpoints [operationAborted.error]
    (trial none twoEndpoints [operationAborted.error]) := by
  intro h
  have htried := (h.aborted [] ⟨true, "Operation canceled"⟩ [] rfl (by simp) rfl (by decide)).1
  exact absurd htried (by decide)

end NukeMs.Client
