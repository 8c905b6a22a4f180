import NukeMs.ServerAccept

namespace NukeMs.Server

open ReferenceCounter SegmentationLayerBase

inductive Reaction
  | rest
  | fail (errmsg : String)
  | start (op : Operation)
  | broadcast (body : List Byte)
  | escape (e : Exn)

def Reaction.isBroadcast : Reaction → Bool
  | .broadcast _ => true
  | _ => false

def Reaction.status (r : Reaction) (status : Status) : Status :=
  match r with
  | .escape e => .threw e
  | _ => status

section
variable {u : ℕ} {body : List Byte} {s : DispatchingServer}

def delivered (u : ℕ) (body : List Byte) (s : DispatchingServer) : DispatchingServer :=
  log [.received u ((s.peer u).headerBuffer ++ body),
    .posted u (.msgReceived (s.peer u).connectionId ⟨SerializedData.ofBlock body⟩)] s

theorem delivered_wellFormed (hs : WellFormed s) :
    WellFormed (delivered u body s) := ⟨hs.listed, hs.alive, hs.fresh⟩

theorem delivered_hears {v : ℕ} (h : Hears v s) : Hears v (delivered u body s) := by
  rw [Hears, delivered, log_trace, listener_append]
  simp only [List.foldl_cons, List.foldl_nil, Listener.hear]
  split <;> exact h

theorem delivered_heard {v : ℕ} (h : Hears v s) :
    heardBy v (delivered u body s).trace = heardBy v s.trace ++
      if (s.peer v).destroyed then [] else [(s.peer u).headerBuffer ++ body] := by
  rw [heardBy, delivered, log_trace, listener_append]
  simp only [List.foldl_cons, List.foldl_nil, Listener.hear]
  rw [h]
  cases (s.peer v).destroyed <;> simp [heardBy]

end

theorem init_wellFormed : WellFormed init where
  listed id v hv := by simp [init] at hv
  alive v hv := by cases hv
  fresh v _ := rfl

section
variable [Host]

def reaction (op : Operation) (result : Completion) : Reaction :=
  match op, result with
  | .write _, .ok _ => .rest
  | _, .error error => .fail error.message
  | .readBody _, .ok body => .broadcast body
  | .readHeader, .ok bytes =>
    match admitHeader .invalidHeaderError bytes with
    | .ok body => .start (.readBody body.length)
    | .error e => if e = .invalidHeaderError then .fail e.what else .escape e

theorem reaction_broadcast {op : Operation} {result : Completion} {body : List Byte} (h : reaction op result = .broadcast body) :
    ∃ n, op = .readBody n ∧ result = .ok body := by
  cases op with
  | write buffer => cases result <;> cases h
  | readHeader =>
    cases result with
    | error error => cases h
    | ok bytes =>
      simp only [reaction] at h
      split at h
      · cases h
      · split at h <;> cases h
  | readBody n =>
    cases result with
    | error error => cases h
    | ok bytes => cases h; exact ⟨n, rfl, rfl⟩

end

variable [HandlerCopies]

def Peer.react (p : Peer) : Reaction → Peer
  | .rest => p
  | .fail _ => p.fail
  | .start op => p.queue op
  | .broadcast body => (p.queue (.write (SegmentationLayer.packet body))).queue .readHeader
  | .escape _ => p

def Peer.entered (p : Peer) (i : ℕ) (op : Operation) (result : Completion) : Peer :=
  (p.taken i op result).retain HandlerCopies.calling

def Peer.handled (p : Peer) (i : ℕ) (op : Operation) (result : Completion) (r : Reaction) : Peer :=
  ((p.entered i op result).react r).release (HandlerCopies.calling + 1)

def entered (u i : ℕ) (op : Operation) (result : Completion) (s : DispatchingServer) :
    DispatchingServer :=
  (increaseRefCount u)^[HandlerCopies.calling] (log [.handler u] (modify u (Peer.taken i op result) s))

section
variable {u i : ℕ} {op : Operation} {result : Completion} {s : DispatchingServer}

theorem Local.entered (i : ℕ) (op : Operation) (result : Completion) (ho : Owns u s) : Local u s (entered u i op result s) := by
  have h1 : Local u s (Server.modify u (Peer.taken i op result) s) := Local.modify _ rfl rfl ho
  have h2 := h1.trans (Local.log [.handler u] rfl (h1.owns ho))
  exact h2.trans (Local.increases _ (h2.owns ho))

theorem entered_peer : (entered u i op result s).peer u = (s.peer u).entered i op result := by
  rw [entered, increases_peer]
  simp [Peer.entered]

theorem entered_headerBuffer (bytes : List Byte) (hop : op = .readHeader) (hres : result = .ok bytes) :
    ((entered u i op result s).peer u).headerBuffer = bytes := by
  subst hop hres
  rw [entered_peer]
  rfl

theorem entered_status : (entered u i op result s).status = s.status := increases_status _

end

variable [Host]

def perform (u : ℕ) (s : DispatchingServer) : Reaction → DispatchingServer
  | .rest => s
  | .fail errmsg => postError errmsg u s
  | .start op => startOperation u op s
  | .broadcast body => rcvBodyHandler (.ok body) u s
  | .escape e => { s with status := .threw e }

variable {u i : ℕ} {op : Operation} {result : Completion} {r : Reaction} {s t : DispatchingServer}

theorem runHandler_eq (hbuf : ∀ bytes, op = .readHeader → result = .ok bytes →
    (s.peer u).headerBuffer = bytes) : runHandler op result u s = perform u s (reaction op result) := by
  unfold runHandler reaction
  cases op with
  | write buffer => cases result <;> rfl
  | readBody size => cases result <;> rfl
  | readHeader =>
    cases result with
    | error error => rfl
    | ok bytes =>
      simp only [rcvHeaderHandler, hbuf bytes rfl rfl]
      cases admitHeader .invalidHeaderError bytes with
      | ok body => rfl
      | error e =>
        dsimp only
        split <;> rfl

theorem invoke_eq (u i : ℕ) (op : Operation) (result : Completion) (s : DispatchingServer) :
    invoke op result u (modify u (Peer.taken i op result) s) =
      (decreaseRefCount u)^[HandlerCopies.calling + 1]
        (perform u (entered u i op result s) (reaction op result)) := by
  have hrun := runHandler_eq (s := entered u i op result s) (u := u) entered_headerBuffer
  rw [← hrun]
  rfl

theorem perform_local (ho : Owns u s) (hd : (s.peer u).destroyed = false)
    (hb : r.isBroadcast = false) : Local u s (perform u s r) ∧
      (perform u s r).peer u = (s.peer u).react r ∧ (perform u s r).status = r.status s.status := by
  cases r with
  | rest => exact ⟨Local.refl ho, rfl, rfl⟩
  | fail errmsg =>
    exact ⟨Local.postError errmsg ho hd, postError_peer errmsg ho hd, postError_status errmsg ho hd⟩
  | start op =>
    exact ⟨Local.startOperation op ho, startOperation_peer op ho, startOperation_status op⟩
  | broadcast body => cases hb
  | escape e => exact ⟨Local.withStatus _ ho, rfl, rfl⟩

theorem invoke_local (i : ℕ) (op : Operation) (result : Completion) (hs : WellFormed s)
    (hd : (s.peer u).destroyed = false) (hb : (reaction op result).isBroadcast = false) :
    let t := invoke op result u (modify u (Peer.taken i op result) s)
    Local u s t ∧ t.peer u = (s.peer u).handled i op result (reaction op result) ∧
      t.status = (reaction op result).status s.status := by
  have hin : Local u s (entered u i op result s) := Local.entered i op result (hs.owns hd)
  have hlive : ((entered u i op result s).peer u).destroyed = false := by
    rw [entered_peer]
    exact hd
  obtain ⟨hact, hpeer, hstatus⟩ := perform_local (hin.owns (hs.owns hd)) hlive hb
  have ho := hact.owns (hin.owns (hs.owns hd))
  dsimp only
  rw [invoke_eq]
  refine ⟨hin.trans (hact.trans (Local.decreases _ ho)), ?_, ?_⟩
  · rw [decreases_peer ho, hpeer, entered_peer, Peer.handled]
  · rw [decreases_status, hstatus, entered_status]

/-- The loop that sends out what has come from `u` drops a last reference of `v` by the counter. -/
def Loses (u : ℕ) (s : DispatchingServer) (v : ℕ) : Prop :=
  let held := if v = u then HandlerCopies.calling else 0
  ComesToOne (s.peer v).referenceCount (2 + held) (HandlerCopies.starting + 1 + held)

structure Broadcasts (u : ℕ) (body : List Byte) (s t : DispatchingServer) : Prop where
  other : ∀ v, v ≠ u → t.peer v = if (s.peer v).destroyed then s.peer v
    else (s.peer v).queue (.write (SegmentationLayer.packet body))
  wellFormed : WellFormed t
  created : t.created = s.created
  currentConnId : t.currentConnId = s.currentConnId
  accepting : t.accepting = s.accepting
  status : (∀ v, (s.peer v).destroyed = false → ¬ Loses u s v) → t.status = s.status
  lost : ∀ v, (s.peer v).destroyed = false → Loses u s v →
    t.status = .undefined ∧ (t.peer v).destroyed = true
  traced : s.trace <+: t.trace
  written : ∀ v, writesTo v t.trace = writesTo v s.trace ++
    if (s.peer v).destroyed then [] else [SegmentationLayer.packet body]
  heard : ∀ v, Hears v s → heardBy v t.trace = heardBy v s.trace ++
    if (s.peer v).destroyed then [] else [(s.peer u).headerBuffer ++ body]
  handed : handedUp t.trace = handedUp s.trace ++ [(u, body)]
  hears : ∀ v, Hears v s → Hears v t
  marked : ∀ v, (s.peer v).destroyed = false → (t.peer v).destroyed = true → ErasedThenTouched t.trace
  kept : (∀ v, (s.peer v).destroyed = false → (t.peer v).destroyed = false) →
    ∀ v, Item.erased v ∈ t.trace → Item.erased v ∈ s.trace
  undisturbed : (iteration s.trace).running = false → (∀ v, (s.peer v).destroyed = false →
    (t.peer v).destroyed = false) → iteration t.trace = iteration s.trace

theorem rcvBodyHandler_eq {body : List Byte} (ho : Owns u s) (hd : (s.peer u).destroyed = false) :
    rcvBodyHandler (.ok body) u s =
      startReceive u (distributeMessage ⟨SerializedData.ofBlock body⟩ (delivered u body s)) := by
  have hentry : s.peersList[(s.peer u).connectionId]? = some u := by
    rw [ho, hd, if_neg (by decide)]
  simp only [rcvBodyHandler, handleServerEvent, ServerEvent.connectionId, log_peersList, hentry,
    delivered]

theorem perform_broadcast (body : List Byte) (hs : WellFormed s) (hd : (s.peer u).destroyed = false) :
    let d := distributeMessage ⟨SerializedData.ofBlock body⟩ (delivered u body s)
    perform u s (.broadcast body) = startOperation u .readHeader d ∧ Owns u d ∧
      d.peer u = (s.peer u).queue (.write (SegmentationLayer.packet body)) := by
  have hs' : WellFormed (delivered u body s) := delivered_wellFormed hs
  have hloop := distributeMessage_sends body hs'
  refine ⟨rcvBodyHandler_eq (hs.owns hd) hd, hloop.owns u (hs'.owns hd), ?_⟩
  rw [distributeMessage_peer body hs', delivered, log_peer, hd, if_neg (by decide)]

theorem Broadcasts.of_parts {body : List Byte} {s1 : DispatchingServer} (hs : WellFormed s)
    (hd : (s.peer u).destroyed = false) (hin : Local u s s1) (hsame : s1.status = s.status)
    (hd1 : (s1.peer u).destroyed = false) (hbuf : (s1.peer u).headerBuffer = (s.peer u).headerBuffer)
    (hcount : (s1.peer u).referenceCount =
      (s.peer u).referenceCount + BitVec.ofNat 32 HandlerCopies.calling)
    (hend : Local u (distributeMessage ⟨SerializedData.ofBlock body⟩ (delivered u body s1)) t)
    (hstatus : t.status =
      (distributeMessage ⟨SerializedData.ofBlock body⟩ (delivered u body s1)).status) :
    Broadcasts u body s t := by
  have ho := hs.owns hd
  have hs1 := hin.wellFormed ho (hs.lt_created hd) hs
  have hs2 : WellFormed (delivered u body s1) := delivered_wellFormed hs1
  have hloop := distributeMessage_sends body hs2
  have hpeer := distributeMessage_peer body hs2
  have hwritten := distributeMessage_written body hs2
  obtain ⟨hkept, herased⟩ := distributeMessage_status body hs2
  have hrunning := distributeMessage_running (s := delivered u body s1) ⟨SerializedData.ofBlock body⟩
  generalize distributeMessage ⟨SerializedData.ofBlock body⟩ (delivered u body s1) = d at *
  have hdead : ∀ v, (s1.peer v).destroyed = (s.peer v).destroyed := by
    intro v
    by_cases hv : v = u
    · rw [hv, hd, hd1]
    · rw [hin.other v hv]
  have hloses : ∀ v, (s.peer v).destroyed = false → ((d.peer v).destroyed = true ↔ Loses u s v) := by
    intro v hv
    have hv1 := (hdead v).trans hv
    rw [hpeer, delivered, log_peer, hv1, if_neg (by decide), queue_destroyed hv1]
    by_cases hvu : v = u
    · subst hvu
      rw [hcount, comesToOne_add, Loses, if_pos rfl]
    · rw [hin.other v hvu, Loses, if_neg hvu]
  have hmid : (∀ v, (s.peer v).destroyed = false → (t.peer v).destroyed = false) →
      ∀ v, ((delivered u body s1).peer v).destroyed = false → (d.peer v).destroyed = false := by
    intro hlive v hv
    have hlast := hlive v ((hdead v) ▸ hv)
    by_cases hvu : v = u
    · subst hvu
      exact hend.alive hlast
    · rw [← hend.other v hvu]
      exact hlast
  have hod : Owns u d := hloop.owns u (hs2.owns hd1)
  have hcd : d.created = s.created := hloop.created.trans hin.created
  refine {
    other := fun v hv => ?_
    wellFormed := hend.wellFormed hod (hcd ▸ hs.lt_created hd) hloop.wellFormed
    created := hend.created.trans hcd
    currentConnId := hend.currentConnId.trans (hloop.currentConnId.trans hin.currentConnId)
    accepting := hend.accepting.trans (hloop.accepting.trans hin.accepting)
    status := fun hkeeps => ?_
    lost := fun v hv hc => ?_
    traced := (hin.traced.trans (List.prefix_append _ _)).trans (hloop.traced.trans hend.traced)
    written := fun v => ?_
    heard := fun v hv => ?_
    handed := ?_
    hears := fun v hv => hend.hears v (hloop.hears v (delivered_hears (hin.hears v hv)))
    marked := fun v hv ht => ?_
    kept := fun hlive v hv => ?_
    undisturbed := fun hstill hlive => ?_ }
  · rw [hend.other v hv, hpeer, delivered, log_peer, hin.other v hv]
  · rw [hstatus, hkept, delivered, log_status, hsame]
    intro v hv
    rw [delivered, log_peer, hdead] at hv
    rw [← Bool.not_eq_true, hloses v hv]
    exact hkeeps v hv
  · have hgone := (hloses v hv).mpr hc
    refine ⟨hstatus.trans (herased ⟨v, (hdead v).trans hv, hgone⟩), ?_⟩
    by_cases hvu : v = u
    · subst hvu
      exact hend.destroyed hgone
    · rw [hend.other v hvu]
      exact hgone
  · rw [hend.written, hwritten, delivered, log_trace, log_peer, writesTo_append, hin.written, hdead]
    simp [writesTo]
  · rw [hend.heard, hloop.heard, delivered_heard (hin.hears v hv), hin.heard, hdead, hbuf]
  · rw [hend.handed, hloop.handed, delivered, log_trace, handedUp_append, hin.handed]
    simp [handedUp]
  · cases hv1 : (d.peer v).destroyed with
    | true =>
      obtain ⟨items, hitems⟩ := hend.traced
      exact hitems ▸ (hloop.marked v ((hdead v).trans hv) hv1).append items
    | false =>
      by_cases hvu : v = u
      · subst hvu
        exact hend.marked hv1 ht
      · rw [hend.other v hvu, hv1] at ht
        cases ht
  · have hmem := hloop.kept (hmid hlive) v (hend.kept (hlive u hd) v hv)
    rw [delivered, log_trace, List.mem_append] at hmem
    exact hin.kept hd1 v (hmem.resolve_right (by simp))
  · have herased := hloop.undisturbed (hmid hlive)
    rw [hend.iterated (.inl hrunning)]
    have hquiet : iteration (delivered u body s1).trace = iteration s.trace := by
      rw [delivered, log_trace, iteration_append, ← hin.iterated (.inl hstill)]
      rfl
    rw [hquiet] at herased
    calc iteration d.trace = ⟨false, (iteration s.trace).erased⟩ := by rw [← hrunning, ← herased]
      _ = iteration s.trace := by rw [← hstill]

theorem invoke_broadcast {body : List Byte} (hs : WellFormed s)
    (hd : (s.peer u).destroyed = false) (hr : reaction op result = .broadcast body) :
    let t := invoke op result u (modify u (Peer.taken i op result) s)
    Broadcasts u body s t ∧ t.peer u = (s.peer u).handled i op result (.broadcast body) := by
  obtain ⟨n, rfl, rfl⟩ := reaction_broadcast hr
  have ho := hs.owns hd
  have hin : Local u s (entered u i (.readBody n) (.ok body) s) := Local.entered _ _ _ ho
  have hpeer : (entered u i (.readBody n) (.ok body) s).peer u =
    (s.peer u).entered i (.readBody n) (.ok body) := entered_peer
  have hstatus : (entered u i (.readBody n) (.ok body) s).status = s.status := entered_status
  have heq := invoke_eq u i (.readBody n) (.ok body) s
  rw [hr] at heq
  generalize entered u i (.readBody n) (.ok body) s = s1 at *
  have hd1 : (s1.peer u).destroyed = false := by rw [hpeer]; exact hd
  have hs1 := hin.wellFormed ho (hs.lt_created hd) hs
  obtain ⟨hact, hod, hqueued⟩ := perform_broadcast body hs1 hd1
  have hreceive := Local.startOperation .readHeader hod
  have hfin := Local.decreases (HandlerCopies.calling + 1) (hreceive.owns hod)
  rw [heq, hact]
  refine ⟨Broadcasts.of_parts hs hd hin hstatus hd1 (by rw [hpeer]; rfl) (by rw [hpeer]; rfl)
    (hreceive.trans hfin) ?_, ?_⟩
  · rw [decreases_status, startOperation_status]
  · rw [decreases_peer (hreceive.owns hod), startOperation_peer _ hod, hqueued, hpeer]
    rfl

inductive Stepped (s : DispatchingServer) : Input → DispatchingServer → Prop
  | refused (error : ErrorCode) :
    Stepped s (.accepted (some error)) { s with accepting := false, status := .stopped }
  | accepted : Stepped s (.accepted none) (acceptHandler none s)
  | gone (u i : ℕ) (result : Completion) (hd : (s.peer u).destroyed = true) :
    Stepped s (.completed u i result) (log [.handler u] { s with status := .undefined })
  | handled (u i : ℕ) (op : Operation) (result : Completion) (hd : (s.peer u).destroyed = false)
    (hop : (s.peer u).pending[i]? = some op) (hfills : op.admits result = true) :
    Stepped s (.completed u i result) (invoke op result u (modify u (Peer.taken i op result) s))

theorem step_stepped {input : Input} (h : step s input = some t) :
    s.status = .running ∧ Stepped s input t := by
  cases input with
  | accepted error =>
    simp only [step] at h
    split at h
    next hrun =>
      cases h
      refine ⟨hrun.1, ?_⟩
      cases error with
      | none => exact .accepted
      | some error => exact .refused error
    next => cases h
  | completed u i result =>
    simp only [step] at h
    split at h
    · cases h
    next op hop =>
      split at h
      next hrun =>
        refine ⟨hrun.1, ?_⟩
        split at h
        next hd => cases h; exact .gone u i result hd
        next hd => cases h; exact .handled u i op result (by simpa using hd) hop hrun.2
      next => cases h

theorem handled_cases (i : ℕ) (op : Operation) (result : Completion) (hs : WellFormed s)
    (hd : (s.peer u).destroyed = false) :
    let t := invoke op result u (modify u (Peer.taken i op result) s)
    t.peer u = (s.peer u).handled i op result (reaction op result) ∧
      ((∃ body, reaction op result = .broadcast body ∧ Broadcasts u body s t) ∨
        ((reaction op result).isBroadcast = false ∧ Local u s t ∧
          t.status = (reaction op result).status s.status)) := by
  dsimp only
  cases hb : (reaction op result).isBroadcast with
  | false =>
    obtain ⟨hl, hp, hstatus⟩ := invoke_local i op result hs hd hb
    exact ⟨hp, .inr ⟨rfl, hl, hstatus⟩⟩
  | true =>
    cases hr : reaction op result with
    | broadcast body =>
      obtain ⟨hsends, hp⟩ := invoke_broadcast hs hd hr
      exact ⟨hp, .inl ⟨body, rfl, hsends⟩⟩
    | _ => rw [hr] at hb; cases hb

theorem step_wellFormed (hs : WellFormed s) {input : Input} (h : step s input = some t) :
    WellFormed t := by
  obtain ⟨hrun, hstep⟩ := step_stepped h
  cases hstep with
  | refused error => exact ⟨hs.listed, hs.alive, hs.fresh⟩
  | accepted => exact acceptHandler_wellFormed hs
  | gone u i result hd => exact ⟨hs.listed, hs.alive, hs.fresh⟩
  | handled u i op result hd hop hfills =>
    obtain ⟨-, ⟨body, -, hb⟩ | ⟨-, hl, -⟩⟩ := handled_cases i op result hs hd
    · exact hb.wellFormed
    · exact hl.wellFormed (hs.owns hd) (hs.lt_created hd) hs

theorem step_traced (hs : WellFormed s) {input : Input} (h : step s input = some t) :
    s.trace <+: t.trace := by
  obtain ⟨hrun, hstep⟩ := step_stepped h
  cases hstep with
  | refused error => exact List.prefix_rfl
  | accepted =>
    rw [acceptHandler_trace]
    exact List.prefix_append _ _
  | gone u i result hd => exact List.prefix_append _ _
  | handled u i op result hd hop hfills =>
    obtain ⟨-, ⟨body, -, hb⟩ | ⟨-, hl, -⟩⟩ := handled_cases i op result hs hd
    · exact hb.traced
    · exact hl.traced

end NukeMs.Server
