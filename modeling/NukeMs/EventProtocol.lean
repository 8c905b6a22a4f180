import Mathlib.Data.List.Induction
import NukeMs.PeerLifecycle

namespace NukeMs.Server

open ReferenceCounter SegmentationLayerBase Runs

namespace ServerEvent

def isError : ServerEvent → Bool
  | .connectionError _ _ => true
  | _ => false

def isDeletion : ServerEvent → Bool
  | .canDelete _ => true
  | _ => false

end ServerEvent

def Item.concerns (v : ℕ) : Item → Bool
  | .listed u | .erased u | .overwritten u | .posted u _ => u == v
  | _ => false

structure Watch where
  listed : Bool
  found : Bool
  events : List ServerEvent

namespace Watch

def post (evt : ServerEvent) (w : Watch) : Watch :=
  { w with found := w.found && w.listed, events := w.events ++ [evt] }

def delete (id : ℤ) (w : Watch) : Watch := { w.post (.canDelete id) with listed := false }

def next (v : ℕ) (w : Watch) : Item → Watch
  | .listed u => if u = v then { w with listed := true } else w
  | .erased u | .overwritten u => if u = v then { w with listed := false } else w
  | .posted u evt => if u = v then w.post evt else w
  | _ => w

end Watch

def watch (v : ℕ) (trace : List Item) : Watch := trace.foldl (Watch.next v) ⟨false, true, []⟩

def eventsOf (v : ℕ) (trace : List Item) : List ServerEvent := (watch v trace).events

theorem watch_append (v : ℕ) (trace items : List Item) :
    watch v (trace ++ items) = items.foldl (Watch.next v) (watch v trace) := List.foldl_append ..

section
variable {v : ℕ} {trace items : List Item}

theorem next_of_not_concerns {item : Item} (h : item.concerns v = false) (w : Watch) :
    w.next v item = w := by
  cases item with
  | listed u | erased u | overwritten u | posted u evt => exact if_neg (beq_eq_false_iff_ne.mp h)
  | _ => rfl

theorem watch_of_not_concerns (h : ∀ item ∈ items, item.concerns v = false) :
    watch v (trace ++ items) = watch v trace := by
  rw [watch_append]
  generalize watch v trace = w
  induction items with
  | nil => rfl
  | cons item items ih =>
    obtain ⟨hitem, hitems⟩ := List.forall_mem_cons.mp h
    rw [List.foldl_cons, next_of_not_concerns hitem, ih hitems]

theorem mem_eventsOf {evt : ServerEvent} (h : Item.posted v evt ∈ trace) : evt ∈ eventsOf v trace := by
  induction trace using List.reverseRecOn with
  | nil => cases h
  | append_singleton trace item ih =>
    rw [eventsOf, watch_append]
    rw [List.mem_append, List.mem_singleton] at h
    obtain h | rfl := h
    · have hold := ih h
      cases item with
      | listed u | erased u | overwritten u =>
        simp only [List.foldl_cons, List.foldl_nil, Watch.next]
        split <;> exact hold
      | posted u evt' =>
        simp only [List.foldl_cons, List.foldl_nil, Watch.next]
        split
        · exact List.mem_append_left _ hold
        · exact hold
      | _ => exact hold
    · simp [Watch.next, Watch.post]

end

section
variable {u v : ℕ} {s : DispatchingServer}

theorem watch_increases (n : ℕ) : watch v ((increaseRefCount u)^[n] s).trace = watch v s.trace := by
  rw [increases_eq, log_trace, modify_trace]
  apply watch_of_not_concerns
  intro item hitem
  obtain rfl | rfl | rfl := mem_increasing hitem <;> rfl

theorem watch_decreaseRefCount (ho : Owns u s) (hd : (s.peer u).destroyed = false) :
    watch v (decreaseRefCount u s).trace =
      if v = u ∧ (s.peer u).referenceCount = 1 then
        (watch v s.trace).delete (s.peer u).connectionId
      else watch v s.trace := by
  by_cases h1 : (s.peer u).referenceCount = 1
  · rw [decreaseRefCount_erased h1 ho hd, log_trace, watch_append]
    by_cases hv : v = u
    · simp [Watch.next, Watch.delete, Watch.post, hv, h1]
    · simp [Watch.next, Ne.symm hv, hv]
  · rw [decreaseRefCount_of_ne h1, if_neg fun h => h1 h.2]
    apply watch_of_not_concerns
    simp [Item.concerns]

theorem watch_decreased (ho : Owns u s)
    (hkept : v = u → ((decreaseRefCount u s).peer u).destroyed = false) :
    watch v (decreaseRefCount u s).trace = watch v s.trace := by
  by_cases h1 : (s.peer u).referenceCount = 1
  · have hv : v ≠ u := by
      intro hv
      have hlive := hkept hv
      rw [decreaseRefCount_peer ho, release_one, h1] at hlive
      simp at hlive
    cases hd : (s.peer u).destroyed with
    | false => rw [watch_decreaseRefCount ho hd, if_neg fun h => hv h.1]
    | true =>
      rw [decreaseRefCount_gone h1 ho hd]
      apply watch_of_not_concerns
      simp [Item.concerns, Ne.symm hv]
  · rw [decreaseRefCount_of_ne h1]
    apply watch_of_not_concerns
    simp [Item.concerns]

theorem watch_decreases (n : ℕ) (ho : Owns u s)
    (hkept : v = u → (((decreaseRefCount u)^[n] s).peer u).destroyed = false) :
    watch v ((decreaseRefCount u)^[n] s).trace = watch v s.trace := by
  induction n with
  | zero => rfl
  | succ n ih =>
    have hmiddle := (Local.decreases n ho).owns ho
    rw [Function.iterate_succ_apply'] at hkept ⊢
    rw [watch_decreased hmiddle hkept]
    exact ih fun hv => (Local.decreaseRefCount hmiddle).alive (hkept hv)

theorem watch_delivered {body : List Byte} : watch v (delivered u body s).trace =
    if v = u then (watch v s.trace).post
      (.msgReceived (s.peer u).connectionId ⟨SerializedData.ofBlock body⟩)
    else watch v s.trace := by
  rw [delivered, log_trace, watch_append]
  by_cases hv : v = u
  · simp [Watch.next, hv]
  · simp [Watch.next, hv, Ne.symm hv]

end

section
variable [HandlerCopies] {u v : ℕ} {s : DispatchingServer}

theorem watch_startOperation (op : Operation) (ho : Owns u s)
    (hkept : v = u → ((startOperation u op s).peer u).destroyed = false) :
    watch v (startOperation u op s).trace = watch v s.trace := by
  rw [startOperation, watch_decreases _ ((Local.queued _ op ho).owns ho) hkept, modify_trace,
    watch_increases]

theorem watch_entered {i : ℕ} {op : Operation} {result : Completion} :
    watch v (entered u i op result s).trace = watch v s.trace := by
  rw [entered, watch_increases]
  apply watch_of_not_concerns
  simp [Item.concerns]

variable [Host]

theorem watch_postError (errmsg : String) (ho : Owns u s) (hd : (s.peer u).destroyed = false) :
    watch v (postError errmsg u s).trace =
      if v = u ∧ (s.peer u).errorHappened = false then
        (watch v s.trace).post (.connectionError (s.peer u).connectionId errmsg)
      else watch v s.trace := by
  rw [postError_eq errmsg ho hd]
  cases herr : (s.peer u).errorHappened with
  | true => simp
  | false =>
    rw [if_neg (by decide), log_trace, watch_append]
    by_cases hv : v = u
    · simp [Watch.next, hv]
    · simp [Watch.next, hv, Ne.symm hv]

theorem watch_sendToEntry (body : List Byte) (hs : WellFormed s) (id : ℤ)
    (hkept : (s.peer v).destroyed = false →
      ((sendToEntry ⟨SerializedData.ofBlock body⟩ s id).peer v).destroyed = false) :
    watch v (sendToEntry ⟨SerializedData.ofBlock body⟩ s id).trace = watch v s.trace := by
  cases hw : s.peersList[id]? with
  | none => simp only [sendToEntry, hw]
  | some w =>
    have hd := (hs.listed id w hw).2
    have hlogged : Owns w (log [.asyncWrite w (serializedBuffer
        (SegmentationLayer.mk (SerializedData.ofBlock body)))] s) := hs.owns hd
    simp only [sendToEntry, hw, sendMessage] at hkept ⊢
    rw [watch_startOperation _ hlogged]
    · exact watch_of_not_concerns (by simp [Item.concerns])
    · rintro rfl
      exact hkept hd

theorem watch_foldl_sendToEntry (body : List Byte) (ids : List ℤ) (hs : WellFormed s)
    (hnodup : ids.Nodup) (hkept : (s.peer v).destroyed = false →
      ((ids.foldl (sendToEntry ⟨SerializedData.ofBlock body⟩) s).peer v).destroyed = false) :
    watch v (ids.foldl (sendToEntry ⟨SerializedData.ofBlock body⟩) s).trace = watch v s.trace := by
  induction ids generalizing s with
  | nil => rfl
  | cons id ids ih =>
    have hrest := (List.nodup_cons.mp hnodup).2
    have h := sendToEntry_sends body hs id
    have hloop := foldl_sendToEntry body ids h.wellFormed hrest
    rw [List.foldl_cons] at hkept ⊢
    rw [ih h.wellFormed hrest fun hv => hkept (h.alive hv),
      watch_sendToEntry body hs id fun hv => hloop.alive (hkept hv)]

theorem watch_distributeMessage (body : List Byte) (hs : WellFormed s)
    (hkept : (s.peer v).destroyed = false →
      ((distributeMessage ⟨SerializedData.ofBlock body⟩ s).peer v).destroyed = false) :
    watch v (distributeMessage ⟨SerializedData.ofBlock body⟩ s).trace = watch v s.trace := by
  have hbegin : WellFormed (log [.distributeBegin] s) := ⟨hs.listed, hs.alive, hs.fresh⟩
  have hloop := watch_foldl_sendToEntry (v := v) body s.peersList.keys hbegin
    Std.TreeMap.nodup_keys hkept
  have hstart : watch v (log [.distributeBegin] s).trace = watch v s.trace :=
    watch_of_not_concerns (by simp [Item.concerns])
  have hend : watch v (distributeMessage ⟨SerializedData.ofBlock body⟩ s).trace =
      watch v (s.peersList.keys.foldl (sendToEntry ⟨SerializedData.ofBlock body⟩)
        (log [.distributeBegin] s)).trace := watch_of_not_concerns (by simp [Item.concerns])
  rw [hend, hloop, hstart]

theorem watch_rcvBodyHandler {body : List Byte} (hs : WellFormed s)
    (hd : (s.peer u).destroyed = false) (hkept : (s.peer v).destroyed = false →
      ((rcvBodyHandler (.ok body) u s).peer v).destroyed = false) :
    watch v (rcvBodyHandler (.ok body) u s).trace =
      if v = u then (watch v s.trace).post
        (.msgReceived (s.peer u).connectionId ⟨SerializedData.ofBlock body⟩)
      else watch v s.trace := by
  have hs' : WellFormed (delivered u body s) := delivered_wellFormed hs
  have ho := (distributeMessage_sends body hs').owns u (hs'.owns hd)
  have hreceive := Local.startOperation .readHeader ho
  rw [rcvBodyHandler_eq (hs.owns hd) hd, startReceive] at hkept ⊢
  rw [watch_startOperation _ ho, watch_distributeMessage body hs', watch_delivered]
  · intro hv
    by_cases hvu : v = u
    · subst hvu
      exact hreceive.alive (hkept hv)
    · rw [← hreceive.other v hvu]
      exact hkept hv
  · rintro rfl
    exact hkept hd

end

def reported (p : Peer) : Reaction → List ServerEvent
  | .fail errmsg => if p.errorHappened then [] else [.connectionError p.connectionId errmsg]
  | .broadcast body => [.msgReceived p.connectionId ⟨SerializedData.ofBlock body⟩]
  | _ => []

def Watch.posts (w : Watch) (events : List ServerEvent) : Watch :=
  events.foldl (fun w evt => w.post evt) w

section
variable [HandlerCopies] {p : Peer} {i : ℕ} {op : Operation} {result : Completion} {r : Reaction}

theorem react_destroyed (hp : p.Lives) (hd : p.destroyed = false) (hpending : p.pending ≠ [])
    (hmost : p.pending.length ≤ mostPending) : ((p.entered i op result).react r).destroyed = false := by
  have hcount := hp.counted
  have hpos := List.length_pos_iff.mpr hpending
  have hlast := handled_destroyed i op result r hd
  rw [lastReference_iff _ _ (by omega) (by rw [hcount]; exact hmost)] at hlast
  have hstarts : started r ≠ [] → ((p.entered i op result).react r).destroyed = false := by
    intro hstarted
    rw [← Bool.not_eq_true]
    intro hgone
    refine hstarted (hlast.mp ?_).2
    simp only [Peer.handled, Peer.release, hgone, Bool.true_or]
  cases r with
  | rest | escape e => exact hd
  | fail errmsg => exact Peer.fail_destroyed.trans hd
  | start next => exact hstarts (List.cons_ne_nil _ _)
  | broadcast body => exact hstarts (List.cons_ne_nil _ _)

theorem release_calling_destroyed (i : ℕ) (op : Operation) (result : Completion) (r : Reaction)
    (hp : p.Lives) (hd : p.destroyed = false) (hpending : p.pending ≠ [])
    (hmost : p.pending.length ≤ mostPending) :
    (((p.entered i op result).react r).release HandlerCopies.calling).destroyed = false := by
  have hcount := hp.counted
  have hpos := List.length_pos_iff.mpr hpending
  have hroom := mostPending_add
  have hstarted := started_length r
  have hkeeps : ¬ ComesToOne (p.referenceCount + BitVec.ofNat 32 (started r).length) 1
      HandlerCopies.calling := by
    rw [comesToOne_add, comesToOne_iff (by omega)]
    omega
  have hback : ((p.entered i op result).react r).referenceCount - BitVec.ofNat 32 HandlerCopies.calling =
      p.referenceCount + BitVec.ofNat 32 (started r).length := by
    rw [react_referenceCount, Peer.entered_referenceCount]
    bv_omega
  simp only [Peer.release, hback, react_destroyed hp hd hpending hmost, hkeeps, decide_false,
    Bool.or_false]

theorem handled_destroyed_iff
    (hkept : (((p.entered i op result).react r).release HandlerCopies.calling).destroyed = false) :
    (p.handled i op result r).destroyed = true ↔
      (((p.entered i op result).react r).release HandlerCopies.calling).referenceCount = 1 := by
  rw [Peer.handled, ← release_succ, release_one]
  simp [hkept]

end

section
variable [HandlerCopies] [Host] {u v i : ℕ} {op : Operation} {result : Completion} {r : Reaction}
variable {s : DispatchingServer}

theorem perform_owns (r : Reaction) (hs : WellFormed s) (hd : (s.peer u).destroyed = false) :
    Owns u (perform u s r) ∧ (perform u s r).peer u = (s.peer u).react r := by
  cases hb : r.isBroadcast with
  | false =>
    obtain ⟨hlocal, hpeer, -⟩ := perform_local (hs.owns hd) hd hb
    exact ⟨hlocal.owns (hs.owns hd), hpeer⟩
  | true =>
    cases r with
    | broadcast body =>
      obtain ⟨hact, ho, hqueued⟩ := perform_broadcast body hs hd
      rw [hact]
      refine ⟨(Local.startOperation .readHeader ho).owns ho, ?_⟩
      rw [startOperation_peer _ ho, hqueued]
      rfl
    | _ => cases hb

theorem watch_perform (r : Reaction) (hs : WellFormed s) (hd : (s.peer u).destroyed = false)
    (hkept : (s.peer v).destroyed = false → ((perform u s r).peer v).destroyed = false) :
    watch v (perform u s r).trace =
      if v = u then (watch v s.trace).posts (reported (s.peer u) r) else watch v s.trace := by
  cases r with
  | rest | escape e => exact (ite_self _).symm
  | fail errmsg =>
    rw [perform, watch_postError errmsg (hs.owns hd) hd]
    cases herr : (s.peer u).errorHappened <;> simp [reported, Watch.posts, herr]
  | start op =>
    rw [perform, watch_startOperation op (hs.owns hd)]
    · exact (ite_self _).symm
    · rintro rfl
      exact hkept hd
  | broadcast body => exact watch_rcvBodyHandler hs hd hkept

theorem watch_invoke (hs : WellFormed s) (hd : (s.peer u).destroyed = false)
    (hkept : (((((s.peer u).entered i op result).react (reaction op result))).release
      HandlerCopies.calling).destroyed = false)
    (hothers : v ≠ u → (s.peer v).destroyed = false →
      ((invoke op result u (modify u (Peer.taken i op result) s)).peer v).destroyed = false) :
    watch v (invoke op result u (modify u (Peer.taken i op result) s)).trace =
      if v = u then
        let w := (watch v s.trace).posts (reported (s.peer u) (reaction op result))
        if ((s.peer u).handled i op result (reaction op result)).destroyed then
          w.delete (s.peer u).connectionId
        else w
      else watch v s.trace := by
  have ho := hs.owns hd
  have hin : Local u s (entered u i op result s) := Local.entered i op result ho
  have hpeer : (entered u i op result s).peer u = (s.peer u).entered i op result := entered_peer
  have hin' := hin.wellFormed ho (hs.lt_created hd) hs
  have hd' : ((entered u i op result s).peer u).destroyed = false := by rw [hpeer]; exact hd
  have hperform := watch_perform (v := v) (reaction op result) hin' hd'
  obtain ⟨hafter, hact⟩ := perform_owns (reaction op result) hin' hd'
  have hlast := handled_destroyed_iff hkept
  have hid : ((((s.peer u).entered i op result).react (reaction op result)).release
      HandlerCopies.calling).connectionId = (s.peer u).connectionId := handled_connectionId
  rw [invoke_eq] at hothers ⊢
  rw [watch_entered] at hperform
  rw [hpeer] at hact hperform
  generalize perform u (entered u i op result s) (reaction op result) = a at *
  have hgoes := Local.decreases HandlerCopies.calling hafter
  have hends := Local.decreases (HandlerCopies.calling + 1) hafter
  have hmiddle := decreases_peer hafter HandlerCopies.calling
  rw [hact] at hmiddle
  rw [Function.iterate_succ_apply', watch_decreaseRefCount (hgoes.owns hafter) (by rw [hmiddle]; exact hkept),
    watch_decreases _ hafter (by rw [hmiddle]; exact fun _ => hkept), hperform, hmiddle, hid]
  · have hreported : reported ((s.peer u).entered i op result) (reaction op result) =
        reported (s.peer u) (reaction op result) := by
      cases reaction op result <;> rfl
    rw [hreported]
    by_cases hv : v = u
    · simp only [hv, true_and, hlast, if_true]
    · simp only [hv, false_and, if_false]
  · intro hv
    by_cases hvu : v = u
    · subst hvu
      apply hgoes.alive
      rw [hmiddle]
      exact hkept
    · rw [hin.other v hvu] at hv
      rw [← hends.other v hvu]
      exact hothers hvu hv

end

structure Protocol (v : ℕ) (s : DispatchingServer) : Prop where
  unborn : s.created ≤ v → watch v s.trace = ⟨false, true, []⟩
  listed : (watch v s.trace).listed = !(s.peer v).destroyed
  found : (watch v s.trace).found = true
  errors : (eventsOf v s.trace).countP ServerEvent.isError =
    if (s.peer v).errorHappened then 1 else 0
  closed : (s.peer v).errorHappened = true → (s.peer v).socketOpen = false
  alive : (s.peer v).destroyed = false → ∀ evt ∈ eventsOf v s.trace, evt.isDeletion = false
  deleted : v < s.created → (s.peer v).destroyed = true → (s.peer v).errorHappened = true ∧
    ∃ before id, eventsOf v s.trace = before ++ [.canDelete id] ∧
      ∀ evt ∈ before, evt.isDeletion = false

theorem init_protocol (v : ℕ) : Protocol v init where
  unborn _ := rfl
  listed := rfl
  found := rfl
  errors := rfl
  closed h := by cases h
  alive h := by cases h
  deleted h := absurd h (Nat.not_lt_zero v)

theorem Protocol.of_eq {v : ℕ} {s t : DispatchingServer} (hs : Protocol v s)
    (hcreated : v < t.created → v < s.created) (hle : s.created ≤ t.created)
    (hd : (t.peer v).destroyed = (s.peer v).destroyed)
    (he : (t.peer v).errorHappened = (s.peer v).errorHappened)
    (ho : (t.peer v).socketOpen = (s.peer v).socketOpen)
    (hw : watch v t.trace = watch v s.trace) : Protocol v t := by
  refine ⟨?_, ?_, ?_, ?_, ?_, ?_, ?_⟩
  · intro h
    rw [hw]
    exact hs.unborn (hle.trans h)
  · rw [hw, hd]
    exact hs.listed
  · rw [hw]
    exact hs.found
  · rw [eventsOf, hw, he]
    exact hs.errors
  · rw [he, ho]
    exact hs.closed
  · rw [eventsOf, hw, hd]
    exact hs.alive
  · intro h
    rw [eventsOf, hw, hd, he]
    exact hs.deleted (hcreated h)

theorem posts_of_listed {w : Watch} (h : w.listed = true) (events : List ServerEvent) :
    w.posts events = { w with events := w.events ++ events } := by
  induction events generalizing w with
  | nil => simp [Watch.posts]
  | cons evt events ih =>
    have hnext := ih (w := w.post evt) h
    rw [Watch.posts] at hnext ⊢
    rw [List.foldl_cons, hnext]
    simp [Watch.post, h]

section
variable [HandlerCopies] {p : Peer} {i : ℕ} {op : Operation} {result : Completion} {r : Reaction}

theorem handled_closed (hp : p.errorHappened = true → p.socketOpen = false)
    (h : (p.handled i op result r).errorHappened = true) :
    (p.handled i op result r).socketOpen = false := by
  cases r with
  | fail errmsg =>
    cases herr : p.errorHappened with
    | true =>
      have hfail : (p.entered i op result).fail = p.entered i op result := if_pos herr
      rw [Peer.handled, Peer.react, hfail]
      exact hp herr
    | false =>
      have hfail : (p.entered i op result).fail =
          { p.entered i op result with errorHappened := true, socketOpen := false } :=
        if_neg (by simp [herr])
      rw [Peer.handled, Peer.react, hfail]
      rfl
  | _ => exact hp h

omit [HandlerCopies] in
theorem reported_not_deletion {evt : ServerEvent} (h : evt ∈ reported p r) :
    evt.isDeletion = false := by
  cases r with
  | fail errmsg =>
    simp only [reported] at h
    split at h
    · cases h
    · rw [List.mem_singleton.mp h]
      rfl
  | broadcast body =>
    rw [List.mem_singleton.mp h]
    rfl
  | _ => cases h

theorem reported_errors (p : Peer) (i : ℕ) (op : Operation) (result : Completion) (r : Reaction) :
    (if p.errorHappened then 1 else 0) + (reported p r).countP ServerEvent.isError =
      if (p.handled i op result r).errorHappened then 1 else 0 := by
  have hiff : (p.handled i op result r).errorHappened = false ↔
      p.errorHappened = false ∧ ∀ errmsg, r ≠ .fail errmsg := handled_errorHappened
  cases r with
  | fail errmsg =>
    have herr : (p.handled i op result (.fail errmsg)).errorHappened = true := by
      rw [← Bool.not_eq_false, hiff]
      exact fun h => h.2 errmsg rfl
    cases hp : p.errorHappened <;> simp [reported, herr, hp, ServerEvent.isError]
  | _ => rfl

end

section
variable [HandlerCopies] [Host] {u v i : ℕ} {op : Operation} {result : Completion} {s t : DispatchingServer}

theorem Protocol.handled (hs : Lifecycle s) (hp : Protocol u s) (hmost : WithinLimit s)
    (hd : (s.peer u).destroyed = false)
    (hop : (s.peer u).pending[i]? = some op) (he : ∀ e, reaction op result ≠ .escape e)
    (ht : t = invoke op result u (modify u (Peer.taken i op result) s))
    (hpeer : t.peer u = (s.peer u).handled i op result (reaction op result))
    (hcreated : t.created = s.created) : Protocol u t := by
  have hlisted : (watch u s.trace).listed = true := by rw [hp.listed, hd]; rfl
  have hpending : (s.peer u).pending ≠ [] := List.ne_nil_of_mem (List.mem_of_getElem? hop)
  have hkept := release_calling_destroyed i op result (reaction op result) (hs.lives u) hd
    hpending (hmost u)
  have hw := watch_invoke (v := u) hs.wellFormed hd hkept (fun h => absurd rfl h)
  rw [← ht, if_pos rfl] at hw
  dsimp only at hw
  rw [posts_of_listed hlisted] at hw
  have herrors := hp.errors
  have hnone := hp.alive hd
  have hnew : ∀ evt ∈ eventsOf u s.trace ++ reported (s.peer u) (reaction op result),
      evt.isDeletion = false := by
    intro evt hevt
    rw [List.mem_append] at hevt
    exact hevt.elim (hnone evt) reported_not_deletion
  have hcount := reported_errors (s.peer u) i op result (reaction op result)
  rw [← herrors, ← List.countP_append, ← hpeer] at hcount
  have hborn := hs.wellFormed.lt_created hd
  rw [← hpeer] at hw
  cases hgone : (t.peer u).destroyed with
  | false =>
    rw [hgone, if_neg (by decide)] at hw
    have hevents : eventsOf u t.trace =
        eventsOf u s.trace ++ reported (s.peer u) (reaction op result) := by
      rw [eventsOf, hw]
      rfl
    refine ⟨?_, ?_, ?_, ?_, ?_, ?_, ?_⟩
    · intro h
      omega
    · rw [hw, hgone]
      exact hlisted
    · rw [hw]
      exact hp.found
    · rw [hevents, hcount]
    · rw [hpeer]
      exact handled_closed hp.closed
    · intro _
      rw [hevents]
      exact hnew
    · intro _ h
      rw [hgone] at h
      cases h
  | true =>
    rw [hgone, if_pos rfl] at hw
    have hevents : eventsOf u t.trace =
        eventsOf u s.trace ++ reported (s.peer u) (reaction op result) ++
          [.canDelete (s.peer u).connectionId] := by
      rw [eventsOf, hw]
      rfl
    refine ⟨?_, ?_, ?_, ?_, ?_, ?_, fun _ _ => ⟨?_, _, _, hevents, hnew⟩⟩
    · intro h
      omega
    · rw [hw, hgone]
      rfl
    · rw [hw]
      simp [Watch.delete, Watch.post, hp.found, hlisted]
    · rw [hevents, List.countP_append, hcount]
      rfl
    · rw [hpeer]
      exact handled_closed hp.closed
    · intro h
      rw [hgone] at h
      cases h
    · rw [hpeer] at hgone ⊢
      exact (hs.lives u).failed result hd hop (hmost u) he hgone

omit [Host] in
theorem startingItems_not_concerns (v u : ℕ) (count : Unsigned) :
    ∀ item ∈ startingItems u count, item.concerns v = false := by
  intro item hitem
  obtain h | h := List.mem_append.mp hitem
  · obtain rfl | rfl | rfl := mem_increasing h <;> rfl
  · obtain rfl | rfl | rfl | ⟨k, -, rfl⟩ := mem_decreasing h <;> rfl

omit [Host] in
theorem Protocol.accept (hs : Lifecycle s) (hp : Protocol v s) (hc : s.created + 1 < 2 ^ 31) :
    Protocol v (acceptHandler none s) := by
  have hid := getNextConnectionId_eq hs hc
  have hfree : s.peersList[getNextConnectionId s]? = none := by
    cases hentry : s.peersList[getNextConnectionId s]? with
    | none => rfl
    | some w =>
      obtain ⟨hconn, hd⟩ := hs.wellFormed.listed _ w hentry
      have hlt := hs.wellFormed.lt_created hd
      rw [hs.connectionId w hlt, hid] at hconn
      omega
  have hpeer := acceptHandler_peer hs.wellFormed v
  have hnot : ¬ (none : Option ℕ) = some v := by simp
  rw [hfree, if_neg hnot] at hpeer
  obtain ⟨hcreated, -, -, -⟩ := acceptHandler_fields (s := s)
  have hw : watch v (acceptHandler none s).trace =
      if v = s.created then { watch v s.trace with listed := true } else watch v s.trace := by
    rw [acceptHandler_trace, acceptingItems, hfree, List.append_nil, ← List.append_assoc, watch_append,
      watch_of_not_concerns (startingItems_not_concerns v s.created 0)]
    by_cases hv : v = s.created
    · simp [Watch.next, hv]
    · simp [Watch.next, hv, Ne.symm hv]
  by_cases hv : v = s.created
  · rw [if_pos hv] at hpeer hw
    rw [hp.unborn hv.ge] at hw
    refine ⟨?_, ?_, ?_, ?_, ?_, ?_, ?_⟩
    · intro h
      omega
    · rw [hw, hpeer, acceptedPeer_destroyed]
      rfl
    · rw [hw]
    · rw [eventsOf, hw, hpeer]
      rfl
    · intro h
      rw [hpeer] at h
      cases h
    · intro _
      rw [eventsOf, hw]
      simp
    · intro _ h
      rw [hpeer, acceptedPeer_destroyed] at h
      cases h
  · rw [if_neg hv] at hpeer hw
    exact hp.of_eq (by omega) (by omega) (by rw [hpeer]) (by rw [hpeer]) (by rw [hpeer]) hw

theorem step_protocol {input : Input} (hs : Lifecycle s) (hp : ∀ v, Protocol v s)
    (hmost : WithinLimit s) (h : step s input = some t) (hcreated : t.created < 2 ^ 31 - 1)
    (hstatus : ∀ e, t.status ≠ .threw e) (v : ℕ) : Protocol v t := by
  obtain ⟨hrun, hstep⟩ := step_stepped h
  cases hstep with
  | refused error => exact (hp v).of_eq id le_rfl rfl rfl rfl rfl
  | accepted =>
    rw [acceptHandler_fields.1] at hcreated
    exact (hp v).accept hs (by omega)
  | gone u i result hd =>
    have hnone := (hs.lives u).pending.mp hd
    simp [step, hnone] at h
  | handled u i op result hd hop hfills =>
    have hpending : (s.peer u).pending ≠ [] := List.ne_nil_of_mem (List.mem_of_getElem? hop)
    have hw := watch_invoke (v := v) hs.wellFormed hd (release_calling_destroyed i op result
      (reaction op result) (hs.lives u) hd hpending (hmost u))
    obtain ⟨hpeer, ⟨body, hr, hb⟩ | ⟨-, hl, hsame⟩⟩ := handled_cases i op result hs.wellFormed hd
    · by_cases hv : v = u
      · subst hv
        exact (hp v).handled hs hmost hd hop (by simp [hr]) rfl hpeer hb.created
      · have hother := hb.other v hv
        rw [if_neg hv] at hw
        cases hlive : (s.peer v).destroyed with
        | true =>
          rw [hlive, if_pos rfl] at hother
          refine (hp v).of_eq (by rw [hb.created]; exact id) hb.created.ge (by rw [hother])
            (by rw [hother]) (by rw [hother]) (hw fun _ h => ?_)
          rw [hlive] at h
          cases h
        | false =>
          rw [hlive, if_neg (by decide)] at hother
          have hkept : ((s.peer v).queue (.write (SegmentationLayer.packet body))).destroyed = false := by
            rw [← Bool.not_eq_true, ((hs.lives v).queue_write hlive (hmost v)).pending]
            simp
          exact (hp v).of_eq (by rw [hb.created]; exact id) hb.created.ge (by rw [hother, hkept, hlive])
            (by rw [hother]; rfl) (by rw [hother]; rfl) (hw fun _ _ => by rw [hother, hkept])
    · have he : ∀ e, reaction op result ≠ .escape e := by
        intro e hr
        rw [hr] at hsame
        exact hstatus e hsame
      by_cases hv : v = u
      · subst hv
        exact (hp v).handled hs hmost hd hop he rfl hpeer hl.created
      · have hother := hl.other v hv
        rw [if_neg hv] at hw
        exact (hp v).of_eq (by rw [hl.created]; exact id) hl.created.ge (by rw [hother])
          (by rw [hother]) (by rw [hother]) (hw fun _ h => by rw [hother, h])

end

structure EventProtocol (v : ℕ) (s : DispatchingServer) : Prop where
  oneError : (eventsOf v s.trace).countP ServerEvent.isError ≤ 1
  oneDeletion : (eventsOf v s.trace).countP ServerEvent.isDeletion ≤ 1
  ordered : ∀ before evt after, eventsOf v s.trace = before ++ evt :: after →
    evt.isDeletion = true → after = [] ∧ ∃ error ∈ before, error.isError = true
  closed : ∀ evt ∈ eventsOf v s.trace, evt.isDeletion = true → (s.peer v).socketOpen = false
  deleted : (∃ evt ∈ eventsOf v s.trace, evt.isDeletion = true) ↔
    v < s.created ∧ (s.peer v).pending = []
  found : (watch v s.trace).found = true

theorem EventProtocol.of_invariant {v : ℕ} {s : DispatchingServer} (hs : Lifecycle s)
    (hp : Protocol v s) : EventProtocol v s := by
  have hlives := hs.lives v
  by_cases hv : v < s.created ∧ (s.peer v).destroyed = true
  · obtain ⟨herr, before, id, hevents, hnone⟩ := hp.deleted hv.1 hv.2
    have herrors := hp.errors
    rw [herr, if_pos rfl] at herrors
    have hbefore : before.countP ServerEvent.isDeletion = 0 := by
      rw [List.countP_eq_zero]
      intro evt hevt
      simp [hnone evt hevt]
    refine ⟨by omega, ?_, ?_, fun _ _ _ => hp.closed herr, ?_,
      hp.found⟩
    · rw [hevents, List.countP_append, hbefore]
      exact Nat.le_refl 1
    · intro first evt after hsplit hevt
      rw [hevents] at hsplit
      have hafter : after = [] := by
        rcases List.eq_nil_or_concat after with hnil | ⟨init, last, hlast⟩
        · exact hnil
        · rw [hlast, List.concat_eq_append, ← List.cons_append, ← List.append_assoc] at hsplit
          have hmem : evt ∈ before := by
            rw [(List.append_inj' hsplit rfl).1]
            simp
          rw [hnone evt hmem] at hevt
          cases hevt
      subst hafter
      obtain ⟨rfl, -⟩ := List.append_inj' hsplit rfl
      refine ⟨rfl, ?_⟩
      rw [hevents, List.countP_append] at herrors
      have hlast : [ServerEvent.canDelete id].countP ServerEvent.isError = 0 := rfl
      exact List.countP_pos_iff.mp (by omega)
    · rw [← hlives.pending]
      refine ⟨fun _ => hv, fun _ => ⟨.canDelete id, ?_, rfl⟩⟩
      rw [hevents]
      simp
  · have hnone : ∀ evt ∈ eventsOf v s.trace, evt.isDeletion = false := by
      intro evt hevt
      by_cases hborn : v < s.created
      · refine hp.alive ?_ evt hevt
        rw [← Bool.not_eq_true]
        exact fun hd => hv ⟨hborn, hd⟩
      · rw [eventsOf, hp.unborn (by omega)] at hevt
        cases hevt
    have herrors := hp.errors
    refine ⟨by split at herrors <;> omega, ?_, ?_, ?_, ?_, hp.found⟩
    · rw [List.countP_eq_zero.mpr fun evt hevt => by simp [hnone evt hevt]]
      exact Nat.zero_le 1
    · intro before evt after hsplit hevt
      rw [hnone evt (by rw [hsplit]; simp)] at hevt
      cases hevt
    · intro evt hmem hevt
      rw [hnone evt hmem] at hevt
      cases hevt
    · rw [← hlives.pending]
      refine ⟨fun ⟨evt, hmem, hevt⟩ => ?_, fun h => absurd h hv⟩
      rw [hnone evt hmem] at hevt
      cases hevt

section
variable [HandlerCopies] [Host] {t : DispatchingServer}

theorem eventProtocol_run (inputs : List Input) (h : exec step init inputs = some t)
    (hmost : Along step (fun s _ _ => WithinLimit s) init inputs)
    (hcreated : t.created < 2 ^ 31 - 1) (hstatus : ∀ e, t.status ≠ .threw e) (v : ℕ) :
    EventProtocol v t := by
  have hrun := lifecycle_run (J := fun s => ∀ v, Protocol v s) init_protocol
    (fun _ _ _ hlife hp => step_protocol hlife hp) h hmost hcreated hstatus
  exact .of_invariant hrun.1 (hrun.2 v)

end

theorem eventProtocol_hangUp : ∃ t,
    exec (@step bindCopies littleEndianHost) init hangUpAfterPacket = some t ∧
      eventsOf 0 t.trace = [.msgReceived 1 ⟨SerializedData.ofBlock [0x41]⟩] ∧
      eventsOf 1 t.trace = [.connectionError 2 "End of file", .canDelete 2] ∧
      EventProtocol 0 t ∧ EventProtocol 1 t := by
  have hmost := @withinLimit_along bindCopies littleEndianHost init hangUpAfterPacket 0
    init_wellFormed (fun _ => le_rfl) (by decide)
  have h := @eventProtocol_run bindCopies littleEndianHost _ hangUpAfterPacket rfl hmost
    (by decide) (by rintro e ⟨⟩)
  exact ⟨_, rfl, rfl, rfl, h 0, h 1⟩

section
variable {s : DispatchingServer} {u : ℕ}

theorem decreases_posted (n : ℕ) (ho : Owns u s) (hd : (s.peer u).destroyed = false)
    (hgone : (((decreaseRefCount u)^[n] s).peer u).destroyed = true) :
    ∃ id, Item.posted u (.canDelete id) ∈ ((decreaseRefCount u)^[n] s).trace := by
  induction n with
  | zero => exact absurd hgone (by simp [hd])
  | succ n ih =>
    have hfirst := Local.decreases n ho
    have hlast := Local.decreaseRefCount (hfirst.owns ho)
    rw [Function.iterate_succ_apply'] at hgone ⊢
    cases hmiddle : (((decreaseRefCount u)^[n] s).peer u).destroyed with
    | true =>
      obtain ⟨id, hid⟩ := ih hmiddle
      exact ⟨id, hlast.traced.subset hid⟩
    | false =>
      rw [decreaseRefCount_peer (hfirst.owns ho), release_one] at hgone
      simp only [hmiddle, Bool.false_or, beq_iff_eq] at hgone
      refine ⟨(((decreaseRefCount u)^[n] s).peer u).connectionId, ?_⟩
      rw [decreaseRefCount_erased hgone (hfirst.owns ho) hmiddle, log_trace, List.mem_append]
      simp

theorem startOperation_posted [HandlerCopies] (op : Operation) (ho : Owns u s)
    (hd : (s.peer u).destroyed = false) (hgone : ((startOperation u op s).peer u).destroyed = true) :
    ∃ id, Item.posted u (.canDelete id) ∈ (startOperation u op s).trace := by
  apply decreases_posted _ ((Local.queued _ op ho).owns ho) _ hgone
  rw [queued_peer]
  exact hd

end

section
variable [HandlerCopies] [Host] {s : DispatchingServer}

theorem Flooded.posted (h : Flooded mostPending (.readBody 0) s) :
    ∃ t, Server.step s (.completed 0 mostPending (.ok [])) = some t ∧ t.created = s.created ∧
      t.status = .running ∧ (t.peer 0).pending ≠ [] ∧
      ∃ evt ∈ eventsOf 0 t.trace, evt.isDeletion = true := by
  obtain ⟨t, hstep, hb, hp, hstatus⟩ := h.broadcasts le_rfl
  have hgone : (t.peer 0).destroyed = true := by
    rw [hp]
    exact (handled_destroyed _ _ _ (.broadcast []) h.destroyed).mpr (h.overflows [])
  have hinvoke := hstep.symm.trans (h.step rfl)
  have hcount := h.counted
  have hroom := mostPending_add
  have ho := h.wellFormed.owns h.destroyed
  have hin : Local 0 s (entered 0 mostPending (.readBody 0) (.ok []) s) := Local.entered _ _ _ ho
  have hpeer : (entered 0 mostPending (.readBody 0) (.ok []) s).peer 0 =
    (s.peer 0).entered mostPending (.readBody 0) (.ok []) := entered_peer
  rw [Option.some_inj, invoke_eq, show reaction (.readBody 0) (.ok []) = .broadcast [] from rfl] at hinvoke
  generalize entered 0 mostPending (.readBody 0) (.ok []) s = s1 at *
  have hd1 : (s1.peer 0).destroyed = false := by
    rw [hpeer]
    exact h.destroyed
  have hs1 := hin.wellFormed ho (h.wellFormed.lt_created h.destroyed) h.wellFormed
  obtain ⟨hact, hod, hqueued⟩ := perform_broadcast [] hs1 hd1
  rw [hact] at hinvoke
  have hlive : ((distributeMessage ⟨SerializedData.ofBlock []⟩ (delivered 0 [] s1)).peer 0).destroyed =
      false := by
    rw [← Bool.not_eq_true, hqueued, queue_destroyed hd1, hpeer, Peer.entered_referenceCount,
      comesToOne_add, comesToOne_iff (by omega)]
    omega
  generalize distributeMessage ⟨SerializedData.ofBlock []⟩ (delivered 0 [] s1) = d at *
  have hreceive := (Local.startOperation .readHeader hod).owns hod
  have hmore := (Local.decreases (HandlerCopies.calling + 1) hreceive).traced
  have hposted : ∃ id, Item.posted 0 (.canDelete id) ∈ t.trace := by
    rw [hinvoke]
    cases hearly : ((startOperation 0 .readHeader d).peer 0).destroyed with
    | true =>
      obtain ⟨id, hid⟩ := startOperation_posted .readHeader hod hlive hearly
      exact ⟨id, hmore.subset hid⟩
    | false => exact decreases_posted _ hreceive hearly (hinvoke ▸ hgone)
  obtain ⟨id, hid⟩ := hposted
  refine ⟨t, hstep, hb.created, hstatus, ?_, .canDelete id, mem_eventsOf hid, rfl⟩
  rw [hp, handled_flooded h]
  simp [started]

theorem flood_deletes_run : ∃ t, exec Server.step init (flood (mostPending + 1)) = some t ∧
    t.created < 2 ^ 31 - 1 ∧ (∀ e, t.status ≠ .threw e) ∧ ¬ EventProtocol 0 t := by
  obtain ⟨s, hs, hflood⟩ := flooded_run mostPending le_rfl
  obtain ⟨t, ht, hheader⟩ := hflood.header le_rfl
  obtain ⟨r, hr, hcreated, hstatus, hpending, hdeleted⟩ := hheader.posted
  refine ⟨r, ?_, ?_, by simp [hstatus], ?_⟩
  · rw [flood_succ, exec_append]
    exact ⟨s, hs, exec_cons.mpr ⟨t, ht, exec_cons.mpr ⟨r, hr, rfl⟩⟩⟩
  · rw [hcreated, hheader.created]
    decide
  · intro hprotocol
    exact hpending (hprotocol.deleted.mp hdeleted).2

end

theorem flood_deletes : ∃ t, exec (@step bindCopies littleEndianHost) init
    (flood (@mostPending bindCopies + 1)) = some t ∧
      t.created < 2 ^ 31 - 1 ∧ (∀ e, t.status ≠ .threw e) ∧ ¬ EventProtocol 0 t :=
  @flood_deletes_run bindCopies littleEndianHost

end NukeMs.Server
