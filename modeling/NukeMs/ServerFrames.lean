import NukeMs.ServerTrace

namespace NukeMs.Server

open ReferenceCounter

section
variable (u v : ℕ) (f : Peer → Peer) (items : List Item) (s : DispatchingServer)

@[simp] theorem modify_peer : (modify u f s).peer v = if v = u then f (s.peer u) else s.peer v :=
  Function.update_apply ..

@[simp] theorem modify_created : (modify u f s).created = s.created := rfl
@[simp] theorem modify_peersList : (modify u f s).peersList = s.peersList := rfl
@[simp] theorem modify_currentConnId : (modify u f s).currentConnId = s.currentConnId := rfl
@[simp] theorem modify_accepting : (modify u f s).accepting = s.accepting := rfl
@[simp] theorem modify_status : (modify u f s).status = s.status := rfl
@[simp] theorem modify_trace : (modify u f s).trace = s.trace := rfl

@[simp] theorem log_peer : (log items s).peer = s.peer := rfl
@[simp] theorem log_created : (log items s).created = s.created := rfl
@[simp] theorem log_peersList : (log items s).peersList = s.peersList := rfl
@[simp] theorem log_currentConnId : (log items s).currentConnId = s.currentConnId := rfl
@[simp] theorem log_accepting : (log items s).accepting = s.accepting := rfl
@[simp] theorem log_status : (log items s).status = s.status := rfl
@[simp] theorem log_trace : (log items s).trace = s.trace ++ items := rfl

@[simp] theorem log_log (more : List Item) : log more (log items s) = log (items ++ more) s := by
  simp [log]

@[simp] theorem log_nil : log [] s = s := by simp [log]

theorem modify_log : modify u f (log items s) = log items (modify u f s) := rfl

end

theorem getElem?_erase (m : Std.TreeMap ℤ ℕ compare) (k a : ℤ) :
    (m.erase k)[a]? = if a = k then none else m[a]? := by
  rw [Std.TreeMap.getElem?_erase]
  by_cases h : a = k
  · subst h; simp
  · rw [if_neg h, if_neg (fun hc => h (Std.LawfulEqCmp.eq_of_compare hc).symm)]

theorem getElem?_insert (m : Std.TreeMap ℤ ℕ compare) (k a : ℤ) (u : ℕ) :
    (m.insert k u)[a]? = if a = k then some u else m[a]? := by
  rw [Std.TreeMap.getElem?_insert]
  by_cases h : a = k
  · subst h; simp
  · rw [if_neg h, if_neg (fun hc => h (Std.LawfulEqCmp.eq_of_compare hc).symm)]

/-- Every entry owns a peer that lives, under its own id, and every peer that lives has its entry. -/
structure WellFormed (s : DispatchingServer) : Prop where
  listed : ∀ id v, s.peersList[id]? = some v →
    (s.peer v).connectionId = id ∧ (s.peer v).destroyed = false
  alive : ∀ v, (s.peer v).destroyed = false → s.peersList[(s.peer v).connectionId]? = some v
  fresh : ∀ v, s.created ≤ v → s.peer v = noPeer

def IsListed (v : ℕ) (s : DispatchingServer) : Prop := ∃ id : ℤ, s.peersList[id]? = some v

theorem WellFormed.isListed_iff {s : DispatchingServer} (hs : WellFormed s) {v : ℕ} :
    IsListed v s ↔ (s.peer v).destroyed = false :=
  ⟨fun ⟨id, hid⟩ => (hs.listed id v hid).2, fun hd => ⟨_, hs.alive v hd⟩⟩

def Owns (u : ℕ) (s : DispatchingServer) : Prop :=
  s.peersList[(s.peer u).connectionId]? = if (s.peer u).destroyed then none else some u

theorem WellFormed.owns {s : DispatchingServer} (h : WellFormed s) {u : ℕ}
    (hu : (s.peer u).destroyed = false) : Owns u s := by
  rw [Owns, h.alive u hu, hu]
  rfl

theorem WellFormed.mem_keys {s : DispatchingServer} (hs : WellFormed s) {v : ℕ} (hd : (s.peer v).destroyed = false) :
    (s.peer v).connectionId ∈ s.peersList.keys := by
  rw [Std.TreeMap.mem_keys, Std.TreeMap.mem_iff_isSome_getElem?, hs.alive v hd]
  rfl

theorem WellFormed.lt_created {s : DispatchingServer} (h : WellFormed s) {u : ℕ}
    (hu : (s.peer u).destroyed = false) : u < s.created := by
  by_contra hge
  rw [h.fresh u (by omega)] at hu
  cases hu

def Hears (v : ℕ) (s : DispatchingServer) : Prop :=
  (listener v s.trace).listed = !(s.peer v).destroyed

structure Local (u : ℕ) (s t : DispatchingServer) : Prop where
  other : ∀ v, v ≠ u → t.peer v = s.peer v
  connectionId : (t.peer u).connectionId = (s.peer u).connectionId
  destroyed : (s.peer u).destroyed = true → (t.peer u).destroyed = true
  entry : ∀ id, t.peersList[id]? =
    if id = (s.peer u).connectionId ∧ (t.peer u).destroyed = true then none else s.peersList[id]?
  created : t.created = s.created
  currentConnId : t.currentConnId = s.currentConnId
  accepting : t.accepting = s.accepting
  traced : s.trace <+: t.trace
  written : ∀ v, writesTo v t.trace = writesTo v s.trace
  heard : ∀ v, heardBy v t.trace = heardBy v s.trace
  handed : handedUp t.trace = handedUp s.trace
  hears : ∀ v, Hears v s → Hears v t
  marked : (s.peer u).destroyed = false → (t.peer u).destroyed = true → ErasedThenTouched t.trace
  kept : (t.peer u).destroyed = false → ∀ v, Item.erased v ∈ t.trace → Item.erased v ∈ s.trace
  iterated : (iteration s.trace).running = false ∨ (t.peer u).destroyed = (s.peer u).destroyed →
    iteration t.trace = iteration s.trace

namespace Local

variable {u : ℕ} {s t r : DispatchingServer}

theorem alive (h : Local u s t) (ht : (t.peer u).destroyed = false) :
    (s.peer u).destroyed = false := by
  rw [← Bool.not_eq_true]
  intro hs
  rw [h.destroyed hs] at ht
  cases ht

theorem trans (h : Local u s t) (k : Local u t r) : Local u s r where
  other v hv := (k.other v hv).trans (h.other v hv)
  connectionId := k.connectionId.trans h.connectionId
  destroyed hd := k.destroyed (h.destroyed hd)
  entry id := by
    rw [k.entry, h.entry, h.connectionId]
    by_cases hid : id = (s.peer u).connectionId
    · by_cases hr : (r.peer u).destroyed = true
      · simp [hid, hr]
      · have ht : (t.peer u).destroyed ≠ true := fun ht => hr (k.destroyed ht)
        simp [hid, hr, ht]
    · simp [hid]
  created := k.created.trans h.created
  currentConnId := k.currentConnId.trans h.currentConnId
  accepting := k.accepting.trans h.accepting
  traced := h.traced.trans k.traced
  written v := (k.written v).trans (h.written v)
  heard v := (k.heard v).trans (h.heard v)
  handed := k.handed.trans h.handed
  hears v hv := k.hears v (h.hears v hv)
  marked hs hr := by
    cases ht : (t.peer u).destroyed with
    | false => exact k.marked ht hr
    | true =>
      obtain ⟨items, hitems⟩ := k.traced
      exact hitems ▸ (h.marked hs ht).append items
  kept hr v hv := h.kept (k.alive hr) v (k.kept hr v hv)
  iterated hi := by
    have hst : (iteration s.trace).running = false ∨ (t.peer u).destroyed = (s.peer u).destroyed := by
      apply hi.imp_right
      intro hr
      cases hs : (s.peer u).destroyed with
      | true => exact h.destroyed hs
      | false => exact k.alive (hr.trans hs)
    have htr : (iteration t.trace).running = false ∨ (r.peer u).destroyed = (t.peer u).destroyed := by
      rw [h.iterated hst]
      apply hi.imp_right
      intro hr
      cases ht : (t.peer u).destroyed with
      | true => exact k.destroyed ht
      | false => exact hr.trans (h.alive ht)
    rw [k.iterated htr, h.iterated hst]

theorem owns (h : Local u s t) (ho : Owns u s) : Owns u t := by
  unfold Owns at *
  rw [h.entry, h.connectionId]
  by_cases ht : (t.peer u).destroyed = true
  · simp [ht]
  · have hs : (s.peer u).destroyed ≠ true := fun hs => ht (h.destroyed hs)
    rw [if_neg (fun hc => ht hc.2), if_neg ht, ho, if_neg hs]

theorem owns_other (h : Local u s t) (hu : Owns u s) {v : ℕ} (hv : v ≠ u) (ho : Owns v s) :
    Owns v t := by
  unfold Owns at *
  rw [h.entry, h.other v hv]
  split
  next hc =>
    rw [hc.1] at ho
    rw [ho] at hu
    cases hd : (s.peer v).destroyed with
    | true => rfl
    | false =>
      rw [hd, if_neg (by decide)] at hu
      split at hu <;> cases hu
      exact absurd rfl hv
  next => exact ho

theorem wellFormed (h : Local u s t) (ho : Owns u s) (hu : u < s.created) (hs : WellFormed s) :
    WellFormed t where
  listed id v hv := by
    rw [h.entry] at hv
    split at hv
    · cases hv
    next hid =>
      obtain ⟨hc, hd⟩ := hs.listed id v hv
      by_cases hvu : v = u
      · subst hvu
        refine ⟨h.connectionId.trans hc, ?_⟩
        rw [← Bool.not_eq_true]
        exact fun ht => hid ⟨hc.symm, ht⟩
      · rw [h.other v hvu]
        exact ⟨hc, hd⟩
  alive v hv := by
    rw [h.entry]
    by_cases hvu : v = u
    · subst hvu
      rw [h.connectionId, if_neg (by simp [hv])]
      exact hs.alive v (h.alive hv)
    · rw [h.other v hvu] at hv ⊢
      have hentry := hs.alive v hv
      have hne : (s.peer v).connectionId ≠ (s.peer u).connectionId := by
        intro hid
        rw [hid, ho] at hentry
        split at hentry <;> cases hentry
        exact hvu rfl
      rw [if_neg (fun hc => hne hc.1)]
      exact hentry
  fresh v hv := by
    rw [h.created] at hv
    rw [h.other v (by omega)]
    exact hs.fresh v hv

theorem modify (f : Peer → Peer) (hid : (f (s.peer u)).connectionId = (s.peer u).connectionId)
    (hd : (f (s.peer u)).destroyed = (s.peer u).destroyed) (ho : Owns u s) :
    Local u s (Server.modify u f s) where
  other v hv := by simp [hv]
  connectionId := by simpa using hid
  destroyed h := by simpa [hd] using h
  entry id := by
    simp only [modify_peersList, modify_peer, if_true, hd]
    split
    next h => rw [h.1, ho, if_pos h.2]
    next => rfl
  created := rfl
  currentConnId := rfl
  accepting := rfl
  traced := List.prefix_rfl
  written _ := rfl
  heard _ := rfl
  handed := rfl
  hears v h := by
    unfold Hears at *
    rw [modify_trace, h, modify_peer]
    split
    next hv => rw [hv, hd]
    next => rfl
  marked hs ht := by
    rw [modify_peer, if_pos rfl, hd, hs] at ht
    cases ht
  kept _ _ h := h
  iterated _ := rfl

theorem refl (ho : Owns u s) : Local u s s := by
  simpa [Server.modify] using modify (u := u) (s := s) id rfl rfl ho

theorem withStatus (status : Status) (ho : Owns u s) : Local u s { s with status := status } :=
  have h := refl ho
  { other := h.other, connectionId := rfl, destroyed := id, entry := h.entry, created := rfl
    currentConnId := rfl, accepting := rfl, traced := h.traced, written := h.written
    heard := h.heard, handed := rfl, hears := fun _ hv => hv, marked := h.marked, kept := h.kept
    iterated := h.iterated }

theorem log (items : List Item) (hi : items.all Item.silent = true) (ho : Owns u s) :
    Local u s (Server.log items s) :=
  have hsilent := List.all_eq_true.mp hi
  have h := refl ho
  { other := h.other, connectionId := h.connectionId, destroyed := h.destroyed, entry := h.entry,
    created := rfl, currentConnId := rfl, accepting := rfl
    traced := List.prefix_append _ _
    written := fun v => by rw [log_trace, writesTo_append, writesTo_silent hi, List.append_nil]
    heard := fun v => by rw [log_trace, heardBy, listener_silent hi, heardBy]
    handed := by rw [log_trace, handedUp_append, handedUp_silent hi, List.append_nil]
    hears := fun v hv => by rw [Hears, log_trace, listener_silent hi]; exact hv
    marked := fun hs ht => by
      rw [log_peer, hs] at ht
      cases ht
    kept := fun _ v hv => by
      rw [log_trace, List.mem_append] at hv
      exact hv.resolve_right fun hv => absurd (hsilent _ hv) (by simp [Item.silent])
    iterated := fun _ => iteration_silent hi }

end Local

section
variable {u : ℕ} {s : DispatchingServer}

theorem decreaseRefCount_of_ne (h : (s.peer u).referenceCount ≠ 1) :
    decreaseRefCount u s =
      log [.lock u, .decrement u (s.peer u).referenceCount, .readCount u, .unlock u]
        (modify u (fun p => { p with referenceCount := decrease p.referenceCount }) s) := by
  have hne : decrease (s.peer u).referenceCount ≠ 0 := fun hc => h (decrease_eq_zero_iff.mp hc)
  simp only [decreaseRefCount, log_peer, modify_peer, if_true, if_neg hne, log_log,
    List.cons_append, List.nil_append]

theorem decreaseRefCount_of_one (h : (s.peer u).referenceCount = 1) :
    decreaseRefCount u s = log [.readCount u, .unlock u]
      (eraseEntry (s.peer u).connectionId
        (log [.lock u, .decrement u 1, .action u, .posted u (.canDelete (s.peer u).connectionId)]
          (modify u (fun p => { p with referenceCount := 0 }) s))) := by
  have h0 : decrease 1 = 0 := decrease_eq_zero_iff.mpr rfl
  have hmod : modify u (fun p => { p with referenceCount := decrease p.referenceCount }) s =
      modify u (fun p => { p with referenceCount := 0 }) s := by
    simp only [modify, h, h0]
  simp only [decreaseRefCount, canDelete, hmod, log_peer, modify_peer, if_true, log_log,
    List.cons_append, List.nil_append, h]

theorem decreaseRefCount_erased (h : (s.peer u).referenceCount = 1) (ho : Owns u s)
    (hd : (s.peer u).destroyed = false) : decreaseRefCount u s =
      log [.lock u, .decrement u 1, .action u, .posted u (.canDelete (s.peer u).connectionId),
          .erased u, .readCount u, .unlock u]
        (modify u (fun p => { p with referenceCount := 0, destroyed := true })
          { s with peersList := s.peersList.erase (s.peer u).connectionId }) := by
  rw [decreaseRefCount_of_one h]
  have hentry : s.peersList[(s.peer u).connectionId]? = some u := by
    rw [ho, hd, if_neg (by decide)]
  simp only [eraseEntry, log_peersList, modify_peersList, hentry]
  simp [log, modify]

theorem decreaseRefCount_gone (h : (s.peer u).referenceCount = 1) (ho : Owns u s)
    (hd : (s.peer u).destroyed = true) : decreaseRefCount u s =
      log [.lock u, .decrement u 1, .action u, .posted u (.canDelete (s.peer u).connectionId),
          .readCount u, .unlock u]
        (modify u (fun p => { p with referenceCount := 0 }) s) := by
  rw [decreaseRefCount_of_one h]
  have hentry : s.peersList[(s.peer u).connectionId]? = none := by
    rw [ho, hd, if_pos rfl]
  simp only [eraseEntry, log_peersList, modify_peersList, hentry, log_log, List.cons_append,
    List.nil_append]

theorem Local.increaseRefCount (ho : Owns u s) : Local u s (increaseRefCount u s) :=
  have h := Local.modify (fun p => { p with referenceCount := increase p.referenceCount }) rfl rfl ho
  h.trans (Local.log [.lock u, .increment u, .unlock u] rfl (h.owns ho))

theorem Local.decreaseRefCount (ho : Owns u s) : Local u s (decreaseRefCount u s) := by
  by_cases h1 : (s.peer u).referenceCount = 1
  · cases hd : (s.peer u).destroyed with
    | false =>
      rw [decreaseRefCount_erased h1 ho hd]
      exact {
        other := fun v hv => by simp [hv]
        connectionId := by simp
        destroyed := fun _ => by simp
        entry := fun id => by
          simp only [log_peersList, modify_peersList, log_peer, modify_peer, if_true, and_true]
          exact getElem?_erase _ _ _
        created := rfl
        currentConnId := rfl
        accepting := rfl
        traced := List.prefix_append _ _
        written := fun v => by rw [log_trace, writesTo_append]; simp [writesTo]
        heard := fun v => by
          rw [log_trace, heardBy, listener_append]
          by_cases hv : u = v <;> simp [Listener.hear, heardBy, hv]
        handed := by rw [log_trace, handedUp_append]; simp [handedUp]
        hears := fun v hv => by
          unfold Hears at *
          rw [log_trace, listener_append]
          by_cases hvu : u = v
          · subst hvu
            simp [Listener.hear]
          · simpa [Listener.hear, hvu, Ne.symm hvu] using hv
        marked := fun _ _ => ⟨u, s.trace ++ [.lock u, .decrement u 1, .action u,
          .posted u (.canDelete (s.peer u).connectionId)], [.readCount u, .unlock u], .readCount u,
          by simp, by simp, by simp [Item.touches]⟩
        kept := fun hlive => by simp at hlive
        iterated := fun hi => by
          rw [log_peer, modify_peer, if_pos rfl, hd] at hi
          have hrun := hi.resolve_right (by simp)
          rw [log_trace, modify_trace, iteration_append]
          simp only [List.foldl_cons, List.foldl_nil, Iteration.next, hrun, Bool.or_false]
          rw [← hrun] }
    | true =>
      rw [decreaseRefCount_gone h1 ho hd]
      have h := Local.modify (fun p => { p with referenceCount := 0 }) rfl rfl ho
      exact h.trans (Local.log _ rfl (h.owns ho))
  · rw [decreaseRefCount_of_ne h1]
    have h := Local.modify (fun p => { p with referenceCount := decrease p.referenceCount })
      rfl rfl ho
    exact h.trans (Local.log _ rfl (h.owns ho))

theorem Local.iterate {f : DispatchingServer → DispatchingServer}
    (h : ∀ s, Owns u s → Local u s (f s)) (ho : Owns u s) (n : ℕ) : Local u s (f^[n] s) := by
  induction n with
  | zero => exact Local.refl ho
  | succ n ih =>
    rw [Function.iterate_succ_apply']
    exact ih.trans (h _ (ih.owns ho))

theorem Local.increases (n : ℕ) (ho : Owns u s) : Local u s ((Server.increaseRefCount u)^[n] s) :=
  Local.iterate (fun _ h => Local.increaseRefCount h) ho n

theorem Local.decreases (n : ℕ) (ho : Owns u s) : Local u s ((Server.decreaseRefCount u)^[n] s) :=
  Local.iterate (fun _ h => Local.decreaseRefCount h) ho n

theorem Local.queued (n : ℕ) (op : Operation) (ho : Owns u s) :
    Local u s (Server.modify u (fun p => { p with pending := p.pending ++ [op] })
      ((Server.increaseRefCount u)^[n] s)) := by
  have h := Local.increases n ho
  exact h.trans (Local.modify (fun p => { p with pending := p.pending ++ [op] }) rfl rfl (h.owns ho))

theorem Local.startOperation [HandlerCopies] (op : Operation) (ho : Owns u s) :
    Local u s (startOperation u op s) := by
  have h := Local.queued (HandlerCopies.starting + 1) op ho
  exact h.trans (Local.decreases _ (h.owns ho))

end

section
variable {u : ℕ} {s : DispatchingServer}

theorem decreaseRefCount_status : (decreaseRefCount u s).status = s.status := by
  simp only [decreaseRefCount, canDelete, eraseEntry, log_status]
  split
  · split
    · split <;> rfl
    · rfl
  · rfl

theorem iterate_status {f : DispatchingServer → DispatchingServer} (h : ∀ s, (f s).status = s.status)
    (n : ℕ) : (f^[n] s).status = s.status := by
  induction n with
  | zero => rfl
  | succ n ih => rw [Function.iterate_succ_apply', h, ih]

theorem increases_status (n : ℕ) : ((increaseRefCount u)^[n] s).status = s.status :=
  iterate_status (f := increaseRefCount u) (fun _ => rfl) n

theorem decreases_status (n : ℕ) : ((decreaseRefCount u)^[n] s).status = s.status :=
  iterate_status (fun _ => decreaseRefCount_status) n

theorem startOperation_status [HandlerCopies] (op : Operation) :
    (startOperation u op s).status = s.status := by
  rw [startOperation, decreases_status, modify_status, increases_status]

end

end NukeMs.Server
