import NukeMs.FaithfulBroadcast
import NukeMs.Network
import NukeMs.OneProtocol
import NukeMs.PeerSession
import NukeMs.SenderFraming

namespace NukeMs.Network

open SegmentationLayerBase FramedStream Runs

def messagesFrom (k : ℕ) (receipts : List (ℕ × NearUserMessage)) : List NearUserMessage :=
  (receipts.filter fun receipt => receipt.1 = k).map Prod.snd

def receivedSince (k : ℕ) (receipts : List (ℕ × NearUserMessage)) (s : Network) :
    List NearUserMessage :=
  (receipts.drop (s.joined k)).map Prod.snd

def Upstream (k : ℕ) (receipts : List (ℕ × NearUserMessage)) (s : Network) : Prop :=
  ∃ rest, s.sent k = messagesFrom k receipts ++ rest ∧
    ((s.server.peer k).destroyed = false →
      (s.server.peer k).Sees (s.up k) (rest.map NearUserMessage.bytes)) ∧
    (s.server.created ≤ k → packetLayout.Sees .header (s.up k) (rest.map NearUserMessage.bytes))

def Downstream (start : ℕ → ClientNode) (k : ℕ) (receipts : List (ℕ × NearUserMessage))
    (s : Network) : Prop :=
  ∃ heard toCome, Client.rcvMessages (s.client k) = Client.rcvMessages (start k) ++ heard ∧
    heard ++ toCome <+: receivedSince k receipts s ∧
    (s.isOpen k = true → heard ++ toCome = receivedSince k receipts s) ∧
    ((s.client k).state = .connected →
      Client.Session (s.client k) (s.down k) (toCome.map NearUserMessage.bytes)) ∧
    (s.server.created ≤ k → heard ++ toCome = [])

structure Relays (start : ℕ → ClientNode) (receipts : List (ℕ × NearUserMessage)) (s : Network) :
    Prop where
  faithful : Server.Faithful s.server
  handedUp : Server.handedUp s.server.trace = receipts.map fun receipt => (receipt.1, receipt.2.bytes)
  joined : ∀ k, s.joined k ≤ receipts.length
  fits : ∀ k, ∀ m ∈ s.sent k, m.bytes.length ≤ packetLayout.longest
  upstream : ∀ k, Upstream k receipts s
  downstream : ∀ k, Downstream start k receipts s
  kept : ∀ k, s.broken k = false → (s.client k).state = .connected →
    (s.server.peer k).destroyed = false → (s.server.peer k).socketOpen = true
  unfailed : ∀ k, s.lostToClient k = false → (s.client k).state = .connected →
    Client.Unfailed (s.client k)

section
variable {start : ℕ → ClientNode} {receipts : List (ℕ × NearUserMessage)} {s t : Network} {k : ℕ}

theorem messagesFrom_append (k : ℕ) (receipts more : List (ℕ × NearUserMessage)) :
    messagesFrom k (receipts ++ more) = messagesFrom k receipts ++ messagesFrom k more := by
  rw [messagesFrom, messagesFrom, messagesFrom, List.filter_append, List.map_append]

theorem messagesFrom_self (k : ℕ) (messages : List NearUserMessage) :
    messagesFrom k (messages.map fun m => (k, m)) = messages := by
  induction messages with
  | nil => rfl
  | cons m messages ih =>
    rw [messagesFrom] at ih ⊢
    simp only [List.map_cons, List.filter_cons, decide_true, if_true, ih]

theorem messagesFrom_other {u : ℕ} (h : k ≠ u) (messages : List NearUserMessage) :
    messagesFrom k (messages.map fun m => (u, m)) = [] := by
  induction messages with
  | nil => rfl
  | cons m messages ih =>
    rw [messagesFrom] at ih ⊢
    have hne : ¬ u = k := fun hu => h hu.symm
    simp only [List.map_cons, List.filter_cons, hne, decide_false, Bool.false_eq_true, if_false, ih]

theorem connected_session {c : ClientNode} (h : Connected c) : Client.Session c [] [] where
  state := h.state
  faulted := h.faulted
  kinds op hop := by
    rw [h.pending, List.mem_singleton] at hop
    rw [hop]
    rfl
  single := by
    rw [h.pending]
    rfl
  completed op hop outcome hout := by
    rw [h.pending, List.mem_singleton] at hop
    rw [hop] at hout
    cases hout
  sees op hop phase hphase := by
    rw [h.pending, List.mem_singleton] at hop
    rw [hop] at hphase ⊢
    cases hphase
    exact Layout.Sees.start

theorem begin_relays (hstart : ∀ k, Connected (start k)) : Relays start [] (begin start) where
  faithful := Server.init_faithful
  handedUp := rfl
  joined _ := le_rfl
  fits k m hm := nomatch hm
  upstream k := ⟨[], rfl, nofun, fun _ => Layout.Sees.start⟩
  downstream k := ⟨[], [], (List.append_nil _).symm, List.prefix_rfl, fun _ => rfl,
    fun _ => connected_session (hstart k), fun _ => rfl⟩
  kept k _ _ hd := nomatch hd
  unfailed k _ _ op hop outcome hout := by
    change op ∈ (start k).pending at hop
    rw [(hstart k).pending, List.mem_singleton] at hop
    rw [hop] at hout
    cases hout

theorem breaks_relays [HandlerCopies] [Host] (hs : Relays start receipts s) (h : step s (.breaks k) = some t) :
    Relays start receipts t := by
  cases h
  have hwas : ∀ j, Function.update s.broken k true j = false → s.broken j = false := by
    intro j hj
    rw [Function.update_apply] at hj
    split at hj
    · cases hj
    · exact hj
  refine ⟨hs.faithful, hs.handedUp, hs.joined, hs.fits, hs.upstream, hs.downstream,
    fun j hbroken => hs.kept j (hwas j hbroken), fun j hlost => hs.unfailed j ?_⟩
  obtain ⟨hbroken, hopen⟩ := Bool.or_eq_false_iff.mp hlost
  exact Bool.or_eq_false_iff.mpr ⟨hwas j hbroken, hopen⟩

end

section
variable [HandlerCopies] [Host] {start : ℕ → ClientNode} {receipts : List (ℕ × NearUserMessage)} {s t : Network}
  {k : ℕ} {input : Client.Input} {rest : List Byte}

omit [HandlerCopies] in
theorem toClient_complete {i : ℕ} {outcome : Client.Outcome}
    (h : s.toClient k (.complete i outcome) = some rest) :
    (outcome.aborted = false ∧ s.down k = outcome.received ++ rest) ∧
      (s.lostToClient k = false → outcome.error = none) := by
  obtain ⟨error, endpoints, bytes⟩ := outcome
  cases error with
  | none =>
    simp only [toClient, Option.ite_none_right_eq_some, Option.some.injEq,
      List.isPrefixOf_iff_prefix] at h
    obtain ⟨⟨tail, htail⟩, rfl⟩ := h
    refine ⟨⟨rfl, ?_⟩, fun _ => rfl⟩
    rw [← htail, List.drop_left]
    rfl
  | some error =>
    simp only [toClient, Option.ite_none_right_eq_some, Option.some.injEq, Bool.and_eq_true,
      Bool.not_eq_true'] at h
    obtain ⟨⟨hlost, habort⟩, rfl⟩ := h
    refine ⟨⟨habort, rfl⟩, ?_⟩
    intro hfine
    rw [hlost] at hfine
    cases hfine

omit [HandlerCopies] in
theorem toClient_other (hinput : ∀ i outcome, input ≠ .complete i outcome)
    (h : s.toClient k input = some rest) : s.down k = rest ∧
      ∀ m ∈ (Client.asked (s.client k) input).toList, m.bytes.length ≤ packetLayout.longest := by
  cases input with
  | complete i outcome => exact absurd rfl (hinput i outcome)
  | sendUserMessage msg recipient =>
    simp only [toClient, Option.ite_none_right_eq_some, Option.some.injEq] at h
    obtain ⟨hsize, hrest⟩ := h
    refine ⟨hrest, ?_⟩
    intro m hm
    have hm : m = Client.usermsg msg recipient (s.client k) := by
      simpa [Client.asked] using hm
    rw [Client.sendMsg_buffer, SegmentationLayer.packet_length, ← hm] at hsize
    simp only [packetLayout, headerLength] at hsize ⊢
    omega
  | connectTo dest thread => exact ⟨Option.some.inj h, by simp [Client.asked]⟩
  | disconnect => exact ⟨Option.some.inj h, by simp [Client.asked]⟩
  | handler i => exact ⟨Option.some.inj h, by simp [Client.asked]⟩

omit [HandlerCopies] [Host] in
theorem fromClient_eq {c c' : ClientNode} {sending : List NearUserMessage}
    (h : Client.writes c.attempt c' = Client.writes c.attempt c ++
      sending.map fun m => SegmentationLayer.packet m.bytes) :
    fromClient c c' = packetLayout.stream (sending.map NearUserMessage.bytes) := by
  rw [fromClient, h, List.drop_left, Layout.stream, List.flatMap_def, List.map_map]
  rfl

theorem client_step (h : step s (.client k input) = some t) : ∃ c' rest,
    (s.client k).state = .connected ∧ s.toClient k input = some rest ∧
      Client.step (s.client k) input = some c' ∧ t = { s with
        client := Function.update s.client k c'
        up := Function.update s.up k (s.up k ++ fromClient (s.client k) c')
        down := Function.update s.down k rest
        sent := Function.update s.sent k (s.sent k ++ (Client.asked (s.client k) input).toList) } := by
  simp only [step] at h
  split at h
  next hstate =>
    split at h
    next rest c' hdown hstep =>
      cases h
      exact ⟨c', rest, hstate, hdown, hstep, rfl⟩
    next => cases h
  next => cases h

omit [HandlerCopies] in
theorem asked_fits (hdown : s.toClient k input = some rest) :
    ∀ m ∈ (Client.asked (s.client k) input).toList, m.bytes.length ≤ packetLayout.longest := by
  by_cases hcomplete : ∃ i outcome, input = .complete i outcome
  · obtain ⟨i, outcome, rfl⟩ := hcomplete
    intro m hm
    cases hm
  · exact (toClient_other (fun i outcome hi => hcomplete ⟨i, outcome, hi⟩) hdown).2

omit [HandlerCopies] [Host] in
theorem client_upstream {c' : ClientNode} {sending : List NearUserMessage}
    (hfits : ∀ m ∈ sending, m.bytes.length ≤ packetLayout.longest)
    (hsent : fromClient (s.client k) c' = packetLayout.stream (sending.map NearUserMessage.bytes))
    {j : ℕ} (h : Upstream j receipts s) : Upstream j receipts { s with
      client := Function.update s.client k c'
      up := Function.update s.up k (s.up k ++ fromClient (s.client k) c')
      down := Function.update s.down k rest
      sent := Function.update s.sent k (s.sent k ++ sending) } := by
  by_cases hjk : j = k
  · subst hjk
    obtain ⟨before, hsplit, hpeer, hearly⟩ := h
    have hbodies : ∀ body ∈ sending.map NearUserMessage.bytes,
        body.length ≤ packetLayout.longest := List.forall_mem_map.mpr hfits
    refine ⟨before ++ sending, ?_, ?_, ?_⟩
    · dsimp only
      rw [Function.update_self, hsplit, List.append_assoc]
    · intro hd
      dsimp only
      rw [Function.update_self, hsent, List.map_append]
      exact (hpeer hd).arrive _ hbodies
    · intro hj
      dsimp only
      rw [Function.update_self, hsent, List.map_append]
      exact (hearly hj).sendAll _ hbodies
  · simpa only [Upstream, Function.update_of_ne hjk] using h

omit [HandlerCopies] [Host] in
theorem client_downstream {c' : ClientNode} {sending : List NearUserMessage}
    {up : ℕ → List Byte} {sent : ℕ → List NearUserMessage}
    (hproceeds : ∀ toCome,
      Client.Session (s.client k) (s.down k) (toCome.map NearUserMessage.bytes) →
      Client.Proceeds (s.client k) c' rest toCome sending)
    (hstate : (s.client k).state = .connected) {j : ℕ} (h : Downstream start j receipts s) :
    Downstream start j receipts { s with
      client := Function.update s.client k c'
      up := up
      down := Function.update s.down k rest
      sent := sent } := by
  by_cases hjk : j = k
  · subst hjk
    obtain ⟨heard, toCome, hheard, hprefix, hopen, hsession, hfresh⟩ := h
    obtain ⟨new, later, rfl, hsignalled, hnext, -⟩ := hproceeds toCome (hsession hstate)
    rw [← List.append_assoc] at hprefix hopen hfresh
    refine ⟨heard ++ new, later, ?_, hprefix, hopen, ?_, hfresh⟩
    · dsimp only
      rw [Function.update_self, hsignalled, hheard, List.append_assoc]
    · intro hj
      dsimp only at hj ⊢
      rw [Function.update_self] at hj ⊢
      rw [Function.update_self]
      exact hnext hj
  · simpa only [Downstream, receivedSince, isOpen, Function.update_of_ne hjk] using h

theorem client_relays (hs : Relays start receipts s) (h : step s (.client k input) = some t) :
    Relays start receipts t := by
  obtain ⟨c', rest, hstate, hdown, hstep, rfl⟩ := client_step h
  have hproceeds : ∀ toCome,
      Client.Session (s.client k) (s.down k) (toCome.map NearUserMessage.bytes) →
      Client.Proceeds (s.client k) c' rest toCome (Client.asked (s.client k) input).toList := by
    intro toCome hc
    apply Client.step_proceeds hc hstep
    · intro i outcome hi
      subst hi
      exact (toClient_complete hdown).1
    · intro hinput
      exact (toClient_other hinput hdown).1
  have hfits := asked_fits hdown
  obtain ⟨heard, toCome, -, -, -, hsession, -⟩ := hs.downstream k
  have hc := hsession hstate
  obtain ⟨-, -, -, -, -, hwritten⟩ := hproceeds toCome hc
  refine ⟨hs.faithful, hs.handedUp, hs.joined, ?_,
    fun j => client_upstream hfits (fromClient_eq hwritten) (hs.upstream j),
    fun j => client_downstream hproceeds hstate (hs.downstream j), ?_, ?_⟩
  · intro j m hm
    dsimp only at hm
    by_cases hjk : j = k
    · subst hjk
      rw [Function.update_self, List.mem_append] at hm
      exact hm.elim (hs.fits j m) (hfits m)
    · rw [Function.update_of_ne hjk] at hm
      exact hs.fits j m hm
  · intro j hbroken hj
    apply hs.kept j hbroken
    by_cases hjk : j = k
    · exact hjk ▸ hstate
    · dsimp only at hj
      rw [Function.update_of_ne hjk] at hj
      exact hj
  · intro j hlost hj
    have hwas : s.lostToClient j = false := hlost
    dsimp only at hj ⊢
    by_cases hjk : j = k
    · subst hjk
      rw [Function.update_self] at hj ⊢
      apply Client.step_unfailed hc (hs.unfailed j hwas hstate) hstep hj
      intro i outcome hi
      subst hi
      exact (toClient_complete hdown).2 hwas
    · rw [Function.update_of_ne hjk] at hj ⊢
      exact hs.unfailed j hwas hj

end

section
variable {start : ℕ → ClientNode} {receipts : List (ℕ × NearUserMessage)} {s t : Network}
  {u : ℕ} {server : DispatchingServer}

theorem receivedSince_append (v : ℕ) (got : List NearUserMessage) (hjoined : s.joined v ≤ receipts.length) :
    receivedSince v (receipts ++ got.map fun m => (u, m)) s = receivedSince v receipts s ++ got := by
  rw [receivedSince, receivedSince, List.drop_append_of_le_length hjoined, List.map_append, List.map_map]
  exact congrArg (_ ++ ·) (List.map_id got)

theorem fromServer_eq {bodies : List (List Byte)} (h : Server.Relayed u bodies s.server server) (v : ℕ) :
    s.fromServer v server = if s.isOpen v then packetLayout.stream bodies else [] := by
  rw [fromServer, h.written, List.drop_left, isOpen]
  cases hd : (s.server.peer v).destroyed with
  | true =>
    cases (s.server.peer v).socketOpen <;> rfl
  | false =>
    cases (s.server.peer v).socketOpen with
    | false => rfl
    | true =>
      rw [Layout.stream, List.flatMap_def]
      rfl

structure HandledBy (u : ℕ) (receipts : List (ℕ × NearUserMessage)) (s : Network)
    (got : List NearUserMessage) (up : ℕ → List Byte) (server : DispatchingServer) : Prop where
  faithful : Server.Faithful server
  relayed : Server.Relayed u (got.map NearUserMessage.bytes) s.server server
  sees : ∃ rest, s.sent u = messagesFrom u receipts ++ (got ++ rest) ∧
    ((server.peer u).destroyed = false → (server.peer u).Sees (up u) (rest.map NearUserMessage.bytes)) ∧
    (s.server.created ≤ u → packetLayout.Sees .header (up u) (rest.map NearUserMessage.bytes))
  up : ∀ v, v ≠ u → up v = s.up v
  closed : (server.peer u).socketOpen = true → (s.server.peer u).socketOpen = true
  kept : s.broken u = false → (s.client u).state = .connected →
    (s.server.peer u).socketOpen = true → (server.peer u).socketOpen = true

variable {got : List NearUserMessage} {up : ℕ → List Byte}

theorem HandledBy.isOpen (h : HandledBy u receipts s got up server) {v : ℕ} {t : Network}
    (ht : t.server = server) (hopen : t.isOpen v = true) : s.isOpen v = true := by
  rw [Network.isOpen, Bool.and_eq_true, Bool.not_eq_true', ht] at hopen
  rw [Network.isOpen, Bool.and_eq_true, Bool.not_eq_true']
  constructor
  · exact h.relayed.alive hopen.1
  · by_cases hv : v = u
    · subst hv
      exact h.closed hopen.2
    · rw [← h.relayed.socketOpen v hv]
      exact hopen.2

theorem Relays.lt_created (hs : Relays start receipts s) {v : ℕ} (ho : s.isOpen v = true) :
    v < s.server.created := by
  rw [Network.isOpen, Bool.and_eq_true, Bool.not_eq_true'] at ho
  exact hs.faithful.wellFormed.lt_created ho.1

theorem HandledBy.upstream (hs : Relays start receipts s) (h : HandledBy u receipts s got up server)
    (v : ℕ) : Upstream v (receipts ++ got.map fun m => (u, m)) { s with server := server, up := up } := by
  by_cases hv : v = u
  · subst hv
    obtain ⟨rest, hsent, hsees, hearly⟩ := h.sees
    refine ⟨rest, ?_, hsees, fun hcreated => hearly (h.relayed.created ▸ hcreated)⟩
    rw [messagesFrom_append, messagesFrom_self, List.append_assoc]
    exact hsent
  · obtain ⟨rest, hsent, hsees, hearly⟩ := hs.upstream v
    refine ⟨rest, ?_, ?_, ?_⟩
    · rw [messagesFrom_append, messagesFrom_other hv, List.append_nil]
      exact hsent
    · intro hd
      dsimp only
      rw [h.up v hv]
      exact (hsees (h.relayed.alive hd)).of_pending (h.relayed.reads v hv)
    · intro hcreated
      dsimp only
      rw [h.up v hv]
      exact hearly (h.relayed.created ▸ hcreated)

theorem HandledBy.downstream (hs : Relays start receipts s) (h : HandledBy u receipts s got up server)
    (hfits : ∀ body ∈ got.map NearUserMessage.bytes, body.length ≤ packetLayout.longest) (v : ℕ) :
    Downstream start v (receipts ++ got.map fun m => (u, m)) { s with
      server := server
      up := up
      down := fun v => s.down v ++ s.fromServer v server } := by
  obtain ⟨heard, toCome, hheard, hprefix, hopen, hsession, hfresh⟩ := hs.downstream v
  have hfrom := fromServer_eq h.relayed v
  have hsince : receivedSince v (receipts ++ got.map fun m => (u, m)) s =
      receivedSince v receipts s ++ got := receivedSince_append v got (hs.joined v)
  cases ho : s.isOpen v with
  | true =>
    rw [ho, if_pos rfl] at hfrom
    have hall : heard ++ (toCome ++ got) = receivedSince v receipts s ++ got := by
      rw [← hopen ho, List.append_assoc]
    have hlt := hs.lt_created ho
    refine ⟨heard, toCome ++ got, hheard, ?_, ?_, ?_, ?_⟩
    · exact (hall.trans hsince.symm) ▸ List.prefix_rfl
    · intro _
      exact hall.trans hsince.symm
    · intro hstate
      dsimp only
      rw [hfrom, List.map_append]
      exact (hsession hstate).arrive _ hfits
    · intro hcreated
      have hcreated : s.server.created ≤ v := h.relayed.created ▸ hcreated
      omega
  | false =>
    rw [ho, if_neg (by decide)] at hfrom
    refine ⟨heard, toCome, hheard, ?_, ?_, ?_, ?_⟩
    · exact hprefix.trans (hsince ▸ List.prefix_append _ _)
    · intro hc
      rw [h.isOpen rfl hc] at ho
      cases ho
    · intro hstate
      dsimp only
      rw [hfrom, List.append_nil]
      exact hsession hstate
    · intro hcreated
      exact hfresh (h.relayed.created ▸ hcreated)

theorem HandledBy.relays (hs : Relays start receipts s) (h : HandledBy u receipts s got up server) :
    Relays start (receipts ++ got.map fun m => (u, m)) { s with
      server := server
      up := up
      down := fun v => s.down v ++ s.fromServer v server } := by
  have hfits : ∀ body ∈ got.map NearUserMessage.bytes, body.length ≤ packetLayout.longest := by
    obtain ⟨rest, hsent, -⟩ := h.sees
    refine List.forall_mem_map.mpr fun m hm => hs.fits u m ?_
    rw [hsent]
    exact List.mem_append_right _ (List.mem_append_left _ hm)
  refine ⟨h.faithful, ?_, ?_, hs.fits, h.upstream hs, h.downstream hs hfits, ?_, ?_⟩
  · rw [h.relayed.handed, hs.handedUp, List.map_append, List.map_map, List.map_map]
    rfl
  · intro v
    exact (hs.joined v).trans (by rw [List.length_append]; omega)
  · intro v hbroken hstate hd
    have hwas := hs.kept v hbroken hstate (h.relayed.alive hd)
    by_cases hv : v = u
    · subst hv
      exact h.kept hbroken hstate hwas
    · dsimp only
      rw [h.relayed.socketOpen v hv]
      exact hwas
  · intro v hlost hstate
    refine hs.unfailed v ?_ hstate
    obtain ⟨hbroken, hopen⟩ := Bool.or_eq_false_iff.mp hlost
    refine Bool.or_eq_false_iff.mpr ⟨hbroken, ?_⟩
    rw [Bool.and_eq_false_iff, Bool.not_eq_false'] at hopen ⊢
    dsimp only at hopen
    rw [h.relayed.created] at hopen
    exact hopen.imp_right (h.isOpen rfl)

theorem toServer_completed {i : ℕ} {result : Completion}
    (h : s.toServer (.completed u i result) = some up) : s.up u = Server.received result ++ up u ∧
      (∀ v, v ≠ u → up v = s.up v) ∧
      ((∃ error, result = .error error) → s.lostToServer u = true) := by
  cases result with
  | error error =>
    simp only [toServer, Option.ite_none_right_eq_some, Option.some.injEq] at h
    obtain ⟨hlost, rfl⟩ := h
    exact ⟨rfl, fun _ _ => rfl, fun _ => hlost⟩
  | ok bytes =>
    simp only [toServer, Option.ite_none_right_eq_some, Option.some.injEq,
      List.isPrefixOf_iff_prefix] at h
    obtain ⟨⟨tail, htail⟩, rfl⟩ := h
    refine ⟨?_, fun v hv => Function.update_of_ne hv _ _, nofun⟩
    rw [Function.update_self, ← htail, List.drop_left]
    rfl

variable {i : ℕ} {op : Operation} {result : Completion}

theorem handledBy_gone (hs : Relays start receipts s) (hd : (s.server.peer u).destroyed = true)
    (hop : (s.server.peer u).pending[i]? = some op)
    (hup : s.toServer (.completed u i result) = some up) {server : DispatchingServer}
    (hfaithful : Server.Faithful server)
    (hserver : Server.log [.handler u] { s.server with status := .undefined } = server) :
    HandledBy u receipts s [] up server := by
  obtain ⟨-, hothers, -⟩ := toServer_completed hup
  obtain ⟨rest, hsent, -, -⟩ := hs.upstream u
  have hlt : u < s.server.created := by
    by_contra hge
    rw [hs.faithful.wellFormed.fresh u (by omega)] at hop
    cases hop
  subst hserver
  refine ⟨hfaithful, Server.Relayed.of_same u rfl rfl ?_ ?_, ⟨rest, hsent, ?_, ?_⟩,
    hothers, id, fun _ _ => id⟩
  · rw [Server.log_trace, Server.handedUp_append]
    exact List.append_nil _
  · intro v
    rw [Server.log_trace, Server.writesTo_append]
    exact List.append_nil _
  · intro hlive
    rw [Server.log_peer, hd] at hlive
    cases hlive
  · intro hcreated
    omega

theorem handledBy_refused (hs : Relays start receipts s) {server : DispatchingServer}
    (hfaithful : Server.Faithful server)
    (hserver : { s.server with accepting := false, status := .stopped } = server) :
    HandledBy 0 receipts s [] s.up server := by
  subst hserver
  exact ⟨hfaithful, Server.Relayed.of_same 0 rfl rfl rfl fun _ => rfl, hs.upstream 0, fun _ _ => rfl,
    id, fun _ _ => id⟩

variable [HandlerCopies]

structure Older (v : ℕ) (s t : DispatchingServer) : Prop where
  pending : (t.peer v).pending = (s.peer v).pending
  socketOpen : (t.peer v).socketOpen = (s.peer v).socketOpen
  destroyed : (t.peer v).destroyed = false → (s.peer v).destroyed = false

theorem acceptHandler_older {r : DispatchingServer} (hwf : Server.WellFormed r) {v : ℕ}
    (hv : v ≠ r.created) : Older v r (Server.acceptHandler none r) := by
  have hpeer := Server.acceptHandler_peer hwf v
  rw [if_neg hv] at hpeer
  split at hpeer
  · exact ⟨by rw [hpeer], by rw [hpeer], fun hd => by rw [hpeer] at hd; cases hd⟩
  · exact ⟨by rw [hpeer], by rw [hpeer], fun hd => by rwa [hpeer] at hd⟩

theorem acceptHandler_newest {r : DispatchingServer} (hwf : Server.WellFormed r) :
    ((Server.acceptHandler none r).peer r.created).pending = [.readHeader] ∧
      ((Server.acceptHandler none r).peer r.created).socketOpen = true := by
  have hpeer := Server.acceptHandler_peer hwf r.created
  rw [if_pos rfl] at hpeer
  rw [hpeer]
  exact ⟨rfl, rfl⟩

def accepted (s : Network) : Network :=
  { s with
    server := Server.acceptHandler none s.server
    down := fun v => s.down v ++ s.fromServer v (Server.acceptHandler none s.server)
    joined := s.joining (.accepted none) }

theorem accepted_down (s : Network) (v : ℕ) : (accepted s).down v = s.down v := by
  have hfrom : s.fromServer v (Server.acceptHandler none s.server) = [] := by
    unfold fromServer
    rw [Server.acceptHandler_written, List.drop_length]
    exact ite_self _
  exact (congrArg (s.down v ++ ·) hfrom).trans (List.append_nil _)

theorem accepted_joined (s : Network) : (accepted s).joined =
    Function.update s.joined s.server.created (Server.handedUp s.server.trace).length := rfl

theorem accepted_created (s : Network) : (accepted s).server.created = s.server.created + 1 :=
  Server.acceptHandler_fields.1

theorem accepted_isOpen (hs : Relays start receipts s) {v : ℕ} (hv : v ≠ s.server.created)
    (ho : (accepted s).isOpen v = true) : s.isOpen v = true := by
  have holder := acceptHandler_older hs.faithful.wellFormed hv
  rw [Network.isOpen, Bool.and_eq_true, Bool.not_eq_true'] at ho ⊢
  exact ⟨holder.destroyed ho.1, holder.socketOpen ▸ ho.2⟩

theorem accepted_upstream (hs : Relays start receipts s) (v : ℕ) :
    Upstream v receipts (accepted s) := by
  obtain ⟨rest, hsent, hsees, hearly⟩ := hs.upstream v
  refine ⟨rest, hsent, ?_, fun hcreated => hearly ?_⟩
  · intro hd
    by_cases hv : v = s.server.created
    · subst hv
      intro op hop phase hphase
      rw [accepted, (acceptHandler_newest hs.faithful.wellFormed).1, List.mem_singleton] at hop
      rw [hop] at hphase
      cases hphase
      exact hearly le_rfl
    · have holder := acceptHandler_older hs.faithful.wellFormed hv
      apply (hsees (holder.destroyed hd)).of_pending
      intro op hop _
      exact holder.pending ▸ hop
  · rw [accepted_created] at hcreated
    omega

theorem accepted_downstream (hs : Relays start receipts s) (v : ℕ) :
    Downstream start v receipts (accepted s) := by
  obtain ⟨heard, toCome, hheard, hprefix, hopen, hsession, hfresh⟩ := hs.downstream v
  have hsession' : ((accepted s).client v).state = .connected →
      Client.Session ((accepted s).client v) ((accepted s).down v)
        (toCome.map NearUserMessage.bytes) := by
    rw [accepted_down]
    exact hsession
  by_cases hv : v = s.server.created
  · subst hv
    have hnone := hfresh le_rfl
    have hjoined : (accepted s).joined s.server.created = receipts.length := by
      rw [accepted_joined, Function.update_self, hs.handedUp, List.length_map]
    have hsince : receivedSince s.server.created receipts (accepted s) = [] := by
      rw [receivedSince, hjoined, List.drop_length, List.map_nil]
    refine ⟨heard, toCome, hheard, ?_, ?_, hsession', fun _ => hnone⟩
    · rw [hnone]
      exact List.nil_prefix
    · intro _
      rw [hnone, hsince]
  · have hjoined : (accepted s).joined v = s.joined v := Function.update_of_ne hv _ _
    have hsince : receivedSince v receipts (accepted s) = receivedSince v receipts s := by
      rw [receivedSince, hjoined]
      rfl
    refine ⟨heard, toCome, hheard, hsince ▸ hprefix, ?_, hsession', ?_⟩
    · intro ho
      rw [hsince]
      exact hopen (accepted_isOpen hs hv ho)
    · intro hcreated
      rw [accepted_created] at hcreated
      exact hfresh (by omega)

theorem accepted_relays (hs : Relays start receipts s) : Relays start receipts (accepted s) := by
  have hwf := hs.faithful.wellFormed
  refine ⟨hs.faithful.accept, ?_, ?_, hs.fits, accepted_upstream hs, accepted_downstream hs, ?_, ?_⟩
  · rw [accepted, Server.acceptHandler_handed, hs.handedUp]
  · intro v
    rw [accepted_joined, Function.update_apply]
    split
    · rw [hs.handedUp, List.length_map]
    · exact hs.joined v
  · intro v hbroken hstate hd
    by_cases hv : v = s.server.created
    · subst hv
      exact (acceptHandler_newest hwf).2
    · have holder := acceptHandler_older hwf hv
      exact holder.socketOpen ▸ hs.kept v hbroken hstate (holder.destroyed hd)
  · intro v hlost hstate
    refine hs.unfailed v ?_ hstate
    obtain ⟨hbroken, hclosed⟩ := Bool.or_eq_false_iff.mp hlost
    refine Bool.or_eq_false_iff.mpr ⟨hbroken, ?_⟩
    rw [Bool.and_eq_false_iff, Bool.not_eq_false', decide_eq_false_iff_not] at hclosed ⊢
    rw [accepted_created] at hclosed
    by_cases hv : v = s.server.created
    · left
      omega
    · obtain hlater | ho := hclosed
      · left
        omega
      · exact .inr (accepted_isOpen hs hv ho)

end

section
variable [HandlerCopies] [Host] {start : ℕ → ClientNode} {receipts : List (ℕ × NearUserMessage)} {s t : Network}
  {u i : ℕ} {result : Completion} {op : Operation} {up : ℕ → List Byte}

theorem handledBy_live (hs : Relays start receipts s)
    (hd : (s.server.peer u).destroyed = false) (hop : (s.server.peer u).pending[i]? = some op)
    (hadm : op.admits result = true) (hup : s.toServer (.completed u i result) = some up)
    {server : DispatchingServer} (hfaithful : Server.Faithful server)
    (hserver : Server.invoke op result u (Server.modify u (Server.Peer.taken i op result) s.server) =
      server) : ∃ got, HandledBy u receipts s got up server := by
  obtain ⟨hconsumed, hothers, hlost⟩ := toServer_completed hup
  obtain ⟨rest, hsent, hsees, -⟩ := hs.upstream u
  have hbefore := hsees hd
  rw [hconsumed] at hbefore
  obtain ⟨more, htakes⟩ := Server.handled_takes (hs.faithful.reading u) hop hadm hbefore
  obtain ⟨hrelayed, hpeer⟩ := Server.handled_relayed i _ _ hs.faithful.wellFormed hd
  rw [hserver] at hrelayed hpeer
  obtain ⟨got, later, rfl, hgot, rfl⟩ := List.map_eq_append_iff.mp htakes.bodies
  refine ⟨got, hfaithful, hgot ▸ hrelayed, ⟨later, hsent, ?_, ?_⟩, hothers, ?_, ?_⟩
  · intro _
    rw [hpeer]
    exact htakes.sees
  · intro hcreated
    have hlt := hs.faithful.wellFormed.lt_created hd
    omega
  · intro hopen
    rw [hpeer] at hopen
    exact Server.socketOpen_of_handled hopen
  · intro hbroken hstate hopen
    rw [hpeer, Server.handled_socketOpen]
    · exact hopen
    · intro errmsg hfail
      have hgone := hlost (htakes.failed errmsg hfail)
      simp [lostToServer, hbroken, hopen, hstate] at hgone

theorem server_step {input : Server.Input} (h : step s (.server input) = some t) : ∃ up server,
    s.toServer input = some up ∧ Server.step s.server input = some server ∧ t = { s with
      server := server
      up := up
      down := fun v => s.down v ++ s.fromServer v server
      joined := s.joining input } := by
  simp only [step] at h
  split at h
  next up server hup hserver =>
    cases h
    exact ⟨up, server, hup, hserver, rfl⟩
  next => cases h

theorem pending_of_step {r r' : DispatchingServer}
    (h : Server.step r (.completed u i result) = some r') :
    ∃ op, (r.peer u).pending[i]? = some op := by
  simp only [Server.step] at h
  split at h
  · cases h
  next op hop => exact ⟨op, hop⟩

theorem server_relays {input : Server.Input} (hs : Relays start receipts s)
    (h : step s (.server input) = some t) : ∃ more, Relays start (receipts ++ more) t := by
  obtain ⟨up, server, hup, hserver, rfl⟩ := server_step h
  have hfaithful := Server.step_faithful hs.faithful hserver
  obtain ⟨-, hstepped⟩ := Server.step_stepped hserver
  cases hstepped with
  | refused error =>
    cases hup
    exact ⟨_, (handledBy_refused hs hfaithful rfl).relays hs⟩
  | accepted =>
    cases hup
    refine ⟨[], ?_⟩
    rw [List.append_nil]
    exact accepted_relays hs
  | gone u i result hd =>
    obtain ⟨op, hop⟩ := pending_of_step hserver
    exact ⟨_, (handledBy_gone hs hd hop hup hfaithful rfl).relays hs⟩
  | handled u i op result hd hop hadm =>
    obtain ⟨got, hgot⟩ := handledBy_live hs hd hop hadm hup hfaithful rfl
    exact ⟨_, hgot.relays hs⟩

theorem step_relays {event : Event} (hs : Relays start receipts s) (h : step s event = some t) :
    ∃ more, Relays start (receipts ++ more) t := by
  cases event with
  | breaks k =>
    refine ⟨[], ?_⟩
    rw [List.append_nil]
    exact breaks_relays hs h
  | server input => exact server_relays hs h
  | client k input =>
    refine ⟨[], ?_⟩
    rw [List.append_nil]
    exact client_relays hs h

def IsDelivery (k : ℕ) (event : Event) : Prop :=
  (∃ i, event = .client k (.handler i)) ∨ ∃ i outcome, event = .client k (.complete i outcome)

theorem deliver_eq {k : ℕ} {input : Client.Input} {rest : List Byte} {c' : ClientNode}
    (hstate : (s.client k).state = .connected) (hdelivers : Client.Delivers input (s.down k) rest)
    (hstep : Client.step (s.client k) input = some c') :
    IsDelivery k (.client k input) ∧ step s (.client k input) = some { s with
      client := Function.update s.client k c'
      up := Function.update s.up k (s.up k ++ fromClient (s.client k) c')
      down := Function.update s.down k rest
      sent := Function.update s.sent k (s.sent k ++ (Client.asked (s.client k) input).toList) } := by
  obtain ⟨i, rfl, hdown⟩ | ⟨i, bytes, rfl, hdown⟩ := hdelivers
  · refine ⟨.inl ⟨i, rfl⟩, ?_⟩
    simp only [step, hstate, if_true, toClient, hstep, hdown]
  · have hprefix : bytes.isPrefixOf (bytes ++ rest) = true :=
      List.isPrefixOf_iff_prefix.mpr (List.prefix_append _ _)
    refine ⟨.inr ⟨i, _, rfl⟩, ?_⟩
    simp only [step, hstate, if_true, toClient, hstep, hdown, hprefix, List.drop_left]

theorem session_finishes {k : ℕ} (messages : List NearUserMessage)
    (hsession : Client.Session (s.client k) (s.down k) (messages.map NearUserMessage.bytes))
    (hfine : Client.Unfailed (s.client k)) : ∃ events t, (∀ event ∈ events, IsDelivery k event) ∧
      exec step s events = some t ∧ t.server = s.server ∧
      Client.rcvMessages (t.client k) = Client.rcvMessages (s.client k) ++ messages := by
  induction hn : Client.deliveries (s.client k) (s.down k) using Nat.strong_induction_on
    generalizing s messages with
  | _ n ih =>
    by_cases hnone : messages = []
    · refine ⟨[], s, nofun, rfl, rfl, ?_⟩
      rw [hnone, List.append_nil]
    · obtain ⟨input, c', rest, hdelivers, hstep, hstate, hfine', hlt⟩ :=
        hsession.delivery hfine hnone
      obtain ⟨hdelivery, hnext⟩ := deliver_eq hsession.state hdelivers hstep
      obtain ⟨new, later, rfl, hheard, hlater, -⟩ : Client.Proceeds (s.client k) c' rest messages
          (Client.asked (s.client k) input).toList := by
        apply Client.step_proceeds hsession hstep
        · intro i outcome hi
          obtain ⟨j, hj, -⟩ | ⟨j, bytes, hj, hdown⟩ := hdelivers
          · cases hi.symm.trans hj
          · cases hi.symm.trans hj
            exact ⟨rfl, hdown⟩
        · intro hinput
          obtain ⟨j, -, hdown⟩ | ⟨j, bytes, hj, -⟩ := hdelivers
          · exact hdown
          · exact absurd hj (hinput j _)
      obtain ⟨events, t, hall, hrun, hserver, hmessages⟩ := ih _ (hn ▸ hlt) (s := { s with
        client := Function.update s.client k c'
        up := Function.update s.up k (s.up k ++ fromClient (s.client k) c')
        down := Function.update s.down k rest
        sent := Function.update s.sent k (s.sent k ++ (Client.asked (s.client k) input).toList) })
        later (by dsimp only; rw [Function.update_self, Function.update_self]; exact hlater hstate)
        (by dsimp only; rw [Function.update_self]; exact hfine')
        (by dsimp only; rw [Function.update_self, Function.update_self])
      refine ⟨.client k input :: events, t, ?_, exec_cons.mpr ⟨_, hnext, hrun⟩, hserver, ?_⟩
      · intro event hevent
        obtain rfl | hmem := List.mem_cons.mp hevent
        · exact hdelivery
        · exact hall event hmem
      · dsimp only at hmessages
        rw [Function.update_self, hheard, List.append_assoc] at hmessages
        exact hmessages

structure Delivered (start : ℕ → ClientNode) (receipts : List (ℕ × NearUserMessage)) (s : Network) :
    Prop where
  received : Server.handedUp s.server.trace = receipts.map fun receipt => (receipt.1, receipt.2.bytes)
  inSendOrder : ∀ k, messagesFrom k receipts <+: s.sent k
  nothingElse : ∀ k, ∃ heard, Client.rcvMessages (s.client k) = Client.rcvMessages (start k) ++ heard ∧
    heard <+: receivedSince k receipts s
  settled : ∀ k, Server.IsListed k s.server → (s.client k).state = .connected → s.broken k = false →
    Client.deliveries (s.client k) (s.down k) = 0 →
    Client.rcvMessages (s.client k) = Client.rcvMessages (start k) ++ receivedSince k receipts s
  arrives : ∀ k, Server.IsListed k s.server → (s.client k).state = .connected → s.broken k = false →
    ∃ events t, (∀ event ∈ events, IsDelivery k event) ∧ exec step s events = some t ∧
      t.server = s.server ∧ Client.rcvMessages (t.client k) =
        Client.rcvMessages (start k) ++ receivedSince k receipts s

omit [HandlerCopies] [Host] in
theorem Relays.session (hs : Relays start receipts s) {k : ℕ} (hlisted : Server.IsListed k s.server)
    (hstate : (s.client k).state = .connected) (hbroken : s.broken k = false) :
    ∃ heard toCome, Client.rcvMessages (s.client k) = Client.rcvMessages (start k) ++ heard ∧
      heard ++ toCome = receivedSince k receipts s ∧
      Client.Session (s.client k) (s.down k) (toCome.map NearUserMessage.bytes) ∧
      Client.Unfailed (s.client k) := by
  obtain ⟨heard, toCome, hheard, -, hall, hsession, -⟩ := hs.downstream k
  have hlive := hs.faithful.wellFormed.isListed_iff.mp hlisted
  have hopen : s.isOpen k = true := by
    rw [isOpen, hlive, hs.kept k hbroken hstate hlive]
    rfl
  have hfine : s.lostToClient k = false := by
    rw [lostToClient, hbroken, hopen]
    simp
  exact ⟨heard, toCome, hheard, hall hopen, hsession hstate, hs.unfailed k hfine hstate⟩

theorem Relays.delivered (hs : Relays start receipts s) : Delivered start receipts s := by
  refine ⟨hs.handedUp, ?_, ?_, ?_, ?_⟩
  · intro k
    obtain ⟨rest, hsent, -⟩ := hs.upstream k
    exact ⟨rest, hsent.symm⟩
  · intro k
    obtain ⟨heard, toCome, hheard, hprefix, -⟩ := hs.downstream k
    exact ⟨heard, hheard, (List.prefix_append _ _).trans hprefix⟩
  · intro k hlisted hstate hbroken hzero
    obtain ⟨heard, toCome, hheard, hall, hsession, hfine⟩ := hs.session hlisted hstate hbroken
    by_cases hnone : toCome = []
    · rw [hheard, ← hall, hnone, List.append_nil]
    · obtain ⟨_, _, _, _, _, _, _, hlt⟩ := hsession.delivery hfine hnone
      rw [hzero] at hlt
      exact absurd hlt (Nat.not_lt_zero _)
  · intro k hlisted hstate hbroken
    obtain ⟨heard, toCome, hheard, hall, hsession, hfine⟩ := hs.session hlisted hstate hbroken
    obtain ⟨events, t, hdeliveries, hrun, hserver, hgot⟩ := session_finishes toCome hsession hfine
    refine ⟨events, t, hdeliveries, hrun, hserver, ?_⟩
    rw [hgot, hheard, List.append_assoc, hall]

theorem delivered_run (hstart : ∀ k, Connected (start k)) (events : List Event)
    (h : exec step (begin start) events = some s) : ∃ receipts, Delivered start receipts s := by
  have hrelays : ∃ receipts, Relays start receipts s := by
    refine exec_invariant (I := fun s => ∃ receipts, Relays start receipts s) ?_
      ⟨[], begin_relays hstart⟩ h
    intro s event t hs hstep
    obtain ⟨receipts, hreceipts⟩ := hs
    obtain ⟨more, hmore⟩ := step_relays hreceipts hstep
    exact ⟨_, hmore⟩
  obtain ⟨receipts, hreceipts⟩ := hrelays
  exact ⟨receipts, hreceipts.delivered⟩

end

def greeting : List Event :=
  [.server (.accepted none), .server (.accepted none),
    .client 0 (.sendUserMessage [] UniqueUserID.userIdNone),
    .server (.completed 0 0 (.ok [0x80, 25, 0, 0])),
    .server (.completed 0 0 (.ok (0x41 :: 1 :: List.replicate 19 0))),
    .client 1 (.complete 0 ⟨none, [], [0x80, 25, 0, 0]⟩), .client 1 (.handler 0),
    .client 1 (.complete 0 ⟨none, [], 0x41 :: 1 :: List.replicate 19 0⟩), .client 1 (.handler 0)]

theorem delivered_run_greeting : ∃ s,
    exec (@step bindCopies littleEndianHost) (begin fun _ => connectedNode) greeting = some s ∧
      Client.rcvMessages (s.client 1) =
        [⟨1, UniqueUserID.userIdNone, UniqueUserID.userIdNone, ⟨[]⟩⟩] ∧
      ∃ receipts, @Delivered bindCopies littleEndianHost (fun _ => connectedNode) receipts s :=
  ⟨_, rfl, rfl, @delivered_run bindCopies littleEndianHost _ _ (fun _ => ⟨rfl, rfl, rfl⟩) greeting rfl⟩

end NukeMs.Network
