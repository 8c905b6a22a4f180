import NukeMs.EndToEnd
import NukeMs.TotalOrder

namespace NukeMs.Network

open Runs TotalOrder

abbrev MessageRoom := Room ℕ NearUserMessage

structure Represents (start : ℕ → ClientNode) (room : MessageRoom) (s : Network) : Prop where
  log : Server.handedUp s.server.trace = room.log.map fun entry => (entry.1, entry.2.bytes)
  sent : ∀ k, room.sent k = s.sent k
  joined : ∀ k, room.joined k = if k < s.server.created then some (s.joined k) else none
  heard : ∀ k, Client.rcvMessages (s.client k) = Client.rcvMessages (start k) ++ room.heard k

structure Follows (start : ℕ → ClientNode) (room : MessageRoom) (s : Network) : Prop where
  sound : room.Sound
  relays : Relays start room.log s
  represents : Represents start room s

section
variable {start : ℕ → ClientNode} {room : MessageRoom} {s t : Network} {k : ℕ}

theorem begin_follows (hstart : ∀ k, Connected (start k)) : Follows start .empty (begin start) where
  sound := Room.empty_sound
  relays := begin_relays hstart
  represents := ⟨rfl, fun _ => rfl, fun _ => rfl, fun _ => (List.append_nil _).symm⟩

theorem Represents.outbox (h : Represents start room s) {rest : List NearUserMessage}
    (hsent : s.sent k = messagesFrom k room.log ++ rest) : room.outbox k = rest := by
  have hroom := h.sent k
  rw [hsent] at hroom
  exact List.append_cancel_left hroom

theorem Represents.start_eq (h : Represents start room s) (hk : k < s.server.created) :
    room.start k = s.joined k := by
  rw [Room.start, h.joined, if_pos hk, Option.getD_some]

theorem Represents.receivedSince_eq (h : Represents start room s) (hk : k < s.server.created) :
    receivedSince k room.log s = (room.log.map Prod.snd).drop (room.start k) := by
  rw [receivedSince, h.start_eq hk, List.map_drop]

theorem Represents.next_entries (h : Represents start room s) {new later : List NearUserMessage}
    (hreceived : room.heard k ++ (new ++ later) <+: receivedSince k room.log s)
    (hfresh : s.server.created ≤ k → room.heard k ++ (new ++ later) = []) :
    room.heard k ++ new <+: (room.log.map Prod.snd).drop (room.start k) ∧
      (room.joined k = none → new = []) := by
  have hnone : s.server.created ≤ k → new = [] := fun hk =>
    (List.append_eq_nil_iff.mp (List.append_eq_nil_iff.mp (hfresh hk)).2).1
  constructor
  · by_cases hk : k < s.server.created
    · rw [← h.receivedSince_eq hk]
      rw [← List.append_assoc] at hreceived
      exact (List.prefix_append _ _).trans hreceived
    · have hempty : room.heard k = [] := (List.append_eq_nil_iff.mp (hfresh (by omega))).1
      rw [hempty, hnone (by omega)]
      exact List.nil_prefix
  · intro hk
    rw [h.joined] at hk
    split at hk
    · cases hk
    next hk => exact hnone (by omega)

variable [HandlerCopies] [Host]

theorem breaks_simulated (hf : Follows start room s) (h : step s (.breaks k) = some t) :
    Follows start room t := by
  have hrelays := breaks_relays hf.relays h
  cases h
  obtain ⟨hlog, hsent, hjoined, hheard⟩ := hf.represents
  exact ⟨hf.sound, hrelays, ⟨hlog, hsent, hjoined, hheard⟩⟩

theorem client_simulated {input : Client.Input} (hf : Follows start room s)
    (h : step s (.client k input) = some t) :
    ∃ room', Room.Reach room room' ∧ Follows start room' t := by
  have hrelays := client_relays hf.relays h
  obtain ⟨c', rest, hstate, hdown, hstep, rfl⟩ := client_step h
  obtain ⟨heard, toCome, hheard, hprefix, -, hsession, hfresh⟩ := hf.relays.downstream k
  have hheard : room.heard k = heard := by
    rw [hf.represents.heard] at hheard
    exact List.append_cancel_left hheard
  subst hheard
  obtain ⟨new, later, rfl, hnew, -⟩ : Client.Proceeds (s.client k) c' rest toCome
      (Client.asked (s.client k) input).toList := by
    apply Client.step_proceeds (hsession hstate) hstep
    · intro i outcome hi
      subst hi
      exact (toClient_complete hdown).1
    · intro hinput
      exact (toClient_other hinput hdown).1
  have hsends := Room.reach_sends room k (Client.asked (s.client k) input).toList
  have hsound := hsends.sound hf.sound
  obtain ⟨hnext, hjoined⟩ := hf.represents.next_entries hprefix hfresh
  obtain ⟨read, hreads, hreader, hothers⟩ := Room.reach_hears hsound hnext hjoined
  refine ⟨_, hsends.trans hreads, hreads.sound hsound, hrelays, hf.represents.log, ?_,
    hf.represents.joined, ?_⟩
  · intro j
    by_cases hj : j = k
    · subst hj
      simp only [Room.sent, Function.update_self, ← hf.represents.sent, List.append_assoc]
    · simp only [Room.sent, Function.update_of_ne hj]
      exact hf.represents.sent j
  · intro j
    by_cases hj : j = k
    · subst hj
      dsimp only at hreader ⊢
      rw [Function.update_self, hreader, hnew, hf.represents.heard, List.append_assoc]
      rfl
    · dsimp only at hothers ⊢
      rw [Function.update_of_ne hj, hothers j hj, hf.represents.heard]
      rfl

omit [HandlerCopies] [Host] in
theorem HandledBy.simulated {u : ℕ} {got : List NearUserMessage} {up : ℕ → List Byte}
    {server : DispatchingServer} (hf : Follows start room s)
    (h : HandledBy u room.log s got up server) :
    ∃ room', Room.Reach room room' ∧ Follows start room' { s with
      server := server
      up := up
      down := fun v => s.down v ++ s.fromServer v server } := by
  obtain ⟨rest, hsent, -⟩ := h.sees
  have hfrom : room.outbox u = got ++ rest := hf.represents.outbox hsent
  have hnext : ∀ k, room.outbox k = Room.messagesFrom k (got.map fun m => (u, m)) ++
      Function.update room.outbox u rest k := by
    intro k
    by_cases hk : k = u
    · subst hk
      rw [Function.update_self, hfrom]
      exact congrArg (· ++ rest) (messagesFrom_self k got).symm
    · rw [Function.update_of_ne hk]
      exact congrArg (· ++ room.outbox k) (messagesFrom_other hk got).symm
  have henters := Room.reach_enters room _ _ hnext
  refine ⟨_, henters, henters.sound hf.sound, h.relays hf.relays, ?_, ?_, ?_, ?_⟩
  · exact (h.relays hf.relays).handedUp
  · intro k
    rw [Room.sent_enters hnext]
    exact hf.represents.sent k
  · intro k
    dsimp only
    rw [h.relayed.created]
    exact hf.represents.joined k
  · intro k
    dsimp only
    rw [hf.sound.heard_enters, hf.represents.heard]

omit [Host] in
theorem accepted_simulated (hf : Follows start room s) :
    ∃ room', Room.Reach room room' ∧ Follows start room' (accepted s) := by
  have hnew : room.joined s.server.created = none := by
    rw [hf.represents.joined, if_neg (Nat.lt_irrefl _)]
  have hjoins : Room.Reach room _ := .single (.join s.server.created hnew)
  refine ⟨_, hjoins, hjoins.sound hf.sound, accepted_relays hf.relays, ?_, hf.represents.sent, ?_, ?_⟩
  · exact (accepted_relays hf.relays).handedUp
  · intro k
    dsimp only
    rw [accepted_created, accepted_joined, hf.represents.log, List.length_map]
    by_cases hk : k = s.server.created
    · subst hk
      rw [Function.update_self, Function.update_self, if_pos (Nat.lt_succ_self _)]
    · rw [Function.update_of_ne hk, Function.update_of_ne hk, hf.represents.joined]
      have hiff : k < s.server.created ↔ k < s.server.created + 1 := by omega
      rw [if_congr hiff rfl rfl]
  · intro k
    have hkept : (accepted s).client k = s.client k := rfl
    rw [hkept, hf.represents.heard, hf.sound.heard_joins hnew]

variable {input : Server.Input}

theorem server_simulated (hf : Follows start room s) (h : step s (.server input) = some t) :
    ∃ room', Room.Reach room room' ∧ Follows start room' t := by
  obtain ⟨up, server, hup, hserver, rfl⟩ := server_step h
  have hfaithful := Server.step_faithful hf.relays.faithful hserver
  obtain ⟨-, hstepped⟩ := Server.step_stepped hserver
  cases hstepped with
  | refused error =>
    cases hup
    exact (handledBy_refused hf.relays hfaithful rfl).simulated hf
  | accepted =>
    cases hup
    exact accepted_simulated hf
  | gone u i result hd =>
    obtain ⟨op, hop⟩ := pending_of_step hserver
    exact (handledBy_gone hf.relays hd hop hup hfaithful rfl).simulated hf
  | handled u i op result hd hop hadm =>
    obtain ⟨got, hgot⟩ := handledBy_live hf.relays hd hop hadm hup hfaithful rfl
    exact hgot.simulated hf

theorem step_simulated {event : Event} (hf : Follows start room s) (h : step s event = some t) :
    ∃ room', Room.Reach room room' ∧ Follows start room' t := by
  cases event with
  | breaks k => exact ⟨room, .refl, breaks_simulated hf h⟩
  | server input => exact server_simulated hf h
  | client k input => exact client_simulated hf h

theorem exec_simulated {events : List Event} (hf : Follows start room s)
    (h : exec step s events = some t) : ∃ room', Room.Reach room room' ∧ Follows start room' t := by
  refine exec_invariant (I := fun s => ∃ room', Room.Reach room room' ∧ Follows start room' s) ?_
    ⟨room, .refl, hf⟩ h
  rintro s event t ⟨between, hreach, hbetween⟩ hstep
  obtain ⟨room', hrest, hroom'⟩ := step_simulated hbetween hstep
  exact ⟨room', hreach.trans hrest, hroom'⟩

theorem run_simulated (hstart : ∀ k, Connected (start k)) {events later : List Event}
    (hs : exec step (begin start) events = some s) (ht : exec step s later = some t) :
    ∃ room room', Room.Reach .empty room ∧ Represents start room s ∧
      Room.Reach room room' ∧ Represents start room' t := by
  obtain ⟨room, hroom, hs⟩ := exec_simulated (begin_follows hstart) hs
  obtain ⟨room', hroom', ht⟩ := exec_simulated hs ht
  exact ⟨room, room', hroom, hs.represents, hroom', ht.represents⟩

def greet : NearUserMessage := ⟨1, UniqueUserID.userIdNone, UniqueUserID.userIdNone, ⟨[]⟩⟩

def answer : NearUserMessage := ⟨1, UniqueUserID.userIdNone, UniqueUserID.userIdNone, ⟨[0x42]⟩⟩

def answering : List Event :=
  [.client 1 (.sendUserMessage [0x42] UniqueUserID.userIdNone),
    .server (.completed 1 0 (.ok [0x80, 26, 0, 0])),
    .server (.completed 1 1 (.ok (0x41 :: 1 :: List.replicate 19 0 ++ [0x42]))),
    .client 0 (.complete 0 ⟨none, [], [0x80, 25, 0, 0]⟩), .client 0 (.handler 0),
    .client 0 (.complete 1 ⟨none, [], 0x41 :: 1 :: List.replicate 19 0⟩), .client 0 (.handler 1),
    .client 0 (.complete 1 ⟨none, [], [0x80, 26, 0, 0]⟩), .client 0 (.handler 1),
    .client 0 (.complete 1 ⟨none, [], 0x41 :: 1 :: List.replicate 19 0 ++ [0x42]⟩), .client 0 (.handler 1)]

omit [HandlerCopies] [Host] in
theorem run_simulated_answering : ∃ s t room room',
    exec (@step bindCopies littleEndianHost) (begin fun _ => connectedNode) greeting = some s ∧
      exec (@step bindCopies littleEndianHost) s answering = some t ∧
      Client.rcvMessages (t.client 0) = [greet, answer] ∧ Room.Reach .empty room ∧
      Represents (fun _ => connectedNode) room s ∧ Room.Reach room room' ∧
      Represents (fun _ => connectedNode) room' t := by
  obtain ⟨room, room', h⟩ := @run_simulated (fun _ => connectedNode) _ _ bindCopies littleEndianHost
    (fun _ => ⟨rfl, rfl, rfl⟩) greeting answering rfl rfl
  exact ⟨_, _, room, room', rfl, rfl, rfl, h⟩

theorem same_order (hstart : ∀ k, Connected (start k)) {events : List Event}
    (hs : exec step (begin start) events = some s) : ∃ heard : ℕ → List NearUserMessage,
      (∀ k, Client.rcvMessages (s.client k) = Client.rcvMessages (start k) ++ heard k) ∧
      ∀ j k, j < s.server.created → k < s.server.created →
        (heard k).drop (s.joined j - s.joined k) <+: (heard j).drop (s.joined k - s.joined j) ∨
          (heard j).drop (s.joined k - s.joined j) <+: (heard k).drop (s.joined j - s.joined k) := by
  obtain ⟨room, -, hroom⟩ := exec_simulated (begin_follows hstart) hs
  refine ⟨room.heard, hroom.represents.heard, ?_⟩
  intro j k hj hk
  rw [← hroom.represents.start_eq hj, ← hroom.represents.start_eq hk]
  exact room.heard_comparable j k

omit [HandlerCopies] [Host] in
theorem same_order_answering : ∃ s,
    exec (@step bindCopies littleEndianHost) (begin fun _ => connectedNode) (greeting ++ answering) =
      some s ∧ ∃ heard : ℕ → List NearUserMessage, heard 0 = [greet, answer] ∧ heard 1 = [greet] ∧
      (heard 0 <+: heard 1 ∨ heard 1 <+: heard 0) := by
  obtain ⟨heard, hheard, horder⟩ := @same_order (fun _ => connectedNode) _ bindCopies littleEndianHost
    (fun _ => ⟨rfl, rfl, rfl⟩) (greeting ++ answering) rfl
  exact ⟨_, rfl, heard, (hheard 0).symm, (hheard 1).symm, horder 1 0 (by decide) (by decide)⟩

/-- A client that has got an answer has got what it answers: if `j` has got more messages of `k` than
`k` had sent up to some moment, then it has got all that `k` had got by then. -/
theorem causal_order (hstart : ∀ k, Connected (start k)) {events later : List Event}
    (hs : exec step (begin start) events = some s) (ht : exec step s later = some t) :
    ∃ room room', Represents start room s ∧ Represents start room' t ∧
      ∀ j k, j < t.server.created → k < s.server.created →
        (s.sent k).length < (messagesFrom k (room'.known j)).length →
          (room.heard k).drop (t.joined j - s.joined k) <+:
            (room'.heard j).drop (s.joined k - t.joined j) := by
  obtain ⟨room, room', -, hroom, hreach, hroom'⟩ := run_simulated hstart hs ht
  refine ⟨room, room', hroom, hroom', ?_⟩
  intro j k hj hk hanswer
  rw [← hroom.sent] at hanswer
  rw [← hroom.start_eq hk, ← hroom'.start_eq hj]
  exact Room.heard_of_known (hreach.causal hanswer)

set_option maxRecDepth 1000 in
omit [HandlerCopies] [Host] in
theorem causal_order_answering : ∃ s t,
    exec (@step bindCopies littleEndianHost) (begin fun _ => connectedNode) greeting = some s ∧
      exec (@step bindCopies littleEndianHost) s answering = some t ∧ ∃ room room' : MessageRoom,
      room.heard 1 = [greet] ∧ room'.heard 0 = [greet, answer] ∧
      (s.sent 1).length < (messagesFrom 1 (room'.known 0)).length ∧ room.heard 1 <+: room'.heard 0 := by
  obtain ⟨room, room', hs, ht, horder⟩ := @causal_order (fun _ => connectedNode) _ _ bindCopies
    littleEndianHost (fun _ => ⟨rfl, rfl, rfl⟩) greeting answering rfl rfl
  have hheard : room'.heard 0 = [greet, answer] := (ht.heard 0).symm
  have hstart : room'.start 0 = 0 := ht.start_eq Nat.zero_lt_two
  obtain ⟨first, log, hlog, hgreet, hrest⟩ := List.map_eq_cons_iff.mp ht.log.symm
  obtain ⟨second, log', rfl, hanswer, hnone⟩ := List.map_eq_cons_iff.mp hrest
  cases List.map_eq_nil_iff.mp hnone
  have hknown : room'.known 0 = [first, second] := by
    rw [Room.known_eq_log, hlog]
    rw [hlog, hstart, hheard]
    exact le_rfl
  have hsender : second.1 = 1 := congrArg Prod.fst hanswer
  have hpremise : 0 < (messagesFrom 1 (room'.known 0)).length := by
    apply List.length_pos_of_mem (a := second.2)
    rw [hknown, messagesFrom, List.mem_map]
    exact ⟨second, by simp [hsender], rfl⟩
  exact ⟨_, _, rfl, rfl, room, room', (hs.heard 1).symm, hheard, hpremise,
    horder 0 1 Nat.zero_lt_two Nat.one_lt_two hpremise⟩

end

end NukeMs.Network
