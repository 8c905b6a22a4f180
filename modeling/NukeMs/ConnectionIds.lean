import NukeMs.PeerOperations
import NukeMs.Runs

namespace NukeMs.Server

open Runs

def wrap (n : ℕ) : ℤ := (n : ℤ).bmod (2 ^ 32)

theorem wrap_succ (n : ℕ) : (wrap n + 1).bmod (2 ^ 32) = wrap (n + 1) := Int.bmod_add_bmod

theorem wrap_eq_iff {m n : ℕ} (hlt : m < n) (hle : n ≤ m + 2 ^ 32) : wrap m = wrap n ↔ n = m + 2 ^ 32 := by
  have hdvd : wrap m = wrap n ↔ ((2 ^ 32 : ℕ) : ℤ) ∣ m - n :=
    Int.bmod_eq_bmod_iff_bmod_sub_eq_zero.trans Int.dvd_iff_bmod_eq_zero.symm
  rw [hdvd]
  constructor
  · intro h
    omega
  · intro h
    omega

structure FreshId (s : DispatchingServer) (input : Input) (t : DispatchingServer) : Prop where
  unlisted : input = .accepted none → s.peersList[getNextConnectionId s]? = none
  kept : input = .accepted none → ∀ v, IsListed v s → IsListed v t
  attributed : ∀ v, IsListed v t → t.peersList[(t.peer v).connectionId]? = some v ∧
    ∀ w, IsListed w t → (t.peer w).connectionId = (t.peer v).connectionId → w = v

/-- The connection that was accepted `2 ^ 32` connections before a new one is over. -/
def OldGone (s : DispatchingServer) (input : Input) : Prop :=
  input = .accepted none → ∀ v, v + 2 ^ 32 = s.created → ¬ IsListed v s

structure Numbered (s : DispatchingServer) : Prop where
  wellFormed : WellFormed s
  currentConnId : s.currentConnId = wrap s.created
  connectionId : ∀ v, v < s.created → (s.peer v).connectionId = wrap (v + 1)
  recent : ∀ v, IsListed v s → s.created ≤ v + 2 ^ 32

theorem init_numbered : Numbered init where
  wellFormed := init_wellFormed
  currentConnId := Int.zero_bmod.symm
  connectionId _ hv := absurd hv (Nat.not_lt_zero _)
  recent _ _ := Nat.zero_le _

section
variable {s t : DispatchingServer} {input : Input}

theorem WellFormed.attributed (ht : WellFormed t) (v : ℕ) (hv : IsListed v t) :
    t.peersList[(t.peer v).connectionId]? = some v ∧
      ∀ w, IsListed w t → (t.peer w).connectionId = (t.peer v).connectionId → w = v := by
  have hentry := ht.alive v (ht.isListed_iff.mp hv)
  refine ⟨hentry, ?_⟩
  intro w hw hid
  have hother := ht.alive w (ht.isListed_iff.mp hw)
  rw [hid, hentry] at hother
  exact (Option.some_inj.mp hother).symm

theorem Numbered.lt_created (hs : Numbered s) {v : ℕ} (hv : IsListed v s) : v < s.created :=
  hs.wellFormed.lt_created (hs.wellFormed.isListed_iff.mp hv)

theorem Numbered.nextConnectionId (hs : Numbered s) : getNextConnectionId s = wrap (s.created + 1) := by
  rw [getNextConnectionId, hs.currentConnId, wrap_succ]

theorem Numbered.listed_iff (hs : Numbered s) (v : ℕ) :
    s.peersList[getNextConnectionId s]? = some v ↔ IsListed v s ∧ v + 2 ^ 32 = s.created := by
  constructor
  · intro hentry
    have hv : IsListed v s := ⟨_, hentry⟩
    have hlt := hs.lt_created hv
    have hrecent := hs.recent v hv
    have hid := (hs.wellFormed.listed _ v hentry).1
    rw [hs.connectionId v hlt, hs.nextConnectionId, wrap_eq_iff (by omega) (by omega)] at hid
    exact ⟨hv, by omega⟩
  · rintro ⟨hv, hold⟩
    have hentry := hs.wellFormed.alive v (hs.wellFormed.isListed_iff.mp hv)
    have hid : wrap (v + 1) = wrap (s.created + 1) := (wrap_eq_iff (by omega) (by omega)).mpr (by omega)
    rw [hs.connectionId v (hs.lt_created hv), hid, ← hs.nextConnectionId] at hentry
    exact hentry

theorem Numbered.unlisted_iff (hs : Numbered s) : s.peersList[getNextConnectionId s]? = none ↔
    ∀ v, v + 2 ^ 32 = s.created → ¬ IsListed v s := by
  rw [Option.eq_none_iff_forall_not_mem]
  constructor
  · intro h v hold hv
    exact h v ((hs.listed_iff v).mpr ⟨hv, hold⟩)
  · intro h v hentry
    obtain ⟨hv, hold⟩ := (hs.listed_iff v).mp hentry
    exact h v hold hv

section
variable [HandlerCopies]

theorem accept_kept (hfree : s.peersList[getNextConnectionId s]? = none) (v : ℕ)
    (hv : IsListed v s) : IsListed v (acceptHandler none s) := by
  obtain ⟨id, hid⟩ := hv
  refine ⟨id, ?_⟩
  rw [acceptHandler_peersList, getElem?_insert, if_neg]
  · exact hid
  · rintro rfl
    rw [hfree] at hid
    cases hid

theorem Numbered.accept (hs : Numbered s) (hfree : s.peersList[getNextConnectionId s]? = none) :
    Numbered (acceptHandler none s) := by
  obtain ⟨hcreated, hcurrent, -, -⟩ := acceptHandler_fields (s := s)
  have hpeer : ∀ v, (acceptHandler none s).peer v = if v = s.created then
      (acceptedPeer (getNextConnectionId s)).queue .readHeader else s.peer v := by
    intro v
    rw [acceptHandler_peer hs.wellFormed, hfree, if_neg (nofun : none ≠ some v)]
  refine ⟨acceptHandler_wellFormed hs.wellFormed, ?_, ?_, ?_⟩
  · rw [hcurrent, hcreated, hs.nextConnectionId]
  · intro v hv
    rw [hcreated] at hv
    rw [hpeer]
    by_cases hvu : v = s.created
    · rw [if_pos hvu, hvu]
      exact hs.nextConnectionId
    · rw [if_neg hvu]
      exact hs.connectionId v (by omega)
  · rintro v ⟨id, hid⟩
    rw [acceptHandler_peersList, getElem?_insert] at hid
    rw [hcreated]
    split at hid
    · cases hid
      omega
    · have hv : IsListed v s := ⟨id, hid⟩
      have hrecent := hs.recent v hv
      have hold := hs.unlisted_iff.mp hfree v
      by_contra hfar
      exact hold (by omega) hv

end

theorem KeepsIds.numbered (h : KeepsIds s t) (hs : Numbered s) : Numbered t where
  wellFormed := h.wellFormed
  currentConnId := by rw [h.currentConnId, h.created, hs.currentConnId]
  connectionId := h.numbers (fun n => wrap n) hs.connectionId
  recent v hv := by
    rw [h.created]
    rw [h.wellFormed.isListed_iff] at hv
    exact hs.recent v (hs.wellFormed.isListed_iff.mpr (h.alive v hv))

end

section
variable [HandlerCopies] [Host] {s t : DispatchingServer} {input : Input}

theorem step_numbered (hs : Numbered s) (hfresh : FreshId s input t) (h : step s input = some t) :
    Numbered t := by
  obtain ⟨rfl, rfl⟩ | ⟨-, hkeeps⟩ := step_keepsIds hs.wellFormed h
  · exact hs.accept (hfresh.unlisted rfl)
  · exact hkeeps.numbered hs

theorem freshId_iff (hs : Numbered s) (h : step s input = some t) :
    FreshId s input t ↔ OldGone s input := by
  constructor
  · intro hfresh hinput
    exact hs.unlisted_iff.mp (hfresh.unlisted hinput)
  · intro hgone
    refine ⟨fun hinput => hs.unlisted_iff.mpr (hgone hinput), ?_,
      (step_wellFormed hs.wellFormed h).attributed⟩
    obtain ⟨rfl, rfl⟩ | ⟨hinput, -⟩ := step_keepsIds hs.wellFormed h
    · intro _ v hv
      exact accept_kept (hs.unlisted_iff.mpr (hgone rfl)) v hv
    · intro hinput'
      exact absurd hinput' hinput

theorem freshIds_run (inputs : List Input) : Along step FreshId init inputs ↔
    Along step (fun s input _ => OldGone s input) init inputs := by
  apply along_congr (I := Numbered)
  · intro s input t hs hfresh h
    exact step_numbered hs hfresh h
  · intro s input t hs h
    exact freshId_iff hs h
  · exact init_numbered

end

def visit (u : ℕ) : List Input := [.accepted none, .completed u 0 (.error endOfFile)]

def visits : ℕ → List Input
  | 0 => []
  | n + 1 => visits n ++ visit (n + 1)

structure Staying (n : ℕ) (s : DispatchingServer) : Prop where
  numbered : Numbered s
  created : s.created = n + 1
  running : s.status = .running
  accepting : s.accepting = true
  first : IsListed 0 s

section
variable [HandlerCopies] {n : ℕ} {s : DispatchingServer}

theorem staying_accept (h : Staying n s) (hn : n + 1 < 2 ^ 32) :
    Numbered (acceptHandler none s) ∧ IsListed 0 (acceptHandler none s) ∧
      (acceptHandler none s).peer (n + 1) =
        (acceptedPeer (getNextConnectionId s)).queue .readHeader := by
  have hfree : s.peersList[getNextConnectionId s]? = none := by
    rw [h.numbered.unlisted_iff]
    intro v hold
    rw [h.created] at hold
    omega
  refine ⟨h.numbered.accept hfree, accept_kept hfree 0 h.first, ?_⟩
  rw [acceptHandler_peer h.numbered.wellFormed, if_pos h.created.symm]

theorem staying_first : Staying 0 (acceptHandler none init) := by
  have hfree : init.peersList[getNextConnectionId init]? = none := rfl
  obtain ⟨hcreated, -, hacc, hstatus⟩ := acceptHandler_fields (s := init)
  refine ⟨init_numbered.accept hfree, hcreated, hstatus, hacc, ⟨1, ?_⟩⟩
  rw [acceptHandler_peersList, getElem?_insert]
  rfl

variable [Host]

theorem step_accepted (hrun : s.status = .running) (hacc : s.accepting = true) :
    step s (.accepted none) = some (acceptHandler none s) := by
  simp [step, hrun, hacc]

theorem staying_visit (h : Staying n s) (hn : n + 1 < 2 ^ 32) :
    ∃ t, exec step s (visit (n + 1)) = some t ∧ Staying (n + 1) t := by
  obtain ⟨hnumbered, hfirst, hpeer⟩ := staying_accept h hn
  obtain ⟨hcreated, -, hacc, hstatus⟩ := acceptHandler_fields (s := s)
  have haccepted := step_accepted h.running h.accepting
  rw [h.created] at hcreated
  rw [h.running] at hstatus
  rw [h.accepting] at hacc
  generalize acceptHandler none s = s1 at *
  have hop : (s1.peer (n + 1)).pending[0]? = some .readHeader := by rw [hpeer]; rfl
  have hlive : (s1.peer (n + 1)).destroyed = false := by rw [hpeer]; exact acceptedPeer_destroyed _
  have hcompleted : step s1 (.completed (n + 1) 0 (.error endOfFile)) =
      some (invoke .readHeader (.error endOfFile) (n + 1)
        (modify (n + 1) (Peer.taken 0 .readHeader (.error endOfFile)) s1)) := by
    simp [step, hop, hstatus, hlive, Operation.admits]
  obtain ⟨hlocal, -, hsame⟩ := invoke_local 0 .readHeader (.error endOfFile) hnumbered.wellFormed hlive rfl
  have hkeeps := hlocal.keepsIds hnumbered.wellFormed hlive
  refine ⟨_, exec_cons.mpr ⟨s1, haccepted, exec_cons.mpr ⟨_, hcompleted, rfl⟩⟩, ?_⟩
  refine ⟨hkeeps.numbered hnumbered, ?_, ?_, ?_, ?_⟩
  · rw [hlocal.created, hcreated]
  · exact hsame.trans hstatus
  · rw [hlocal.accepting, hacc]
  · rw [hkeeps.wellFormed.isListed_iff, hlocal.other 0 (by omega), ← hnumbered.wellFormed.isListed_iff]
    exact hfirst

theorem staying_visits (h : Staying 0 s) (hn : n < 2 ^ 32) :
    ∃ t, exec step s (visits n) = some t ∧ Staying n t := by
  induction n with
  | zero => exact ⟨s, rfl, h⟩
  | succ n ih =>
    obtain ⟨t, ht, hstaying⟩ := ih (by omega)
    obtain ⟨r, hr, hlast⟩ := staying_visit hstaying hn
    exact ⟨r, exec_append.mpr ⟨t, ht, hr⟩, hlast⟩

def outlasting (n : ℕ) : List Input := .accepted none :: (visits n ++ [.accepted none])

theorem outlasting_overwrites (hn : n + 1 = 2 ^ 32) :
    (∃ t, exec step init (outlasting n) = some t ∧ Item.overwritten 0 ∈ t.trace) ∧
      ¬ Along step FreshId init (outlasting n) := by
  obtain ⟨t, ht, hstaying⟩ := staying_visits staying_first (show n < 2 ^ 32 by omega)
  have hfirst : exec step init (.accepted none :: visits n) = some t :=
    exec_cons.mpr ⟨_, step_accepted rfl rfl, ht⟩
  have hlast := step_accepted hstaying.running hstaying.accepting
  have hentry : t.peersList[getNextConnectionId t]? = some 0 :=
    (hstaying.numbered.listed_iff 0).mpr ⟨hstaying.first, by rw [hstaying.created, hn, Nat.zero_add]⟩
  constructor
  · refine ⟨acceptHandler none t, exec_append.mpr ⟨t, hfirst, exec_cons.mpr ⟨_, hlast, rfl⟩⟩, ?_⟩
    rw [acceptHandler_trace, acceptingItems, hentry]
    simp
  · intro h
    have hrun : Along step FreshId init ((.accepted none :: visits n) ++ [.accepted none]) := h
    obtain ⟨hfresh, -⟩ := along_append hrun hfirst _ hlast
    rw [hfresh.unlisted rfl] at hentry
    cases hentry

end

theorem longLivedPeer_overwritten :
    (∃ t, exec (@step bindCopies littleEndianHost) init (outlasting (2 ^ 32 - 1)) = some t ∧
      Item.overwritten 0 ∈ t.trace) ∧
    ¬ Along (@step bindCopies littleEndianHost) FreshId init (outlasting (2 ^ 32 - 1)) :=
  @outlasting_overwrites bindCopies (2 ^ 32 - 1) littleEndianHost (Nat.sub_add_cancel (Nat.two_pow_pos 32))

end NukeMs.Server
