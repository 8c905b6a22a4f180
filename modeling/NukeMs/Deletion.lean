import NukeMs.PeerOperations
import NukeMs.Runs

namespace NukeMs.Server

open ReferenceCounter Runs

def NothingAfterDeletion (trace : List Item) : Prop :=
  ∀ u before after, trace = before ++ .erased u :: after → ∀ item ∈ after, item.touches u = false

theorem nothingAfterDeletion_iff {trace : List Item} :
    NothingAfterDeletion trace ↔ ¬ ErasedThenTouched trace := by
  constructor
  · rintro h ⟨u, before, after, item, htrace, hmem, htouch⟩
    rw [h u before after htrace item hmem] at htouch
    cases htouch
  · intro h u before after htrace item hmem
    rw [← Bool.not_eq_true]
    exact fun htouch => h ⟨u, before, after, item, htrace, hmem, htouch⟩

section
variable [HandlerCopies]

/-- A handler that reacts like this, on a peer with that counter, decreases it from one: it holds up
to so many references beside those that the counter has, and leaves those of what it has started. -/
def lastReference (referenceCount : Unsigned) (r : Reaction) : Prop :=
  let held := HandlerCopies.calling + (started r).length +
    if (started r).isEmpty then 0 else HandlerCopies.starting
  ComesToOne referenceCount (started r).length held

omit [HandlerCopies] in
theorem release_destroyed {p : Peer} {count : Unsigned} {m c : ℕ}
    (hcount : p.referenceCount = count + BitVec.ofNat 32 c + BitVec.ofNat 32 m) :
    (p.release (c + 1)).destroyed = true ↔ p.destroyed = true ∨ ComesToOne count m (m + c) := by
  have hbase : p.referenceCount - BitVec.ofNat 32 (c + 1) + BitVec.ofNat 32 1 =
      count + BitVec.ofNat 32 m := by
    rw [hcount]
    bv_omega
  have hshift : ComesToOne (count + BitVec.ofNat 32 m) 0 c ↔ ComesToOne count (0 + m) (c + m) :=
    comesToOne_add m
  rw [← hbase, comesToOne_add, Nat.zero_add, Nat.zero_add, Nat.add_comm c m] at hshift
  simp only [Peer.release, Bool.or_eq_true, decide_eq_true_eq, hshift]

theorem handled_destroyed {p : Peer} (i : ℕ) (op : Operation) (result : Completion) (r : Reaction)
    (hd : p.destroyed = false) :
    (p.handled i op result r).destroyed = true ↔ lastReference p.referenceCount r := by
  have hin : (p.entered i op result).destroyed = false := hd
  have hcount : (p.entered i op result).referenceCount =
    p.referenceCount + BitVec.ofNat 32 HandlerCopies.calling := rfl
  unfold Peer.handled
  generalize p.entered i op result = q at hin hcount
  rw [release_destroyed (react_referenceCount.trans (by rw [hcount])), lastReference]
  have hqueue : ∀ op', (q.queue op').destroyed = true ↔ ComesToOne p.referenceCount
      (2 + HandlerCopies.calling) (HandlerCopies.starting + 1 + HandlerCopies.calling) := by
    intro op'
    rw [queue_destroyed hin, hcount, comesToOne_add]
  cases r with
  | rest | escape e => simp [Peer.react, started, hin]
  | fail errmsg => simp [Peer.react, started, hin]
  | start next =>
    rw [Peer.react, hqueue, or_comm]
    simp only [started, List.length_singleton, List.isEmpty_cons, Bool.false_eq_true, if_false]
    rw [comesToOne_or (by omega) (by omega) (by omega)]
    congr! 1
    omega
  | broadcast body =>
    have hsecond : (q.queue (.write (SegmentationLayer.packet body))).referenceCount =
        p.referenceCount + BitVec.ofNat 32 (HandlerCopies.calling + 1) := by
      rw [BitVec.ofNat_add, ← BitVec.add_assoc, ← hcount]
      rfl
    have hjoin : ComesToOne p.referenceCount 2 (2 + HandlerCopies.calling) ∨
        ComesToOne p.referenceCount (2 + (HandlerCopies.calling + 1))
          (HandlerCopies.starting + 1 + (HandlerCopies.calling + 1)) ↔
        ComesToOne p.referenceCount 2 (HandlerCopies.starting + 1 + (HandlerCopies.calling + 1)) :=
      comesToOne_or (by omega) (by omega) (by omega)
    have hheld : HandlerCopies.calling + 2 + HandlerCopies.starting =
        HandlerCopies.starting + 1 + (HandlerCopies.calling + 1) := by omega
    rw [Peer.react, queue_destroyed_or, hqueue, hsecond, comesToOne_add]
    simp only [started, List.length_cons, List.length_nil, List.isEmpty_cons, Bool.false_eq_true,
      if_false, Nat.zero_add, Nat.reduceAdd]
    rw [hheld, ← hjoin, or_assoc, or_comm (b := ComesToOne _ 2 (2 + _)), or_iff_right_iff_imp, hjoin]
    exact fun hwrite => hwrite.mono (by omega) (by omega)

end

def HasErased (s : DispatchingServer) : Prop := ∃ v, Item.erased v ∈ s.trace

structure Dangling (s : DispatchingServer) : Prop where
  wellFormed : WellFormed s
  touched : HasErased s → ErasedThenTouched s.trace

theorem init_dangling : Dangling init := ⟨init_wellFormed, fun ⟨_, hv⟩ => by cases hv⟩

section
variable [HandlerCopies] [Host] {s t : DispatchingServer} {input : Input}

/-- The handler finds the counter of a listed peer at one: of its own peer, because it does not
start another operation, or of a peer that it writes to, whose counter has wrapped. -/
def DropsLast (s : DispatchingServer) : Input → Prop
  | .accepted _ => False
  | .completed u i result => ∃ op, (s.peer u).pending[i]? = some op ∧ (s.peer u).destroyed = false ∧
      (lastReference (s.peer u).referenceCount (reaction op result) ∨
        ∃ body, reaction op result = .broadcast body ∧
          ∃ v, (s.peer v).destroyed = false ∧ Loses u s v)

theorem step_drops (hs : WellFormed s) (h : step s input = some t) :
    (DropsLast s input ∧ ErasedThenTouched t.trace) ∨
      (¬ DropsLast s input ∧ (HasErased t → HasErased s)) := by
  obtain ⟨hrun, hstep⟩ := step_stepped h
  cases hstep with
  | refused error => exact .inr ⟨not_false, id⟩
  | accepted =>
    refine .inr ⟨not_false, fun ⟨v, hv⟩ => ⟨v, ?_⟩⟩
    rw [acceptHandler_trace, List.mem_append] at hv
    exact hv.resolve_right fun hmem => (acceptingItems_mem hmem).1 v rfl
  | gone u i result hd =>
    refine .inr ⟨fun ⟨op, _, hlive, _⟩ => ?_, fun ⟨v, hv⟩ => ⟨v, ?_⟩⟩
    · rw [hd] at hlive
      cases hlive
    · rw [log_trace, List.mem_append] at hv
      exact hv.resolve_right (by simp)
  | handled u i op result hd hop hfills =>
    have hdrops : DropsLast s (.completed u i result) ↔
        lastReference (s.peer u).referenceCount (reaction op result) ∨
          ∃ body, reaction op result = .broadcast body ∧
            ∃ v, (s.peer v).destroyed = false ∧ Loses u s v := by
      constructor
      · rintro ⟨op', hop', -, hlast⟩
        cases hop.symm.trans hop'
        exact hlast
      · exact fun hlast => ⟨op, hop, hd, hlast⟩
    have hlast := handled_destroyed i op result (reaction op result) hd
    rw [hdrops]
    obtain ⟨hp, ⟨body, hr, hb⟩ | ⟨hb, hl, -⟩⟩ := handled_cases i op result hs hd
    · rw [← hp] at hlast
      by_cases hkeeps : ∀ v, (s.peer v).destroyed = false →
          ((invoke op result u (modify u (Peer.taken i op result) s)).peer v).destroyed = false
      · refine .inr ⟨?_, fun ⟨v, hv⟩ => ⟨v, hb.kept hkeeps v hv⟩⟩
        rintro (hc | ⟨-, -, v, hlive, hc⟩)
        · exact absurd (hlast.mpr hc) (by simp [hkeeps u hd])
        · exact absurd (hb.lost v hlive hc).2 (by simp [hkeeps v hlive])
      · simp only [not_forall, Bool.not_eq_false] at hkeeps
        obtain ⟨v, hlive, hdead⟩ := hkeeps
        refine .inl ⟨?_, hb.marked v hlive hdead⟩
        by_cases hv : v = u
        · exact .inl (hlast.mp (hv ▸ hdead))
        · refine .inr ⟨body, hr, v, hlive, ?_⟩
          rw [hb.other v hv, hlive, if_neg (by decide), queue_destroyed hlive] at hdead
          rw [Loses, if_neg hv]
          exact hdead
    · rw [← hp] at hlast
      cases ht : ((invoke op result u (modify u (Peer.taken i op result) s)).peer u).destroyed with
      | true => exact .inl ⟨.inl (hlast.mp ht), hl.marked hd ht⟩
      | false =>
        refine .inr ⟨?_, fun ⟨v, hv⟩ => ⟨v, hl.kept ht v hv⟩⟩
        rintro (hc | ⟨body, hr, -⟩)
        · rw [hlast.mpr hc] at ht
          cases ht
        · rw [hr] at hb
          cases hb

theorem step_dangling (hs : Dangling s) (h : step s input = some t) : Dangling t := by
  refine ⟨step_wellFormed hs.wellFormed h, ?_⟩
  intro ht
  obtain ⟨-, htouch⟩ | ⟨-, hkept⟩ := step_drops hs.wellFormed h
  · exact htouch
  · obtain ⟨items, hitems⟩ := step_traced hs.wellFormed h
    exact hitems ▸ (hs.touched (hkept ht)).append items

theorem step_hasErased (hs : Dangling s) (h : step s input = some t) :
    HasErased t ↔ HasErased s ∨ DropsLast s input := by
  constructor
  · intro ht
    obtain ⟨hdrop, -⟩ | ⟨-, hkept⟩ := step_drops hs.wellFormed h
    · exact .inr hdrop
    · exact .inl (hkept ht)
  · rintro (⟨v, hv⟩ | hdrop)
    · exact ⟨v, (step_traced hs.wellFormed h).subset hv⟩
    · obtain ⟨-, u, before, after, item, htrace, -⟩ | ⟨hno, -⟩ := step_drops hs.wellFormed h
      · exact ⟨u, by rw [htrace]; simp⟩
      · exact absurd hdrop hno

theorem nothingAfterDeletion_run (inputs : List Input) (h : exec step init inputs = some t) :
    NothingAfterDeletion t.trace ↔
      Along step (fun s input _ => ¬ DropsLast s input) init inputs := by
  have hmark := along_of_mark (fun _ _ _ hs h => step_dangling hs h)
    (fun _ _ _ hs h => step_hasErased hs h) init_dangling h
  have hinit : ¬ HasErased init := fun ⟨_, hv⟩ => by cases hv
  have ht : Dangling t := exec_invariant (fun _ _ _ hs h => step_dangling hs h) init_dangling h
  rw [nothingAfterDeletion_iff]
  constructor
  · intro hno
    exact (hmark.mp fun herased => hno (ht.touched herased)).2
  · rintro hall ⟨u, before, after, item, htrace, -⟩
    exact hmark.mpr ⟨hinit, hall⟩ ⟨u, by rw [htrace]; simp⟩

end

def Item.isErased : Item → Bool
  | .erased _ => true
  | _ => false

theorem nothingAfterDeletion_of_none {trace : List Item} (h : trace.any Item.isErased = false) :
    NothingAfterDeletion trace := by
  rintro u before after rfl
  simp [Item.isErased] at h

def relayedPacket : List Input :=
  [.accepted none, .accepted none, .completed 0 0 (.ok [0x80, 5, 0, 0]), .completed 0 0 (.ok [0x41]),
    .completed 0 0 (.ok []), .completed 1 1 (.ok [])]

theorem nothingAfterDeletion_relayed : ∃ t,
    exec (@step bindCopies littleEndianHost) init relayedPacket = some t ∧
      writesTo 1 t.trace = [[0x80, 5, 0, 0, 0x41]] ∧
      Along (@step bindCopies littleEndianHost)
        (fun s input _ => ¬ @DropsLast bindCopies littleEndianHost s input) init relayedPacket :=
  ⟨_, rfl, rfl, (@nothingAfterDeletion_run bindCopies littleEndianHost _ relayedPacket rfl).mp
    (nothingAfterDeletion_of_none rfl)⟩

def hangUp : List Input :=
  [.accepted none, .completed 0 0 (.error ⟨false, "End of file"⟩)]

theorem hangUp_touches : ∃ t, exec (@step bindCopies littleEndianHost) init hangUp = some t ∧
    ¬ NothingAfterDeletion t.trace := by
  refine ⟨_, rfl, ?_⟩
  intro h
  have hlast := h 0 _ [.readCount 0, .unlock 0] (List.take_append_drop 31 _).symm (.readCount 0)
    (by simp)
  cases hlast

end NukeMs.Server
