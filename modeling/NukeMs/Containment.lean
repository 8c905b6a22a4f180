import NukeMs.PeerLifecycle

namespace NukeMs.Server

open ReferenceCounter SegmentationLayerBase Runs

section
variable [HandlerCopies] [Host]

structure TurnedDown (u i : ℕ) (bytes : List Byte) (e : Exn) (s t : DispatchingServer) : Prop where
  posted : t = (decreaseRefCount u)^[HandlerCopies.calling + 1]
    (postError e.what u (entered u i .readHeader (.ok bytes) s))
  pending : (t.peer u).pending = (s.peer u).pending.eraseIdx i
  errorHappened : (t.peer u).errorHappened = true
  socketOpen : (s.peer u).errorHappened = false → (t.peer u).socketOpen = false
  other : ∀ v, v ≠ u → t.peer v = s.peer v ∧ (IsListed v t ↔ IsListed v s)
  written : ∀ v, writesTo v t.trace = writesTo v s.trace
  accepting : t.accepting = s.accepting

structure Contained (u i : ℕ) (result : Completion) (s t : DispatchingServer) : Prop where
  returns : t.status = .running
  turnedDown : ∀ bytes e, (s.peer u).pending[i]? = some .readHeader → result = .ok bytes →
    admitHeader .invalidHeaderError bytes = .error e → TurnedDown u i bytes e s t
  reaches : ∀ n body, (s.peer u).pending[i]? = some (.readBody n) → result = .ok body →
    ∀ v, IsListed v s →
      writesTo v t.trace = writesTo v s.trace ++ [(s.peer u).headerBuffer ++ body]

def StepContained (s : DispatchingServer) (input : Input) (t : DispatchingServer) : Prop :=
  ∀ u i result, input = .completed u i result → Contained u i result s t

def Harmless (s : DispatchingServer) : Input → Prop
  | .accepted _ => True
  | .completed u i result => IsListed u s ∧
      (∀ bytes, (s.peer u).pending[i]? = some .readHeader → result = .ok bytes →
        isRunt bytes = false) ∧
      ∀ n body, (s.peer u).pending[i]? = some (.readBody n) → result = .ok body →
        ∀ v, IsListed v s → ¬ Loses u s v

variable {u i : ℕ} {op : Operation} {result : Completion} {s t : DispatchingServer} {input : Input}

omit [HandlerCopies] in
theorem reaction_escape_iff (op : Operation) (result : Completion) :
    (∃ e, reaction op result = .escape e) ↔
      ∃ bytes, op = .readHeader ∧ result = .ok bytes ∧ isRunt bytes = true := by
  constructor
  · rintro ⟨e, hr⟩
    cases op with
    | write buffer => cases result <;> cases hr
    | readBody n => cases result <;> cases hr
    | readHeader =>
      cases result with
      | error error => cases hr
      | ok bytes =>
        refine ⟨bytes, rfl, rfl, ?_⟩
        simp only [reaction] at hr
        split at hr
        · cases hr
        next e' hadm =>
          split at hr
          · cases hr
          next hne =>
            rw [← Bool.not_eq_false]
            intro hrunt
            exact hne ((admitHeader_error hrunt hadm).elim id id)
  · rintro ⟨bytes, rfl, rfl, hrunt⟩
    have hadm := admitHeader_runt .invalidHeaderError hrunt
    exact ⟨.lengthError, by simp [reaction, hadm]⟩

theorem turnedDown_of_admitHeader {bytes : List Byte} {e : Exn} (hs : WellFormed s)
    (hd : (s.peer u).destroyed = false) (hrunt : isRunt bytes = false)
    (hadm : admitHeader .invalidHeaderError bytes = .error e) : TurnedDown u i bytes e s
      (invoke .readHeader (.ok bytes) u (modify u (Peer.taken i .readHeader (.ok bytes)) s)) := by
  obtain rfl : e = .invalidHeaderError := (admitHeader_error hrunt hadm).elim id id
  have hr : reaction .readHeader (.ok bytes) = .fail Exn.invalidHeaderError.what := by
    simp [reaction, hadm]
  obtain ⟨hl, hp, -⟩ := invoke_local i .readHeader (.ok bytes) hs hd (by rw [hr]; rfl)
  rw [hr] at hp
  refine ⟨?_, ?_, ?_, ?_, fun v hv => ⟨hl.other v hv, ?_⟩, hl.written, hl.accepting⟩
  · rw [invoke_eq, hr]
    rfl
  · rw [hp, handled_pending]
    simp [started]
  · rw [hp]
    exact Peer.fail_errorHappened
  · intro hfine
    rw [hp]
    simp [Peer.handled, Peer.react, Peer.release, Peer.fail, hfine]
  · have ht := hl.wellFormed (hs.owns hd) (hs.lt_created hd) hs
    rw [ht.isListed_iff, hs.isListed_iff, hl.other v hv]

theorem returns_iff (i : ℕ) (op : Operation) (result : Completion) (hs : WellFormed s) (hrun : s.status = .running)
    (hd : (s.peer u).destroyed = false) :
    (invoke op result u (modify u (Peer.taken i op result) s)).status = .running ↔
      (∀ e, reaction op result ≠ .escape e) ∧
        ∀ body, reaction op result = .broadcast body →
          ∀ v, (s.peer v).destroyed = false → ¬ Loses u s v := by
  obtain ⟨-, ⟨body, hr, hb⟩ | ⟨hb, -, hsame⟩⟩ := handled_cases i op result hs hd
  · constructor
    · intro hreturns
      refine ⟨by simp [hr], fun _ _ v hv hloses => ?_⟩
      rw [(hb.lost v hv hloses).1] at hreturns
      cases hreturns
    · rintro ⟨-, hkeeps⟩
      exact (hb.status (hkeeps body hr)).trans hrun
  · rw [hsame, hrun]
    cases hr : reaction op result with
    | escape e => simp [Reaction.status]
    | broadcast body => rw [hr] at hb; cases hb
    | _ => simp [Reaction.status]

theorem stepContained_iff (hs : Faithful s) (h : step s input = some t) :
    StepContained s input t ↔ Harmless s input := by
  obtain ⟨hrun, hstep⟩ := step_stepped h
  cases hstep with
  | refused error => exact ⟨fun _ => trivial, fun _ u i result hc => by cases hc⟩
  | accepted => exact ⟨fun _ => trivial, fun _ u i result hc => by cases hc⟩
  | gone u i result hd =>
    constructor
    · intro hc
      exact absurd (hc u i result rfl).returns (by simp)
    · rintro ⟨hlisted, -⟩
      rw [hs.wellFormed.isListed_iff, hd] at hlisted
      cases hlisted
  | handled u i op result hd hop hfills =>
    have hkind := reaction_escape_iff op result
    have hreturns := returns_iff i op result hs.wellFormed hrun hd
    constructor
    · intro hc
      obtain ⟨hno, hkeeps⟩ := hreturns.mp (hc u i result rfl).returns
      refine ⟨hs.wellFormed.isListed_iff.mpr hd, ?_, ?_⟩
      · intro bytes hread hres
        rw [← Bool.not_eq_true]
        intro hrunt
        cases hop.symm.trans hread
        obtain ⟨e, hr⟩ := hkind.mpr ⟨bytes, rfl, hres, hrunt⟩
        exact hno e hr
      · intro n body hread hres v hv
        cases hop.symm.trans hread
        subst hres
        exact hkeeps body rfl v (hs.wellFormed.isListed_iff.mp hv)
    · rintro ⟨-, hharmless, hkeeps⟩ u' i' result' hc
      cases hc
      refine ⟨hreturns.mpr ⟨?_, ?_⟩, ?_, ?_⟩
      · intro e hr
        obtain ⟨bytes, rfl, rfl, hrunt⟩ := hkind.mp ⟨e, hr⟩
        rw [hharmless bytes hop rfl] at hrunt
        cases hrunt
      · intro body hr v hv
        obtain ⟨n, rfl, rfl⟩ := reaction_broadcast hr
        exact hkeeps n body hop rfl v (hs.wellFormed.isListed_iff.mpr hv)
      · intro bytes e hread hres hadm
        cases hop.symm.trans hread
        subst hres
        exact turnedDown_of_admitHeader hs.wellFormed hd (hharmless bytes hread rfl) hadm
      · intro n body hread hres v hv
        cases hop.symm.trans hread
        subst hres
        have hr : reaction (.readBody n) (.ok body) = .broadcast body := rfl
        obtain ⟨hb, -⟩ := invoke_broadcast (i := i) hs.wellFormed hd hr
        have hlen : body.length = n := by simpa [Operation.admits] using hfills
        rw [hb.written, hs.wellFormed.isListed_iff.mp hv, if_neg (by decide),
          packet_of_reading (hs.reading u) hop hlen]

theorem contained_run (inputs : List Input) :
    Along step StepContained init inputs ↔
      Along step (fun s input _ => Harmless s input) init inputs :=
  along_congr (I := Faithful) (fun _ _ _ hs _ h => step_faithful hs h)
    (fun _ _ _ hs h => stepContained_iff hs h) init_faithful inputs

end

def emptyPacketHeader : List Input :=
  [.accepted none, .accepted none, .completed 0 0 (.ok [0x80, 0, 0, 0])]

theorem emptyPacketHeader_escapes :
    ¬ Along (@step bindCopies littleEndianHost) (@StepContained bindCopies littleEndianHost) init
      emptyPacketHeader := by
  intro h
  let : HandlerCopies := bindCopies
  let : Host := littleEndianHost
  have hlast := ((((h _ rfl).2 _ rfl).2 _ rfl).1 0 0 _ rfl).returns
  cases hlast

end NukeMs.Server
