import NukeMs.ConnectedSession
import NukeMs.ReadPositions

namespace NukeMs

open SegmentationLayerBase Framing FramedStream Server Runs

structure ReadsOn (f : Format Byte) (pending : List Operation) (bytes : List Byte)
    (handed : List (List Byte)) : Prop where
  handsUp : f.HandsUp bytes handed
  stands : ∀ op ∈ pending, ∀ phase, op.phase = some phase → f.Stands phase bytes handed

section
variable {f : Format Byte} {pending more : List Operation} {op : Operation} {i : ℕ}
  {result : Completion} {bytes hdr body : List Byte} {handed : List (List Byte)}

theorem readsOn_start (f : Format Byte) : ReadsOn f [.readHeader] [] [] where
  handsUp := Format.Stands.start.handsUp
  stands op hop phase hphase := by
    rw [List.mem_singleton.mp hop] at hphase
    cases hphase
    exact .start

theorem ReadsOn.of_pending (h : ReadsOn f pending bytes handed)
    (hmore : ∀ op ∈ more, op.isRead = true → op ∈ pending) : ReadsOn f more bytes handed where
  handsUp := h.handsUp
  stands op hop phase hphase :=
    h.stands op (hmore op hop (isRead_of_phase hphase)) phase hphase

theorem ReadsOn.leave (i : ℕ) (h : ReadsOn f pending bytes handed) :
    ReadsOn f (pending.eraseIdx i) bytes handed :=
  h.of_pending fun _ hop _ => List.mem_of_mem_eraseIdx hop

theorem ReadsOn.next (hsingle : pending.countP Operation.isRead ≤ 1) (hop : pending[i]? = some op)
    (hread : op.isRead = true) (hhanded : f.HandsUp bytes handed)
    (hnext : ∀ op ∈ more, ∀ phase, op.phase = some phase → f.Stands phase bytes handed) :
    ReadsOn f (pending.eraseIdx i ++ more) bytes handed := by
  have hzero := Outstanding.countP_eraseIdx_single hop hread hsingle
  refine ⟨hhanded, ?_⟩
  intro other hother phase hphase
  obtain hold | hnew := List.mem_append.mp hother
  · exact absurd (isRead_of_phase hphase) (List.countP_eq_zero.mp hzero other hold)
  · exact hnext other hnew phase hphase

theorem ReadsOn.takeHeader {n : ℕ} (h : ReadsOn f pending bytes handed)
    (hsingle : pending.countP Operation.isRead ≤ 1) (hop : pending[i]? = some .readHeader)
    (hlen : hdr.length = f.headerLength) (hv : f.verdict hdr = .body n) :
    ReadsOn f (pending.eraseIdx i ++ [.readBody n]) (bytes ++ hdr) handed := by
  have hbody := (h.stands _ (List.mem_of_getElem? hop) .header rfl).takeHeader hlen hv
  apply ReadsOn.next hsingle hop rfl hbody.handsUp
  intro next hnext phase hphase
  rw [List.mem_singleton.mp hnext] at hphase
  cases hphase
  exact hbody

theorem ReadsOn.refuse (h : ReadsOn f pending bytes handed)
    (hsingle : pending.countP Operation.isRead ≤ 1) (hop : pending[i]? = some .readHeader)
    (hlen : hdr.length = f.headerLength) (hv : ∀ n, f.verdict hdr ≠ .body n) :
    ReadsOn f (pending.eraseIdx i) (bytes ++ hdr) handed := by
  rw [← List.append_nil (pending.eraseIdx i)]
  apply ReadsOn.next hsingle hop rfl
  · exact (h.stands _ (List.mem_of_getElem? hop) .header rfl).refuse hlen hv
  · intro next hnext
    cases hnext

theorem ReadsOn.takeBody (h : ReadsOn f pending bytes handed)
    (hsingle : pending.countP Operation.isRead ≤ 1)
    (hop : pending[i]? = some (.readBody body.length)) (hf : f.faulty body = false)
    (hmore : ∀ op ∈ more, op.isRead = true → op = .readHeader) :
    ReadsOn f (pending.eraseIdx i ++ more) (bytes ++ body) (handed ++ [body]) := by
  have hheader := (h.stands _ (List.mem_of_getElem? hop) (.body body.length) rfl).takeBody hf
  apply ReadsOn.next hsingle hop rfl hheader.handsUp
  intro next hnext phase hphase
  rw [hmore next hnext (isRead_of_phase hphase)] at hphase
  cases hphase
  exact hheader

end

namespace Server

def takenBy (u : ℕ) : Input → List Byte
  | .accepted _ => []
  | .completed v _ result => if v = u then received result else []

def handedBy (u : ℕ) (trace : List Item) : List (List Byte) :=
  ((handedUp trace).filter fun x => x.1 = u).map Prod.snd

section
variable {u v i : ℕ} {op : Operation} {result : Completion} {bytes : List Byte}
  {handed bodies : List (List Byte)} {p : Peer} {s t : DispatchingServer}

theorem handedBy_append (h : handedUp t.trace = handedUp s.trace ++ bodies.map fun body => (v, body)) :
    handedBy u t.trace = handedBy u s.trace ++ if v = u then bodies else [] := by
  rw [handedBy, h, List.filter_append, List.map_append, handedBy, List.filter_map, List.map_map]
  congr 1
  by_cases hv : v = u
  · simp [hv, Function.comp_def]
  · simp [hv, Function.comp_def]

section
variable [Host]

theorem peerFormat_verdict {hdr : List Byte} {n : ℕ} :
    peerFormat.verdict hdr = .body n ↔ reaction .readHeader (.ok hdr) = .start (.readBody n) := by
  simp only [peerFormat, receiverFormat, reaction]
  cases admitHeader .invalidHeaderError hdr with
  | ok body => simp
  | error e =>
    by_cases he : e = .invalidHeaderError
    · simp [he]
    · simp [he]

variable [HandlerCopies]

theorem handled_readsOn (hr : p.Reading) (hop : p.pending[i]? = some op)
    (hadm : op.admits result = true) (h : ReadsOn peerFormat p.pending bytes handed) :
    ReadsOn peerFormat (p.handled i op result (reaction op result)).pending
      (bytes ++ received result) (handed ++ (reaction op result).bodies) := by
  have hsingle : p.pending.countP Operation.isRead ≤ 1 := hr.single
  rw [handled_pending]
  cases result with
  | error error =>
    have hreaction : reaction op (.error error) = .fail error.message := by
      cases op <;> rfl
    simpa [hreaction, received, Reaction.bodies, started] using h.leave i
  | ok bytes =>
    cases op with
    | write buffer =>
      have hempty : bytes = [] := by simpa [Operation.admits] using hadm
      subst hempty
      simp only [reaction, received, Reaction.bodies, started, List.append_nil]
      exact h.leave i
    | readBody n =>
      have hlen : bytes.length = n := by simpa [Operation.admits] using hadm
      subst hlen
      apply h.takeBody hsingle hop rfl
      intro next hnext hread
      obtain rfl | hheader := List.mem_cons.mp hnext
      · cases hread
      · exact List.mem_singleton.mp hheader
    | readHeader =>
      have hlen : bytes.length = headerLength := by simpa [Operation.admits] using hadm
      cases hreaction : reaction .readHeader (.ok bytes) with
      | start next =>
        obtain ⟨_, body, -, -, -, rfl⟩ := reaction_start hreaction
        have htaken := h.takeHeader hsingle hop hlen (peerFormat_verdict.mpr hreaction)
        simpa [received, started, Reaction.bodies] using htaken
      | broadcast body => cases (reaction_broadcast hreaction).choose_spec.1
      | rest => cases (reaction_rest hreaction).choose_spec
      | fail errmsg =>
        have hrefused := h.refuse hsingle hop hlen fun n hv => by
          rw [peerFormat_verdict, hreaction] at hv
          cases hv
        simpa [received, started, Reaction.bodies] using hrefused
      | escape e =>
        have hrefused := h.refuse hsingle hop hlen fun n hv => by
          rw [peerFormat_verdict, hreaction] at hv
          cases hv
        simpa [received, started, Reaction.bodies] using hrefused

structure PeerReads (u : ℕ) (bytes : List Byte) (s : DispatchingServer) : Prop where
  reads : ReadsOn peerFormat (s.peer u).pending bytes (handedBy u s.trace)
  fresh : s.created ≤ u → bytes = [] ∧ handedBy u s.trace = []

omit [HandlerCopies] in
theorem init_peerReads (u : ℕ) : PeerReads u [] init where
  reads := (readsOn_start peerFormat).of_pending fun op hop _ => by cases hop
  fresh _ := ⟨rfl, rfl⟩

theorem PeerReads.accept (hs : Faithful s) (h : PeerReads u bytes s) :
    PeerReads u bytes (acceptHandler none s) := by
  have hhanded : handedBy u (acceptHandler none s).trace = handedBy u s.trace := by
    rw [handedBy, acceptHandler_handed, handedBy]
  constructor
  · rw [hhanded, acceptHandler_peer hs.wellFormed]
    split
    next hu =>
      obtain ⟨hbytes, hnone⟩ := h.fresh hu.ge
      rw [hbytes, hnone]
      exact readsOn_start peerFormat
    next =>
      split
      · exact h.reads
      · exact h.reads
  · intro hu
    rw [hhanded]
    rw [acceptHandler_fields.1] at hu
    exact h.fresh (by omega)

theorem PeerReads.handled (hs : Faithful s) (hd : (s.peer v).destroyed = false)
    (hop : (s.peer v).pending[i]? = some op) (hadm : op.admits result = true)
    (h : PeerReads u bytes s) : PeerReads u (bytes ++ takenBy u (.completed v i result))
      (invoke op result v (modify v (Peer.taken i op result) s)) := by
  obtain ⟨hrelayed, hp⟩ := handled_relayed i op result hs.wellFormed hd
  have hhanded := handedBy_append (u := u) hrelayed.handed
  by_cases hv : v = u
  · subst hv
    rw [if_pos rfl] at hhanded
    rw [takenBy, if_pos rfl]
    constructor
    · rw [hp, hhanded]
      exact handled_readsOn (hs.reading v) hop hadm h.reads
    · intro hu
      rw [hrelayed.created] at hu
      exact absurd (hs.wellFormed.lt_created hd) (by omega)
  · rw [if_neg hv, List.append_nil] at hhanded
    rw [takenBy, if_neg hv, List.append_nil]
    constructor
    · rw [hhanded]
      exact h.reads.of_pending (hrelayed.reads u (Ne.symm hv))
    · intro hu
      rw [hhanded]
      exact h.fresh (hrelayed.created ▸ hu)

theorem step_peerReads {input : Input} (hs : Faithful s) (h : PeerReads u bytes s)
    (hstep : step s input = some t) (ht : t.status ≠ .undefined) :
    PeerReads u (bytes ++ takenBy u input) t := by
  obtain ⟨-, hstepped⟩ := step_stepped hstep
  cases hstepped with
  | refused error =>
    rw [takenBy, List.append_nil]
    exact ⟨h.reads, h.fresh⟩
  | accepted =>
    rw [takenBy, List.append_nil]
    exact h.accept hs
  | gone v i result hd => exact absurd rfl ht
  | handled v i op result hd hop hadm => exact h.handled hs hd hop hadm

theorem defined_of_exec {inputs : List Input} (h : exec step s inputs = some t)
    (ht : t.status ≠ .undefined) : s.status ≠ .undefined := by
  cases inputs with
  | nil =>
    cases h
    exact ht
  | cons input inputs =>
    obtain ⟨r, hr, -⟩ := exec_cons.mp h
    rw [(step_stepped hr).1]
    nofun

theorem exec_peerReads {inputs : List Input} (hs : Faithful s) (h : PeerReads u bytes s)
    (hrun : exec step s inputs = some t) (ht : t.status ≠ .undefined) :
    PeerReads u (bytes ++ inputs.flatMap (takenBy u)) t := by
  induction inputs generalizing s bytes with
  | nil =>
    cases hrun
    rw [List.flatMap_nil, List.append_nil]
    exact h
  | cons input inputs ih =>
    obtain ⟨r, hr, hrest⟩ := exec_cons.mp hrun
    rw [List.flatMap_cons, ← List.append_assoc]
    exact ih (step_faithful hs hr) (step_peerReads hs h hr (defined_of_exec hrest ht)) hrest

/-- In every run each peer hands up what the format makes of the bytes that its reads have taken,
and the read that it has pending goes on from there. -/
theorem peerReads_run (inputs : List Input) (h : exec step init inputs = some t)
    (ht : t.status ≠ .undefined) (u : ℕ) : ReadsOn peerFormat (t.peer u).pending
      (inputs.flatMap (takenBy u)) (handedBy u t.trace) := by
  have hreads := exec_peerReads init_faithful (init_peerReads u) h ht
  rw [List.nil_append] at hreads
  exact hreads.reads

end

end

set_option maxRecDepth 1000 in
example : (exec (@step bindCopies littleEndianHost) init
    [.accepted none, .completed 0 0 (.ok [0x80, 5, 0, 0]), .completed 0 0 (.ok [0x41]),
      .completed 0 1 (.ok [0x80, 5, 0, 0]), .completed 0 1 (.ok [0x42]), .completed 0 0 (.ok [])]).map
        (fun t => handedBy 0 t.trace) = some [[0x41], [0x42]] := rfl

end Server

namespace ConnectedClient

def takenIn : List Input → List Byte
  | [] => []
  | .dropped :: _ => []
  | .completed _ result :: inputs => received result ++ takenIn inputs
  | .sendPacket _ :: inputs | .sendUserMessage _ :: inputs | .shutdown :: inputs => takenIn inputs

section
variable [Host] {d t : ConnectedClient} {i : ℕ} {op : Operation} {result : Completion}
  {bytes : List Byte} {inputs : List Input}

structure Reads (d : ConnectedClient) (bytes : List Byte) : Prop where
  owned : d.owned = true
  single : d.pending.countP Operation.isRead ≤ 1
  reads : ReadsOn connectedClientFormat d.pending bytes d.payloads

theorem makeInstance_reads (id : ℤ) : Reads (makeInstance id) [] where
  owned := rfl
  single := le_rfl
  reads := readsOn_start connectedClientFormat

theorem Reads.start (h : Reads d bytes) (hwrite : op.isRead = false) : Reads (start op d) bytes where
  owned := h.owned
  single := by
    have hcount : (d.pending ++ [op]).countP Operation.isRead = d.pending.countP Operation.isRead := by
      rw [List.countP_append, List.countP_singleton, hwrite, if_neg Bool.false_ne_true, Nat.add_zero]
    exact hcount.trans_le h.single
  reads := h.reads.of_pending fun other hother hread => by
    obtain hold | rfl := List.mem_append.mp hother |>.imp id List.mem_singleton.mp
    · exact hold
    · rw [hwrite] at hread
      cases hread

theorem Reads.send (data : List Byte) (h : Reads d bytes) : Reads (asyncWrite data d) bytes :=
  Reads.start (d := { d with written := d.written ++ [data] }) ⟨h.owned, h.single, h.reads⟩ rfl

theorem Reads.leave {more : List Byte} (h : Reads d bytes) (i : ℕ) (howned : t.owned = d.owned)
    (hpending : t.pending = d.pending.eraseIdx i)
    (hreads : ReadsOn connectedClientFormat (d.pending.eraseIdx i) more t.payloads) :
    Reads t more where
  owned := howned.trans h.owned
  single := by
    rw [hpending]
    exact (List.eraseIdx_sublist _ _).countP_le.trans h.single
  reads := hpending ▸ hreads

theorem Reads.next {next : Operation} {more : List Byte} (h : Reads d bytes)
    (hop : d.pending[i]? = some op) (hread : op.isRead = true) (howned : t.owned = d.owned)
    (hpending : t.pending = d.pending.eraseIdx i ++ [next])
    (hreads : ReadsOn connectedClientFormat (d.pending.eraseIdx i ++ [next]) more t.payloads) :
    Reads t more where
  owned := howned.trans h.owned
  single := by
    rw [hpending, List.countP_append, Outstanding.countP_eraseIdx_single hop hread h.single,
      Nat.zero_add]
    exact List.countP_le_length
  reads := hpending ▸ hreads

theorem connectedClientFormat_verdict {hdr : List Byte} {n : ℕ} :
    connectedClientFormat.verdict hdr = .body n ↔
      ∃ body, admitHeader (.msgLayerError "Oversized packet.") hdr = .ok body ∧ body.length = n := by
  simp only [connectedClientFormat, receiverFormat]
  cases admitHeader (.msgLayerError "Oversized packet.") hdr with
  | ok body => simp
  | error e =>
    by_cases he : e.isMsgLayerError = true
    · simp [he]
    · simp [he]

theorem Reads.header {hdr : List Byte} (h : Reads d bytes) (hop : d.pending[i]? = some .readHeader)
    (hlen : hdr.length = headerLength) :
    Reads (runHandler .readHeader (.ok hdr) (taken i .readHeader (.ok hdr) d)) (bytes ++ hdr) := by
  have htaken : (taken i .readHeader (.ok hdr) d).owned = true := h.owned
  have hbuffer : (taken i .readHeader (.ok hdr) d).headerBuffer = hdr := rfl
  rw [runHandler, if_pos htaken]
  simp only [receiveHeaderHandler, hbuffer]
  cases hadmitted : admitHeader (.msgLayerError "Oversized packet.") hdr with
  | ok body =>
    have hverdict := connectedClientFormat_verdict.mpr ⟨body, hadmitted, rfl⟩
    exact h.next hop rfl rfl rfl (h.reads.takeHeader h.single hop hlen hverdict)
  | error e =>
    have hrefused := h.reads.refuse h.single hop hlen fun n hverdict => by
      obtain ⟨body, hbody, -⟩ := connectedClientFormat_verdict.mp hverdict
      cases hadmitted.symm.trans hbody
    dsimp only
    split
    · refine h.leave i rfl rfl ?_
      rw [payloads_disconnect]
      exact hrefused
    · exact h.leave i rfl rfl hrefused

theorem Reads.body {body : List Byte} (h : Reads d bytes)
    (hop : d.pending[i]? = some (.readBody body.length)) :
    Reads (runHandler (.readBody body.length) (.ok body) (taken i (.readBody body.length) (.ok body) d))
      (bytes ++ body) := by
  rw [runHandler_body h.owned]
  refine h.next hop rfl rfl rfl ?_
  rw [payloads_received]
  apply h.reads.takeBody h.single hop rfl
  intro next hnext _
  exact List.mem_singleton.mp hnext

theorem Reads.completed (h : Reads d bytes) (hop : d.pending[i]? = some op)
    (hadm : op.admits result = true) :
    Reads (runHandler op result (taken i op result d)) (bytes ++ received result) := by
  cases result with
  | error error =>
    rw [runHandler_error error h.owned, received, List.append_nil]
    refine h.leave i rfl rfl ?_
    rw [payloads_disconnect]
    exact h.reads.leave i
  | ok received =>
    cases op with
    | readHeader => exact h.header hop (of_decide_eq_true hadm)
    | readBody n =>
      have hlen : received.length = n := of_decide_eq_true hadm
      subst hlen
      exact h.body hop
    | write buffer =>
      have htaken : (taken i (.write buffer) (.ok received) d).owned = true := h.owned
      rw [received_of_write rfl hadm, List.append_nil, runHandler, if_pos htaken]
      exact h.leave i rfl rfl (h.reads.leave i)

theorem step_unowned {input : Input} (hd : d.owned = false) (h : step d input = some t) :
    t.owned = false ∧ t.payloads = d.payloads := by
  obtain ⟨hcalls, -⟩ | ⟨-, hsignals⟩ := step_signals h
  · cases input with
    | completed i result =>
      rw [hcalls.1] at hd
      cases hd
    | _ => cases hcalls
  · refine ⟨?_, by rw [payloads, hsignals, payloads]⟩
    cases input with
    | completed i result =>
      obtain ⟨op, -, -, rfl⟩ := step_completed h
      have htaken : (taken i op result d).owned = false := hd
      unfold runHandler
      rw [if_neg (by rw [htaken]; decide)]
      exact htaken
    | dropped =>
      unfold step at h
      split at h
      · cases h
      · cases h
        rfl
    | _ => simp [step, hd] at h

theorem exec_unowned (hd : d.owned = false) (h : exec step d inputs = some t) :
    t.owned = false ∧ t.payloads = d.payloads := by
  refine exec_invariant (I := fun x : ConnectedClient => x.owned = false ∧ x.payloads = d.payloads)
    ?_ ⟨hd, rfl⟩ h
  rintro x input y ⟨hx, hpayloads⟩ hstep
  obtain ⟨hy, hsame⟩ := step_unowned hx hstep
  exact ⟨hy, hsame.trans hpayloads⟩

theorem step_reads {input : Input} (h : Reads d bytes) (hkeep : input ≠ .dropped)
    (hstep : step d input = some t) : Reads t (bytes ++ takenIn [input]) := by
  cases input with
  | completed i result =>
    obtain ⟨op, hop, hadm, rfl⟩ := step_completed hstep
    rw [takenIn, takenIn, List.append_nil]
    exact h.completed hop hadm
  | dropped => exact absurd rfl hkeep
  | _ =>
    unfold step at hstep
    simp only [Option.ite_none_left_eq_some, Option.ite_none_right_eq_some, Option.some.injEq]
      at hstep
    obtain ⟨-, -, rfl⟩ := hstep
    rw [takenIn, takenIn, List.append_nil]
    first
    | exact h.send _
    | exact ⟨h.owned, h.single, h.reads⟩

omit [Host] in
theorem takenIn_cons {input : Input} (hkeep : input ≠ .dropped) :
    takenIn (input :: inputs) = takenIn [input] ++ takenIn inputs := by
  cases input with
  | completed i result => rw [takenIn, takenIn, takenIn, List.append_nil]
  | dropped => exact absurd rfl hkeep
  | _ => rfl

theorem exec_reads (h : Reads d bytes) (hrun : exec step d inputs = some t) :
    connectedClientFormat.HandsUp (bytes ++ takenIn inputs) t.payloads ∧
      (t.owned = true → Reads t (bytes ++ takenIn inputs)) := by
  induction inputs generalizing d bytes with
  | nil =>
    cases hrun
    rw [takenIn, List.append_nil]
    exact ⟨h.reads.handsUp, fun _ => h⟩
  | cons input inputs ih =>
    obtain ⟨r, hr, hrest⟩ := exec_cons.mp hrun
    by_cases hkeep : input = .dropped
    · subst hkeep
      unfold step at hr
      rw [Option.ite_none_left_eq_some, Option.some.injEq] at hr
      obtain ⟨-, rfl⟩ := hr
      obtain ⟨hgone, hsame⟩ := exec_unowned (d := { d with owned := false }) rfl hrest
      rw [takenIn, List.append_nil]
      refine ⟨?_, fun ht => ?_⟩
      · rw [hsame]
        exact h.reads.handsUp
      · rw [hgone] at ht
        cases ht
    · rw [takenIn_cons hkeep, ← List.append_assoc]
      exact ih (step_reads h hkeep hr) hrest

theorem reads_run (id : ℤ) (inputs : List Input)
    (h : exec step (makeInstance id) inputs = some t) :
    connectedClientFormat.HandsUp (takenIn inputs) t.payloads ∧
      (t.owned = true → ReadsOn connectedClientFormat t.pending (takenIn inputs) t.payloads) := by
  obtain ⟨hhands, hreads⟩ := exec_reads (makeInstance_reads id) h
  rw [List.nil_append] at hhands hreads
  exact ⟨hhands, fun howned => (hreads howned).reads⟩

end

end ConnectedClient

end NukeMs
