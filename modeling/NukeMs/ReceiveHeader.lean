import NukeMs.Framing
import NukeMs.MessageLayer

namespace NukeMs

open SegmentationLayerBase Framing

def maxPacketsize : Uint2b := 0x8FFF

theorem makeVector_sizeSub {packetsize : ℕ} (h : packetsize ≤ 0x8FFF) :
    makeVector (sizeSub packetsize headerLength) =
      if packetsize < headerLength then .error .lengthError
      else .ok (List.replicate (packetsize - headerLength) 0) := by
  -- the unsigned difference wraps below the header length, and the vector is then too large
  by_cases hlt : packetsize < headerLength
  · have hsub : sizeSub packetsize headerLength = packetsize + 2 ^ 64 - headerLength := by
      apply Nat.mod_eq_of_lt
      simp only [headerLength] at *
      omega
    rw [if_pos hlt, makeVector, if_pos]
    rw [hsub]
    simp only [vectorMaxSize, headerLength]
    omega
  · have hsub : sizeSub packetsize headerLength = packetsize - headerLength := by
      simp only [sizeSub, headerLength] at *
      omega
    rw [if_neg hlt, makeVector, hsub, if_neg]
    simp only [vectorMaxSize]
    omega

section
variable [Host]

/-- Decode a header and allocate the buffer for the body, whose size is an unsigned difference. -/
def admitHeader (oversized : Exn) (headerbuf : List Byte) : Except Exn (List Byte) :=
  match decodeHeader headerbuf with
  | .error e => .error e
  | .ok header =>
    if header.packetsize > maxPacketsize then .error oversized
    else makeVector (sizeSub header.packetsize.toNat headerLength)

def announced (headerbuf : List Byte) : Option ℕ :=
  match decodeHeader headerbuf with
  | .error _ => none
  | .ok header => some header.packetsize.toNat

def isRunt (headerbuf : List Byte) : Bool :=
  match announced headerbuf with
  | none => false
  | some packetsize => packetsize < headerLength

theorem decodeHeader_error {headerbuf : List Byte} {e : Exn} (h : decodeHeader headerbuf = .error e) :
    e = .invalidHeaderError := by
  unfold decodeHeader at h
  split at h
  · cases h; rfl
  · dsimp only at h
    split at h <;> cases h
    rfl

theorem admitHeader_eq (oversized : Exn) (headerbuf : List Byte) :
    admitHeader oversized headerbuf = match announced headerbuf with
      | none => .error .invalidHeaderError
      | some packetsize =>
        if 0x8FFF < packetsize then .error oversized
        else if packetsize < headerLength then .error .lengthError
        else .ok (List.replicate (packetsize - headerLength) 0) := by
  unfold admitHeader announced
  cases hdec : decodeHeader headerbuf with
  | error e => rw [decodeHeader_error hdec]
  | ok header =>
    have hmax : header.packetsize > maxPacketsize ↔ 0x8FFF < header.packetsize.toNat := BitVec.lt_def
    dsimp only
    by_cases h : 0x8FFF < header.packetsize.toNat
    · rw [if_pos h, if_pos (hmax.mpr h)]
    · rw [if_neg h, if_neg (mt hmax.mp h), makeVector_sizeSub (by omega)]

theorem admitHeader_runt (oversized : Exn) {headerbuf : List Byte} (h : isRunt headerbuf = true) :
    admitHeader oversized headerbuf = .error .lengthError := by
  unfold isRunt at h
  rw [admitHeader_eq]
  cases ha : announced headerbuf with
  | none => rw [ha] at h; cases h
  | some packetsize =>
    rw [ha] at h
    have hlt : packetsize < headerLength := by simpa using h
    have hle : ¬ 0x8FFF < packetsize := by simp only [headerLength] at hlt; omega
    dsimp only
    rw [if_neg hle, if_pos hlt]

theorem admitHeader_error {oversized : Exn} {headerbuf : List Byte} {e : Exn}
    (hrunt : isRunt headerbuf = false) (h : admitHeader oversized headerbuf = .error e) :
    e = .invalidHeaderError ∨ e = oversized := by
  rw [admitHeader_eq] at h
  unfold isRunt at hrunt
  cases ha : announced headerbuf with
  | none => rw [ha] at h; cases h; exact .inl rfl
  | some packetsize =>
    rw [ha] at h hrunt
    have hlt : ¬ packetsize < headerLength := by simpa using hrunt
    dsimp only at h
    split at h
    · cases h; exact .inr rfl
    · cases h

theorem header_of_admitHeader {oversized : Exn} {headerbuf body : List Byte}
    (hlen : headerbuf.length = headerLength) (h : admitHeader oversized headerbuf = .ok body) :
    SegmentationLayer.header (body.length + headerLength) = headerbuf ∧
      body.length + headerLength ≤ 0x8FFF := by
  rw [admitHeader_eq] at h
  unfold announced at h
  cases hdec : decodeHeader headerbuf with
  | error e => rw [hdec] at h; cases h
  | ok header =>
    rw [hdec] at h
    dsimp only at h
    split at h
    · cases h
    · split at h
      · cases h
      · cases h
        rw [List.length_replicate, Nat.sub_add_cancel (by omega)]
        exact ⟨header_of_decodeHeader hlen hdec, by omega⟩

theorem announced_header {n : ℕ} (h : n < 65536) :
    announced (SegmentationLayer.header n) = some n := by
  unfold announced
  rw [decodeHeader_header]
  simp only [BitVec.toNat_ofNat, Nat.mod_eq_of_lt h]

theorem admitHeader_header (oversized : Exn) {n : ℕ} (h : n + headerLength ≤ 0x8FFF) :
    admitHeader oversized (SegmentationLayer.header (n + headerLength)) = .ok (List.replicate n 0) := by
  have hlt : ¬ n + headerLength < headerLength := by omega
  rw [admitHeader_eq, announced_header (by omega)]
  dsimp only
  rw [if_neg (by omega), if_neg hlt, Nat.add_sub_cancel]

/-- The format that a receive loop follows: `caught` are the exceptions its handler catches, and
`faulty` the bodies it breaks on. -/
def receiverFormat (oversized : Exn) (caught : Exn → Bool) (faulty : List Byte → Bool) :
    Format Byte where
  headerLength := headerLength
  headerLength_pos := headerLength_pos
  verdict headerbuf :=
    match admitHeader oversized headerbuf with
    | .ok body => .body body.length
    | .error e => if caught e then .reject else .fault
  faulty := faulty

def peerFormat : Format Byte :=
  receiverFormat .invalidHeaderError (fun e => e = .invalidHeaderError) (fun _ => false)

def connectedClientFormat : Format Byte :=
  receiverFormat (.msgLayerError "Oversized packet.") Exn.isMsgLayerError (fun _ => false)

def clientFormat : Format Byte :=
  receiverFormat (.msgLayerError "Oversized packet.") (fun _ => true) List.isEmpty

theorem receiverFormat_packet (oversized : Exn) (caught : Exn → Bool) {faulty : List Byte → Bool}
    {payload : List Byte} (rest : List Byte) (hmax : payload.length + headerLength ≤ 0x8FFF)
    (hf : faulty payload = false) :
    (receiverFormat oversized caught faulty).parse (SegmentationLayer.packet payload ++ rest) =
      ((receiverFormat oversized caught faulty).parse rest).prepend payload
        (headerLength + payload.length) := by
  refine Format.parse_append _ rest (SegmentationLayer.header_length _) ?_ hf
  simp only [receiverFormat, admitHeader_header oversized hmax, List.length_replicate]

end

end NukeMs
