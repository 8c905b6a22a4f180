import Mathlib.Data.List.Basic
import NukeMs.FramedStream
import NukeMs.SenderFraming

namespace NukeMs

open SegmentationLayerBase FramedStream

theorem SegmentationLayer.announces_length (n : ℕ) :
    (SegmentationLayer.header (n + headerLength)).length = headerLength :=
  SegmentationLayer.header_length (n + headerLength)

theorem SegmentationLayer.announces_inj (m n : ℕ) (hm : m ≤ 0xFFFF - headerLength)
    (hn : n ≤ 0xFFFF - headerLength)
    (h : SegmentationLayer.header (m + headerLength) = SegmentationLayer.header (n + headerLength)) :
    m = n := by
  have hannounced := congrArg (@announced littleEndianHost) h
  simp only [headerLength] at hm hn hannounced
  rw [@announced_header littleEndianHost _ (by omega),
    @announced_header littleEndianHost _ (by omega)] at hannounced
  exact Nat.add_right_cancel (Option.some.inj hannounced)

/-- What the packet size of two bytes can announce. -/
def sizeLayout : Layout Byte where
  headerLength := headerLength
  headerLength_pos := headerLength_pos
  header n := SegmentationLayer.header (n + headerLength)
  header_length := SegmentationLayer.announces_length
  longest := 0xFFFF - headerLength
  header_inj := SegmentationLayer.announces_inj

theorem NearUserMessage.bytes_injective : Function.Injective NearUserMessage.bytes := by
  intro m n h
  have hm := @NearUserMessage.ofSerializedData_bytes littleEndianHost m
    (SerializedData.ofBlock m.bytes) (SerializedData.bytes_ofBlock _)
  have hn := @NearUserMessage.ofSerializedData_bytes littleEndianHost n
    (SerializedData.ofBlock m.bytes) ((SerializedData.bytes_ofBlock _).trans h)
  exact Except.ok.inj (hm.symm.trans hn)

section
variable (host : Host)

def wireOn (ms : List NearUserMessage) : List Byte :=
  ms.flatMap fun m => serializedBuffer (SegmentationLayer.mk m)

theorem wireOn_eq (ms : List NearUserMessage) :
    wireOn host ms = sizeLayout.stream (ms.map NearUserMessage.bytes) := by
  induction ms with
  | nil => rfl
  | cons m ms ih =>
    have hcons : wireOn host (m :: ms) = serializedBuffer (SegmentationLayer.mk m) ++ wireOn host ms := by
      rw [wireOn, List.flatMap_cons, wireOn]
    rw [hcons, ih, Client.sendMsg_buffer, List.map_cons, Layout.stream_cons, ← List.append_assoc]
    rfl

end

theorem fits_bytes {ms : List NearUserMessage}
    (h : ∀ m ∈ ms, m.bytes.length + headerLength < 2 ^ 16) :
    ∀ body ∈ ms.map NearUserMessage.bytes, body.length ≤ sizeLayout.longest := by
  intro body hbody
  obtain ⟨m, hm, rfl⟩ := List.mem_map.mp hbody
  have hsize := h m hm
  simp only [sizeLayout, headerLength] at hsize ⊢
  omega

theorem prefix_of_map {α β : Type} {f : α → β} (hf : Function.Injective f) {xs ys : List α}
    (h : xs.map f <+: ys.map f) : xs <+: ys := by
  obtain ⟨zs, hzs, hmap⟩ := List.prefix_map_iff.mp h
  rwa [List.map_injective_iff.mpr hf hmap]

theorem wireOn_prefix_iff (here there : Host) (ms ns : List NearUserMessage)
    (hms : ∀ m ∈ ms, m.bytes.length + headerLength < 2 ^ 16)
    (hns : ∀ n ∈ ns, n.bytes.length + headerLength < 2 ^ 16) :
    wireOn here ms <+: wireOn there ns ↔ ms <+: ns := by
  rw [wireOn_eq, wireOn_eq, sizeLayout.stream_prefix_iff _ _ (fits_bytes hms) (fits_bytes hns)]
  constructor
  · exact prefix_of_map NearUserMessage.bytes_injective
  · intro h
    exact h.map NearUserMessage.bytes

def shortMessage : NearUserMessage :=
  ⟨5, UniqueUserID.userIdNone, UniqueUserID.userIdNone, ⟨[0x68, 0x69]⟩⟩

theorem wireOn_prefix_iff_short :
    wireOn ⟨true⟩ [shortMessage] <+: wireOn ⟨false⟩ [shortMessage, shortMessage] :=
  (wireOn_prefix_iff ⟨true⟩ ⟨false⟩ [shortMessage] [shortMessage, shortMessage] (by decide)
    (by decide)).mpr (by decide)

end NukeMs
