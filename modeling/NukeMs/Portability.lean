import NukeMs.NearTypes

namespace NukeMs.Portability

open BasicMessageLayer (size fillSerialized)
open SegmentationLayerBase

section
variable (host : Host)

def fillOn (m : NearUserMessage) (it : OutputIterator Byte) : OutputIterator Byte :=
  fillSerialized m it

def writtenOn (m : NearUserMessage) : List Byte := serializedBuffer m

def readOn (data : SerializedData) : Except Exn NearUserMessage :=
  NearUserMessage.ofSerializedData data

def headerOn (m : NearUserMessage) : List Byte :=
  (serializedBuffer (SegmentationLayer.mk m)).take headerLength

def payloadHeaderOn (payload : SerializedData) : List Byte :=
  (serializedBuffer (SegmentationLayer.mk payload)).take headerLength

def readHeaderOn (headerbuf : List Byte) : Except Exn HeaderType :=
  decodeHeader headerbuf

theorem writtenOn_eq (m : NearUserMessage) : writtenOn host m = m.bytes :=
  m.serializes.buffer_eq

theorem take_header {α : Type} [BasicMessageLayer α] {inner : α} {bs : List Byte}
    (h : Serializes inner bs) :
    (serializedBuffer (SegmentationLayer.mk inner)).take headerLength =
      SegmentationLayer.header (size inner + headerLength) := by
  rw [(SegmentationLayer.serializes h).buffer_eq, SegmentationLayer.packet, h.size_eq]
  exact List.take_left' (SegmentationLayer.header_length _)

theorem headerOn_eq (m : NearUserMessage) :
    headerOn host m = SegmentationLayer.header (size m + headerLength) :=
  take_header host m.serializes

theorem payloadHeaderOn_eq (payload : SerializedData) :
    payloadHeaderOn host payload = SegmentationLayer.header (payload.datasize + headerLength) :=
  take_header host payload.serializes

theorem readHeaderOn_header {n : ℕ} (hn : n < 2 ^ 16) :
    ∃ h : HeaderType, readHeaderOn host (SegmentationLayer.header n) = .ok h ∧
      h.packetsize.toNat = n := by
  refine ⟨_, decodeHeader_header n, ?_⟩
  rw [BitVec.toNat_ofNat]
  exact Nat.mod_eq_of_lt hn

end

structure Portable (h₁ h₂ : Host) : Prop where
  same_fill : ∀ m it, fillOn h₁ m it = fillOn h₂ m it
  same_bytes : ∀ m, writtenOn h₁ m = writtenOn h₂ m
  read_back : ∀ m data, data.bytes = writtenOn h₁ m → readOn h₂ data = .ok m
  header_back : ∀ m : NearUserMessage, size m + headerLength < 2 ^ 16 →
    ∃ h : HeaderType, readHeaderOn h₂ (headerOn h₁ m) = .ok h ∧
      h.packetsize.toNat = size m + headerLength
  payload_header_back : ∀ payload : SerializedData, payload.datasize + headerLength < 2 ^ 16 →
    ∃ h : HeaderType, readHeaderOn h₂ (payloadHeaderOn h₁ payload) = .ok h ∧
      h.packetsize.toNat = payload.datasize + headerLength

theorem portable (h₁ h₂ : Host) : Portable h₁ h₂ := by
  constructor
  · intro m it
    have hfill (host : Host) : fillOn host m it = it.copy m.bytes := m.serializes.fill_eq it
    rw [hfill h₁, hfill h₂]
  · intro m
    rw [writtenOn_eq h₁, writtenOn_eq h₂]
  · intro m data hdata
    rw [writtenOn_eq h₁] at hdata
    exact @NearUserMessage.ofSerializedData_bytes h₂ m data hdata
  · intro m hsize
    rw [headerOn_eq h₁]
    exact readHeaderOn_header h₂ hsize
  · intro payload hsize
    rw [payloadHeaderOn_eq h₁]
    exact readHeaderOn_header h₂ hsize

end NukeMs.Portability
