import NukeMs.ClientNode

namespace NukeMs.Client

open SegmentationLayerBase

theorem packet_length_message (m : NearUserMessage) :
    (SegmentationLayer.packet m.bytes).length = m.stringwrap.messageString.length + 25 := by
  rw [SegmentationLayer.packet_length, NearUserMessage.bytes_length]
  simp only [NearUserMessage.headerLength, UniqueUserID.idLength, headerLength]
  omega

theorem maxPacketsize_toNat : maxPacketsize.toNat = 0x8FFF := rfl

section
variable [Host]

structure FramesItself (m : NearUserMessage) (packet : List Byte) : Prop where
  decoded : ∃ header, decodeHeader (packet.take headerLength) = .ok header ∧
    header.packetsize.toNat = packet.length ∧ headerLength ≤ header.packetsize.toNat ∧
    ¬ header.packetsize > maxPacketsize
  parsed : ∀ f ∈ [peerFormat, connectedClientFormat, clientFormat], ∀ rest,
    f.parse (packet ++ rest) = (f.parse rest).prepend m.bytes packet.length

variable (m : NearUserMessage)

theorem sendMsg_buffer :
    serializedBuffer (SegmentationLayer.mk m) = SegmentationLayer.packet m.bytes :=
  (SegmentationLayer.serializes m.serializes).buffer_eq

theorem decodeHeader_message :
    decodeHeader ((SegmentationLayer.packet m.bytes).take headerLength) =
      .ok ⟨BitVec.ofNat 16 (m.stringwrap.messageString.length + 25)⟩ := by
  have htake : (SegmentationLayer.packet m.bytes).take headerLength =
      SegmentationLayer.header (m.bytes.length + headerLength) := List.take_left' rfl
  rw [htake, decodeHeader_header, ← SegmentationLayer.packet_length, packet_length_message]

theorem framesItself_of_le (hlen : m.stringwrap.messageString.length ≤ 36838) :
    FramesItself m (SegmentationLayer.packet m.bytes) := by
  have hsize := packet_length_message m
  have hmax : m.bytes.length + headerLength ≤ 0x8FFF := by
    rw [← SegmentationLayer.packet_length, hsize]
    omega
  have hbytes : m.bytes.isEmpty = false := rfl
  have hnat : (BitVec.ofNat 16 (m.stringwrap.messageString.length + 25)).toNat =
      m.stringwrap.messageString.length + 25 := by
    rw [BitVec.toNat_ofNat]
    omega
  refine ⟨⟨_, decodeHeader_message m, ?_, ?_, ?_⟩, ?_⟩
  · rw [hnat, hsize]
  · rw [hnat]
    simp only [headerLength]
    omega
  · rw [gt_iff_lt, BitVec.lt_def, hnat, maxPacketsize_toNat]
    omega
  · intro f hf rest
    rw [SegmentationLayer.packet_length, Nat.add_comm]
    simp only [List.mem_cons, List.not_mem_nil, or_false] at hf
    rcases hf with rfl | rfl | rfl
    · exact receiverFormat_packet _ _ rest hmax rfl
    · exact receiverFormat_packet _ _ rest hmax rfl
    · exact receiverFormat_packet _ _ rest hmax hbytes

theorem le_of_framesItself (h : FramesItself m (SegmentationLayer.packet m.bytes)) :
    m.stringwrap.messageString.length ≤ 36838 := by
  obtain ⟨header, hdec, hlen, -, hmax⟩ := h.decoded
  rw [packet_length_message] at hlen
  rw [gt_iff_lt, BitVec.lt_def, hlen, maxPacketsize_toNat] at hmax
  omega

theorem reactSendMsg_frames (c : ClientNode) : ∃ packet,
    (StateConnected.reactSendMsg m c).pending = c.pending ++ [⟨c.attempt, .write packet, none⟩] ∧
      (FramesItself m packet ↔ m.stringwrap.messageString.length ≤ 36838) :=
  ⟨_, rfl, by
    rw [sendMsg_buffer]
    exact ⟨le_of_framesItself m, framesItself_of_le m⟩⟩

end

def longMessage : NearUserMessage :=
  ⟨1, UniqueUserID.userIdNone, UniqueUserID.userIdNone, ⟨List.replicate 65536 0x80⟩⟩

theorem longMessage_misframed : ¬ ∀ packet,
    (@StateConnected.reactSendMsg littleEndianHost longMessage init).pending =
        [⟨0, .write packet, none⟩] →
      @FramesItself littleEndianHost longMessage packet := by
  intro h
  have hpacket := h _ rfl
  rw [@sendMsg_buffer littleEndianHost] at hpacket
  have hle := @le_of_framesItself littleEndianHost longMessage hpacket
  have hlen : longMessage.stringwrap.messageString.length = 65536 := List.length_replicate
  omega

end NukeMs.Client
