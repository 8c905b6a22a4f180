import NukeMs.ClientNode
import NukeMs.ConnectedClient
import NukeMs.Server

namespace NukeMs

open OutputIterator SegmentationLayerBase
open BasicMessageLayer (size fillSerialized)

section
variable {α : Type} [BasicMessageLayer α]

/-- Through an iterator with room for it, the layer stores the same `size m` bytes, whatever was
there before, touches no other byte and leaves the iterator behind the last one. -/
def FillsExactly (m : α) : Prop :=
  ∃ bs : List Byte, bs.length = size m ∧
    ∀ it : OutputIterator Byte, it.pos + size m ≤ it.block.length → fillSerialized m it =
      ⟨it.block.take it.pos ++ bs ++ it.block.drop (it.pos + size m), it.pos + size m, it.overrun⟩

structure Fills (m : α) (buffer : List Byte) : Prop where
  length_eq : buffer.length = size m
  fill_eq : ∀ fresh : List Byte, fresh.length = size m →
    fillSerialized m (start fresh) = ⟨buffer, buffer.length, false⟩

theorem Serializes.fillsExactly {m : α} {bs : List Byte} (h : Serializes m bs) : FillsExactly m := by
  refine ⟨bs, h.size_eq.symm, ?_⟩
  intro it hroom
  rw [h.size_eq] at hroom ⊢
  rw [h.fill_eq, copy_eq it bs hroom]

theorem FillsExactly.segmentation [Host] {m : α} (h : FillsExactly m) :
    FillsExactly (SegmentationLayer.mk m) := by
  obtain ⟨bs, hlen, hfill⟩ := h
  have hsize : size (SegmentationLayer.mk m) = headerLength + size m := Nat.add_comm ..
  refine ⟨SegmentationLayer.header (size m + headerLength) ++ bs, ?_, ?_⟩
  · rw [List.length_append, SegmentationLayer.header_length, hlen, hsize]
  · intro it hroom
    rw [hsize] at hroom ⊢
    have hheader := SegmentationLayer.header_length (size m + headerLength)
    have hcopy := copy_eq it (SegmentationLayer.header (size m + headerLength)) (by rw [hheader]; omega)
    rw [hheader] at hcopy
    have htake : (it.block.take it.pos ++
        SegmentationLayer.header (size m + headerLength)).length = it.pos + headerLength := by
      rw [List.length_append, List.length_take, hheader]
      omega
    rw [SegmentationLayer.fillSerialized_eq, hcopy, hfill]
    · rw [List.take_left' htake, ← Nat.add_assoc, ← List.append_assoc]
      congr 2
      rw [← htake, List.drop_append, List.drop_drop]
      simp
    · simp only [List.length_append, htake, List.length_drop]
      omega

theorem FillsExactly.fills {m : α} (h : FillsExactly m) : Fills m (serializedBuffer m) := by
  obtain ⟨bs, hlen, hfill⟩ := h
  have hfresh : ∀ fresh : List Byte, fresh.length = size m →
      fillSerialized m (start fresh) = ⟨bs, bs.length, false⟩ := by
    intro fresh hlength
    rw [hfill (start fresh) (by simp [start, hlength])]
    simp [start, ← hlength, hlen]
  have hbuffer : serializedBuffer m = bs := by
    rw [serializedBuffer, hfresh _ (List.length_replicate ..)]
  rw [hbuffer]
  exact ⟨hlen, hfresh⟩

end

/-- What every layer and every sender keeps. The buffer of a sender is the one that it passes to
`async_write`. -/
structure SizesExact [Host] [HandlerCopies] : Prop where
  nearUserMessage : ∀ m : NearUserMessage, FillsExactly m
  stringwrapLayer : ∀ m : StringwrapLayer, FillsExactly m
  serializedData : ∀ m : SerializedData, FillsExactly m
  segmentedMessage : ∀ m : SegmentationLayer NearUserMessage, FillsExactly m
  segmentedString : ∀ m : SegmentationLayer StringwrapLayer, FillsExactly m
  segmentedData : ∀ m : SegmentationLayer SerializedData, FillsExactly m
  segmented : ∀ (α : Type) [BasicMessageLayer α] (m : SegmentationLayer α),
    FillsExactly m.innerLayer → FillsExactly m
  reactSendMsg : ∀ (data : NearUserMessage) (c : ClientNode), ∃ buffer,
    Fills (SegmentationLayer.mk data) buffer ∧
      Client.StateConnected.reactSendMsg data c = Client.start c.attempt (.write buffer) c
  sendMessage : ∀ (msg : SegmentationLayer SerializedData) (u : ℕ) (s : DispatchingServer), ∃ buffer,
    Fills msg buffer ∧ Server.sendMessage msg u s =
      Server.startOperation u (.write buffer) (Server.log [.asyncWrite u buffer] s)
  sendPacket : ∀ (α : Type) [BasicMessageLayer α] (packet : SegmentationLayer α) (d : ConnectedClient),
    FillsExactly packet.innerLayer → ∃ buffer,
      Fills packet buffer ∧ ConnectedClient.sendPacket packet d = ConnectedClient.asyncWrite buffer d

theorem sizesExact [Host] [HandlerCopies] : SizesExact where
  nearUserMessage m := m.serializes.fillsExactly
  stringwrapLayer m := m.serializes.fillsExactly
  serializedData m := m.serializes.fillsExactly
  segmentedMessage m := m.innerLayer.serializes.fillsExactly.segmentation
  segmentedString m := m.innerLayer.serializes.fillsExactly.segmentation
  segmentedData m := m.innerLayer.serializes.fillsExactly.segmentation
  segmented _ _ _ h := h.segmentation
  reactSendMsg data _ := ⟨_, data.serializes.fillsExactly.segmentation.fills, rfl⟩
  sendMessage msg _ _ := ⟨_, msg.innerLayer.serializes.fillsExactly.segmentation.fills, rfl⟩
  sendPacket _ _ _ _ h := ⟨_, h.segmentation.fills, rfl⟩

end NukeMs
