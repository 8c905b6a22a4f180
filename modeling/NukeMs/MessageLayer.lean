import NukeMs.ByteOrder

/-!
`msglayer.hpp`: the exceptions of the message layers, views into memory blocks,
and the segmentation layer that frames the packets on the wire.
-/

namespace NukeMs

open OutputIterator

inductive Exn
  | msgLayerError (what : String)
  | invalidHeaderError
  | undersizedPacketError
  | lengthError
  deriving DecidableEq, Repr

namespace Exn

def what : Exn → String
  | .msgLayerError what => what
  | .invalidHeaderError => "Invalid packet header"
  | .undersizedPacketError => "Packet too small"
  | .lengthError => "cannot create std::vector larger than max_size()"

/-- Whether a `catch(const MsgLayerError&)` clause takes the exception. -/
def isMsgLayerError : Exn → Bool
  | .msgLayerError _ | .invalidHeaderError | .undersizedPacketError => true
  | .lengthError => false

end Exn

def sizeSub (a b : ℕ) : ℕ := (a + 2 ^ 64 - b) % 2 ^ 64

/-- `std::vector<byte_t>::max_size()`. -/
def vectorMaxSize : ℕ := 2 ^ 63 - 1

def makeVector (n : ℕ) : Except Exn (List Byte) :=
  if vectorMaxSize < n then .error .lengthError else .ok (List.replicate n 0)

class BasicMessageLayer (α : Type) where
  size : α → ℕ
  fillSerialized : α → OutputIterator Byte → OutputIterator Byte

open BasicMessageLayer (size fillSerialized)

def serializedBuffer {α : Type} [BasicMessageLayer α] (m : α) : List Byte :=
  (fillSerialized m (start (List.replicate (size m) 0))).block

structure Serializes {α : Type} [BasicMessageLayer α] (m : α) (bs : List Byte) : Prop where
  size_eq : size m = bs.length
  fill_eq : ∀ it, fillSerialized m it = it.copy bs

theorem Serializes.buffer_eq {α : Type} [BasicMessageLayer α] {m : α} {bs : List Byte}
    (h : Serializes m bs) : serializedBuffer m = bs := by
  rw [serializedBuffer, h.fill_eq, copy_start _ _ (by rw [List.length_replicate, h.size_eq])]

structure SerializedData where
  memblock : List Byte
  beginIt : ℕ
  datasize : ℕ
  inBlock : beginIt + datasize ≤ memblock.length

namespace SerializedData

def bytes (d : SerializedData) : List Byte := (d.memblock.drop d.beginIt).take d.datasize

def ofBlock (block : List Byte) : SerializedData := ⟨block, 0, block.length, by omega⟩

instance : BasicMessageLayer SerializedData where
  size d := d.datasize
  fillSerialized d it := it.copy d.bytes

@[simp] theorem bytes_length (d : SerializedData) : d.bytes.length = d.datasize := by
  have := d.inBlock
  rw [bytes, List.length_take, List.length_drop]
  omega

@[simp] theorem bytes_ofBlock (block : List Byte) : (ofBlock block).bytes = block := by
  simp [ofBlock, bytes]

theorem serializes (d : SerializedData) : Serializes d d.bytes :=
  ⟨(bytes_length d).symm, fun _ => rfl⟩

end SerializedData

/-- A text message: `msg_string` is a string of one byte characters. -/
structure StringwrapLayer where
  messageString : List Byte
  deriving DecidableEq, Repr

namespace StringwrapLayer

section
variable [Host]

def writeString (it : OutputIterator Byte) (s : List Byte) : OutputIterator Byte :=
  s.foldl (fun it c => writebytes (n := 1) it (toNetbo (n := 1) c)) it

instance : BasicMessageLayer StringwrapLayer where
  size s := s.messageString.length
  fillSerialized s it := writeString it s.messageString

def readString (block : List Byte) : ℕ → ℕ → List Byte
  | _, 0 => []
  | it, n + 1 => toHostbo (readbytes 1 block it) :: readString block (it + 1) n

def ofSerializedData (msg : SerializedData) : Except Exn StringwrapLayer :=
  -- the alignment check of the constructor is against the character size, which is one
  if msg.datasize % 1 ≠ 0 then .error (.msgLayerError "Unaligned packet")
  else .ok ⟨readString msg.memblock msg.beginIt msg.datasize⟩

end

theorem littleEndian_one (c : Byte) : littleEndian 1 c.toNat = [c] := by
  simp [littleEndian]

theorem ofLittleEndian_one (c : Byte) : BitVec.ofNat (8 * 1) (ofLittleEndian [c]) = c := by
  simp [ofLittleEndian]

variable [Host]

theorem writeString_eq (it : OutputIterator Byte) (s : List Byte) : writeString it s = it.copy s := by
  induction s generalizing it with
  | nil => rfl
  | cons c s ih =>
    have hc : writebytes (n := 1) it (toNetbo (n := 1) c) = it.copy [c] := by
      rw [writebytes, objectBytes_toNetbo, littleEndian_one]
    have hfold : writeString it (c :: s) = writeString (writebytes (n := 1) it (toNetbo (n := 1) c)) s := rfl
    rw [hfold, ih, hc, copy_copy, List.singleton_append]

theorem serializes (s : StringwrapLayer) : Serializes s s.messageString :=
  ⟨rfl, fun it => writeString_eq it s.messageString⟩

theorem readString_eq (block : List Byte) (it n : ℕ) (h : it + n ≤ block.length) :
    readString block it n = (block.drop it).take n := by
  induction n generalizing it with
  | zero => rfl
  | succ n ih =>
    have hlt : it < block.length := by omega
    rw [readString, ih (it + 1) (by omega), toHostbo_readbytes _ _ (by omega),
      List.drop_eq_getElem_cons hlt, List.take_succ_cons, List.take_succ_cons, List.take_zero,
      ofLittleEndian_one]

theorem ofSerializedData_eq (msg : SerializedData) : ofSerializedData msg = .ok ⟨msg.bytes⟩ := by
  rw [ofSerializedData, if_neg (by omega), readString_eq _ _ _ msg.inBlock, SerializedData.bytes]

end StringwrapLayer

namespace SegmentationLayerBase

def layerId : Byte := 0x80

def headerLength : ℕ := 4

theorem headerLength_pos : 0 < headerLength := by decide

structure HeaderType where
  packetsize : Uint2b
  deriving DecidableEq

def decodeHeader [Host] (headerbuf : List Byte) : Except Exn HeaderType :=
  if headerbuf.getD 0 0 ≠ layerId then .error .invalidHeaderError
  else
    let packetsize := toHostbo (readbytes 2 headerbuf 1)
    if headerbuf.getD 3 0 ≠ 0 then .error .invalidHeaderError
    else .ok ⟨packetsize⟩

end SegmentationLayerBase

open SegmentationLayerBase

structure SegmentationLayer (InnerLayer : Type) where
  innerLayer : InnerLayer

namespace SegmentationLayer

variable {α : Type} [Host] [BasicMessageLayer α]

instance : BasicMessageLayer (SegmentationLayer α) where
  size m := size m.innerLayer + headerLength
  fillSerialized m it :=
    let it := it.put layerId
    -- the cast to two bytes drops the high bits of the size
    let packetsize : Uint2b := BitVec.ofNat 16 (size m.innerLayer + headerLength)
    let it := writebytes it (toNetbo packetsize)
    let it := it.put 0
    fillSerialized m.innerLayer it

def header (n : ℕ) : List Byte := [layerId, BitVec.ofNat 8 n, BitVec.ofNat 8 (n / 256), 0]

def packet (payload : List Byte) : List Byte := header (payload.length + headerLength) ++ payload

omit [Host] in
@[simp] theorem header_length (n : ℕ) : (header n).length = headerLength := rfl

omit [Host] in
@[simp] theorem packet_length (payload : List Byte) :
    (packet payload).length = payload.length + headerLength := by
  rw [packet, List.length_append, header_length, Nat.add_comm]

theorem fillSerialized_eq (m : α) (it : OutputIterator Byte) :
    fillSerialized (SegmentationLayer.mk m) it =
      fillSerialized m (it.copy (header (size m + headerLength))) := by
  have hsize : littleEndian 2 (BitVec.ofNat 16 (size m + headerLength)).toNat =
      [BitVec.ofNat 8 (size m + headerLength), BitVec.ofNat 8 ((size m + headerLength) / 256)] := by
    rw [BitVec.toNat_ofNat]
    simp only [littleEndian, List.cons.injEq, and_true]
    constructor <;> apply BitVec.eq_of_toNat_eq <;> simp only [BitVec.toNat_ofNat] <;> omega
  show fillSerialized m ((writebytes (it.put layerId) _).put 0) = _
  rw [writebytes, objectBytes_toNetbo, hsize]
  simp only [put_eq_copy, copy_copy, header]
  rfl

theorem serializes {m : α} {bs : List Byte} (h : Serializes m bs) :
    Serializes (SegmentationLayer.mk m) (packet bs) := by
  constructor
  · rw [packet_length]
    exact congrArg (· + headerLength) h.size_eq
  · intro it
    rw [fillSerialized_eq, h.fill_eq, h.size_eq, copy_copy, packet]

end SegmentationLayer

section
variable [Host]

theorem decodeHeader_eq (b0 b1 b2 b3 : Byte) :
    decodeHeader [b0, b1, b2, b3] =
      if b0 = layerId ∧ b3 = 0 then .ok ⟨BitVec.ofNat 16 (b1.toNat + 256 * b2.toNat)⟩
      else .error .invalidHeaderError := by
  have hsize : toHostbo (readbytes 2 [b0, b1, b2, b3] 1) =
      BitVec.ofNat 16 (b1.toNat + 256 * b2.toNat) := by
    rw [toHostbo_readbytes _ _ (by simp)]
    rfl
  unfold decodeHeader
  rw [hsize]
  by_cases h0 : b0 = layerId
  · by_cases h3 : b3 = 0 <;> simp [h0, h3]
  · simp [h0]

theorem decodeHeader_header (n : ℕ) :
    decodeHeader (SegmentationLayer.header n) = .ok ⟨BitVec.ofNat 16 n⟩ := by
  rw [SegmentationLayer.header, decodeHeader_eq, if_pos ⟨rfl, rfl⟩]
  congr 2
  apply BitVec.eq_of_toNat_eq
  simp only [BitVec.toNat_ofNat]
  omega

theorem header_of_decodeHeader {headerbuf : List Byte} {h : HeaderType}
    (hlen : headerbuf.length = headerLength) (hdec : decodeHeader headerbuf = .ok h) :
    SegmentationLayer.header h.packetsize.toNat = headerbuf := by
  obtain ⟨b0, b1, b2, b3, rfl⟩ : ∃ b0 b1 b2 b3, headerbuf = [b0, b1, b2, b3] := by
    match headerbuf, hlen with
    | [b0, b1, b2, b3], _ => exact ⟨b0, b1, b2, b3, rfl⟩
  rw [decodeHeader_eq] at hdec
  split at hdec
  next hb =>
    cases hdec
    have h1 := b1.isLt
    have h2 := b2.isLt
    rw [SegmentationLayer.header, hb.1, hb.2]
    congr 2
    · apply BitVec.eq_of_toNat_eq
      simp only [BitVec.toNat_ofNat]
      omega
    · congr 1
      apply BitVec.eq_of_toNat_eq
      simp only [BitVec.toNat_ofNat]
      omega
  next => cases hdec

end

end NukeMs
