import NukeMs.MessageLayer

/-!
`neartypes.hpp`: the user messages that the clients exchange.
-/

namespace NukeMs

open OutputIterator

structure UniqueUserID where
  id : Uint8b
  deriving DecidableEq, Repr

namespace UniqueUserID

def idLength : ℕ := 8

def userIdNone : UniqueUserID := ⟨0⟩

section
variable [Host]

def ofBuffer (block : List Byte) (it : ℕ) : UniqueUserID := ⟨toHostbo (readbytes 8 block it)⟩

def fillSerialized (u : UniqueUserID) (buffer : OutputIterator Byte) : OutputIterator Byte :=
  writebytes buffer (toNetbo u.id)

end

end UniqueUserID

structure NearUserMessage where
  msgId : Uint4b
  recipient : UniqueUserID
  sender : UniqueUserID
  stringwrap : StringwrapLayer
  deriving DecidableEq, Repr

namespace NearUserMessage

def layerId : Byte := 0x41

def headerLength : ℕ := 1 + 4 + UniqueUserID.idLength + UniqueUserID.idLength

section
variable [Host]

instance : BasicMessageLayer NearUserMessage where
  size m := headerLength + BasicMessageLayer.size m.stringwrap
  fillSerialized m it :=
    let it := it.put layerId
    let it := writebytes it (toNetbo m.msgId)
    let it := m.recipient.fillSerialized it
    let it := m.sender.fillSerialized it
    BasicMessageLayer.fillSerialized m.stringwrap it

def ofSerializedData (data : SerializedData) : Except Exn NearUserMessage :=
  if h : data.datasize < headerLength then .error .undersizedPacketError
  else if data.memblock.getD data.beginIt 0 ≠ layerId then .error .invalidHeaderError
  else
    let it := data.beginIt + 1
    let msgId := toHostbo (readbytes 4 data.memblock it)
    let it := it + 4
    let recipient := UniqueUserID.ofBuffer data.memblock it
    let it := it + UniqueUserID.idLength
    let sender := UniqueUserID.ofBuffer data.memblock it
    let rest : SerializedData := ⟨data.memblock, it + UniqueUserID.idLength,
      data.datasize - headerLength, by
        have := data.inBlock
        simp only [headerLength, UniqueUserID.idLength, it] at *
        omega⟩
    match StringwrapLayer.ofSerializedData rest with
    | .error e => .error e
    | .ok stringwrap => .ok ⟨msgId, recipient, sender, stringwrap⟩

end

def bytes (m : NearUserMessage) : List Byte :=
  layerId :: (littleEndian 4 m.msgId.toNat ++ (littleEndian 8 m.recipient.id.toNat ++
    (littleEndian 8 m.sender.id.toNat ++ m.stringwrap.messageString)))

@[simp] theorem bytes_length (m : NearUserMessage) :
    m.bytes.length = headerLength + m.stringwrap.messageString.length := by
  simp only [bytes, headerLength, UniqueUserID.idLength, List.length_cons, List.length_append,
    littleEndian_length]
  omega

theorem ofNat_ofLittleEndian_littleEndian {n : ℕ} (x : Word n) :
    BitVec.ofNat (8 * n) (ofLittleEndian (littleEndian n x.toNat)) = x := by
  have hx := x.isLt
  rw [ofLittleEndian_littleEndian, Nat.mod_eq_of_lt hx, BitVec.ofNat_toNat, BitVec.setWidth_eq]

theorem drop_msgId (m : NearUserMessage) : m.bytes.drop 1 = littleEndian 4 m.msgId.toNat ++
    (littleEndian 8 m.recipient.id.toNat ++
      (littleEndian 8 m.sender.id.toNat ++ m.stringwrap.messageString)) := rfl

theorem drop_recipient (m : NearUserMessage) :
    m.bytes.drop 5 = littleEndian 8 m.recipient.id.toNat ++
      (littleEndian 8 m.sender.id.toNat ++ m.stringwrap.messageString) := by
  rw [← List.drop_drop (i := 4) (j := 1), drop_msgId, List.drop_left' (littleEndian_length _ _)]

theorem drop_sender (m : NearUserMessage) :
    m.bytes.drop 13 = littleEndian 8 m.sender.id.toNat ++ m.stringwrap.messageString := by
  rw [← List.drop_drop (i := 8) (j := 5), drop_recipient, List.drop_left' (littleEndian_length _ _)]

theorem drop_text (m : NearUserMessage) : m.bytes.drop 21 = m.stringwrap.messageString := by
  rw [← List.drop_drop (i := 8) (j := 13), drop_sender, List.drop_left' (littleEndian_length _ _)]

theorem littleEndian_ofNat {n : ℕ} (bs : List Byte) (h : bs.length = n) :
    littleEndian n (BitVec.ofNat (8 * n) (ofLittleEndian bs)).toNat = bs := by
  subst h
  rw [BitVec.toNat_ofNat, Nat.mod_eq_of_lt (ofLittleEndian_lt bs), littleEndian_ofLittleEndian]

def ofBytes (bs : List Byte) : NearUserMessage :=
  ⟨BitVec.ofNat (8 * 4) (ofLittleEndian ((bs.drop 1).take 4)),
    ⟨BitVec.ofNat (8 * 8) (ofLittleEndian ((bs.drop 5).take 8))⟩,
    ⟨BitVec.ofNat (8 * 8) (ofLittleEndian ((bs.drop 13).take 8))⟩, ⟨bs.drop 21⟩⟩

theorem ofBytes_bytes (m : NearUserMessage) : ofBytes m.bytes = m := by
  unfold ofBytes
  rw [drop_msgId, drop_recipient, drop_sender, drop_text, List.take_left' (littleEndian_length _ _),
    List.take_left' (littleEndian_length _ _), List.take_left' (littleEndian_length _ _),
    ofNat_ofLittleEndian_littleEndian, ofNat_ofLittleEndian_littleEndian,
    ofNat_ofLittleEndian_littleEndian]

theorem bytes_ofBytes {bs : List Byte} (hsize : headerLength ≤ bs.length)
    (hfirst : bs.head? = some layerId) : (ofBytes bs).bytes = bs := by
  simp only [headerLength, UniqueUserID.idLength] at hsize
  have htext : (bs.drop 13).take 8 ++ bs.drop 21 = bs.drop 13 := by
    rw [← List.drop_drop (i := 8) (j := 13), List.take_append_drop]
  have hsender : (bs.drop 5).take 8 ++ bs.drop 13 = bs.drop 5 := by
    rw [← List.drop_drop (i := 8) (j := 5), List.take_append_drop]
  have hrecipient : (bs.drop 1).take 4 ++ bs.drop 5 = bs.drop 1 := by
    rw [← List.drop_drop (i := 4) (j := 1), List.take_append_drop]
  unfold bytes ofBytes
  rw [littleEndian_ofNat _ (by rw [List.length_take, List.length_drop]; omega),
    littleEndian_ofNat _ (by rw [List.length_take, List.length_drop]; omega),
    littleEndian_ofNat _ (by rw [List.length_take, List.length_drop]; omega), htext, hsender,
    hrecipient]
  cases bs with
  | nil => cases hfirst
  | cons b bs => rw [List.head?_cons, Option.some_inj] at hfirst; rw [hfirst]; rfl

theorem head?_view (data : SerializedData) (h : 0 < data.datasize) :
    data.bytes.head? = some (data.memblock.getD data.beginIt 0) := by
  have hin := data.inBlock
  have hlt : data.beginIt < data.memblock.length := by omega
  rw [List.head?_eq_getElem?, SerializedData.bytes, List.getElem?_take_of_lt h, List.getElem?_drop,
    Nat.add_zero, List.getD_eq_getElem?_getD, List.getElem?_eq_getElem hlt, Option.getD_some]

variable [Host]

theorem serializes (m : NearUserMessage) : Serializes m m.bytes := by
  constructor
  · rw [bytes_length]
    rfl
  · intro it
    change StringwrapLayer.writeString (writebytes (writebytes (writebytes (it.put layerId)
      (toNetbo m.msgId)) (toNetbo m.recipient.id)) (toNetbo m.sender.id))
        m.stringwrap.messageString = _
    simp only [writebytes, objectBytes_toNetbo, StringwrapLayer.writeString_eq, put_eq_copy,
      copy_copy, bytes, List.append_assoc, List.cons_append, List.nil_append]

theorem readbytes_view (data : SerializedData) (n i : ℕ) (h : i + n ≤ data.datasize) :
    toHostbo (readbytes n data.memblock (data.beginIt + i)) =
      BitVec.ofNat (8 * n) (ofLittleEndian ((data.bytes.drop i).take n)) := by
  have hin := data.inBlock
  have hbytes : (data.bytes.drop i).take n = (data.memblock.drop (data.beginIt + i)).take n := by
    rw [SerializedData.bytes, List.drop_take, List.take_take, List.drop_drop,
      Nat.min_eq_left (by omega)]
  rw [toHostbo_readbytes _ _ (by omega), hbytes]

theorem ofSerializedData_eq (data : SerializedData) : ofSerializedData data =
    if data.bytes.length < headerLength then .error .undersizedPacketError
    else if data.bytes.head? ≠ some layerId then .error .invalidHeaderError
    else .ok (ofBytes data.bytes) := by
  have hin := data.inBlock
  rw [SerializedData.bytes_length]
  unfold ofSerializedData
  by_cases hsize : data.datasize < headerLength
  · rw [dif_pos hsize, if_pos hsize]
  · rw [dif_neg hsize, if_neg hsize]
    have hheader : 21 ≤ data.datasize := Nat.le_of_not_lt hsize
    rw [head?_view data (by omega)]
    by_cases hfirst : data.memblock.getD data.beginIt 0 = layerId
    · rw [if_neg (not_not.mpr hfirst), if_neg (not_not.mpr (congrArg some hfirst))]
      have hid := readbytes_view data 4 1 (by omega)
      have hto := readbytes_view data 8 5 (by omega)
      have hfrom := readbytes_view data 8 13 (by omega)
      have htext : (data.memblock.drop (data.beginIt + 21)).take (data.datasize - headerLength) =
          data.bytes.drop 21 := by
        rw [SerializedData.bytes, List.drop_take, List.drop_drop]
        rfl
      simp only [StringwrapLayer.ofSerializedData_eq, SerializedData.bytes, UniqueUserID.ofBuffer,
        UniqueUserID.idLength, Nat.add_assoc, Nat.reduceAdd, hid, hto, hfrom, htext]
      rfl
    · rw [if_pos hfirst, if_pos (fun h => hfirst (Option.some_inj.mp h))]

theorem ofSerializedData_bytes (m : NearUserMessage) (data : SerializedData)
    (h : data.bytes = m.bytes) : ofSerializedData data = .ok m := by
  have hsize : ¬ m.bytes.length < headerLength := by rw [bytes_length]; omega
  have hfirst : m.bytes.head? = some layerId := rfl
  rw [ofSerializedData_eq, h, if_neg hsize, if_neg (not_not.mpr hfirst), ofBytes_bytes]

end NearUserMessage

end NukeMs
