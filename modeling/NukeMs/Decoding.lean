import NukeMs.NearTypes
import NukeMs.Reading

namespace NukeMs

open BasicMessageLayer (size fillSerialized)

def memory (block : List Byte) (i : ℕ) : Byte := block.getD i 0

section
variable [Host]

def fetchWord (n it : ℕ) : Reading Byte (Word n) := do
  let bs ← Reading.fetchRange it n
  pure (ofObjectBytes n bs)

def UniqueUserID.fetch (it : ℕ) : Reading Byte UniqueUserID := do
  let id ← fetchWord 8 it
  pure ⟨toHostbo id⟩

def StringwrapLayer.fetchString : ℕ → ℕ → Reading Byte (List Byte)
  | _, 0 => pure []
  | it, n + 1 => do
    let c ← fetchWord 1 it
    let cs ← fetchString (it + 1) n
    pure (toHostbo c :: cs)

def NearUserMessage.fetch (beginIt datasize : ℕ) : Reading Byte (Except Exn NearUserMessage) :=
  if datasize < headerLength then pure (.error .undersizedPacketError)
  else do
    let it := beginIt
    let first ← Reading.fetch it
    if first ≠ layerId then pure (.error .invalidHeaderError)
    else do
      let it := it + 1
      let msgId ← fetchWord 4 it
      let it := it + 4
      let recipient ← UniqueUserID.fetch it
      let it := it + UniqueUserID.idLength
      let sender ← UniqueUserID.fetch it
      let it := it + UniqueUserID.idLength
      let messageString ← StringwrapLayer.fetchString it (datasize - headerLength)
      pure (.ok ⟨toHostbo msgId, recipient, sender, ⟨messageString⟩⟩)

theorem run_fetchWord (n : ℕ) (block : List Byte) (it : ℕ) (h : it + n ≤ block.length) :
    (fetchWord n it).run (memory block) = readbytes n block it := by
  have hmap : (List.range' it n).map (memory block) = (block.drop it).take n :=
    map_getD_range' 0 block it n h
  simp [fetchWord, readbytes, hmap]

theorem UniqueUserID.run_fetch (block : List Byte) (it : ℕ) (h : it + 8 ≤ block.length) :
    (UniqueUserID.fetch it).run (memory block) = ofBuffer block it := by
  simp [UniqueUserID.fetch, ofBuffer, run_fetchWord 8 block it h]

theorem StringwrapLayer.run_fetchString (block : List Byte) (it n : ℕ) (h : it + n ≤ block.length) :
    (fetchString it n).run (memory block) = readString block it n := by
  induction n generalizing it with
  | zero => rfl
  | succ n ih =>
    have hrest := ih (it + 1) (by omega)
    simp [fetchString, readString, run_fetchWord 1 block it (by omega), hrest]

theorem within_fetchWord {lo hi n it : ℕ} (hlo : lo ≤ it) (hhi : it + n ≤ hi) :
    (fetchWord n it).Within lo hi :=
  (Reading.Within.fetchRange hlo hhi).bind (fun _ => .pure _)

theorem UniqueUserID.within_fetch {lo hi it : ℕ} (hlo : lo ≤ it) (hhi : it + 8 ≤ hi) :
    (UniqueUserID.fetch it).Within lo hi :=
  (within_fetchWord hlo hhi).bind (fun _ => .pure _)

theorem StringwrapLayer.within_fetchString {lo hi it n : ℕ} (hlo : lo ≤ it) (hhi : it + n ≤ hi) :
    (fetchString it n).Within lo hi := by
  induction n generalizing it with
  | zero => exact .pure _
  | succ n ih =>
    apply (within_fetchWord hlo (by omega)).bind
    intro c
    apply (ih (by omega) (by omega)).bind
    intro cs
    exact .pure _

namespace NearUserMessage

theorem within_fetch (beginIt datasize : ℕ) :
    (NearUserMessage.fetch beginIt datasize).Within beginIt (beginIt + datasize) := by
  unfold NearUserMessage.fetch
  split
  · exact .pure _
  next hsize =>
    simp only [headerLength, UniqueUserID.idLength] at hsize ⊢
    apply (Reading.Within.fetch (by omega) (by omega)).bind
    intro first
    split
    · exact .pure _
    · apply (within_fetchWord (by omega) (by omega)).bind
      intro msgId
      apply (UniqueUserID.within_fetch (by omega) (by omega)).bind
      intro recipient
      apply (UniqueUserID.within_fetch (by omega) (by omega)).bind
      intro sender
      apply (StringwrapLayer.within_fetchString (by omega) (by omega)).bind
      intro messageString
      exact .pure _

theorem run_fetch (data : SerializedData) :
    (NearUserMessage.fetch data.beginIt data.datasize).run (memory data.memblock) =
      ofSerializedData data := by
  have hin := data.inBlock
  unfold NearUserMessage.fetch ofSerializedData
  by_cases hsize : data.datasize < headerLength
  · rw [if_pos hsize, dif_pos hsize]
    rfl
  · rw [if_neg hsize, dif_neg hsize, Reading.run_bind, Reading.run_fetch]
    simp only [headerLength, UniqueUserID.idLength] at hsize ⊢
    by_cases hfirst : data.memblock.getD data.beginIt 0 ≠ layerId
    · rw [if_pos (by exact hfirst), if_pos hfirst]
      rfl
    · rw [if_neg (by exact hfirst), if_neg hfirst]
      simp only [Reading.run_bind, Reading.run_pure]
      rw [run_fetchWord _ _ _ (by omega), UniqueUserID.run_fetch _ _ (by omega),
        UniqueUserID.run_fetch _ _ (by omega), StringwrapLayer.run_fetchString _ _ _ (by omega)]
      simp only [StringwrapLayer.ofSerializedData, Nat.mod_one, ne_eq, not_true, if_false]

theorem ofSerializedData_undersized (data : SerializedData) :
    ofSerializedData data = .error .undersizedPacketError ↔ data.datasize < headerLength := by
  rw [ofSerializedData_eq, data.bytes_length]
  by_cases hsize : data.datasize < headerLength
  · simp [hsize]
  · by_cases hfirst : data.bytes.head? = some layerId <;> simp [hsize, hfirst]

theorem ofSerializedData_invalidHeader (data : SerializedData) :
    ofSerializedData data = .error .invalidHeaderError ↔
      headerLength ≤ data.datasize ∧ data.bytes.head? ≠ some layerId := by
  rw [ofSerializedData_eq, data.bytes_length, ← Nat.not_lt]
  by_cases hsize : data.datasize < headerLength
  · simp [hsize]
  · by_cases hfirst : data.bytes.head? = some layerId <;> simp [hsize, hfirst]

theorem ofSerializedData_ok {data : SerializedData} {m : NearUserMessage}
    (h : ofSerializedData data = .ok m) : m.bytes = data.bytes := by
  rw [ofSerializedData_eq] at h
  split at h
  · cases h
  next hsize =>
    split at h
    · cases h
    next hfirst =>
      cases h
      exact bytes_ofBytes (Nat.le_of_not_lt hsize) (not_not.mp hfirst)

theorem ofSerializedData_accepts (data : SerializedData) (hsize : headerLength ≤ data.datasize)
    (hfirst : data.bytes.head? = some layerId) : ∃ m, ofSerializedData data = .ok m := by
  refine ⟨ofBytes data.bytes, ?_⟩
  rw [ofSerializedData_eq, data.bytes_length, if_neg (by omega), if_neg (not_not.mpr hfirst)]

structure DecodesExactly (data : SerializedData) : Prop where
  undersized : ofSerializedData data = .error .undersizedPacketError ↔ data.datasize < 21
  invalidHeader : ofSerializedData data = .error .invalidHeaderError ↔
    21 ≤ data.datasize ∧ data.bytes.head? ≠ some 0x41
  accepted : 21 ≤ data.datasize → data.bytes.head? = some 0x41 →
    ∃ m, ofSerializedData data = .ok m ∧ Serializes m data.bytes
  distinct : ∀ (other : SerializedData) (m : NearUserMessage), ofSerializedData data = .ok m →
    ofSerializedData other = .ok m → other.bytes = data.bytes
  fetched : (NearUserMessage.fetch data.beginIt data.datasize).run (memory data.memblock) =
    ofSerializedData data
  reads : ∀ i ∈ (NearUserMessage.fetch data.beginIt data.datasize).reads (memory data.memblock),
    data.beginIt ≤ i ∧ i < data.beginIt + data.datasize
  window : ∀ other : SerializedData, other.bytes = data.bytes →
    ofSerializedData other = ofSerializedData data

theorem decodesExactly (data : SerializedData) : DecodesExactly data where
  undersized := ofSerializedData_undersized data
  invalidHeader := ofSerializedData_invalidHeader data
  accepted hsize hfirst := by
    obtain ⟨m, hm⟩ := ofSerializedData_accepts data hsize hfirst
    exact ⟨m, hm, ofSerializedData_ok hm ▸ m.serializes⟩
  distinct other m h hother := (ofSerializedData_ok hother).symm.trans (ofSerializedData_ok h)
  fetched := run_fetch data
  reads := within_fetch data.beginIt data.datasize (memory data.memblock)
  window other h := by rw [ofSerializedData_eq, ofSerializedData_eq, h]

end NearUserMessage

end

end NukeMs
