import NukeMs.ByteOrder

namespace NukeMs

section
variable [Host] {n : ℕ}

/-- The specializations for the signed types call the one for the unsigned type. -/
def reversebytesSigned (n : ℕ) (x : ℤ) : ℤ := (reversebytes (BitVec.ofInt (8 * n) x)).toInt

theorem objectBytes_length (x : Word n) : (objectBytes x).length = n := by
  unfold objectBytes
  split
  · rw [List.length_reverse, littleEndian_length]
  · exact littleEndian_length n x.toNat

theorem ofObjectBytes_objectBytes (x : Word n) : ofObjectBytes n (objectBytes x) = x := by
  have hvalue : BitVec.ofNat (8 * n) (ofLittleEndian (littleEndian n x.toNat)) = x := by
    apply BitVec.eq_of_toNat_eq
    rw [ofLittleEndian_littleEndian, BitVec.toNat_ofNat, Nat.mod_mod, Nat.mod_eq_of_lt x.isLt]
  unfold ofObjectBytes objectBytes
  split
  · rw [List.reverse_reverse, hvalue]
  · exact hvalue

theorem objectBytes_of_length {bs : List Byte} (h : bs.length = n) :
    objectBytes (ofObjectBytes n bs) = bs := by
  subst h
  exact objectBytes_ofObjectBytes bs

theorem reversebytes_generic (x : Word n) :
    reversebytes x = ofObjectBytes n (objectBytes x).reverse := by
  rw [reversebytes_eq, ofObjectBytes_reverse]

theorem objectBytes_reversebytes (x : Word n) :
    objectBytes (reversebytes x) = (objectBytes x).reverse := by
  rw [reversebytes_generic]
  apply objectBytes_of_length
  rw [List.length_reverse, objectBytes_length]

theorem reversebytes_reversebytes (x : Word n) : reversebytes (reversebytes x) = x := by
  rw [reversebytes_generic, objectBytes_reversebytes, List.reverse_reverse, ofObjectBytes_objectBytes]

theorem toHostbo_toNetbo (x : Word n) : toHostbo (toNetbo x) = x := by
  unfold toHostbo toNetbo
  split
  · exact reversebytes_reversebytes x
  · rfl

theorem writebytes_block (it : OutputIterator Byte) (x : Word n) (h : it.pos + n ≤ it.block.length) :
    writebytes it x = ⟨it.block.take it.pos ++ objectBytes x ++ it.block.drop (it.pos + n), it.pos + n,
      it.overrun⟩ := by
  have hfits : it.pos + (objectBytes x).length ≤ it.block.length := by rwa [objectBytes_length]
  rw [writebytes, OutputIterator.copy_eq it _ hfits, objectBytes_length]

theorem readbytes_writebytes (it : OutputIterator Byte) (x : Word n) (h : it.pos + n ≤ it.block.length) :
    readbytes n (writebytes it x).block it.pos = x := by
  have hfront : (it.block.take it.pos).length = it.pos := List.length_take_of_le (by omega)
  rw [writebytes_block it x h, readbytes, List.append_assoc, List.drop_left' hfront,
    List.take_left' (objectBytes_length x), ofObjectBytes_objectBytes]

theorem reversebytesSigned_reversebytesSigned (x : ℤ) :
    reversebytesSigned n (reversebytesSigned n x) = (BitVec.ofInt (8 * n) x).toInt := by
  rw [reversebytesSigned, reversebytesSigned, BitVec.ofInt_toInt, reversebytes_reversebytes]

end

structure ByteOrderLaws (host : Host) (n : ℕ) : Prop where
  generic : ∀ x : Word n, reversebytes x = ofObjectBytes n (objectBytes x).reverse
  reversed : ∀ x : Word n, objectBytes (reversebytes x) = (objectBytes x).reverse
  involutive : ∀ x : Word n, reversebytes (reversebytes x) = x
  signed_bits : ∀ x : ℤ, objectBytes (BitVec.ofInt (8 * n) (reversebytesSigned n x)) =
    objectBytes (reversebytes (BitVec.ofInt (8 * n) x))
  signed : 0 < n → ∀ x : ℤ, -2 ^ (8 * n - 1) ≤ x → x < 2 ^ (8 * n - 1) →
    reversebytesSigned n (reversebytesSigned n x) = x
  network : ∀ x : Word n, objectBytes (toNetbo x) = littleEndian n x.toNat
  there_and_back : ∀ x : Word n, toHostbo (toNetbo x) = x
  back_and_there : ∀ x : Word n, toNetbo (toHostbo x) = x
  stored : ∀ (it : OutputIterator Byte) (x : Word n), it.pos + n ≤ it.block.length →
    readbytes n (writebytes it x).block it.pos = x ∧
      (writebytes it x).block.length = it.block.length ∧ (writebytes it x).pos = it.pos + n ∧
      ∀ i, i < it.pos ∨ it.pos + n ≤ i → (writebytes it x).block[i]? = it.block[i]?

theorem byteOrderLaws (host : Host) (n : ℕ) : ByteOrderLaws host n where
  generic := reversebytes_generic
  reversed := objectBytes_reversebytes
  involutive := reversebytes_reversebytes
  signed_bits x := by rw [reversebytesSigned, BitVec.ofInt_toInt]
  signed hn x hlow hhigh := by
    rw [reversebytesSigned_reversebytesSigned]
    exact BitVec.toInt_ofInt_eq_self (by omega) hlow hhigh
  network := objectBytes_toNetbo
  there_and_back := toHostbo_toNetbo
  back_and_there := toHostbo_toNetbo
  stored it x h := by
    refine ⟨readbytes_writebytes it x h, OutputIterator.copy_length it _, ?_, ?_⟩
    · rw [writebytes_block it x h]
    · intro i hi
      have hfront : (it.block.take it.pos).length = it.pos := List.length_take_of_le (by omega)
      have hmiddle := objectBytes_length x
      rw [writebytes_block it x h, List.append_assoc]
      rcases hi with hbefore | hafter
      · rw [List.getElem?_append_left (by omega), List.getElem?_take_of_lt hbefore]
      · rw [List.getElem?_append_right (by omega), List.getElem?_append_right (by omega),
          List.getElem?_drop]
        congr 1
        omega

end NukeMs
