import Mathlib.Tactic.Common

/-!
An output iterator over a block of memory: storing through it advances it, and
a store at or past the end of the block leaves the block alone and is recorded.
-/

namespace NukeMs

structure OutputIterator (α : Type) where
  block : List α
  pos : ℕ
  overrun : Bool

namespace OutputIterator

variable {α : Type}

def start (block : List α) : OutputIterator α := ⟨block, 0, false⟩

def put (it : OutputIterator α) (b : α) : OutputIterator α :=
  ⟨it.block.set it.pos b, it.pos + 1, it.overrun || decide (it.block.length ≤ it.pos)⟩

def copy (it : OutputIterator α) (bs : List α) : OutputIterator α := bs.foldl put it

@[simp] theorem copy_nil (it : OutputIterator α) : it.copy [] = it := rfl

@[simp] theorem put_eq_copy (it : OutputIterator α) (b : α) : it.put b = it.copy [b] := rfl

@[simp] theorem copy_copy (it : OutputIterator α) (bs cs : List α) :
    (it.copy bs).copy cs = it.copy (bs ++ cs) := by
  simp [copy]

@[simp] theorem copy_pos (it : OutputIterator α) (bs : List α) :
    (it.copy bs).pos = it.pos + bs.length := by
  induction bs generalizing it with
  | nil => rfl
  | cons b bs ih =>
    have h : it.copy (b :: bs) = (it.put b).copy bs := rfl
    rw [h, ih, List.length_cons]
    simp only [put]
    omega

@[simp] theorem copy_length (it : OutputIterator α) (bs : List α) :
    (it.copy bs).block.length = it.block.length := by
  induction bs generalizing it with
  | nil => rfl
  | cons b bs ih =>
    have h : it.copy (b :: bs) = (it.put b).copy bs := rfl
    rw [h, ih]
    exact List.length_set

theorem set_eq_splice (xs : List α) (n : ℕ) (b : α) (hn : n < xs.length) :
    xs.set n b = xs.take n ++ b :: xs.drop (n + 1) := by
  rw [List.set_eq_take_append_cons_drop, if_pos hn]

theorem copy_eq (it : OutputIterator α) (bs : List α) (h : it.pos + bs.length ≤ it.block.length) :
    it.copy bs = ⟨it.block.take it.pos ++ bs ++ it.block.drop (it.pos + bs.length),
      it.pos + bs.length, it.overrun⟩ := by
  induction bs generalizing it with
  | nil => simp
  | cons b bs ih =>
    rw [List.length_cons] at h
    have hlt : it.pos < it.block.length := by omega
    have hcopy : it.copy (b :: bs) = (it.put b).copy bs := rfl
    have hlen : (it.put b).block.length = it.block.length := by simp [put]
    rw [hcopy, ih (it.put b) (by rw [hlen]; simp only [put]; omega)]
    have htake : (it.put b).block.take (it.pos + 1) = it.block.take it.pos ++ [b] := by
      simp only [put, set_eq_splice _ _ _ hlt]
      rw [List.take_append, List.length_take, Nat.min_eq_left (Nat.le_of_lt hlt), List.take_take]
      simp
    have hdrop : (it.put b).block.drop (it.pos + 1 + bs.length) =
        it.block.drop (it.pos + (bs.length + 1)) := by
      simp only [put]
      rw [List.drop_set_of_lt (by omega), Nat.add_right_comm, Nat.add_assoc]
    have hover : (it.put b).overrun = it.overrun := by
      simp only [put]
      rw [decide_eq_false (by omega), Bool.or_false]
    have hpos : (it.put b).pos = it.pos + 1 := rfl
    rw [hpos, htake, hdrop, hover, List.length_cons, List.append_assoc, List.append_assoc,
      List.append_assoc, List.singleton_append, List.cons_append, Nat.add_right_comm, Nat.add_assoc]

theorem copy_start (block bs : List α) (h : block.length = bs.length) :
    (start block).copy bs = ⟨bs, bs.length, false⟩ := by
  rw [copy_eq _ _ (by simp [start, h])]
  simp [start, ← h]

end OutputIterator

end NukeMs
