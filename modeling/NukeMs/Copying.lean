import Mathlib.Logic.Function.Basic
import NukeMs.MessageLayer

/-!
`SerializedData::operator=`: the objects of a program and the memory blocks that
they own. The copy constructor is the same assignment, to an object whose members
have no value yet.
-/

namespace NukeMs.Copying

open OutputIterator

/-- The members of a `SerializedData` object, whatever they hold; `memblock` is an address. -/
structure Object where
  memblock : ℕ
  beginIt : ℕ
  datasize : ℕ

/-- `overrun` is set by a store that does not lie in the block it is meant for. -/
structure Store where
  blocks : List (List Byte)
  objects : ℕ → Object
  overrun : Bool

namespace Store

def block (s : Store) (a : ℕ) : List Byte := (s.blocks[(s.objects a).memblock]?).getD []

def bytes (s : Store) (a : ℕ) : List Byte :=
  ((s.block a).drop (s.objects a).beginIt).take (s.objects a).datasize

def withObject (s : Store) (a : ℕ) (object : Object) : Store :=
  { s with objects := Function.update s.objects a object }

end Store

/-- `*this = other`. The new block is allocated with the size that `this` still has. -/
def assign (this other : ℕ) (s : Store) : Except Exn Store :=
  if other = this then .ok s
  else
    match makeVector (s.objects this).datasize with
    | .error e => .error e
    | .ok fresh =>
      let data := (start fresh).copy (s.bytes other)
      .ok {
        blocks := s.blocks ++ [data.block]
        objects := Function.update s.objects this ⟨s.blocks.length, 0, (s.objects other).datasize⟩
        overrun := s.overrun || data.overrun }

def construct (this other : ℕ) (uninitialised : Object) (s : Store) : Except Exn Store :=
  assign this other (s.withObject this uninitialised)

structure Holds (s : Store) (a : ℕ) (d : SerializedData) : Prop where
  memblock : s.blocks[(s.objects a).memblock]? = some d.memblock
  beginIt : (s.objects a).beginIt = d.beginIt
  datasize : (s.objects a).datasize = d.datasize

structure Copies (this other : ℕ) (d : SerializedData) (s t : Store) : Prop where
  copied : Holds t this (SerializedData.ofBlock d.bytes)
  fresh : s.blocks[(t.objects this).memblock]? = none
  inside : t.overrun = s.overrun
  source : Holds t other d
  unchanged : ∀ a, a ≠ this → t.objects a = s.objects a
  kept : ∀ (i : ℕ) (block : List Byte), s.blocks[i]? = some block → t.blocks[i]? = some block

section
variable {this other : ℕ} {d : SerializedData} {s t : Store}

theorem Holds.bytes_eq (h : Holds s other d) : s.bytes other = d.bytes := by
  rw [Store.bytes, Store.block, h.memblock, h.beginIt, h.datasize, SerializedData.bytes, Option.getD_some]

theorem Holds.kept (hb : Holds s other d) (hobject : t.objects other = s.objects other)
    (hblocks : ∀ (i : ℕ) (block : List Byte), s.blocks[i]? = some block → t.blocks[i]? = some block) :
    Holds t other d := by
  constructor
  · rw [hobject]
    exact hblocks _ _ hb.memblock
  · rw [hobject]
    exact hb.beginIt
  · rw [hobject]
    exact hb.datasize

theorem assign_eq (hne : other ≠ this) (hb : Holds s other d)
    (hmax : (s.objects this).datasize ≤ vectorMaxSize) :
    let data := (start (List.replicate (s.objects this).datasize 0)).copy d.bytes
    assign this other s = .ok {
      blocks := s.blocks ++ [data.block]
      objects := Function.update s.objects this ⟨s.blocks.length, 0, d.datasize⟩
      overrun := s.overrun || data.overrun } := by
  have hvector : makeVector (s.objects this).datasize =
      .ok (List.replicate (s.objects this).datasize 0) := if_neg (by omega)
  rw [assign, if_neg hne, hvector]
  dsimp only
  rw [hb.bytes_eq, hb.datasize]

theorem assign_ok (hne : other ≠ this) (h : assign this other s = .ok t) :
    (s.objects this).datasize ≤ vectorMaxSize := by
  rw [assign, if_neg hne, makeVector] at h
  split at h
  next e herror => cases h
  next fresh hok =>
    split at hok
    · cases hok
    · omega

theorem Copies.size_eq (hne : other ≠ this) (hb : Holds s other d) (h : assign this other s = .ok t)
    (hc : Copies this other d s t) : (s.objects this).datasize = d.datasize := by
  rw [assign_eq hne hb (assign_ok hne h)] at h
  cases h
  have hblock := hc.copied.memblock
  simp only [Function.update_self, List.getElem?_concat_length, Option.some_inj] at hblock
  have hlength := congrArg List.length hblock
  rw [copy_length] at hlength
  simpa [start, SerializedData.ofBlock] using hlength

theorem assign_copies (hne : other ≠ this) (hb : Holds s other d)
    (hmax : d.memblock.length ≤ vectorMaxSize) (hsize : (s.objects this).datasize = d.datasize) :
    ∃ t, assign this other s = .ok t ∧ Copies this other d s t := by
  have hin := d.inBlock
  have hlength : (List.replicate (s.objects this).datasize (0 : Byte)).length = d.bytes.length := by
    rw [List.length_replicate, d.bytes_length, hsize]
  have hkept : ∀ (i : ℕ) (block : List Byte), s.blocks[i]? = some block →
      (s.blocks ++ [d.bytes])[i]? = some block := by
    intro i block hi
    obtain ⟨hlt, -⟩ := List.getElem?_eq_some_iff.mp hi
    rw [List.getElem?_append_left hlt, hi]
  refine ⟨_, assign_eq hne hb (by omega), ?_⟩
  rw [copy_start _ _ hlength]
  constructor
  · constructor
    · simp [SerializedData.ofBlock]
    · simp [SerializedData.ofBlock]
    · simp [SerializedData.ofBlock]
  · simp
  · simp
  · exact hb.kept (Function.update_of_ne hne ..) hkept
  · intro a ha
    exact Function.update_of_ne ha ..
  · exact hkept

theorem assign_iff (hne : other ≠ this) (hb : Holds s other d)
    (hmax : d.memblock.length ≤ vectorMaxSize) :
    (∃ t, assign this other s = .ok t ∧ Copies this other d s t) ↔
      (s.objects this).datasize = d.datasize := by
  constructor
  · rintro ⟨t, ht, hc⟩
    exact hc.size_eq hne hb ht
  · exact assign_copies hne hb hmax

theorem copies_withObject (object : Object) :
    Copies this other d (s.withObject this object) t ↔ Copies this other d s t := by
  have hobjects : ∀ a, a ≠ this → (s.withObject this object).objects a = s.objects a :=
    fun a ha => Function.update_of_ne ha ..
  constructor
  · intro h
    exact { h with unchanged := fun a ha => (h.unchanged a ha).trans (hobjects a ha) }
  · intro h
    exact { h with unchanged := fun a ha => (h.unchanged a ha).trans (hobjects a ha).symm }

theorem copies_iff (this other : ℕ) (d : SerializedData) (s : Store) (hne : other ≠ this)
    (hb : Holds s other d) (hmax : d.memblock.length ≤ vectorMaxSize) :
    ((∃ t, assign this other s = .ok t ∧ Copies this other d s t) ↔
      (s.objects this).datasize = d.datasize) ∧
    ∀ uninitialised : Object, (∃ t, construct this other uninitialised s = .ok t ∧
      Copies this other d s t) ↔ uninitialised.datasize = d.datasize := by
  refine ⟨assign_iff hne hb hmax, ?_⟩
  intro uninitialised
  have hthis : (s.withObject this uninitialised).objects this = uninitialised :=
    Function.update_self ..
  have hb' : Holds (s.withObject this uninitialised) other d :=
    hb.kept (Function.update_of_ne hne ..) (fun _ _ h => h)
  rw [← congrArg Object.datasize hthis, ← assign_iff hne hb' hmax]
  simp only [copies_withObject, construct]

end

def twoObjects : Store :=
  ⟨[[7], [1, 2, 3]], fun a => if a = 0 then ⟨0, 0, 1⟩ else ⟨1, 1, 2⟩, false⟩

def lastTwo : SerializedData := ⟨[1, 2, 3], 1, 2, by decide⟩

theorem assign_overruns : Holds twoObjects 1 lastTwo ∧
    (∃ t, assign 0 1 twoObjects = .ok t ∧ t.overrun = true ∧ t.bytes 0 = [2]) ∧
    ¬ ∃ t, assign 0 1 twoObjects = .ok t ∧ Copies 0 1 lastTwo twoObjects t := by
  have hb : Holds twoObjects 1 lastTwo := ⟨rfl, rfl, rfl⟩
  refine ⟨hb, ⟨_, rfl, by decide, by decide⟩, ?_⟩
  rw [assign_iff (by decide) hb (by decide)]
  decide

theorem construct_copies : ∃ t, construct 0 1 ⟨5, 9, 2⟩ twoObjects = .ok t ∧
    Copies 0 1 lastTwo twoObjects t :=
  ((copies_iff 0 1 lastTwo twoObjects (by decide) ⟨rfl, rfl, rfl⟩ (by decide)).2 ⟨5, 9, 2⟩).mpr rfl

end NukeMs.Copying
