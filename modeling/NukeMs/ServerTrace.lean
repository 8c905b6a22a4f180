import NukeMs.Server

namespace NukeMs.Server

namespace Item

def touches (u : ℕ) : Item → Bool
  | .handler v | .lock v | .increment v | .decrement v _ | .action v | .readCount v | .unlock v =>
    v == u
  | _ => false

def silent : Item → Bool
  | .posted _ (.msgReceived _ _) => false
  | .handler _ | .lock _ | .increment _ | .decrement _ _ | .action _ | .readCount _ | .unlock _
  | .posted _ _ => true
  | _ => false

end Item

def writesTo (v : ℕ) (trace : List Item) : List (List Byte) :=
  trace.filterMap fun item => match item with
    | .asyncWrite u buffer => if u = v then some buffer else none
    | _ => none

def handedUp (trace : List Item) : List (ℕ × List Byte) :=
  trace.filterMap fun item => match item with
    | .posted u (.msgReceived _ parm) => some (u, parm.innerLayer.bytes)
    | _ => none

structure Listener where
  listed : Bool
  packets : List (List Byte)

def Listener.hear (v : ℕ) (l : Listener) : Item → Listener
  | .listed u => if u = v then { l with listed := true } else l
  | .erased u | .overwritten u => if u = v then { l with listed := false } else l
  | .received _ packet => if l.listed then { l with packets := l.packets ++ [packet] } else l
  | _ => l

def listener (v : ℕ) (trace : List Item) : Listener := trace.foldl (Listener.hear v) ⟨false, []⟩

def heardBy (v : ℕ) (trace : List Item) : List (List Byte) := (listener v trace).packets

structure Iteration where
  running : Bool
  erased : Bool

def Iteration.next (i : Iteration) : Item → Iteration
  | .distributeBegin => { i with running := true }
  | .distributeEnd => { i with running := false }
  | .erased _ => { i with erased := i.erased || i.running }
  | _ => i

def iteration (trace : List Item) : Iteration := trace.foldl Iteration.next ⟨false, false⟩

def ErasedThenTouched (trace : List Item) : Prop :=
  ∃ u before after item, trace = before ++ .erased u :: after ∧ item ∈ after ∧ item.touches u = true

variable {v : ℕ} {trace items : List Item}

theorem writesTo_append (v : ℕ) (trace items : List Item) :
    writesTo v (trace ++ items) = writesTo v trace ++ writesTo v items := List.filterMap_append ..

theorem handedUp_append (trace items : List Item) :
    handedUp (trace ++ items) = handedUp trace ++ handedUp items := List.filterMap_append ..

theorem listener_append (v : ℕ) (trace items : List Item) :
    listener v (trace ++ items) = items.foldl (Listener.hear v) (listener v trace) :=
  List.foldl_append ..

theorem writesTo_silent (h : items.all Item.silent = true) : writesTo v items = [] := by
  apply List.filterMap_eq_nil_iff.mpr
  intro item hi
  have hitem := List.all_eq_true.mp h item hi
  cases item <;> first | rfl | cases hitem

theorem handedUp_silent (h : items.all Item.silent = true) : handedUp items = [] := by
  apply List.filterMap_eq_nil_iff.mpr
  intro item hi
  have hitem := List.all_eq_true.mp h item hi
  cases item with
  | posted u evt => cases evt <;> first | rfl | cases hitem
  | _ => rfl

theorem hear_silent {item : Item} (h : item.silent = true) (l : Listener) : l.hear v item = l := by
  cases item <;> first | rfl | cases h

theorem foldl_hear_silent (h : items.all Item.silent = true) (l : Listener) :
    items.foldl (Listener.hear v) l = l := by
  induction items with
  | nil => rfl
  | cons item items ih =>
    rw [List.all_cons, Bool.and_eq_true] at h
    rw [List.foldl_cons, hear_silent h.1, ih h.2]

theorem listener_silent (h : items.all Item.silent = true) :
    listener v (trace ++ items) = listener v trace := by
  rw [listener_append, foldl_hear_silent h]

theorem iteration_append (trace items : List Item) :
    iteration (trace ++ items) = items.foldl Iteration.next (iteration trace) := List.foldl_append ..

theorem foldl_next_silent (h : items.all Item.silent = true) (i : Iteration) :
    items.foldl Iteration.next i = i := by
  induction items with
  | nil => rfl
  | cons item items ih =>
    rw [List.all_cons, Bool.and_eq_true] at h
    have hitem : i.next item = i := by cases item <;> first | rfl | cases h.1
    rw [List.foldl_cons, hitem, ih h.2]

theorem iteration_silent (h : items.all Item.silent = true) :
    iteration (trace ++ items) = iteration trace := by
  rw [iteration_append, foldl_next_silent h]

theorem ErasedThenTouched.append (h : ErasedThenTouched trace) (items : List Item) :
    ErasedThenTouched (trace ++ items) := by
  obtain ⟨u, before, after, item, rfl, hmem, htouch⟩ := h
  exact ⟨u, before, after ++ items, item, by simp, List.mem_append_left _ hmem, htouch⟩

end NukeMs.Server
