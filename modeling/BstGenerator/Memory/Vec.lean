import Mathlib.Data.List.Perm.Basic

/-!
# Pointers into a growing array

An array that grows moves its elements to a buffer with more room, and every pointer to
them is worth nothing from then on. A pointer is the buffer and an index, so one into a
buffer that was left is told from one into the array, and so is one to a place where no
element is any more.
-/

namespace BstGenerator.Memory

universe u

/-- The elements of the array, the room in its buffer, and which buffer that is. -/
structure Vec (α : Type u) where
  items : List α
  capacity : Nat
  buffer : Nat
  deriving DecidableEq, Repr

namespace Vec

/-- A pointer to an element. -/
structure Ptr where
  buffer : Nat
  index : Nat
  deriving DecidableEq, Repr

variable {α : Type u}

/-- An array that has no buffer yet. -/
def empty : Vec α := ⟨[], 0, 0⟩

def size (v : Vec α) : Nat := v.items.length

/-- The address of element `i`. -/
def ptr (v : Vec α) (i : Nat) : Ptr := ⟨v.buffer, i⟩

/-- The address of the first element, if there is one. -/
def front (v : Vec α) : Ptr := v.ptr 0

/-- The address of the last element; of an array without elements it is that of the first
place. -/
def back (v : Vec α) : Ptr := v.ptr (v.size - 1)

/-- The element a pointer is to. -/
def get? (v : Vec α) (p : Ptr) : Option α :=
  if p.buffer = v.buffer then v.items[p.index]? else none

/-- Write through a pointer. -/
def set (p : Ptr) (a : α) (v : Vec α) : Vec α := { v with items := v.items.set p.index a }

/-- Exchange what two pointers are to. -/
def swap (p q : Ptr) (v : Vec α) : Vec α :=
  match v.get? p, v.get? q with
  | some a, some b => (v.set p b).set q a
  | _, _ => v

/-- Make room for `n` elements. -/
def reserve (n : Nat) (v : Vec α) : Vec α :=
  if v.capacity < n then ⟨v.items, n, v.buffer + 1⟩ else v

/-- Put an element at the end. Without room for it the elements are moved to a larger buffer. -/
def pushBack (a : α) (v : Vec α) : Vec α :=
  if v.size < v.capacity then
    { v with items := v.items ++ [a] }
  else
    ⟨v.items ++ [a], max 1 (2 * v.size), v.buffer + 1⟩

/-- Take the last element away. The buffer stays, so pointers to the others hold. -/
def popBack (v : Vec α) : Vec α := { v with items := v.items.dropLast }

/-- Move the elements to a buffer with room for them and no more. -/
def shrink (v : Vec α) : Vec α := ⟨v.items, v.size, v.buffer + 1⟩

/-- A pointer that is to an element; a null pointer, if there is none to point to. -/
def Holds (v : Vec α) : Option Ptr → Prop
  | none => v.items = []
  | some p => p.buffer = v.buffer ∧ p.index < v.size

variable {v : Vec α} {p q : Ptr} {a b : α} {i : Nat} {o : Option Ptr}

@[simp] theorem get?_ptr : v.get? (v.ptr i) = v.items[i]? := if_pos rfl

/-- A pointer that holds can be used. -/
theorem get?_of_holds (h : v.Holds (some p)) : v.get? p = some (v.items.get ⟨p.index, h.2⟩) := by
  rw [get?, if_pos h.1]
  exact List.getElem?_eq_getElem h.2

/-- A pointer that can be used holds. -/
theorem holds_of_get? (h : v.get? p = some a) : v.Holds (some p) := by
  unfold get? at h
  split at h
  · exact ⟨by assumption, (List.getElem?_eq_some_iff.mp h).1⟩
  · cases h

/-- The pointers that hold are the addresses of the elements. -/
theorem holds_iff : v.Holds (some p) ↔ ∃ i, i < v.size ∧ p = v.ptr i := by
  constructor
  · rintro ⟨hbuffer, hindex⟩
    exact ⟨p.index, hindex, by rw [ptr, ← hbuffer]⟩
  · rintro ⟨i, hi, rfl⟩
    exact ⟨rfl, hi⟩

/-- Different elements have different addresses. -/
@[simp] theorem ptr_inj {i j : Nat} : v.ptr i = v.ptr j ↔ i = j := by
  simp [ptr]

@[simp] theorem ptr_buffer : (v.ptr i).buffer = v.buffer := rfl

@[simp] theorem ptr_index : (v.ptr i).index = i := rfl

theorem mk_buffer : (⟨v.buffer, i⟩ : Ptr) = v.ptr i := rfl

/-- What is read through a pointer is an element. -/
theorem mem_of_get? (h : v.get? p = some a) : a ∈ v.items := by
  unfold get? at h
  split at h
  · exact List.mem_of_getElem? h
  · cases h

/-- Every element has an address to read it from. -/
theorem exists_get?_of_mem (h : a ∈ v.items) : ∃ i, i < v.size ∧ v.get? (v.ptr i) = some a := by
  obtain ⟨i, hi, rfl⟩ := List.mem_iff_getElem.mp h
  exact ⟨i, hi, by rw [get?_ptr, List.getElem?_eq_getElem hi]⟩

theorem exists_get?_of_holds (h : v.Holds (some p)) : ∃ a, v.get? p = some a :=
  ⟨_, get?_of_holds h⟩

/-- To hold is to be of use: there is an element to read. -/
theorem holds_iff_get? : v.Holds (some p) ↔ ∃ a, v.get? p = some a :=
  ⟨exists_get?_of_holds, fun ⟨_, h⟩ => holds_of_get? h⟩

/-- Where there are elements there is a first one. -/
theorem holds_front (h : v.items ≠ []) : v.Holds (some v.front) :=
  ⟨rfl, List.length_pos_of_ne_nil h⟩

/-- Where there are elements there is a last one. -/
theorem holds_back (h : v.items ≠ []) : v.Holds (some v.back) :=
  ⟨rfl, Nat.sub_lt (List.length_pos_of_ne_nil h) Nat.one_pos⟩

theorem length_pos_of_holds (h : v.Holds (some p)) : 0 < v.size :=
  Nat.lt_of_le_of_lt (Nat.zero_le _) h.2

/-- Of an array without elements only the null pointer holds, and it holds of any such array. -/
theorem holds_of_eq_nil {w : Vec α} (h : v.Holds o) (hv : v.items = []) (hw : w.items = []) :
    w.Holds o := by
  cases o with
  | none => exact hw
  | some p =>
    have hlt := h.2
    rw [size, hv] at hlt
    exact absurd hlt (Nat.not_lt_zero _)

/-- What holds of an array with elements is no null pointer. -/
theorem exists_of_holds (h : v.Holds o) (hne : v.items ≠ []) :
    ∃ p, o = some p ∧ v.Holds (some p) := by
  cases o with
  | none => exact absurd h hne
  | some p => exact ⟨p, rfl, h⟩

/-! ## Writing -/

@[simp] theorem set_size : (v.set p a).size = v.size := List.length_set

@[simp] theorem set_buffer : (v.set p a).buffer = v.buffer := rfl

@[simp] theorem set_capacity : (v.set p a).capacity = v.capacity := rfl

/-- A write moves nothing, so the same pointers hold. -/
@[simp] theorem set_holds : (v.set p a).Holds o ↔ v.Holds o := by
  cases o with
  | none => exact List.set_eq_nil_iff ..
  | some q => simp [Holds, set, size]

@[simp] theorem set_back : (v.set p a).back = v.back := by
  rw [back, set_size]
  rfl

/-- A write is seen through its own pointer, and through no other. -/
theorem get?_set (h : v.Holds (some p)) :
    (v.set p b).get? q = if q = p then some b else v.get? q := by
  obtain ⟨hbuffer, hindex⟩ := h
  by_cases hq : q = p
  · subst hq
    rw [if_pos rfl, get?, set_buffer, if_pos hbuffer]
    exact List.getElem?_set_self hindex
  · rw [if_neg hq, get?, set_buffer, get?]
    by_cases hb : q.buffer = v.buffer
    · have hne : p.index ≠ q.index := fun heq => hq (by
        have hp : p = v.ptr p.index := by rw [ptr, ← hbuffer]
        rw [hp, heq, ptr, ← hb])
      rw [if_pos hb, if_pos hb]
      exact List.getElem?_set_ne hne
    · rw [if_neg hb, if_neg hb]

/-- A write takes the place of one element. -/
theorem set_perm (h : v.get? p = some a) (b : α) :
    ∃ rest, v.items.Perm (a :: rest) ∧ (v.set p b).items.Perm (b :: rest) := by
  have hp := holds_of_get? h
  rw [get?_of_holds hp] at h
  refine ⟨v.items.eraseIdx p.index, ?_, ?_⟩
  · rw [← Option.some.inj h]
    exact (List.getElem_cons_eraseIdx_perm hp.2).symm
  · exact List.set_perm_cons_eraseIdx hp.2 b

/-! ## Exchanging -/

/-- An exchange is two writes of what was read before. -/
theorem swap_eq (hp : v.get? p = some a) (hq : v.get? q = some b) :
    v.swap p q = (v.set p b).set q a := by
  rw [swap, hp, hq]

/-- Through either pointer the other's element is read, also if the two are one. -/
theorem get?_swap {r : Ptr} (hp : v.get? p = some a) (hq : v.get? q = some b) :
    (v.swap p q).get? r = if r = q then some a else if r = p then some b else v.get? r := by
  rw [swap_eq hp hq, get?_set (set_holds.mpr (holds_of_get? hq)), get?_set (holds_of_get? hp)]

/-- An exchange only changes the order of the elements. -/
theorem swap_perm (hp : v.get? p = some a) (hq : v.get? q = some b) (hne : q ≠ p) :
    (v.swap p q).items.Perm v.items := by
  obtain ⟨rest, hold, hnew⟩ := set_perm hp b
  have hq' : (v.set p b).get? q = some b := by
    rw [get?_set (holds_of_get? hp), if_neg hne, hq]
  obtain ⟨rest', hold', hnew'⟩ := set_perm hq' a
  rw [swap_eq hp hq]
  have hrest : (b :: rest).Perm (b :: rest') := hnew.symm.trans hold'
  exact hnew'.trans (((List.perm_cons b).mp hrest).symm.cons a |>.trans hold.symm)

@[simp] theorem swap_size : (v.swap p q).size = v.size := by
  unfold swap
  split
  · rw [set_size, set_size]
  · rfl

@[simp] theorem swap_buffer : (v.swap p q).buffer = v.buffer := by
  unfold swap
  split <;> rfl

@[simp] theorem swap_capacity : (v.swap p q).capacity = v.capacity := by
  unfold swap
  split <;> rfl

/-- An exchange moves nothing to another buffer, so the same pointers hold. -/
@[simp] theorem swap_holds : (v.swap p q).Holds o ↔ v.Holds o := by
  unfold swap
  split
  · rw [set_holds, set_holds]
  · rfl

@[simp] theorem swap_back : (v.swap p q).back = v.back := by
  rw [back, ptr, swap_size, swap_buffer, back, ptr]

/-! ## The end of the array -/

theorem popBack_size : v.popBack.size = v.size - 1 := List.length_dropLast

/-- Only a pointer to the last element is of no use any more. -/
theorem get?_popBack (h : v.items ≠ []) :
    v.popBack.get? p = if p = v.back then none else v.get? p := by
  have hpos : 0 < v.size := List.length_pos_of_ne_nil h
  unfold get?
  by_cases hb : p.buffer = v.buffer
  · have hiff : p = v.back ↔ p.index = v.size - 1 := by
      cases p
      simp_all [back, ptr]
    have hpop : v.popBack.items[p.index]? =
        if p.index < v.size - 1 then v.items[p.index]? else none := List.getElem?_dropLast
    rw [if_pos (show p.buffer = v.popBack.buffer from hb), if_pos hb, hpop]
    by_cases hlast : p = v.back
    · rw [if_pos hlast, if_neg (by rw [hiff.mp hlast]; exact Nat.lt_irrefl _)]
    · rw [if_neg hlast]
      by_cases hlt : p.index < v.size - 1
      · rw [if_pos hlt]
      · have hne : p.index ≠ v.size - 1 := fun heq => hlast (hiff.mpr heq)
        have hge : v.items.length ≤ p.index := by
          have : v.size = v.items.length := rfl
          omega
        rw [if_neg hlt, List.getElem?_eq_none hge]
  · rw [if_neg (show ¬ p.buffer = v.popBack.buffer from hb), if_neg hb, ite_self]

/-- The other elements are those that are left. -/
theorem popBack_perm (h : v.get? v.back = some a) : v.items.Perm (a :: v.popBack.items) := by
  rw [back, get?_ptr, size, ← List.getLast?_eq_getElem?] at h
  obtain ⟨l, hl⟩ := List.getLast?_eq_some_iff.mp h
  have hpop : v.popBack.items = l := by rw [popBack, hl, List.dropLast_concat]
  rw [hpop, hl]
  exact List.perm_append_singleton a l

/-- With room to spare the buffer stays. -/
theorem pushBack_eq (h : v.size < v.capacity) (a : α) :
    v.pushBack a = { v with items := v.items ++ [a] } := if_pos h

/-- The new element is the last one. -/
theorem get?_back_pushBack (h : v.size < v.capacity) :
    (v.pushBack a).get? (v.pushBack a).back = some a := by
  rw [back, get?_ptr, pushBack_eq h]
  simp [size]

theorem pushBack_ne_nil (h : v.size < v.capacity) : (v.pushBack a).items ≠ [] := by
  rw [pushBack_eq h]
  exact List.append_ne_nil_of_right_ne_nil _ (List.cons_ne_nil a [])

/-- The elements before the last are those there were. -/
theorem mem_of_get?_pushBack (h : v.size < v.capacity) (hne : p ≠ (v.pushBack a).back)
    (hp : (v.pushBack a).get? p = some b) : b ∈ v.items := by
  obtain ⟨i, hi, rfl⟩ := holds_iff.mp (holds_of_get? hp)
  rw [get?_ptr] at hp
  rw [pushBack_eq h] at hi hp hne
  have hlen : ({ v with items := v.items ++ [a] } : Vec α).size = v.items.length + 1 := by
    simp [size]
  have hlt : i < v.items.length := by
    rw [hlen] at hi
    have : i ≠ v.items.length := fun heq => hne (by rw [back, hlen, heq]; rfl)
    omega
  rw [List.getElem?_append_left hlt] at hp
  exact List.mem_of_getElem? hp

/-- With too little room there is a new buffer, and no pointer to the old one holds. -/
theorem reserve_of_lt {n : Nat} (h : v.capacity < n) :
    v.reserve n = ⟨v.items, n, v.buffer + 1⟩ := if_pos h

end Vec

end BstGenerator.Memory
