import Mathlib.Data.List.Pairwise
import Mathlib.Data.List.Perm.Basic

/-!
# Byte memory

An address space of bytes, some extents of which are allocated. Where `malloc` finds
room is not its caller's to say, so the address it gives is a parameter: an answer that
is no address, or is not free, is the null pointer. So every address a real `malloc` can
give is among the answers, and no answer makes two extents overlap.

- `Bytes`: the bytes and the allocated extents, which are apart from each other.
- `Bytes.read`, `Bytes.write`: access to a byte of an allocated extent.
- `Bytes.poke`: a store by whoever the byte belongs to.
-/

namespace BstGenerator.Memory

/-- `size` bytes from `base` on. -/
structure Extent where
  base : Nat
  size : Nat
  deriving DecidableEq, Repr

namespace Extent

def Contains (e : Extent) (a : Nat) : Prop := e.base ≤ a ∧ a < e.base + e.size

instance (e : Extent) (a : Nat) : Decidable (e.Contains a) :=
  inferInstanceAs (Decidable (_ ∧ _))

/-- One ends before the other begins. -/
def Apart (e f : Extent) : Prop := e.base + e.size ≤ f.base ∨ f.base + f.size ≤ e.base

instance (e f : Extent) : Decidable (e.Apart f) := inferInstanceAs (Decidable (_ ∨ _))

theorem Apart.symm {e f : Extent} (h : e.Apart f) : f.Apart e := Or.symm h

instance : Std.Symm Apart where
  symm _ _ h := h.symm

/-- No address is in both of two extents that are apart. -/
theorem Apart.not_contains {e f : Extent} {a : Nat} (h : e.Apart f) (he : e.Contains a) :
    ¬ f.Contains a := by
  rintro ⟨hle, hlt⟩
  rcases h with h | h
  · exact absurd (Nat.lt_of_lt_of_le he.2 (Nat.le_trans h hle)) (Nat.lt_irrefl a)
  · exact absurd (Nat.lt_of_lt_of_le hlt (Nat.le_trans h he.1)) (Nat.lt_irrefl a)

/-- Extents that have no address in common are apart. -/
theorem Apart.of_not_contains {e f : Extent} (he : 0 < e.size) (hf : 0 < f.size)
    (h : ∀ a, e.Contains a → ¬ f.Contains a) : e.Apart f := by
  by_contra hnot
  simp only [Apart, not_or, Nat.not_le] at hnot
  rcases Nat.le_total e.base f.base with hle | hle
  · exact h f.base ⟨hle, hnot.1⟩ ⟨Nat.le_refl _, Nat.lt_add_of_pos_right hf⟩
  · exact h e.base ⟨Nat.le_refl _, Nat.lt_add_of_pos_right he⟩ ⟨hle, hnot.2⟩

/-- An extent that is not empty begins with one of its addresses. -/
theorem contains_base {e : Extent} (h : 0 < e.size) : e.Contains e.base :=
  ⟨Nat.le_refl _, Nat.lt_add_of_pos_right h⟩

/-- Extents that are apart begin at different addresses. -/
theorem Apart.base_ne {e f : Extent} (h : e.Apart f) (he : 0 < e.size) (hf : 0 < f.size) :
    e.base ≠ f.base := by
  intro heq
  exact h.not_contains (contains_base he) (heq ▸ contains_base hf)

end Extent

/-- The bytes, and what of them is allocated. -/
structure Bytes where
  byte : Nat → UInt8
  extents : List Extent
  valid : ∀ e ∈ extents, e.base ≠ 0 ∧ 0 < e.size
  apart : extents.Pairwise Extent.Apart

namespace Bytes

variable {m : Bytes} {a b : Nat} {v : UInt8} {size : Nat} {e f : Extent}

/-- Nothing is allocated. -/
def empty : Bytes where
  byte _ := 0
  extents := []
  valid _ h := absurd h List.not_mem_nil
  apart := List.Pairwise.nil

/-- `malloc` may give the extent. -/
def Fresh (m : Bytes) (e : Extent) : Prop :=
  e.base ≠ 0 ∧ 0 < e.size ∧ ∀ f ∈ m.extents, e.Apart f

instance (m : Bytes) (e : Extent) : Decidable (m.Fresh e) :=
  inferInstanceAs (Decidable (_ ∧ _ ∧ _))

/-- `malloc(size)`, which finds room at `answer`. -/
def malloc (size : Nat) (answer : Option Nat) (m : Bytes) : Option (Nat × Bytes) :=
  match answer with
  | none => none
  | some a =>
    if h : m.Fresh ⟨a, size⟩ then
      some (a, {
        byte := m.byte
        extents := ⟨a, size⟩ :: m.extents
        valid := List.forall_mem_cons.mpr ⟨⟨h.1, h.2.1⟩, m.valid⟩
        apart := List.pairwise_cons.mpr ⟨h.2.2, m.apart⟩ })
    else
      none

/-- `free(a)`; `none` if `a` is not what `malloc` gave. -/
def free (a : Nat) (m : Bytes) : Option Bytes :=
  if ∃ e ∈ m.extents, e.base = a then
    some {
      byte := m.byte
      extents := m.extents.filter fun e => e.base ≠ a
      valid := fun e he => m.valid e (List.mem_of_mem_filter he)
      apart := m.apart.filter _ }
  else
    none

/-- The byte is of an allocated extent. -/
def Mapped (m : Bytes) (a : Nat) : Prop := ∃ e ∈ m.extents, e.Contains a

instance (m : Bytes) (a : Nat) : Decidable (m.Mapped a) :=
  inferInstanceAs (Decidable (∃ e ∈ _, _))

/-- The byte at `a` is `v` from now on. -/
def poke (a : Nat) (v : UInt8) (m : Bytes) : Bytes :=
  { m with byte := fun b => if b = a then v else m.byte b }

/-- A load, which fails where nothing is allocated. -/
def read (a : Nat) (m : Bytes) : Option UInt8 :=
  if m.Mapped a then some (m.byte a) else none

/-- A store, which fails where nothing is allocated. -/
def write (a : Nat) (v : UInt8) (m : Bytes) : Option Bytes :=
  if m.Mapped a then some (m.poke a v) else none

@[simp] theorem empty_extents : empty.extents = [] := rfl

@[simp] theorem poke_extents : (m.poke a v).extents = m.extents := rfl

@[simp] theorem poke_byte : (m.poke a v).byte b = if b = a then v else m.byte b := rfl

theorem read_eq (h : m.Mapped a) : m.read a = some (m.byte a) := if_pos h

theorem write_eq (h : m.Mapped a) : m.write a v = some (m.poke a v) := if_pos h

/-- Two allocated extents are apart, if they are two. -/
theorem apart_of_ne (he : e ∈ m.extents) (hf : f ∈ m.extents) (hne : e ≠ f) : e.Apart f :=
  m.apart.forall he hf hne

/-- An address is in one allocated extent at most. -/
theorem extent_unique (he : e ∈ m.extents) (hf : f ∈ m.extents) (hea : e.Contains a)
    (hfa : f.Contains a) : e = f := by
  by_contra hne
  exact (apart_of_ne he hf hne).not_contains hea hfa

/-- What is allocated begins at an address of its own. -/
theorem base_unique (he : e ∈ m.extents) (hf : f ∈ m.extents) (h : e.base = f.base) : e = f :=
  extent_unique he hf (Extent.contains_base (m.valid e he).2)
    (h ▸ Extent.contains_base (m.valid f hf).2)

/-- Where there is room, `malloc` gives an extent that was free, and writes nothing. -/
theorem malloc_some {answer : Option Nat} {m' : Bytes} (h : m.malloc size answer = some (a, m')) :
    m.Fresh ⟨a, size⟩ ∧ m'.extents = ⟨a, size⟩ :: m.extents ∧ m'.byte = m.byte := by
  unfold malloc at h
  cases answer with
  | none => cases h
  | some b =>
    by_cases hfresh : m.Fresh ⟨b, size⟩
    · simp only [dif_pos hfresh] at h
      cases h
      exact ⟨hfresh, rfl, rfl⟩
    · simp only [dif_neg hfresh] at h
      cases h

/-- `free` takes an extent that is allocated, and leaves the others. -/
theorem free_of_perm {es : List Extent} (h : m.extents.Perm (e :: es)) :
    ∃ m', m.free e.base = some m' ∧ m'.extents.Perm es ∧ m'.byte = m.byte := by
  have he : e ∈ m.extents := h.mem_iff.mpr (List.mem_cons_self ..)
  refine ⟨_, if_pos ⟨e, he, rfl⟩, ?_, rfl⟩
  have hapart := (h.pairwise_iff fun hr => Extent.Apart.symm hr).mp m.apart
  have hall : ∀ f ∈ es, f.base ≠ e.base := by
    intro f hf heq
    have hfm : f ∈ m.extents := h.mem_iff.mpr (List.mem_cons_of_mem e hf)
    obtain rfl := base_unique hfm he heq
    exact (List.rel_of_pairwise_cons hapart hf).not_contains
      (Extent.contains_base (m.valid f he).2) (Extent.contains_base (m.valid f he).2)
  have hfilter := h.filter fun f => decide (f.base ≠ e.base)
  rw [List.filter_cons_of_neg (by simp),
    List.filter_eq_self.mpr fun f hf => decide_eq_true (hall f hf)] at hfilter
  exact hfilter

end Bytes

end BstGenerator.Memory
