import BstGenerator.Generator.Consume

/-!
# The coroutine `range`

`range(first, last)` of test_yield.cpp:117–122, over integer types of any width, signed
or unsigned. The values of a type are bit vectors and `first++` is bit vector addition,
which wraps; that it never does here is proved, not assumed.

- `val_succ`: below another value of the type the increment is exact, in particular when
  that other value is the greatest one.
- `range_yields`: what the coroutine yields, by induction on what lies between `first` and
  `last`; the frame carries the counter from one suspension to the next.
- `rangeFor_range`: **what a range-for loop sees of it**.
-/

namespace BstGenerator.Generator

open Machine Memory

/-! ## The model -/

/-- An integer type. A narrow one is promoted to `int` in `first < last` and in `first++`,
which changes the result of neither. -/
structure IntType where
  signed : Bool
  width : Nat
  deriving DecidableEq, Repr

namespace IntType

/-- The object representations of a value. -/
abbrev Value (I : IntType) : Type := BitVec I.width

/-- The integer a value stands for. -/
def val (I : IntType) (x : I.Value) : Int := if I.signed then x.toInt else x.toNat

/-- `x < y`. -/
def lt (I : IntType) (x y : I.Value) : Bool := if I.signed then x.slt y else x.ult y

end IntType

/-- The parameters of `range`, which live in its frame. -/
structure RangeParams (I : IntType) where
  first : I.Value
  last : I.Value
  deriving DecidableEq, Repr

/-- The body of `range`, from one test of its loop to the next. What `co_yield first++`
yields is the value before the increment. -/
def range (I : IntType) (p : RangeParams I) : Outcome (RangeParams I) I.Value Empty :=
  if I.lt p.first p.last then
    .yield p.first { p with first := p.first + 1 }
  else
    .ret

/-! ## The increment -/

section Increment

variable {w : Nat} {x y : BitVec w}

theorem toNat_succ (h : x.toNat < y.toNat) : (x + 1).toNat = x.toNat + 1 := by
  have hlt : x.toNat + 1 < 2 ^ w := Nat.lt_of_le_of_lt h y.isLt
  have hone : (1 : BitVec w).toNat = 1 :=
    (BitVec.toNat_ofNat 1 w).trans (Nat.mod_eq_of_lt (by omega))
  rw [BitVec.toNat_add, hone, Nat.mod_eq_of_lt hlt]

theorem toInt_succ (h : x.toInt < y.toInt) : (x + 1).toInt = x.toInt + 1 := by
  have hlo := BitVec.le_two_mul_toInt (x := x)
  have hhi := BitVec.two_mul_toInt_lt (x := y)
  -- not from the integer `1` stands for, which is `-1` in a type of width 1
  have hadd : x + 1 = BitVec.ofInt w (x.toInt + 1) := by
    rw [BitVec.ofInt_add, BitVec.ofInt_toInt]
    rfl
  rw [hadd, BitVec.toInt_ofInt]
  apply Int.bmod_eq_of_le_mul_two
  · push_cast
    omega
  · push_cast
    omega

end Increment

section Types

variable {I : IntType} {x y : I.Value}

theorem lt_iff : I.lt x y ↔ I.val x < I.val y := by
  obtain ⟨signed, width⟩ := I
  cases signed with
  | true => exact BitVec.slt_iff_toInt_lt
  | false => exact BitVec.ult_iff_toNat_lt.trans Int.ofNat_lt.symm

/-- A value below another one is not the greatest, and its increment does not wrap. -/
theorem val_succ (h : I.val x < I.val y) : I.val (x + 1) = I.val x + 1 := by
  obtain ⟨signed, width⟩ := I
  cases signed with
  | true => exact toInt_succ h
  | false => exact congrArg Nat.cast (toNat_succ (Int.ofNat_lt.mp h))

end Types

/-! ## What is yielded -/

section Range

variable {I : IntType}

/-- An increment of `range` is exact: it neither overflows nor wraps. -/
theorem range_step {p p' : RangeParams I} {v : I.Value} (h : range I p = .yield v p') :
    v = p.first ∧ I.val p'.first = I.val p.first + 1 := by
  unfold range at h
  split at h
  next hlt =>
    cases h
    exact ⟨rfl, val_succ (lt_iff.mp hlt)⟩
  next => cases h

theorem range_yields (first last : I.Value) :
    ∃ vs, Yields (range I) none ⟨first, last⟩ vs ∧ (vs.map I.val).Pairwise (· < ·) ∧
      ∀ i, i ∈ vs.map I.val ↔ I.val first ≤ i ∧ i < I.val last := by
  generalize hn : (I.val last - I.val first).toNat = n
  induction n generalizing first with
  | zero =>
    have hle : ¬ I.val first < I.val last := by omega
    have hret : range I ⟨first, last⟩ = .ret := if_neg (fun h => hle (lt_iff.mp h))
    refine ⟨[], .ended hret, List.Pairwise.nil, ?_⟩
    intro i
    simp only [List.map_nil, List.not_mem_nil, false_iff]
    omega
  | succ n ih =>
    have hlt : I.val first < I.val last := by omega
    have hsucc := val_succ hlt
    have hyield : range I ⟨first, last⟩ = .yield first ⟨first + 1, last⟩ :=
      if_pos (lt_iff.mpr hlt)
    obtain ⟨vs, hvs, hpair, hmem⟩ := ih (first + 1) (by omega)
    refine ⟨first :: vs, .yield hyield hvs, ?_, ?_⟩
    · refine List.Pairwise.cons ?_ hpair
      intro i hi
      have := ((hmem i).mp hi).1
      omega
    · intro i
      rw [List.map_cons, List.mem_cons, hmem, hsucc]
      omega

/-- **A range-for loop over `range(first, last)`** ends, and its body sees the integers from
`first` to below `last`, in ascending order and each once. No increment on the way, nor any
other of the coroutine, overflows or wraps. -/
theorem rangeFor_range (I : IntType) (first last : I.Value)
    (w : World (RangeParams I) I.Value) :
    (∃ seen w',
      Returns (fun fuel => rangeFor (range I) fuel (fun _ => false) w.gens.next
          (coroutine ⟨first, last⟩ w)) (seen, .ranToEnd, w') ∧
        w'.Done w.frames.next ∧ (seen.map I.val).Pairwise (· < ·) ∧
        ∀ i, i ∈ seen.map I.val ↔ I.val first ≤ i ∧ i < I.val last) ∧
      ∀ p v p', range I p = .yield v p' → v = p.first ∧ I.val p'.first = I.val p.first + 1 := by
  refine ⟨?_, fun _ _ _ => range_step⟩
  obtain ⟨vs, hvs, hpair, hmem⟩ := range_yields first last
  obtain ⟨hi, hf⟩ := coroutine_suspended (⟨first, last⟩ : RangeParams I) w
  obtain ⟨w', hloop, -, hleft⟩ := rangeFor_yields (fun _ => false) hi hvs hf
  rw [takeLoop_never] at hloop hleft
  exact ⟨vs, w', Returns.of_lt vs.length hloop, hleft, hpair, hmem⟩

/-- Up to the greatest value of a signed type. -/
example :
    (rangeFor (range ⟨true, 8⟩) 5 (fun _ => false) 1
        (coroutine ⟨125#8, 127#8⟩ World.empty)).map (fun r => (r.1, r.2.1)) =
      .ok ([125#8, 126#8], .ranToEnd) := by
  decide

end Range

end BstGenerator.Generator
