import BstGenerator.Machine.Fuel
import BstGenerator.Bst.Layout

/-!
# The slot searches: `find`, `find_min`, `find_max`

On a state that represents a tree, the three loops walk from slot to slot exactly
as the searches of the abstract tree do, end, and write nothing (their result is
a slot alone). `find` needs no ordering for this: it follows the comparisons
wherever they lead; what it finds is a matter of `Trees.search_spec`.
-/

namespace BstGenerator.Bst

open Machine Memory Trees
open BinaryTree (nil node)

variable {T V : Type} [Inhabited T] [Inhabited V] {s : State T V}
  {R : Multiset (Addr × Node T V)}

/-! ## `find` -/

/-- From the slot `C` on, the loop of `find` ends in the slot where the abstract
search ends. -/
theorem findLoop_eq [LinearOrder T] (k : T) {C : Context (Entry T V)}
    {t : BinaryTree (Entry T V)} (h : Represents s (plug C t) R) {fuel : Nat}
    (hfuel : t.numNodes < fuel) :
    findLoop k s fuel (slot C) = .ok (slot (search Entry.key k C t).1) := by
  induction t generalizing C fuel with
  | nil =>
    obtain ⟨fuel, rfl⟩ : ∃ n, fuel = n + 1 := ⟨fuel - 1, by omega⟩
    simp [findLoop, h.load, search]
  | node x l r ihl ihr =>
    obtain ⟨fuel, rfl⟩ : ∃ n, fuel = n + 1 := ⟨fuel - 1, by omega⟩
    have hkey : s.key x.addr = .ok x.key := State.key_eq h.cell
    simp only [BinaryTree.numNodes] at hfuel
    simp only [findLoop, h.load, ptr_node, ok_bind, hkey, ne_eq, h.ne_null_of_plug,
      not_false_eq_true, if_true, search, gt_iff_lt]
    split
    · exact ihr (C := ⟨.right, x, l⟩ :: C) h (by omega)
    · split
      · exact ihl (C := ⟨.left, x, r⟩ :: C) h (by omega)
      · rfl

theorem find_eq [LinearOrder T] {k : T} {C : Context (Entry T V)}
    {t u : BinaryTree (Entry T V)} (h : Represents s t R)
    (hs : search Entry.key k [] t = (C, u)) {fuel : Nat} (hfuel : t.numNodes < fuel) :
    find fuel k s = .ok (slot C) := by
  rw [find, ← show (search Entry.key k [] t).1 = C by rw [hs]]
  exact findLoop_eq k (C := []) h hfuel

/-! ## `find_min` and `find_max` -/

/-- The loop at a missing subtree reads the sentinel and stays. -/
theorem findExtreme_nil (d : Dir) {C : Context (Entry T V)} (h : Represents s (plug C nil) R)
    {fuel : Nat} (hfuel : 0 < fuel) : findExtreme d s fuel (slot C) = .ok (slot C) := by
  obtain ⟨fuel, rfl⟩ : ∃ n, fuel = n + 1 := ⟨fuel - 1, by omega⟩
  have hchild : s.load (.child d s.null) = .ok s.null := by
    rw [State.load_child h.sentinel_cell]
    cases d <;> rfl
  simp [findExtreme, h.load, hchild]

/-- The loop walks down a straight spine to its extreme node. -/
theorem findExtreme_eq {d : Dir} {D C : Context (Entry T V)} {m : Entry T V}
    {u : BinaryTree (Entry T V)} (hD : Straight d D)
    (h : Represents s (plug C (plug D (Frame.fill ⟨d, m, u⟩ nil))) R) {fuel : Nat}
    (hfuel : D.length < fuel) : findExtreme d s fuel (slot C) = .ok (slot (D ++ C)) := by
  -- the loop meets the frames of `D` from its end, so the induction goes from there
  induction D using List.reverseRecOn generalizing C fuel with
  | nil =>
    obtain ⟨fuel, rfl⟩ : ∃ n, fuel = n + 1 := ⟨fuel - 1, by omega⟩
    have hchild : s.load (.child d m.addr) = .ok s.null :=
      Represents.load (C := ⟨d, m, u⟩ :: C) h
    simp [findExtreme, h.load, ptr_fill, hchild]
  | append_singleton D f ih =>
    obtain ⟨fuel, rfl⟩ : ∃ n, fuel = n + 1 := ⟨fuel - 1, by omega⟩
    obtain ⟨d', x, far⟩ := f
    obtain rfl : d' = d := hD _ (List.mem_append_right _ (List.mem_singleton_self _))
    rw [plug_append, plug_cons, plug_nil] at h
    have hchild : s.load (.child d' x.addr) =
        .ok (ptr s.null (plug D (Frame.fill ⟨d', m, u⟩ nil))) :=
      Represents.load (C := ⟨d', x, far⟩ :: C) h
    have hne : ptr s.null (plug D (Frame.fill ⟨d', m, u⟩ nil)) ≠ s.null :=
      mt (Represents.ptr_eq_null_iff (C := ⟨d', x, far⟩ :: C) h).mp
        (plug_ne_nil D (Frame.fill_ne_nil _ _))
    have hlen : D.length < fuel := by simpa using hfuel
    have hrest := ih (fun f hf => hD f (List.mem_append_left _ hf)) (C := ⟨d', x, far⟩ :: C) h
      hlen
    simp only [findExtreme, h.load, ptr_fill, ok_bind, hchild, if_pos hne]
    rw [List.append_assoc]
    exact hrest

end BstGenerator.Bst
