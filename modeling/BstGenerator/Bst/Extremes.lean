import BstGenerator.Bst.Runs

/-!
# Where `find_min` and `find_max` end

Both walk to the end of a straight spine, and what lies there is the end of the listing
of the subtree they started from (`findExtreme_subtree`), so with the tree ordered its
least or its greatest key. On an empty slot they read the sentinel, whose children are
itself, and stay where they are. None of the searches has a state to return: they write
nothing.

- `find_extremes`: **what `find_min(find(k))` and `find_max(find(k))` return** in every
  reachable state.
-/

namespace BstGenerator.Bst

open Machine Memory Trees
open BinaryTree (nil node)

variable {T V : Type} [Inhabited T] [Inhabited V]

/-- The reference is to the slot of a node without a child on side `d`. -/
structure EndsAt (s : State T V) (d : Dir) (τ : Slot) (a : Addr) : Prop where
  slot : ReachedSlot s τ
  load : s.load τ = .ok a
  child : s.load (.child d a) = .ok s.null

/-- From the slot of a subtree the walk ends in the slot of the node at the end of its
listing. -/
theorem findExtreme_subtree (d : Dir) {s : State T V} {R : Multiset (Addr × Node T V)}
    {C : Context (Entry T V)} {u : BinaryTree (Entry T V)} (h : Represents s (plug C u) R)
    (hu : u ≠ nil) :
    ∃ τ x, Returns (fun fuel => findExtreme d s fuel (slot C)) τ ∧ EndsAt s d τ x.addr ∧
      endOf d (inorder u) = some x := by
  obtain ⟨D, m, w, rfl, hD⟩ := exists_extreme d hu
  have hm : Represents s (plug (D ++ C) (Frame.fill ⟨d, m, w⟩ nil)) R := by
    rw [plug_append]
    exact h
  refine ⟨slot (D ++ C), m, Returns.of_lt D.length fun _ hfuel => findExtreme_eq hD h hfuel,
    ⟨hm.reachedSlot, ?_, ?_⟩, endOf_extreme hD m w⟩
  · rw [hm.load, ptr_fill]
  · exact Represents.load (C := ⟨d, m, w⟩ :: (D ++ C)) hm

/-- **`find_min` and `find_max` on what `find` returned**: for a present key, the slots of
the nodes with the least and the greatest key of the subtree under it, the first and the
last of its listing, which have no left and no right child; for an absent one, the empty
slot itself. -/
theorem find_extremes [LinearOrder T] (ops : List (Op T V)) :
    (∃ s, Run ops s) ∧ ∀ s, Run ops s → ∀ k,
      (∀ a n, Reach s s.root a → s.heap.cells a = some n → n.key = k →
        ∃ σ t, Returns (fun fuel => find fuel k s) σ ∧ s.load σ = .ok a ∧ TreeAt s a t ∧
          (∃ τ x, Returns (fun fuel => findMin fuel σ s) τ ∧ EndsAt s .left τ x.addr ∧
            (inorder t).head? = some x ∧ ∀ y ∈ inorder t, x.key ≤ y.key) ∧
          ∃ τ x, Returns (fun fuel => findMax fuel σ s) τ ∧ EndsAt s .right τ x.addr ∧
            (inorder t).getLast? = some x ∧ ∀ y ∈ inorder t, y.key ≤ x.key) ∧
      (Lacks s k → ∃ σ, Returns (fun fuel => find fuel k s) σ ∧ s.load σ = .ok s.null ∧
        Returns (fun fuel => findMin fuel σ s) σ ∧
        Returns (fun fuel => findMax fuel σ s) σ) := by
  refine ⟨exists_run ops, ?_⟩
  intro s hrun k
  obtain ⟨t, hholds⟩ := hrun.holds
  have h := hholds.represents
  have ho := hholds.ordered
  constructor
  · rintro a n ha hn rfl
    obtain ⟨C, x, l, r, hs, rfl, rfl, rfl⟩ := h.search_reached ho ha hn
    have hu : node x l r ≠ nil := fun he => nomatch he
    obtain ⟨τ, y, hmin, hτ, hfirst⟩ := findExtreme_subtree .left h hu
    obtain ⟨υ, z, hmax, hυ, hlast⟩ := findExtreme_subtree .right h hu
    exact ⟨slot C, node x l r, Returns.of_lt _ fun _ hfuel => find_eq h hs hfuel, h.load,
      h.treeAt, ⟨τ, y, hmin, hτ, hfirst, ho.of_plug.head_le hfirst⟩,
      ⟨υ, z, hmax, hυ, hlast, ho.of_plug.le_getLast hlast⟩⟩
  · intro hlacks
    rcases search_spec ho k with ⟨C, hs, rfl, -, -⟩ | ⟨C, x, l, r, -, rfl, hx⟩
    · exact ⟨slot C, Returns.of_lt _ fun _ hfuel => find_eq h hs hfuel, h.load,
        Returns.of_lt 0 fun _ hfuel => findExtreme_nil .left h hfuel,
        Returns.of_lt 0 fun _ hfuel => findExtreme_nil .right h hfuel⟩
    · exact absurd hx (h.lacks_iff.mp hlacks x (mem_inorder_plug (by simp)))

end BstGenerator.Bst
