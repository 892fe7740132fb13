import BstGenerator.Machine.Run

/-!
# Programs with fuel

A loop is modelled by a function of an amount of fuel that faults when the fuel is
used up. The program itself `Returns a` when every large enough amount gives `a`:
the loop ends, and its result does not depend on the fuel. `Fails e` is the same
for a fault. A run of commands that take fuel is a program in the same sense, each
command being given the same amount (`run_outcome`).
-/

namespace BstGenerator.Machine

universe u v w

variable {F : Type u} {α β : Type v}

/-- The program ends with the value `a`. -/
def Returns (f : Nat → Except F α) (a : α) : Prop := ∃ N, ∀ fuel, N ≤ fuel → f fuel = .ok a

/-- The program ends with the fault `e`. -/
def Fails (f : Nat → Except F α) (e : F) : Prop := ∃ N, ∀ fuel, N ≤ fuel → f fuel = .error e

theorem Returns.of_lt {f : Nat → Except F α} {a : α} (n : Nat)
    (h : ∀ fuel, n < fuel → f fuel = .ok a) : Returns f a :=
  ⟨n + 1, h⟩

/-- The same, with the fuel that is left over. -/
theorem Returns.of_add {f : Nat → Except F α} {a : α} (n : Nat)
    (h : ∀ rest, f (n + (rest + 1)) = .ok a) : Returns f a := by
  refine Returns.of_lt n ?_
  intro fuel hfuel
  obtain ⟨rest, rfl⟩ : ∃ rest, fuel = n + (rest + 1) := ⟨fuel - n - 1, by omega⟩
  exact h rest

/-- A program returns at most one value. -/
theorem Returns.unique {f : Nat → Except F α} {a b : α} (ha : Returns f a)
    (hb : Returns f b) : a = b := by
  obtain ⟨N, hN⟩ := ha
  obtain ⟨M, hM⟩ := hb
  exact Except.ok.inj ((hN _ (Nat.le_max_left N M)).symm.trans (hM _ (Nat.le_max_right N M)))

/-- A program that fails does not return. -/
theorem Fails.not_returns {f : Nat → Except F α} {e : F} {a : α} (he : Fails f e) :
    ¬ Returns f a := by
  rintro ⟨M, hM⟩
  obtain ⟨N, hN⟩ := he
  have := (hN _ (Nat.le_max_left N M)).symm.trans (hM _ (Nat.le_max_right N M))
  cases this

/-- Sequencing: run `g` on what `f` returned. -/
theorem Returns.bind {f : Nat → Except F α} {g : α → Nat → Except F β} {a : α} {b : β}
    (hf : Returns f a) (hg : Returns (g a) b) :
    Returns (fun fuel => f fuel >>= fun x => g x fuel) b := by
  obtain ⟨N, hN⟩ := hf
  obtain ⟨M, hM⟩ := hg
  refine ⟨max N M, ?_⟩
  intro fuel hfuel
  show (f fuel >>= fun x => g x fuel) = .ok b
  rw [hN fuel (Nat.le_trans (Nat.le_max_left N M) hfuel)]
  exact hM fuel (Nat.le_trans (Nat.le_max_right N M) hfuel)

/-! ## Runs of commands -/

section Runs

variable {C : Type w} {S : Type v} {step : Nat → C → S → Except F S} {c : C} {cs : List C}
  {s t : S}

/-- A run ends if each command, given what held before, ends or fails in an expected
way, and holds on to it if it ends. -/
theorem run_outcome {Inv : S → Prop} {Ok : C → Prop} {E : F → Prop}
    (hstep : ∀ c s, Ok c → Inv s →
      (∃ t, Returns (fun n => step n c s) t ∧ Inv t) ∨ ∃ e, E e ∧ Fails (fun n => step n c s) e)
    (hok : ∀ c ∈ cs, Ok c) (h : Inv s) :
    (∃ t, Returns (fun n => run (step n) cs s) t ∧ Inv t) ∨
      ∃ e, E e ∧ Fails (fun n => run (step n) cs s) e := by
  induction cs generalizing s with
  | nil => exact Or.inl ⟨s, ⟨0, fun _ _ => rfl⟩, h⟩
  | cons c cs ih =>
    rcases hstep c s (hok c (List.mem_cons_self ..)) h with ⟨t, ⟨N, hN⟩, ht⟩ | ⟨e, he, N, hN⟩
    · have hcons : ∀ n, N ≤ n → run (step n) (c :: cs) s = run (step n) cs t := by
        intro n hn
        have hc : step n c s = .ok t := hN n hn
        rw [run, hc]
      rcases ih (fun d hd => hok d (List.mem_cons_of_mem _ hd)) ht with
        ⟨u, ⟨M, hM⟩, hu⟩ | ⟨e, he, M, hM⟩
      · refine Or.inl ⟨u, ⟨max N M, fun n hn => ?_⟩, hu⟩
        show run (step n) (c :: cs) s = .ok u
        rw [hcons n (Nat.le_trans (Nat.le_max_left N M) hn)]
        exact hM n (Nat.le_trans (Nat.le_max_right N M) hn)
      · refine Or.inr ⟨e, he, max N M, ?_⟩
        intro n hn
        show run (step n) (c :: cs) s = .error e
        rw [hcons n (Nat.le_trans (Nat.le_max_left N M) hn)]
        exact hM n (Nat.le_trans (Nat.le_max_right N M) hn)
    · refine Or.inr ⟨e, he, N, ?_⟩
      intro n hn
      have hc : step n c s = .error e := hN n hn
      show run (step n) (c :: cs) s = .error e
      rw [run, hc]

/-- The last command of a run that ends. -/
theorem Returns.of_run_snoc (h : Returns (fun n => run (step n) cs s) t) {t' : S}
    (h' : Returns (fun n => run (step n) (cs ++ [c]) s) t') :
    Returns (fun n => step n c t) t' := by
  obtain ⟨N, hN⟩ := h
  obtain ⟨M, hM⟩ := h'
  refine ⟨max N M, ?_⟩
  intro n hn
  obtain ⟨u, hu, hc⟩ := (run_snoc_ok _).mp (hM n (Nat.le_trans (Nat.le_max_right N M) hn))
  obtain rfl : t = u :=
    Except.ok.inj ((hN n (Nat.le_trans (Nat.le_max_left N M) hn)).symm.trans hu)
  exact hc

end Runs

end BstGenerator.Machine
