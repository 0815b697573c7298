/- Aesd/Foundation/Ranking
   layer: library
   digest: Ranks that bound the length of a run, and their sums over the parties of a system. -/

import Aesd.Foundation.Run
import Mathlib.Algebra.GroupWithZero.Nat
import Mathlib.Algebra.Order.BigOperators.Group.List
import Mathlib.Algebra.Order.Group.Nat

set_option autoImplicit false
set_option relaxedAutoImplicit false

namespace Aesd.Foundation.Ranking

open Aesd.Foundation.Run

universe u v w

section Sums

variable {α : Type u} {g g' : α → Nat} {xs : List α}

theorem sum_map_le (h : ∀ x ∈ xs, g' x ≤ g x) : (xs.map g').sum ≤ (xs.map g).sum :=
  List.sum_le_sum h

/-- What one party gains and loses, the sum does. -/
theorem sum_map_set {i : Nat} {x : α} (hx : xs[i]? = some x) (y : α) :
    ((xs.set i y).map g).sum + g x = (xs.map g).sum + g y := by
  induction xs generalizing i with
  | nil => cases hx
  | cons a xs ih =>
    cases i with
    | zero =>
      obtain rfl : a = x := Option.some.inj hx
      simp only [List.set_cons_zero, List.map_cons, List.sum_cons]
      omega
    | succ i =>
      have hrest := ih hx
      simp only [List.set_cons_succ, List.map_cons, List.sum_cons]
      omega

/-- A step lowers the rank of one party and raises none. -/
theorem sum_map_set_lt {i : Nat} {x y : α} (hx : xs[i]? = some x) (hlt : g' y < g x)
    (hle : ∀ j z, j ≠ i → xs[j]? = some z → g' z ≤ g z) :
    ((xs.set i y).map g').sum < (xs.map g).sum := by
  induction xs generalizing i with
  | nil => cases hx
  | cons a xs ih =>
    cases i with
    | zero =>
      obtain rfl : a = x := Option.some.inj hx
      have hrest : (xs.map g').sum ≤ (xs.map g).sum := by
        apply sum_map_le
        intro z hz
        obtain ⟨j, hj⟩ := List.mem_iff_getElem?.mp hz
        exact hle (j + 1) z (Nat.succ_ne_zero j) hj
      simp only [List.set_cons_zero, List.map_cons, List.sum_cons]
      omega
    | succ i =>
      have hhead : g' a ≤ g a := hle 0 a (Nat.succ_ne_zero i).symm rfl
      have hrest := ih hx fun j z hj hz => hle (j + 1) z (fun he => hj (Nat.succ.inj he)) hz
      simp only [List.set_cons_succ, List.map_cons, List.sum_cons]
      omega

end Sums

section Runs

variable {ε : Type w} {σ : Type u} {ι : Type v} {step : σ → ι → Except ε σ} {I : σ → Prop}
  {P : σ → ι → Prop} {counts : ι → Bool} {rank : σ → Nat}

/-- The steps that satisfy `P` keep `I`, and those of them that count lower the rank. -/
def Lowers (step : σ → ι → Except ε σ) (I : σ → Prop) (P : σ → ι → Prop) (counts : ι → Bool)
    (rank : σ → Nat) : Prop :=
  ∀ s i s', I s → P s i → step s i = .ok s' → I s' ∧ rank s' + [i].countP counts ≤ rank s

theorem Lowers.run (hlowers : Lowers step I P counts rank) {s t : σ} {is : List ι} (hs : I s)
    (hrun : run step s is = .ok t) (halong : Along step P s is) :
    I t ∧ rank t + is.countP counts ≤ rank s := by
  induction is generalizing s with
  | nil =>
    obtain rfl : s = t := by simpa using hrun
    exact ⟨hs, le_of_eq (by simp)⟩
  | cons i is ih =>
    obtain ⟨s', hi, hrest⟩ := run_cons_inv hrun
    obtain ⟨hfirst, halong⟩ := (along_cons hi).mp halong
    obtain ⟨hs', hle⟩ := hlowers s i s' hs hfirst hi
    obtain ⟨ht, hle'⟩ := ih hs' hrest halong
    have hsplit : (i :: is).countP counts = [i].countP counts + is.countP counts := by
      rw [← List.countP_append, List.singleton_append]
    refine ⟨ht, ?_⟩
    omega

/-- A machine that can always take a step that counts, unless it is finished, can be run until it
is. -/
theorem Lowers.completes (hlowers : Lowers step I P counts rank) {finished : σ → Prop}
    (hnext : ∀ s, I s → ¬finished s → ∃ i s', counts i = true ∧ P s i ∧ step s i = .ok s')
    {s : σ} (hs : I s) :
    ∃ is t, Run.run step s is = .ok t ∧ Along step P s is ∧ finished t := by
  induction hn : rank s using Nat.strong_induction_on generalizing s with
  | _ n ih =>
    by_cases hfinished : finished s
    · exact ⟨[], s, run_nil s, trivial, hfinished⟩
    · obtain ⟨i, s', hcounts, hP, hi⟩ := hnext s hs hfinished
      obtain ⟨hs', hle⟩ := hlowers s i s' hs hP hi
      have hone : [i].countP counts = 1 := by simp [hcounts]
      have hless : rank s' < n := by omega
      obtain ⟨is, t, hrun, halong, hend⟩ := ih _ hless hs' rfl
      exact ⟨i :: is, t, by rw [run_cons_ok hi, hrun], (along_cons hi).mpr ⟨hP, halong⟩, hend⟩

end Runs

end Aesd.Foundation.Ranking
