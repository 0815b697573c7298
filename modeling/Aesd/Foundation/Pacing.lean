/- Aesd/Foundation/Pacing
   layer: library
   digest: Picking readings one after the other, each late enough after the one before it. -/

import Mathlib.Data.List.Chain
import Mathlib.Tactic.Common
import Mathlib.Tactic.Linarith

set_option autoImplicit false
set_option relaxedAutoImplicit false

namespace Aesd.Foundation.Pacing

universe u

variable {τ : Type u} (late : τ → τ → Bool)

/-- From `base` on, pick every reading that is late for the one picked last. -/
def picks : τ → List τ → List τ
  | _, [] => []
  | base, r :: rs => if late base r then r :: picks r rs else picks base rs

section Laws

variable {late} {base : τ} {rs : List τ}

theorem picks_concat (late : τ → τ → Bool) (base : τ) (rs : List τ) (r : τ) :
    picks late base (rs ++ [r]) =
      picks late base rs ++
        (if late ((picks late base rs).getLastD base) r then [r] else []) := by
  induction rs generalizing base with
  | nil => rfl
  | cons q rs ih =>
    simp only [List.cons_append, picks]
    by_cases hq : late base q = true
    · simp only [if_pos hq, ih, List.getLastD_cons, List.cons_append]
    · simp only [if_neg hq, ih]

theorem picks_sublist (late : τ → τ → Bool) (base : τ) (rs : List τ) :
    (picks late base rs).Sublist rs := by
  induction rs generalizing base with
  | nil => exact List.Sublist.refl _
  | cons r rs ih =>
    rw [picks]
    split
    · exact (ih r).cons_cons r
    · exact (ih base).cons r

/-- Each reading picked is late for the one before it. -/
theorem isChain_picks (late : τ → τ → Bool) (base : τ) (rs : List τ) :
    (base :: picks late base rs).IsChain fun a b => late a b = true := by
  induction rs generalizing base with
  | nil => exact List.isChain_singleton base
  | cons r rs ih =>
    rw [picks]
    split
    next hr => exact List.isChain_cons_cons.mpr ⟨hr, ih r⟩
    next => exact ih base

end Laws

section Bounds

variable {late} {f : τ → Nat} {k d : Nat}

/-- The last reading is not much later than the last one picked. -/
theorem last_le_picks (hearly : ∀ a r, late a r = false → f r ≤ f a + k) (base : τ)
    (rs : List τ) : f (rs.getLastD base) ≤ f ((picks late base rs).getLastD base) + k := by
  induction rs generalizing base with
  | nil => simp [picks]
  | cons r rs ih =>
    rw [picks, List.getLastD_cons]
    split
    next hr =>
      rw [List.getLastD_cons]
      exact ih r
    next hr =>
      have hstep := hearly base r (Bool.eq_false_of_not_eq_true hr)
      cases rs with
      | nil => simpa [picks] using hstep
      | cons q rs =>
        have hrest := ih base
        rwa [List.getLastD_cons] at hrest ⊢

/-- Where readings do not go back, the last one picked is not later than the last reading. -/
theorem picks_le_last {base prev : τ} {rs : List τ} (hprev : f base ≤ f prev)
    (hmono : (prev :: rs).IsChain fun a b => f a ≤ f b) :
    f ((picks late base rs).getLastD base) ≤ f (rs.getLastD prev) := by
  induction rs generalizing base prev with
  | nil => simpa [picks] using hprev
  | cons r rs ih =>
    obtain ⟨hr, hrest⟩ := List.isChain_cons_cons.mp hmono
    rw [picks, List.getLastD_cons]
    split
    next =>
      rw [List.getLastD_cons]
      exact ih (Nat.le_refl _) hrest
    next => exact ih (hprev.trans hr) hrest

/-- Where readings follow one another within `d`, the picked ones do so within `k + d`. -/
theorem isChain_picks_le (hearly : ∀ a r, late a r = false → f r ≤ f a + k) {base prev : τ}
    {rs : List τ} (hprev : f prev ≤ f base + k)
    (hgap : (prev :: rs).IsChain fun a b => f b ≤ f a + d) :
    (base :: picks late base rs).IsChain fun a b => f b ≤ f a + (k + d) := by
  induction rs generalizing base prev with
  | nil => exact List.isChain_singleton base
  | cons r rs ih =>
    obtain ⟨hr, hrest⟩ := List.isChain_cons_cons.mp hgap
    rw [picks]
    split
    next =>
      refine List.isChain_cons_cons.mpr ⟨by omega, ih (by omega) hrest⟩
    next hnot =>
      exact ih (hearly base r (Bool.eq_false_of_not_eq_true hnot)) hrest

/-- Steps of at least `k` add up. -/
theorem mul_length_le {base : τ} {xs : List τ}
    (h : (base :: xs).IsChain fun a b => f a + k ≤ f b) :
    f base + k * xs.length ≤ f (xs.getLastD base) := by
  induction xs generalizing base with
  | nil => simp
  | cons x xs ih =>
    obtain ⟨hx, hrest⟩ := List.isChain_cons_cons.mp h
    have hle := ih hrest
    rw [List.getLastD_cons, List.length_cons, Nat.mul_succ]
    omega

/-- Steps of at most `k` add up. -/
theorem le_mul_length {base : τ} {xs : List τ}
    (h : (base :: xs).IsChain fun a b => f b ≤ f a + k) :
    f (xs.getLastD base) ≤ f base + k * xs.length := by
  induction xs generalizing base with
  | nil => simp
  | cons x xs ih =>
    obtain ⟨hx, hrest⟩ := List.isChain_cons_cons.mp h
    have hle := ih hrest
    rw [List.getLastD_cons, List.length_cons, Nat.mul_succ]
    omega

end Bounds

end Aesd.Foundation.Pacing
