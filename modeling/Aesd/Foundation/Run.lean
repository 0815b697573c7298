/- Aesd/Foundation/Run
   layer: library
   digest: Runs of a machine whose steps may be refused, and the rules for their invariants. -/

import Mathlib.Data.List.Basic
import Mathlib.Data.List.Induction
import Mathlib.Tactic.Common

set_option autoImplicit false
set_option relaxedAutoImplicit false

namespace Aesd.Foundation.Run

universe u v w

/-- Take the steps of a list one after the other, stopping at the first one that is refused. -/
def run {ε : Type w} {σ : Type u} {ι : Type v} (step : σ → ι → Except ε σ) :
    σ → List ι → Except ε σ
  | s, [] => .ok s
  | s, i :: is => match step s i with
    | .ok s' => run step s' is
    | .error e => .error e

section Rules

variable {ε : Type w} {σ : Type u} {ι : Type v} {step : σ → ι → Except ε σ}

@[simp] theorem run_nil (s : σ) : run step s [] = .ok s := rfl

theorem run_cons_ok {s s' : σ} {i : ι} (h : step s i = .ok s') (is : List ι) :
    run step s (i :: is) = run step s' is := by
  simp [run, h]

theorem run_cons_inv {s t : σ} {i : ι} {is : List ι} (h : run step s (i :: is) = .ok t) :
    ∃ s', step s i = .ok s' ∧ run step s' is = .ok t := by
  simp only [run] at h
  cases hs : step s i with
  | error e => simp [hs] at h
  | ok s' => exact ⟨s', rfl, by simpa [hs] using h⟩

theorem run_append {s t : σ} {is js : List ι} (h : run step s is = .ok t) :
    run step s (is ++ js) = run step t js := by
  induction is generalizing s with
  | nil =>
    obtain rfl : s = t := by simpa using h
    rfl
  | cons i is ih =>
    obtain ⟨s', hs, hr⟩ := run_cons_inv h
    rw [List.cons_append, run_cons_ok hs, ih hr]

theorem run_append_inv {s t : σ} {is js : List ι} (h : run step s (is ++ js) = .ok t) :
    ∃ m, run step s is = .ok m ∧ run step m js = .ok t := by
  induction is generalizing s with
  | nil => exact ⟨s, rfl, h⟩
  | cons i is ih =>
    obtain ⟨s', hs, hr⟩ := run_cons_inv h
    obtain ⟨m, hm, hj⟩ := ih hr
    exact ⟨m, by rw [run_cons_ok hs, hm], hj⟩

theorem run_concat {s m : σ} {is : List ι} {i : ι} (h : run step s is = .ok m) :
    run step s (is ++ [i]) = step m i := by
  rw [run_append h]
  cases hs : step m i <;> simp [run, hs]

theorem run_concat_inv {s t : σ} {is : List ι} {i : ι} (h : run step s (is ++ [i]) = .ok t) :
    ∃ m, run step s is = .ok m ∧ step m i = .ok t := by
  obtain ⟨m, hm, ht⟩ := run_append_inv h
  exact ⟨m, hm, by rw [← run_concat hm, h]⟩

/-- An invariant of the steps is an invariant of the runs. -/
theorem run_invariant {I : σ → Prop} (hstep : ∀ s i s', I s → step s i = .ok s' → I s')
    {s t : σ} {is : List ι} (hs : I s) (h : run step s is = .ok t) : I t := by
  induction is generalizing s with
  | nil =>
    obtain rfl : s = t := by simpa using h
    exact hs
  | cons i is ih =>
    obtain ⟨s', hi, hr⟩ := run_cons_inv h
    exact ih (hstep s i s' hs hi) hr

/-- An invariant whose steps may use what is known of the states that a run reaches. -/
theorem run_reachable {I : σ → Prop} {s : σ} (hs : I s)
    (hstep : ∀ is m i m', run step s is = .ok m → I m → step m i = .ok m' → I m')
    {t : σ} {is : List ι} (h : run step s is = .ok t) : I t := by
  induction is using List.reverseRecOn generalizing t with
  | nil =>
    obtain rfl : s = t := by simpa using h
    exact hs
  | append_singleton is i ih =>
    obtain ⟨m, hm, hi⟩ := run_concat_inv h
    exact hstep is m i t hm (ih hm) hi

/-- A machine that is never refused in states satisfying an invariant completes every run. -/
theorem run_total {I : σ → Prop} (hstep : ∀ s i, I s → ∃ s', step s i = .ok s' ∧ I s')
    {s : σ} (hs : I s) (is : List ι) : ∃ t, run step s is = .ok t ∧ I t := by
  induction is generalizing s with
  | nil => exact ⟨s, rfl, hs⟩
  | cons i is ih =>
    obtain ⟨s', hi, hs'⟩ := hstep s i hs
    rw [run_cons_ok hi]
    exact ih hs'

end Rules

section Along

variable {ε : Type w} {σ : Type u} {ι : Type v}

/-- Every step that a run takes satisfies `P` in the state in which it is taken. -/
def Along (step : σ → ι → Except ε σ) (P : σ → ι → Prop) : σ → List ι → Prop
  | _, [] => True
  | s, i :: is => P s i ∧ ∀ s', step s i = .ok s' → Along step P s' is

variable {step : σ → ι → Except ε σ} {P : σ → ι → Prop}

theorem along_cons {s s' : σ} {i : ι} {is : List ι} (h : step s i = .ok s') :
    Along step P s (i :: is) ↔ P s i ∧ Along step P s' is := by
  rw [Along]
  apply and_congr_right
  intro _
  constructor
  · exact fun hall => hall s' h
  · intro his s'' h''
    rw [h] at h''
    obtain rfl := Except.ok.inj h''
    exact his

/-- A run some step of which does not satisfy `P` has such a step behind one of its prefixes. -/
theorem exists_split_of_not_along {s : σ} {is : List ι} (h : ¬Along step P s is) :
    ∃ pre i post m, is = pre ++ i :: post ∧ run step s pre = .ok m ∧ ¬P m i := by
  induction is generalizing s with
  | nil => exact absurd trivial h
  | cons i is ih =>
    by_cases hfirst : P s i
    · have hrest : ∃ s', step s i = .ok s' ∧ ¬Along step P s' is := by
        by_contra hnone
        apply h
        refine ⟨hfirst, fun s' hstep => ?_⟩
        by_contra hnot
        exact hnone ⟨s', hstep, hnot⟩
      obtain ⟨s', hstep, hnot⟩ := hrest
      obtain ⟨pre, j, post, m, rfl, hrun, hj⟩ := ih hnot
      exact ⟨i :: pre, j, post, m, rfl, by rw [run_cons_ok hstep, hrun], hj⟩
    · exact ⟨[], i, is, s, rfl, rfl, hfirst⟩

/-- What holds of every step in the states of an invariant holds along every run. -/
theorem along_of_invariant {I : σ → Prop} (hstep : ∀ s i s', I s → step s i = .ok s' → I s')
    (h : ∀ s i, I s → P s i) {s : σ} (hs : I s) (is : List ι) : Along step P s is := by
  induction is generalizing s with
  | nil => trivial
  | cons i is ih => exact ⟨h s i hs, fun s' hi => ih (hstep s i s' hs hi)⟩

theorem along_of_forall (h : ∀ s i, P s i) (s : σ) (is : List ι) : Along step P s is :=
  along_of_invariant (I := fun _ => True) (fun _ _ _ _ _ => trivial) (fun s i _ => h s i) trivial is

/-- What holds of the steps of a list in every state. -/
theorem along_of_mem {is : List ι} (h : ∀ i ∈ is, ∀ s, P s i) (s : σ) : Along step P s is := by
  induction is generalizing s with
  | nil => trivial
  | cons i is ih =>
    exact ⟨h i List.mem_cons_self s, fun s' _ => ih (fun j hj => h j (List.mem_cons_of_mem i hj)) s'⟩

theorem along_mono {Q : σ → ι → Prop} (hPQ : ∀ s i, P s i → Q s i) {s : σ} {is : List ι}
    (h : Along step P s is) : Along step Q s is := by
  induction is generalizing s with
  | nil => trivial
  | cons i is ih => exact ⟨hPQ s i h.1, fun s' hi => ih (h.2 s' hi)⟩

/-- The step behind a prefix of a run. -/
theorem along_at {s m : σ} {pre post : List ι} {i : ι} (h : Along step P s (pre ++ i :: post))
    (hrun : run step s pre = .ok m) : P m i := by
  induction pre generalizing s with
  | nil =>
    obtain rfl : s = m := by simpa using hrun
    exact h.1
  | cons j pre ih =>
    obtain ⟨s', hj, hrest⟩ := run_cons_inv hrun
    exact ih (h.2 s' hj) hrest

/-- What holds along a run holds of each of its steps, where it does not depend on the state. -/
theorem mem_of_along {Q : ι → Prop} {s t : σ} {is : List ι} (h : Along step (fun _ i => Q i) s is)
    (hrun : run step s is = .ok t) : ∀ i ∈ is, Q i := by
  intro i hi
  obtain ⟨pre, post, rfl⟩ := List.append_of_mem hi
  obtain ⟨m, hpre, -⟩ := run_append_inv hrun
  exact along_at h hpre

theorem along_left {s : σ} {is js : List ι} (h : Along step P s (is ++ js)) :
    Along step P s is := by
  induction is generalizing s with
  | nil => trivial
  | cons i is ih => exact ⟨h.1, fun s' hstep => ih (h.2 s' hstep)⟩

/-- What steps that satisfy `G` keep together with the condition that the run so far satisfied
`P`. -/
theorem run_along_of {G : σ → ι → Prop} {I : σ → Prop → Prop}
    (hstep : ∀ s i s' clean, I s clean → G s i → step s i = .ok s' → I s' (clean ∧ P s i))
    {s t : σ} {clean : Prop} {is : List ι} (hs : I s clean) (h : run step s is = .ok t)
    (hguard : Along step G s is) : I t (clean ∧ Along step P s is) := by
  induction is generalizing s clean with
  | nil =>
    obtain rfl : s = t := by simpa using h
    have heq : (clean ∧ Along step P s []) = clean := propext (and_iff_left trivial)
    rw [heq]
    exact hs
  | cons i is ih =>
    obtain ⟨s', hi, hr⟩ := run_cons_inv h
    obtain ⟨hfirst, hrest⟩ := (along_cons hi).mp hguard
    have heq : (clean ∧ Along step P s (i :: is)) =
        ((clean ∧ P s i) ∧ Along step P s' is) := by
      rw [along_cons hi, and_assoc]
    rw [heq]
    exact ih (hstep s i s' clean hs hfirst hi) hr hrest

/-- An invariant of the steps that satisfy `P` is an invariant of the runs along which they do. -/
theorem run_guarded {I : σ → Prop} (hstep : ∀ s i s', I s → P s i → step s i = .ok s' → I s')
    {s t : σ} {is : List ι} (hs : I s) (h : run step s is = .ok t) (hguard : Along step P s is) :
    I t := by
  induction is generalizing s with
  | nil =>
    obtain rfl : s = t := by simpa using h
    exact hs
  | cons i is ih =>
    obtain ⟨s', hi, hr⟩ := run_cons_inv h
    obtain ⟨hfirst, hrest⟩ := (along_cons hi).mp hguard
    exact ih (hstep s i s' hs hfirst hi) hr hrest

/-- What is kept together with the condition that the run so far satisfied `P`. -/
theorem run_along {I : σ → Prop → Prop}
    (hstep : ∀ s i s' clean, I s clean → step s i = .ok s' → I s' (clean ∧ P s i))
    {s t : σ} {clean : Prop} {is : List ι} (hs : I s clean) (h : run step s is = .ok t) :
    I t (clean ∧ Along step P s is) :=
  run_along_of (G := fun _ _ => True) (fun s i s' clean hI _ hi => hstep s i s' clean hI hi) hs h
    (along_of_forall (fun _ _ => trivial) s is)

end Along

section Tally

variable {ε : Type w} {σ : Type u} {ι : Type v}

/-- The sum of `cost` over the steps that a run takes. -/
def tally (step : σ → ι → Except ε σ) (cost : σ → ι → Nat) : σ → List ι → Nat
  | _, [] => 0
  | s, i :: is => cost s i + match step s i with
    | .ok s' => tally step cost s' is
    | .error _ => 0

variable {step : σ → ι → Except ε σ} {cost : σ → ι → Nat}

theorem tally_cons {s s' : σ} {i : ι} {is : List ι} (h : step s i = .ok s') :
    tally step cost s (i :: is) = cost s i + tally step cost s' is := by
  simp only [tally, h]

/-- What is kept together with the costs so far. -/
theorem run_tally {I : σ → Nat → Prop}
    (hstep : ∀ s i s' n, I s n → step s i = .ok s' → I s' (n + cost s i))
    {s t : σ} {n : Nat} {is : List ι} (hs : I s n) (h : run step s is = .ok t) :
    I t (n + tally step cost s is) := by
  induction is generalizing s n with
  | nil =>
    obtain rfl : s = t := by simpa using h
    exact hs
  | cons i is ih =>
    obtain ⟨s', hi, hr⟩ := run_cons_inv h
    rw [tally_cons hi, ← Nat.add_assoc]
    exact ih (hstep s i s' n hs hi) hr

/-- A run costs nothing if and only if none of its steps does. -/
theorem tally_eq_zero_iff {s t : σ} {is : List ι} (h : run step s is = .ok t) :
    tally step cost s is = 0 ↔ Along step (fun s i => cost s i = 0) s is := by
  induction is generalizing s with
  | nil => exact iff_of_true rfl trivial
  | cons i is ih =>
    obtain ⟨s', hi, hr⟩ := run_cons_inv h
    rw [tally_cons hi, along_cons hi, Nat.add_eq_zero_iff, ih hr]

end Tally

section Rank

variable {ε : Type w} {σ : Type u} {ι : Type v} {step : σ → ι → Except ε σ} {I H : σ → Prop}
  {mine : ι → Bool}

/-- A run leaves `H` if, as long as `H` holds, no step raises `rank`, each step of one kind lowers
it, and there are more of these than `rank` says. -/
theorem run_leaves (rank : σ → Nat) (hinv : ∀ s i s', I s → step s i = .ok s' → I s')
    (hrank : ∀ s i s', I s → H s → step s i = .ok s' → H s' →
      rank s' + [i].countP mine ≤ rank s)
    {s t : σ} {is : List ι} (hs : I s) (h : run step s is = .ok t)
    (hmany : rank s < is.countP mine) :
    ∃ pre m, pre <+: is ∧ run step s pre = .ok m ∧ ¬H m := by
  induction is generalizing s with
  | nil => exact absurd hmany (Nat.not_lt_zero _)
  | cons i is ih =>
    obtain ⟨s', hi, hr⟩ := run_cons_inv h
    by_cases hin : H s
    · by_cases hout : H s'
      · have hle := hrank s i s' hs hin hi hout
        have hsplit : (i :: is).countP mine = [i].countP mine + is.countP mine := by
          rw [← List.countP_append]
          rfl
        have hmore : rank s' < is.countP mine := by omega
        obtain ⟨pre, m, hpre, hrun, hleft⟩ := ih (hinv s i s' hs hi) hr hmore
        refine ⟨i :: pre, m, ?_, ?_, hleft⟩
        · exact List.cons_prefix_cons.mpr ⟨rfl, hpre⟩
        · rw [run_cons_ok hi, hrun]
      · refine ⟨[i], s', ?_, run_cons_ok hi [], hout⟩
        exact List.cons_prefix_cons.mpr ⟨rfl, List.nil_prefix⟩
    · exact ⟨[], s, List.nil_prefix, rfl, hin⟩

end Rank

end Aesd.Foundation.Run
