/- Aesd/Foundation/SegmentLookup
   layer: library
   digest: Windows of a cyclic array, and the segment that holds a position of a concatenation. -/

import Mathlib.Algebra.BigOperators.Group.List.Basic
import Mathlib.Algebra.GroupWithZero.Nat
import Mathlib.Data.List.Basic
import Mathlib.Tactic.Common

set_option autoImplicit false
set_option relaxedAutoImplicit false

namespace Aesd.Foundation.SegmentLookup

universe u

variable {α : Type u}

section Window

/-- The `len` entries of a cyclic array of `n` slots that start at `start`. -/
def window (f : Nat → α) (n start len : Nat) : List α :=
  (List.range len).map fun i => f ((start + i) % n)

@[simp] theorem window_length (f : Nat → α) (n start len : Nat) :
    (window f n start len).length = len := by
  simp [window]

theorem window_getElem (f : Nat → α) (n start len i : Nat)
    (h : i < (window f n start len).length) :
    (window f n start len)[i] = f ((start + i) % n) := by
  simp [window]

theorem window_concat (f : Nat → α) (n start len : Nat) :
    window f n start (len + 1) = window f n start len ++ [f ((start + len) % n)] := by
  simp [window, List.range_succ]

theorem window_cons (f : Nat → α) (n start len : Nat) :
    window f n start (len + 1) = f (start % n) :: window f n (start + 1) len := by
  simp only [window, List.range_succ_eq_map, List.map_cons, List.map_map, Nat.add_zero]
  congr 1
  apply List.map_congr_left
  intro i _
  simp only [Function.comp_apply]
  congr 2
  omega

theorem window_mod (f : Nat → α) (n start len : Nat) :
    window f n (start % n) len = window f n start len := by
  simp [window]

/-- A window does not see an update outside it. -/
theorem window_congr {f g : Nat → α} {n start len : Nat}
    (h : ∀ i < len, f ((start + i) % n) = g ((start + i) % n)) :
    window f n start len = window g n start len := by
  apply List.map_congr_left
  intro i hi
  apply h
  simpa using hi

/-- Wherever a window over all slots starts, it shows the same entries. -/
theorem window_perm (f : Nat → α) {n : Nat} (hn : 0 < n) (start : Nat) :
    List.Perm (window f n start n) (window f n 0 n) := by
  obtain ⟨k, rfl⟩ : ∃ k, n = k + 1 := ⟨n - 1, by omega⟩
  induction start with
  | zero => exact List.Perm.refl _
  | succ start ih =>
    have hlast : (start + 1 + k) % (k + 1) = start % (k + 1) := by
      rw [Nat.add_assoc, Nat.add_comm 1 k, Nat.add_mod_right]
    have hrotate : window f (k + 1) (start + 1) (k + 1) =
        window f (k + 1) (start + 1) k ++ [f (start % (k + 1))] := by
      rw [window_concat, hlast]
    have hcons : window f (k + 1) start (k + 1) =
        f (start % (k + 1)) :: window f (k + 1) (start + 1) k := window_cons f (k + 1) start k
    rw [hrotate]
    rw [hcons] at ih
    exact (List.perm_append_singleton _ _).trans ih

end Window

section Locate

/-- The segment, counted from zero, that holds position `off` of a concatenation of segments of
these sizes, together with the position within that segment. -/
def locate : List Nat → Nat → Option (Nat × Nat)
  | [], _ => none
  | s :: ss, off =>
    if off < s then some (0, off) else (locate ss (off - s)).map fun p => (p.1 + 1, p.2)

theorem locate_eq_none_iff {ss : List Nat} {off : Nat} :
    locate ss off = none ↔ ss.sum ≤ off := by
  induction ss generalizing off with
  | nil => simp [locate]
  | cons s ss ih =>
    simp only [locate, List.sum_cons]
    split_ifs with h
    · simp only [false_iff]
      omega
    · rw [Option.map_eq_none_iff, ih]
      omega

/-- Lookup solves one equation: the sizes of the earlier segments plus the position found make
up the position asked for. -/
theorem locate_eq_some_iff {ss : List Nat} {off i b : Nat} :
    locate ss off = some (i, b) ↔
      ∃ h : i < ss.length, b < ss[i] ∧ (ss.take i).sum + b = off := by
  induction ss generalizing off i with
  | nil => simp [locate]
  | cons s ss ih =>
    simp only [locate]
    split_ifs with h
    · constructor
      · rintro ⟨⟩
        exact ⟨by simp, by simpa using h, by simp⟩
      · rintro ⟨hi, hb, he⟩
        cases i with
        | zero => simp only [List.take_zero, List.sum_nil, Nat.zero_add] at he; rw [he]
        | succ i => simp only [List.take_succ_cons, List.sum_cons] at he; omega
    · constructor
      · intro hm
        obtain ⟨⟨j, c⟩, hj, he⟩ := Option.map_eq_some_iff.mp hm
        obtain ⟨rfl, rfl⟩ := Prod.mk.inj he
        obtain ⟨hi, hb, hs⟩ := ih.mp hj
        refine ⟨by simpa using hi, by simpa using hb, ?_⟩
        simp only [List.take_succ_cons, List.sum_cons]
        omega
      · rintro ⟨hi, hb, he⟩
        cases i with
        | zero =>
          simp only [List.take_zero, List.sum_nil, Nat.zero_add, List.getElem_cons_zero] at he hb
          omega
        | succ i =>
          simp only [List.take_succ_cons, List.sum_cons] at he
          refine Option.map_eq_some_iff.mpr ⟨(i, b), ih.mpr ⟨by simpa using hi, ?_, ?_⟩, rfl⟩
          · simpa using hb
          · omega

theorem lt_sum_of_locate {ss : List Nat} {off : Nat} {p : Nat × Nat}
    (h : locate ss off = some p) : off < ss.sum := by
  by_contra hge
  rw [locate_eq_none_iff.mpr (Nat.le_of_not_lt hge)] at h
  cases h

/-- Further segments do not move the positions located before them. -/
theorem locate_append_left {ss : List Nat} (ts : List Nat) {off : Nat} (h : off < ss.sum) :
    locate (ss ++ ts) off = locate ss off := by
  induction ss generalizing off with
  | nil =>
    rw [List.sum_nil] at h
    omega
  | cons s ss ih =>
    rw [List.sum_cons] at h
    rw [List.cons_append, locate, locate]
    split_ifs with hfirst
    · rfl
    · rw [ih (by omega)]

/-- Positions past the first segments are located in the further ones. -/
theorem locate_append_right (ss ts : List Nat) (off : Nat) :
    locate (ss ++ ts) (ss.sum + off) = (locate ts off).map fun p => (p.1 + ss.length, p.2) := by
  induction ss with
  | nil =>
    rw [List.sum_nil, Nat.zero_add, List.nil_append]
    cases locate ts off with
    | none => rfl
    | some p => rfl
  | cons s ss ih =>
    have hpast : ¬s + ss.sum + off < s := by omega
    have hrest : s + ss.sum + off - s = ss.sum + off := by omega
    rw [List.sum_cons, List.cons_append, locate, if_neg hpast, hrest, ih]
    cases locate ts off with
    | none => rfl
    | some p => rfl

/-- Dropping up to a located position leaves the rest of its segment and the later segments. -/
theorem drop_flatten_of_locate {xss : List (List α)} {off i b : Nat}
    (h : locate (xss.map List.length) off = some (i, b)) (hi : i < xss.length) :
    xss.flatten.drop off = xss[i].drop b ++ (xss.drop (i + 1)).flatten := by
  obtain ⟨hi', hb, he⟩ := locate_eq_some_iff.mp h
  have hsplit : xss.flatten = (xss.take i).flatten ++ (xss[i] ++ (xss.drop (i + 1)).flatten) := by
    conv_lhs => rw [← List.take_append_drop i xss, List.flatten_append,
      List.drop_eq_getElem_cons hi, List.flatten_cons]
  have hlen : (xss.take i).flatten.length = ((xss.map List.length).take i).sum := by
    rw [List.length_flatten, List.map_take]
  have hb' : b ≤ xss[i].length := by
    rw [List.getElem_map] at hb
    exact Nat.le_of_lt hb
  rw [hsplit, ← he, ← hlen, List.drop_length_add_append, List.drop_append_of_le_length hb']

/-- The symbol at a position of a concatenation is the located symbol of the located segment. -/
theorem getElem?_flatten (xss : List (List α)) (off : Nat) :
    xss.flatten[off]? =
      (locate (xss.map List.length) off).bind fun p => xss[p.1]?.bind fun xs => xs[p.2]? := by
  cases h : locate (xss.map List.length) off with
  | none =>
    have hle := locate_eq_none_iff.mp h
    rw [← List.length_flatten] at hle
    simpa using hle
  | some p =>
    obtain ⟨i, b⟩ := p
    obtain ⟨hi, hb, -⟩ := locate_eq_some_iff.mp h
    rw [List.length_map] at hi
    rw [List.getElem_map] at hb
    have hdrop := congrArg (fun l => l[0]?) (drop_flatten_of_locate h hi)
    simp only [List.getElem?_drop, Nat.add_zero] at hdrop
    rw [hdrop, List.getElem?_append_left (by rw [List.length_drop]; omega)]
    simp [List.getElem?_eq_getElem hi]

end Locate

end Aesd.Foundation.SegmentLookup
