/- Aesd/Foundation/DescriptorTable
   layer: library
   digest: A table of open files in which opening takes the lowest free number. -/

import Mathlib.Data.List.Basic
import Mathlib.Tactic.Common

set_option autoImplicit false
set_option relaxedAutoImplicit false

namespace Aesd.Foundation.DescriptorTable

universe u

/-- The open file behind each number, `none` where the number is free. Numbers beyond the list are
free too. -/
abbrev Table (α : Type u) := List (Option α)

variable {α : Type u}

namespace Table

def lookup (t : Table α) (fd : Nat) : Option α := t[fd]?.join

def lowestFree : Table α → Nat
  | [] => 0
  | none :: _ => 0
  | some _ :: t => lowestFree t + 1

/-- Open a file under the lowest free number. -/
def install (x : α) : Table α → Table α
  | [] => [some x]
  | none :: t => some x :: t
  | some y :: t => some y :: install x t

def close (t : Table α) (fd : Nat) : Table α := t.set fd none

/-- Change the state of an open file. -/
def replace (t : Table α) (fd : Nat) (x : α) : Table α := t.set fd (some x)

/-- Let a number stand for an open file, whatever it stood for before. -/
def assign (x : α) : Table α → Nat → Table α
  | [], 0 => [some x]
  | [], fd + 1 => none :: assign x [] fd
  | _ :: t, 0 => some x :: t
  | o :: t, fd + 1 => o :: assign x t fd

theorem lookup_lowestFree (t : Table α) : lookup t (lowestFree t) = none := by
  induction t with
  | nil => rfl
  | cons o t ih =>
    cases o with
    | none => rfl
    | some y => exact ih

theorem lookup_install_self (x : α) (t : Table α) :
    lookup (install x t) (lowestFree t) = some x := by
  induction t with
  | nil => rfl
  | cons o t ih =>
    cases o with
    | none => rfl
    | some y => exact ih

theorem lookup_install_of_ne (x : α) {t : Table α} {fd : Nat} (h : fd ≠ lowestFree t) :
    lookup (install x t) fd = lookup t fd := by
  induction t generalizing fd with
  | nil =>
    cases fd with
    | zero => exact absurd rfl h
    | succ fd => rfl
  | cons o t ih =>
    cases o with
    | none =>
      cases fd with
      | zero => exact absurd rfl h
      | succ fd => rfl
    | some y =>
      cases fd with
      | zero => rfl
      | succ fd => exact ih fun he => h (congrArg Nat.succ he)

/-- A number in use is not the one that the next file gets. -/
theorem ne_lowestFree {t : Table α} {fd : Nat} {x : α} (h : lookup t fd = some x) :
    fd ≠ lowestFree t := by
  rintro rfl
  rw [lookup_lowestFree] at h
  cases h

theorem lookup_install {t : Table α} {fd : Nat} {x : α} (y : α) (h : lookup t fd = some x) :
    lookup (install y t) fd = some x := by
  rw [lookup_install_of_ne y (ne_lowestFree h), h]

theorem lookup_close_self (t : Table α) (fd : Nat) : lookup (close t fd) fd = none := by
  rw [lookup, close, List.getElem?_set_self']
  cases t[fd]? <;> rfl

theorem lookup_close_of_ne {t : Table α} {fd fd' : Nat} (h : fd' ≠ fd) :
    lookup (close t fd) fd' = lookup t fd' := by
  unfold lookup close
  rw [List.getElem?_set_ne h.symm]

theorem lookup_replace_self {t : Table α} {fd : Nat} {x : α} (y : α) (h : lookup t fd = some x) :
    lookup (replace t fd y) fd = some y := by
  unfold lookup replace at *
  cases hget : t[fd]? with
  | none =>
    rw [hget] at h
    cases h
  | some o =>
    have hlt : fd < t.length := (List.getElem?_eq_some_iff.mp hget).1
    rw [List.getElem?_set_self hlt]
    rfl

theorem lookup_replace_of_ne {t : Table α} {fd fd' : Nat} (y : α) (h : fd' ≠ fd) :
    lookup (replace t fd y) fd' = lookup t fd' := by
  unfold lookup replace
  rw [List.getElem?_set_ne h.symm]

theorem lookup_assign_self (x : α) (t : Table α) (fd : Nat) :
    lookup (assign x t fd) fd = some x := by
  fun_induction assign x t fd with
  | case1 => rfl
  | case2 fd ih => exact ih
  | case3 o t => rfl
  | case4 o t fd ih => exact ih

theorem lookup_assign_of_ne (x : α) {t : Table α} {fd fd' : Nat} (h : fd' ≠ fd) :
    lookup (assign x t fd) fd' = lookup t fd' := by
  fun_induction assign x t fd generalizing fd' with
  | case1 =>
    cases fd' with
    | zero => exact absurd rfl h
    | succ fd' => rfl
  | case2 fd ih =>
    cases fd' with
    | zero => rfl
    | succ fd' => exact ih fun he => h (congrArg Nat.succ he)
  | case3 o t =>
    cases fd' with
    | zero => exact absurd rfl h
    | succ fd' => rfl
  | case4 o t fd ih =>
    cases fd' with
    | zero => rfl
    | succ fd' => exact ih fun he => h (congrArg Nat.succ he)

theorem assign_of_lookup {t : Table α} {fd : Nat} {x : α} (y : α) (h : lookup t fd = some x) :
    assign y t fd = replace t fd y := by
  fun_induction assign y t fd with
  | case1 => cases h
  | case2 fd ih => cases h
  | case3 o t => rfl
  | case4 o t fd ih => exact congrArg (o :: ·) (ih h)

section Length

theorem length_install (x : α) (t : Table α) :
    (install x t).length = max t.length (lowestFree t + 1) := by
  induction t with
  | nil => rfl
  | cons o t ih =>
    cases o with
    | none => simp [install, lowestFree]
    | some y => simp [install, lowestFree, ih]

theorem length_assign (x : α) (t : Table α) (fd : Nat) :
    (assign x t fd).length = max t.length (fd + 1) := by
  fun_induction assign x t fd with
  | case1 => rfl
  | case2 fd ih => simp [ih]
  | case3 o t => simp
  | case4 o t fd ih => simp [ih]

theorem length_close (t : Table α) (fd : Nat) : (close t fd).length = t.length :=
  List.length_set

end Length

section Count

variable (p : α → Bool)

/-- The number of open files of one kind. -/
def count (t : Table α) : Nat := t.countP (Option.any p)

theorem count_le_length (t : Table α) : count p t ≤ t.length := List.countP_le_length

theorem count_install (x : α) (t : Table α) :
    count p (install x t) = count p t + (p x).toNat := by
  unfold count
  induction t with
  | nil => cases hx : p x <;> simp [install, hx]
  | cons o t ih =>
    cases o with
    | none => cases hx : p x <;> simp [install, hx]
    | some y =>
      rw [install, List.countP_cons, List.countP_cons, ih]
      omega

/-- What one entry contributes to the count. -/
theorem count_set {t : Table α} {fd : Nat} {x : α} (h : lookup t fd = some x) (o : Option α) :
    count p (t.set fd o) + (p x).toNat = count p t + (o.any p).toNat := by
  rw [lookup, Option.join_eq_some_iff] at h
  obtain ⟨hlt, hget⟩ := List.getElem?_eq_some_iff.mp h
  have hle := List.boole_getElem_le_countP (p := Option.any p) hlt
  rw [count, count, List.countP_set hlt]
  rw [hget] at hle ⊢
  simp only [Option.any_some] at hle ⊢
  have htoNat : ∀ b : Bool, b.toNat = if b = true then 1 else 0 := by decide
  rw [htoNat, htoNat]
  omega

theorem count_close {t : Table α} {fd : Nat} {x : α} (h : lookup t fd = some x) :
    count p (close t fd) + (p x).toNat = count p t :=
  count_set p h none

theorem count_replace {t : Table α} {fd : Nat} {x : α} (h : lookup t fd = some x) (y : α) :
    count p (replace t fd y) + (p x).toNat = count p t + (p y).toNat :=
  count_set p h (some y)

/-- A number in use is given to another file. -/
theorem count_assign {t : Table α} {fd : Nat} {x : α} (h : lookup t fd = some x) (y : α) :
    count p (assign y t fd) + (p x).toNat = count p t + (p y).toNat := by
  rw [assign_of_lookup y h]
  exact count_replace p h y

theorem count_eq_zero_iff (t : Table α) :
    count p t = 0 ↔ ∀ fd x, lookup t fd = some x → p x = false := by
  rw [count, List.countP_eq_zero]
  constructor
  · intro hall fd x hx
    rw [lookup, Option.join_eq_some_iff] at hx
    have hnot := hall _ (List.mem_of_getElem? hx)
    rwa [Option.any_some, Bool.not_eq_true] at hnot
  · intro hall o ho
    obtain ⟨fd, hfd⟩ := List.getElem?_of_mem ho
    cases o with
    | none => exact Bool.false_ne_true
    | some x =>
      rw [Option.any_some, Bool.not_eq_true]
      exact hall fd x (by rw [lookup, hfd]; rfl)

end Count

end Table

end Aesd.Foundation.DescriptorTable
