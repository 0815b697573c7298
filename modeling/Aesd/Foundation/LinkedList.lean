/- Aesd/Foundation/LinkedList
   layer: library
   digest: Singly linked lists of nodes in memory, and what removing a node does to them. -/

import Mathlib.Data.List.Basic
import Mathlib.Data.List.Nodup
import Mathlib.Data.List.Perm.Subperm
import Mathlib.Tactic.Common

set_option autoImplicit false
set_option relaxedAutoImplicit false

namespace Aesd.Foundation.LinkedList

universe u

structure Node (α : Type u) where
  value : α
  next : Option Nat
  freed : Bool

/-- The nodes by address. A freed node stays in its place. -/
abbrev Nodes (α : Type u) := List (Node α)

section Operations

variable {α : Type u}

def setNext (m : Nodes α) (a : Nat) (p : Option Nat) : Nodes α :=
  m.modify a fun nd => { nd with next := p }

def setValue (m : Nodes α) (a : Nat) (v : α) : Nodes α :=
  m.modify a fun nd => { nd with value := v }

/-- Walk from `cur` to the node in front of `elm` and lead its link past `elm`. The second part of
the result are the addresses read. There is no result if the walk leaves the list. -/
def removeAfter (m : Nodes α) (elm : Nat) : Nat → Nat → Option (Nodes α × List Nat)
  | 0, _ => none
  | fuel + 1, cur =>
    match m[cur]? with
    | none => none
    | some nd =>
      if nd.next = some elm then
        m[elm]?.map fun e => (setNext m cur e.next, [cur, elm])
      else match nd.next with
        | none => none
        | some c => (removeAfter m elm fuel c).map fun r => (r.1, cur :: r.2)

structure Removal (α : Type u) where
  nodes : Nodes α
  head : Option Nat
  reads : List Nat

/-- Take the node `elm` out of the list at `head`. -/
def remove (m : Nodes α) (head : Option Nat) (elm : Nat) : Option (Removal α) :=
  if head = some elm then
    m[elm]?.map fun e => ⟨m, e.next, [elm]⟩
  else match head with
    | none => none
    | some cur => (removeAfter m elm m.length cur).map fun r => ⟨r.1, head, r.2⟩

end Operations

section Chain

variable {α : Type u} {m m' : Nodes α} {p q : Option Nat} {a : Nat} {xs ys : List Nat}

/-- From the pointer `p` the links lead through the addresses `xs`. -/
def Chain (m : Nodes α) : Option Nat → List Nat → Prop
  | p, [] => p = none
  | p, a :: xs => p = some a ∧ ∃ nd, m[a]? = some nd ∧ Chain m nd.next xs

theorem Chain.head_eq (h : Chain m p xs) : p = xs.head? := by
  cases xs with
  | nil => exact h
  | cons a xs => exact h.1

/-- A chain depends on the links of its own nodes only. -/
theorem Chain.congr (h : Chain m p xs)
    (hsame : ∀ a ∈ xs, (m'[a]?).map Node.next = (m[a]?).map Node.next) : Chain m' p xs := by
  induction xs generalizing p with
  | nil => exact h
  | cons a xs ih =>
    obtain ⟨rfl, nd, hnd, hrest⟩ := h
    have hhere := hsame a List.mem_cons_self
    rw [hnd, Option.map_some] at hhere
    obtain ⟨nd', hnd', hnext⟩ := Option.map_eq_some_iff.mp hhere
    refine ⟨rfl, nd', hnd', ?_⟩
    rw [hnext]
    exact ih hrest fun b hb => hsame b (List.mem_cons_of_mem a hb)

theorem getElem?_setNext_self {nd : Node α} (h : m[a]? = some nd) (p : Option Nat) :
    (setNext m a p)[a]? = some { nd with next := p } := by
  rw [setNext, List.getElem?_modify_eq, h]
  rfl

theorem getElem?_setNext_of_ne {b : Nat} (h : b ≠ a) (p : Option Nat) :
    (setNext m a p)[b]? = m[b]? :=
  List.getElem?_modify_ne _ _ h.symm

@[simp] theorem length_setNext (m : Nodes α) (a : Nat) (p : Option Nat) :
    (setNext m a p).length = m.length :=
  List.length_modify _ _ _

theorem getElem?_setValue_self {nd : Node α} (h : m[a]? = some nd) (v : α) :
    (setValue m a v)[a]? = some { nd with value := v } := by
  rw [setValue, List.getElem?_modify_eq, h]
  rfl

theorem getElem?_setValue_of_ne {b : Nat} (h : b ≠ a) (v : α) :
    (setValue m a v)[b]? = m[b]? :=
  List.getElem?_modify_ne _ _ h.symm

@[simp] theorem length_setValue (m : Nodes α) (a : Nat) (v : α) :
    (setValue m a v).length = m.length :=
  List.length_modify _ _ _

/-- Values are not part of the chain. -/
theorem Chain.setValue (h : Chain m p xs) (v : α) : Chain (setValue m a v) p xs := by
  apply h.congr
  intro b _
  by_cases heq : b = a
  · subst heq
    cases hnd : m[b]? with
    | none =>
      have hout : (LinkedList.setValue m b v)[b]? = none := by
        rw [LinkedList.setValue, List.getElem?_modify_eq, hnd]
        rfl
      rw [hout]
    | some nd =>
      rw [getElem?_setValue_self hnd]
      rfl
  · rw [getElem?_setValue_of_ne heq]

/-- A node in front of a chain. -/
theorem Chain.insertHead (h : Chain m p xs) {nd : Node α} (hnd : m[a]? = some nd) (ha : a ∉ xs) :
    Chain (setNext m a p) (some a) (a :: xs) := by
  refine ⟨rfl, _, getElem?_setNext_self hnd p, ?_⟩
  apply h.congr
  intro b hb
  have hne : b ≠ a := fun he => ha (he ▸ hb)
  rw [getElem?_setNext_of_ne hne]

theorem Chain.mem_lt (h : Chain m p xs) : ∀ a ∈ xs, a < m.length := by
  induction xs generalizing p with
  | nil => exact nofun
  | cons b xs ih =>
    obtain ⟨-, nd, hnd, hrest⟩ := h
    intro a ha
    rcases List.mem_cons.mp ha with rfl | ha
    · exact (List.getElem?_eq_some_iff.mp hnd).1
    · exact ih hrest a ha

theorem Chain.length_le (h : Chain m p xs) (hnodup : xs.Nodup) : xs.length ≤ m.length := by
  have hsub : xs ⊆ List.range m.length := fun a ha => List.mem_range.mpr (h.mem_lt a ha)
  have hle := (hnodup.subperm hsub).length_le
  rwa [List.length_range] at hle

/-- The walk finds the node wherever it stands behind `cur`, and changes nodes in front of it
only. -/
theorem removeAfter_spec {cur elm fuel : Nat} (h : Chain m (some cur) (cur :: (xs ++ elm :: ys)))
    (hnodup : (cur :: (xs ++ elm :: ys)).Nodup) (hfuel : xs.length < fuel) :
    ∃ m', removeAfter m elm fuel cur = some (m', cur :: (xs ++ [elm])) ∧
      Chain m' (some cur) (cur :: (xs ++ ys)) ∧ ∀ b, b ∉ cur :: xs → m'[b]? = m[b]? := by
  induction fuel generalizing cur xs with
  | zero => exact absurd hfuel (Nat.not_lt_zero _)
  | succ fuel ih =>
    obtain ⟨-, nd, hnd, hrest⟩ := h
    obtain ⟨hcur, htail⟩ := List.nodup_cons.mp hnodup
    cases xs with
    | nil =>
      obtain ⟨hnext, e, he, hys⟩ := hrest
      refine ⟨setNext m cur e.next, ?_, ?_, ?_⟩
      · rw [removeAfter, hnd]
        simp only [hnext, if_true, he, Option.map_some, List.nil_append]
      · refine ⟨rfl, _, getElem?_setNext_self hnd e.next, ?_⟩
        apply hys.congr
        intro b hb
        have hne : b ≠ cur := by
          rintro rfl
          exact hcur (List.mem_cons_of_mem elm hb)
        rw [getElem?_setNext_of_ne hne]
      · intro b hb
        have hne : b ≠ cur := fun he => hb (List.mem_singleton.mpr he)
        exact getElem?_setNext_of_ne hne _
    | cons x xs =>
      have hrest' : Chain m nd.next (x :: (xs ++ elm :: ys)) := hrest
      have hnext := hrest'.1
      have hne : x ≠ elm := by
        rintro rfl
        exact (List.nodup_cons.mp htail).1 (List.mem_append_right xs List.mem_cons_self)
      rw [hnext] at hrest'
      obtain ⟨m', hwalk, hchain, hothers⟩ :=
        ih hrest' htail (Nat.lt_of_succ_lt_succ hfuel)
      refine ⟨m', ?_, ?_, ?_⟩
      · rw [removeAfter, hnd]
        simp only [hnext, Option.some.injEq, if_neg hne, hwalk, Option.map_some, List.cons_append]
      · have hsame : m'[cur]? = some nd := by
          rw [hothers cur _, hnd]
          intro hmem
          apply hcur
          rcases List.mem_cons.mp hmem with rfl | hmem
          · exact List.mem_cons_self
          · exact List.mem_cons_of_mem x (List.mem_append_left _ hmem)
        exact ⟨rfl, nd, hsame, by rw [hnext]; exact hchain⟩
      · intro b hb
        exact hothers b fun hmem => hb (List.mem_cons_of_mem cur hmem)

/-- Removing a node takes it out of the chain, wherever it stands, and changes nodes in front of
it only. -/
theorem remove_spec {elm : Nat} (h : Chain m p (xs ++ elm :: ys))
    (hnodup : (xs ++ elm :: ys).Nodup) :
    ∃ r, remove m p elm = some r ∧ Chain r.nodes r.head (xs ++ ys) ∧ r.reads = xs ++ [elm] ∧
      ∀ b, b ∉ xs → r.nodes[b]? = m[b]? := by
  cases xs with
  | nil =>
    obtain ⟨rfl, e, he, hys⟩ := h
    refine ⟨⟨m, e.next, [elm]⟩, ?_, hys, rfl, fun _ _ => rfl⟩
    rw [remove, if_pos rfl, he]
    rfl
  | cons x xs =>
    obtain rfl := h.1
    have hne : some x ≠ some elm := by
      intro heq
      obtain rfl := Option.some.inj heq
      exact (List.nodup_cons.mp hnodup).1 (List.mem_append_right xs List.mem_cons_self)
    have hlen := h.length_le hnodup
    rw [List.length_append, List.length_cons, List.length_cons] at hlen
    have hfuel : xs.length < m.length := by omega
    obtain ⟨m', hwalk, hchain, hothers⟩ := removeAfter_spec h hnodup hfuel
    refine ⟨⟨m', some x, x :: (xs ++ [elm])⟩, ?_, hchain, rfl, hothers⟩
    rw [remove, if_neg hne]
    simp only [hwalk, Option.map_some]

end Chain

section Contents

variable {α : Type u} {m m' : Nodes α} {a b : Nat}

/-- The node at an address apart from its link. -/
def contents (m : Nodes α) (a : Nat) : Option (α × Bool) :=
  m[a]?.map fun nd => (nd.value, nd.freed)

theorem contents_of_getElem? (h : m'[a]? = m[a]?) : contents m' a = contents m a := by
  rw [contents, contents, h]

theorem contents_setNext (m : Nodes α) (a : Nat) (p : Option Nat) (b : Nat) :
    contents (setNext m a p) b = contents m b := by
  by_cases heq : b = a
  · subst heq
    rw [contents, contents, setNext, List.getElem?_modify_eq]
    cases m[b]? <;> rfl
  · exact contents_of_getElem? (getElem?_setNext_of_ne heq p)

theorem contents_removeAfter {elm fuel cur : Nat} {r : Nodes α × List Nat}
    (h : removeAfter m elm fuel cur = some r) (b : Nat) : contents r.1 b = contents m b := by
  induction fuel generalizing cur r with
  | zero => cases h
  | succ fuel ih =>
    rw [removeAfter] at h
    split at h
    next => cases h
    next nd hnd =>
      split_ifs at h with hnext
      · obtain ⟨e, -, rfl⟩ := Option.map_eq_some_iff.mp h
        exact contents_setNext m cur e.next b
      · split at h
        next => cases h
        next c _ =>
          obtain ⟨r', hr', rfl⟩ := Option.map_eq_some_iff.mp h
          show contents r'.1 b = _
          exact ih hr'

/-- Removing a node changes links only, wherever the walk leads. -/
theorem contents_remove {p : Option Nat} {elm : Nat} {r : Removal α}
    (h : remove m p elm = some r) (b : Nat) : contents r.nodes b = contents m b := by
  unfold remove at h
  split_ifs at h with hhead
  · obtain ⟨e, -, rfl⟩ := Option.map_eq_some_iff.mp h
    rfl
  · split at h
    next => cases h
    next cur =>
      obtain ⟨r', hr', rfl⟩ := Option.map_eq_some_iff.mp h
      exact contents_removeAfter hr' b

end Contents

end Aesd.Foundation.LinkedList
