/- Aesd/Foundation/RecordLog
   layer: library
   digest: A stream cut into delimited records, and a log that retains the last of them. -/

import Mathlib.Data.List.Basic
import Mathlib.Data.List.DropRight
import Mathlib.Tactic.Common

set_option autoImplicit false
set_option relaxedAutoImplicit false

namespace Aesd.Foundation.RecordLog

universe u v

/-- The complete records of a stream, oldest first, and the part after its last delimiter. -/
@[ext] structure Cut (α : Type u) where
  records : List (List α)
  pending : List α
  deriving DecidableEq, Repr

variable {α : Type u} {β : Type v}

section LastEntries

theorem rdrop_append_rtake (n : Nat) (xs : List β) : xs.rdrop n ++ xs.rtake n = xs :=
  List.take_append_drop _ _

theorem rtake_concat {n : Nat} (hn : 0 < n) (xs : List β) (x : β) :
    (xs ++ [x]).rtake n =
      (if xs.length < n then xs.rtake n else (xs.rtake n).tail) ++ [x] := by
  simp only [List.rtake, List.length_append, List.length_singleton]
  split_ifs with h
  · rw [Nat.sub_eq_zero_of_le (by omega), Nat.sub_eq_zero_of_le (by omega)]
    simp
  · rw [List.drop_append_of_le_length (by omega), List.tail_drop]
    congr 2
    omega

theorem length_rtake (n : Nat) (xs : List β) : (xs.rtake n).length = min n xs.length := by
  simp only [List.rtake, List.length_drop]
  omega

/-- Only the last entries decide what is last once more entries have come. -/
theorem rtake_rtake_append (n : Nat) (xs ys : List β) :
    (xs.rtake n ++ ys).rtake n = (xs ++ ys).rtake n := by
  have hlen := length_rtake n xs
  rw [List.rtake.eq_1 (xs.rtake n ++ ys), List.length_append, hlen]
  simp only [List.rtake, List.length_append]
  by_cases h : xs.length ≤ n
  · rw [Nat.sub_eq_zero_of_le h, List.drop_zero, Nat.min_eq_right h]
  · rw [← List.drop_append_of_le_length (Nat.sub_le _ _), List.drop_drop]
    congr 1
    omega

end LastEntries

namespace Cut

def empty : Cut α := ⟨[], []⟩

section Feed

variable (isEnd : α → Bool)

/-- One more symbol; a delimiter completes the pending record and belongs to it. -/
def push (c : Cut α) (a : α) : Cut α :=
  if isEnd a then ⟨c.records ++ [c.pending ++ [a]], []⟩ else ⟨c.records, c.pending ++ [a]⟩

def feed (c : Cut α) (xs : List α) : Cut α := xs.foldl (push isEnd) c

@[simp] theorem feed_nil (c : Cut α) : c.feed isEnd [] = c := rfl

@[simp] theorem feed_cons (c : Cut α) (a : α) (xs : List α) :
    c.feed isEnd (a :: xs) = (c.push isEnd a).feed isEnd xs := rfl

theorem feed_append (c : Cut α) (xs ys : List α) :
    c.feed isEnd (xs ++ ys) = (c.feed isEnd xs).feed isEnd ys := List.foldl_append

variable {isEnd}

theorem push_of_end (c : Cut α) {a : α} (ha : isEnd a = true) :
    c.push isEnd a = ⟨c.records ++ [c.pending ++ [a]], []⟩ := by
  simp [push, ha]

theorem push_of_not_end (c : Cut α) {a : α} (ha : isEnd a = false) :
    c.push isEnd a = ⟨c.records, c.pending ++ [a]⟩ := by
  simp [push, ha]

/-- Without a delimiter a stream only lengthens the pending record. -/
theorem feed_of_no_end (c : Cut α) {xs : List α} (h : ∀ a ∈ xs, isEnd a = false) :
    c.feed isEnd xs = ⟨c.records, c.pending ++ xs⟩ := by
  induction xs generalizing c with
  | nil => simp
  | cons a xs ih =>
    rw [feed_cons, push_of_not_end c (h a (by simp)),
      ih _ (fun b hb => h b (List.mem_cons_of_mem a hb))]
    simp

/-- Records are only ever added, and what is added does not depend on the older ones. -/
theorem feed_records (c : Cut α) (xs : List α) :
    c.feed isEnd xs =
      ⟨c.records ++ ((⟨[], c.pending⟩ : Cut α).feed isEnd xs).records,
        ((⟨[], c.pending⟩ : Cut α).feed isEnd xs).pending⟩ := by
  induction xs generalizing c with
  | nil => simp
  | cons a xs ih =>
    cases ha : isEnd a with
    | false => simp only [feed_cons, push_of_not_end _ ha]; exact ih ⟨c.records, _⟩
    | true =>
      simp only [feed_cons, push_of_end _ ha]
      rw [ih ⟨c.records ++ [c.pending ++ [a]], []⟩, ih ⟨[] ++ [c.pending ++ [a]], []⟩]
      simp

theorem records_prefix_feed (c : Cut α) (xs : List α) :
    c.records <+: (c.feed isEnd xs).records := by
  rw [feed_records]
  exact List.prefix_append _ _

/-- The pending record, with the next symbol, begins the next record or stays pending. -/
theorem pending_prefix_feed (c : Cut α) (a : α) (xs : List α) :
    ∃ y, (y ∈ (c.feed isEnd (a :: xs)).records ∨ y = (c.feed isEnd (a :: xs)).pending) ∧
      c.pending ++ [a] <+: y := by
  induction xs generalizing c a with
  | nil =>
    rw [feed_cons, feed_nil]
    refine ⟨c.pending ++ [a], ?_, List.prefix_refl _⟩
    cases ha : isEnd a with
    | true =>
      rw [push_of_end c ha]
      exact .inl (List.mem_append_right _ (List.mem_singleton_self _))
    | false =>
      rw [push_of_not_end c ha]
      exact .inr rfl
  | cons b xs ih =>
    rw [feed_cons]
    cases ha : isEnd a with
    | true =>
      refine ⟨c.pending ++ [a], .inl ?_, List.prefix_refl _⟩
      rw [push_of_end c ha]
      apply (records_prefix_feed _ _).mem
      exact List.mem_append_right _ (List.mem_singleton_self _)
    | false =>
      obtain ⟨y, hy, hpre⟩ := ih (c.push isEnd a) b
      refine ⟨y, hy, List.IsPrefix.trans ?_ hpre⟩
      rw [push_of_not_end c ha]
      exact List.prefix_append _ _

/-- Cutting loses no symbol and changes no order. -/
theorem feed_flatten_append (c : Cut α) (xs : List α) :
    (c.feed isEnd xs).records.flatten ++ (c.feed isEnd xs).pending =
      c.records.flatten ++ c.pending ++ xs := by
  induction xs generalizing c with
  | nil => simp
  | cons a xs ih =>
    rw [feed_cons, ih]
    cases ha : isEnd a <;> simp [push, ha]

end Feed

/-- A record is a body without delimiters followed by one delimiter. -/
def IsRecord (isEnd : α → Bool) (r : List α) : Prop :=
  ∃ body a, r = body ++ [a] ∧ isEnd a = true ∧ ∀ x ∈ body, isEnd x = false

theorem IsRecord.ne_nil {isEnd : α → Bool} {r : List α} (h : IsRecord isEnd r) : r ≠ [] := by
  obtain ⟨body, a, rfl, _⟩ := h
  simp

/-- A record cut in two: no delimiter in front, a record behind. -/
theorem IsRecord.of_append {isEnd : α → Bool} {xs ys : List α} (h : IsRecord isEnd (xs ++ ys))
    (hne : ys ≠ []) : (∀ x ∈ xs, isEnd x = false) ∧ IsRecord isEnd ys := by
  obtain ⟨body, a, heq, ha, hbody⟩ := h
  obtain ⟨zs, z, rfl⟩ := (List.eq_nil_or_concat' ys).resolve_left hne
  rw [← List.append_assoc] at heq
  obtain ⟨hxs, hz⟩ := List.append_inj' heq rfl
  obtain rfl := List.singleton_inj.mp hz
  subst hxs
  constructor
  · intro x hx
    exact hbody x (List.mem_append_left zs hx)
  · exact ⟨zs, z, rfl, ha, fun x hx => hbody x (List.mem_append_right xs hx)⟩

/-- A record completes what is pending. -/
theorem feed_isRecord {isEnd : α → Bool} (c : Cut α) {r : List α} (h : IsRecord isEnd r) :
    c.feed isEnd r = ⟨c.records ++ [c.pending ++ r], []⟩ := by
  obtain ⟨body, a, rfl, ha, hbody⟩ := h
  rw [feed_append, feed_of_no_end c hbody, feed_cons, feed_nil, push_of_end _ ha,
    List.append_assoc]

/-- A stream has one decomposition into records and a rest without delimiters. -/
theorem feed_decomposition {isEnd : α → Bool} {rs : List (List α)} {rest : List α}
    (hrest : ∀ a ∈ rest, isEnd a = false) :
    (∀ r ∈ rs, IsRecord isEnd r) → ∀ older : List (List α),
      (⟨older, []⟩ : Cut α).feed isEnd (rs.flatten ++ rest) = ⟨older ++ rs, rest⟩ := by
  induction rs with
  | nil =>
    intro _ older
    rw [List.flatten_nil, List.nil_append, feed_of_no_end _ hrest, List.append_nil]
    rfl
  | cons r rs ih =>
    intro hrs older
    rw [List.flatten_cons, List.append_assoc, feed_append,
      feed_isRecord _ (hrs r List.mem_cons_self), List.nil_append,
      ih (fun r' hr' => hrs r' (List.mem_cons_of_mem r hr')), List.append_assoc]
    rfl

section Map

def map (f : α → β) (c : Cut α) : Cut β := ⟨c.records.map (List.map f), c.pending.map f⟩

/-- A cut that looks at a part of every symbol only. -/
theorem map_feed {isEnd : β → Bool} (f : α → β) (c : Cut α) (xs : List α) :
    (c.feed (fun x => isEnd (f x)) xs).map f = (c.map f).feed isEnd (xs.map f) := by
  induction xs generalizing c with
  | nil => rfl
  | cons a xs ih =>
    rw [feed_cons, ih, List.map_cons, feed_cons]
    congr 1
    unfold push map
    split <;> simp

theorem IsRecord.map {isEnd : β → Bool} (f : α → β) {r : List α}
    (h : IsRecord (fun x => isEnd (f x)) r) : IsRecord isEnd (r.map f) := by
  obtain ⟨body, a, rfl, ha, hbody⟩ := h
  refine ⟨body.map f, f a, by rw [List.map_append, List.map_singleton], ha, ?_⟩
  intro x hx
  obtain ⟨b, hb, rfl⟩ := List.mem_map.mp hx
  exact hbody b hb

end Map

/-- Every record has its one delimiter at its end and the pending part has none. -/
structure WellCut (isEnd : α → Bool) (c : Cut α) : Prop where
  records : ∀ r ∈ c.records, IsRecord isEnd r
  pending : ∀ a ∈ c.pending, isEnd a = false

theorem wellCut_empty (isEnd : α → Bool) : WellCut isEnd (empty : Cut α) :=
  ⟨by simp [empty], by simp [empty]⟩

theorem WellCut.push {isEnd : α → Bool} {c : Cut α} (h : WellCut isEnd c) (a : α) :
    WellCut isEnd (c.push isEnd a) := by
  cases ha : isEnd a with
  | false =>
    rw [push_of_not_end c ha]
    refine ⟨h.records, ?_⟩
    intro b hb
    rcases List.mem_append.mp hb with hb | hb
    · exact h.pending b hb
    · rw [List.mem_singleton.mp hb, ha]
  | true =>
    rw [push_of_end c ha]
    refine ⟨?_, by simp⟩
    intro r hr
    rcases List.mem_append.mp hr with hr | hr
    · exact h.records r hr
    · exact ⟨c.pending, a, List.mem_singleton.mp hr, ha, h.pending⟩

theorem WellCut.feed {isEnd : α → Bool} {c : Cut α} (h : WellCut isEnd c) (xs : List α) :
    WellCut isEnd (c.feed isEnd xs) := by
  induction xs generalizing c with
  | nil => exact h
  | cons a xs ih => exact ih (h.push a)

section Retention

/-- The last `n` records, the ones a log of `n` slots still has. -/
def retained (n : Nat) (c : Cut α) : List (List α) := c.records.rtake n

/-- The number of symbols in the records that a log of `n` slots has given up. -/
def evicted (n : Nat) (c : Cut α) : Nat := (c.records.rdrop n).flatten.length

/-- All symbols of complete records, whether or not the log still has them. -/
def committed (c : Cut α) : List α := c.records.flatten

theorem retained_length (n : Nat) (c : Cut α) :
    (c.retained n).length = min n c.records.length := length_rtake n c.records

theorem committed_eq (n : Nat) (c : Cut α) :
    c.committed = (c.records.rdrop n).flatten ++ (c.retained n).flatten := by
  rw [retained, ← List.flatten_append, rdrop_append_rtake, committed]

/-- The retained records are what the committed symbols still are beyond the evicted ones. -/
theorem committed_drop_evicted (n : Nat) (c : Cut α) :
    c.committed.drop (c.evicted n) = (c.retained n).flatten := by
  rw [committed_eq n, evicted, List.drop_left]

/-- A log of `n` slots has the whole stream if and only if there are no more records than slots and
the last record is complete. -/
theorem WellCut.whole_iff {isEnd : α → Bool} {c : Cut α} (h : WellCut isEnd c) (n : Nat) :
    c.committed ++ c.pending = (c.retained n).flatten ↔
      c.records.length ≤ n ∧ c.pending = [] := by
  have hgone : (c.records.rdrop n).flatten = [] ↔ c.records.length ≤ n := by
    rw [List.flatten_eq_nil_iff]
    constructor
    · intro hall
      by_contra hmore
      have hlen : (c.records.rdrop n).length = c.records.length - n := by
        rw [List.rdrop, List.length_take]
        omega
      cases hrs : c.records.rdrop n with
      | nil =>
        rw [hrs, List.length_nil] at hlen
        omega
      | cons r rs =>
        have hmem : r ∈ c.records.rdrop n := by
          rw [hrs]
          exact List.mem_cons_self
        have hrecord := h.records r (List.mem_of_mem_take hmem)
        exact hrecord.ne_nil (hall r hmem)
    · intro hle r hr
      rw [List.rdrop, Nat.sub_eq_zero_of_le hle, List.take_zero] at hr
      cases hr
  rw [← hgone, committed_eq n]
  constructor
  · intro heq
    have hlen := congrArg List.length heq
    simp only [List.length_append] at hlen
    exact ⟨List.eq_nil_of_length_eq_zero (by omega), List.eq_nil_of_length_eq_zero (by omega)⟩
  · rintro ⟨hnone, hpending⟩
    rw [hnone, hpending, List.nil_append, List.append_nil]

theorem evicted_add_retained (n : Nat) (c : Cut α) :
    c.evicted n + (c.retained n).flatten.length = c.committed.length := by
  rw [committed_eq n, List.length_append, evicted]

/-- One more record evicts the oldest retained one exactly when all slots are taken. -/
theorem evicted_concat {n : Nat} (hn : 0 < n) (rs : List (List α)) (p q r : List α) :
    (⟨rs ++ [r], p⟩ : Cut α).evicted n = (⟨rs, q⟩ : Cut α).evicted n +
      (if rs.length < n then 0 else ((rs.rtake n).headD []).length) := by
  have hcat := congrArg (fun l => l.flatten.length) (rtake_concat hn rs r)
  have hall := congrArg (fun l => l.flatten.length) (rdrop_append_rtake n (rs ++ [r]))
  have hold := congrArg (fun l => l.flatten.length) (rdrop_append_rtake n rs)
  simp only [evicted]
  split_ifs at hcat ⊢ with h
  · simp only [List.flatten_append, List.length_append] at hcat hall hold ⊢
    omega
  · have hne : rs.rtake n ≠ [] := by
      intro he
      have := length_rtake n rs
      simp only [he, List.length_nil] at this
      omega
    obtain ⟨x, xs, hx⟩ := List.exists_cons_of_ne_nil hne
    simp only [hx, List.flatten_append, List.flatten_cons, List.length_append, List.tail_cons,
      List.headD_cons] at hcat hall hold ⊢
    omega

theorem committed_prefix_feed (isEnd : α → Bool) (c : Cut α) (xs : List α) :
    c.committed <+: (c.feed isEnd xs).committed := by
  have hpre : c.records <+: (c.feed isEnd xs).records := c.records_prefix_feed xs
  obtain ⟨rs, hrs⟩ := hpre
  exact ⟨rs.flatten, by rw [committed, ← List.flatten_append, hrs, committed]⟩

end Retention

end Cut

end Aesd.Foundation.RecordLog
