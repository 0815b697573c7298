/- Aesd/Foundation/FileStream
   layer: library
   digest: A file that is read and written at one position. -/

import Mathlib.Data.List.Basic
import Mathlib.Tactic.Common

set_option autoImplicit false
set_option relaxedAutoImplicit false

namespace Aesd.Foundation.FileStream

universe u

/-- The contents of a file and the position in it, which is never behind the end. -/
structure Stream (α : Type u) where
  contents : List α
  pos : Nat
  inside : pos ≤ contents.length

variable {α : Type u}

namespace Stream

section Operations

def empty : Stream α := ⟨[], 0, Nat.zero_le 0⟩

def toEnd (s : Stream α) : Stream α := ⟨s.contents, s.contents.length, Nat.le_refl _⟩

def toStart (s : Stream α) : Stream α := ⟨s.contents, 0, Nat.zero_le _⟩

/-- Write at the position, over what is there. -/
def put (xs : List α) (s : Stream α) : Stream α where
  contents := s.contents.take s.pos ++ (xs ++ s.contents.drop (s.pos + xs.length))
  pos := s.pos + xs.length
  inside := by
    have hinside := s.inside
    simp only [List.length_append, List.length_take, List.length_drop]
    omega

/-- What a read of `n` elements returns. -/
def peek (n : Nat) (s : Stream α) : List α := (s.contents.drop s.pos).take n

/-- The file behind such a read. -/
def get (n : Nat) (s : Stream α) : Stream α where
  contents := s.contents
  pos := s.pos + (s.peek n).length
  inside := by
    have hinside := s.inside
    simp only [peek, List.length_take, List.length_drop]
    omega

end Operations

section Laws

variable {s : Stream α}

/-- A write at the end appends. -/
theorem contents_put (h : s.pos = s.contents.length) (xs : List α) :
    (s.put xs).contents = s.contents ++ xs := by
  have hrest : s.contents.drop (s.pos + xs.length) = [] := List.drop_eq_nil_of_le (by omega)
  show s.contents.take s.pos ++ (xs ++ s.contents.drop (s.pos + xs.length)) = _
  rw [hrest, h, List.take_length, List.append_nil]

/-- Successive reads go through the contents without a gap. -/
theorem take_pos_get (n : Nat) (s : Stream α) :
    (s.get n).contents.take (s.get n).pos = s.contents.take s.pos ++ s.peek n := by
  have hpeek : s.peek n = (s.contents.drop s.pos).take (s.peek n).length := by
    rw [peek, List.length_take, List.take_eq_take_iff]
    omega
  conv_rhs => rw [hpeek]
  rw [get, List.take_add]

/-- Only a read at the end returns nothing. -/
theorem peek_eq_nil_iff {n : Nat} (hn : 0 < n) (s : Stream α) :
    s.peek n = [] ↔ s.pos = s.contents.length := by
  have hinside := s.inside
  rw [peek, List.take_eq_nil_iff, List.drop_eq_nil_iff]
  omega

end Laws

end Stream

end Aesd.Foundation.FileStream
