/- Aesd/Foundation/BlockHeap
   layer: library
   digest: A block heap whose erroneous accesses are faults, with its frame lemmas. -/

import Mathlib.Data.List.Basic
import Mathlib.Data.Set.Insert
import Mathlib.Tactic.Common

set_option autoImplicit false
set_option relaxedAutoImplicit false

namespace Aesd.Foundation.BlockHeap

universe u v

/-- A pointer to the start of a block, or one of the two pointers that designate no block. -/
inductive Ptr
  | null
  | zeroSize
  | block (id : Nat)
  deriving DecidableEq, Repr

/-- The block a pointer designates, as a list of length at most one. -/
def Ptr.ids : Ptr → List Nat
  | .block h => [h]
  | _ => []

@[simp] theorem Ptr.ids_null : Ptr.null.ids = [] := rfl
@[simp] theorem Ptr.ids_zeroSize : Ptr.zeroSize.ids = [] := rfl
@[simp] theorem Ptr.ids_block (h : Nat) : (Ptr.block h).ids = [h] := rfl

/-- What a program may not do to memory; every operation below stops at the first of them.
`wrap` is an unsigned subtraction below zero, `diverged` a loop that left its stated bound. -/
inductive Fault
  | invalidFree
  | useAfterFree
  | outOfRange
  | uninitialised
  | wrap
  | diverged
  deriving DecidableEq, Repr

@[simp] theorem ok_bind {ε : Type v} {α β : Type u} (a : α) (f : α → Except ε β) :
    ((Except.ok a : Except ε α) >>= f) = f a := rfl

@[simp] theorem pure_eq_ok {ε : Type v} {α : Type u} (a : α) : (pure a : Except ε α) = Except.ok a := rfl

/-- A computation that succeeds does so step by step. -/
theorem bind_ok {ε : Type v} {α β : Type u} {x : Except ε α} {f : α → Except ε β} {r : β}
    (h : (x >>= f) = .ok r) : ∃ a, x = .ok a ∧ f a = .ok r := by
  cases x with
  | error e => cases h
  | ok a => exact ⟨a, rfl, h⟩

/-- Unsigned subtraction that faults where the machine would wrap. -/
def checkedSub (a b : Nat) : Except Fault Nat :=
  if b ≤ a then .ok (a - b) else .error .wrap

theorem checkedSub_eq {a b : Nat} (h : b ≤ a) : checkedSub a b = .ok (a - b) := by
  simp [checkedSub, h]

/-- Blocks of cells, a cell being `none` until something is stored in it. Identifiers from
`next` on have never been handed out. -/
@[ext] structure Heap (β : Type u) where
  next : Nat
  blocks : Nat → Option (List (Option β))
  fresh : ∀ h, next ≤ h → blocks h = none

variable {β : Type u}

namespace Heap

def empty : Heap β where
  next := 0
  blocks := fun _ => none
  fresh := fun _ _ => rfl

/-- The identifiers of the blocks that are allocated and not yet freed. -/
def live (m : Heap β) : Set Nat := {h | m.blocks h ≠ none}

@[simp] theorem mem_live {m : Heap β} {h : Nat} : h ∈ m.live ↔ m.blocks h ≠ none := Iff.rfl

theorem lt_next_of_live {m : Heap β} {h : Nat} (hl : h ∈ m.live) : h < m.next := by
  by_contra hn
  exact hl (m.fresh h (by omega))

theorem live_of_blocks {m : Heap β} {h : Nat} {cs : List (Option β)}
    (hb : m.blocks h = some cs) : h ∈ m.live := by
  simp [hb]

/-- Replace the block of an identifier already handed out. -/
def set (m : Heap β) (h : Nat) (b : Option (List (Option β))) : Heap β where
  next := m.next
  blocks := fun x => if x = h ∧ h < m.next then b else m.blocks x
  fresh := by
    intro x hx
    rw [if_neg (by omega)]
    exact m.fresh x hx

/-- A fresh block of `n` cells, all of them uninitialised. -/
def alloc (m : Heap β) (n : Nat) : Heap β where
  next := m.next + 1
  blocks := fun x => if x = m.next then some (List.replicate n none) else m.blocks x
  fresh := by
    intro x hx
    rw [if_neg (by omega)]
    exact m.fresh x (by omega)

/-- Freeing either pointer that designates no block does nothing. -/
def free (m : Heap β) : Ptr → Except Fault (Heap β)
  | .null => .ok m
  | .zeroSize => .ok m
  | .block h => if m.blocks h = none then .error .invalidFree else .ok (m.set h none)

/-- Free pointers one after the other. -/
def freeList : List Ptr → Heap β → Except Fault (Heap β)
  | [], m => .ok m
  | p :: ps, m => do
    let m ← m.free p
    freeList ps m

/-- The cells `off, …, off + len - 1` of a block. An empty range touches no memory. -/
def readCells (m : Heap β) (p : Ptr) (off len : Nat) : Except Fault (List (Option β)) :=
  if len = 0 then .ok []
  else match p with
    | .block h => match m.blocks h with
      | none => .error .useAfterFree
      | some cs => if off + len ≤ cs.length then .ok ((cs.drop off).take len)
          else .error .outOfRange
    | _ => .error .outOfRange

/-- Overwrite the cells from `off` on. An empty range touches no memory. -/
def writeCells (m : Heap β) (p : Ptr) (off : Nat) (data : List (Option β)) :
    Except Fault (Heap β) :=
  if data = [] then .ok m
  else match p with
    | .block h => match m.blocks h with
      | none => .error .useAfterFree
      | some cs => if off + data.length ≤ cs.length then
            .ok (m.set h (some (cs.take off ++ data ++ cs.drop (off + data.length))))
          else .error .outOfRange
    | _ => .error .outOfRange

/-- Copy a range of cells, initialised or not. -/
def memcpy (m : Heap β) (dst : Ptr) (dstOff : Nat) (src : Ptr) (srcOff len : Nat) :
    Except Fault (Heap β) := do
  let cells ← m.readCells src srcOff len
  m.writeCells dst dstOff cells

/-- The values of a range of cells, all of which have to be initialised. -/
def load (m : Heap β) (p : Ptr) (off len : Nat) : Except Fault (List β) := do
  let cells ← m.readCells p off len
  match cells.mapM id with
  | some bs => .ok bs
  | none => .error .uninitialised

/-- The first cells of a live block hold exactly these values. -/
def Holds (m : Heap β) (h : Nat) (bs : List β) : Prop :=
  ∃ rest, m.blocks h = some (bs.map some ++ rest)

theorem Holds.live {m : Heap β} {h : Nat} {bs : List β} (hh : m.Holds h bs) : h ∈ m.live := by
  obtain ⟨rest, hb⟩ := hh
  exact live_of_blocks hb

theorem Holds.congr {m m' : Heap β} {h : Nat} {bs : List β} (hh : m.Holds h bs)
    (he : m'.blocks h = m.blocks h) : m'.Holds h bs := by
  obtain ⟨rest, hb⟩ := hh
  exact ⟨rest, he.trans hb⟩

theorem Holds.take {m : Heap β} {h : Nat} {bs cs : List β} (hh : m.Holds h (bs ++ cs)) :
    m.Holds h bs := by
  obtain ⟨rest, hb⟩ := hh
  exact ⟨cs.map some ++ rest, by simpa using hb⟩

theorem set_blocks_self {m : Heap β} {h : Nat} (hl : h ∈ m.live) (b : Option (List (Option β))) :
    (m.set h b).blocks h = b := by
  simp [set, lt_next_of_live hl]

theorem set_blocks_of_ne (m : Heap β) {h x : Nat} (hx : x ≠ h) (b : Option (List (Option β))) :
    (m.set h b).blocks x = m.blocks x := by
  simp [set, hx]

theorem set_self (m : Heap β) {h : Nat} {b : Option (List (Option β))} (hb : m.blocks h = b) :
    m.set h b = m := by
  apply Heap.ext
  · rfl
  · funext x
    by_cases hx : x = h
    · subst hx
      simp [set, hb]
    · exact set_blocks_of_ne m hx b

theorem live_set_some (m : Heap β) {h : Nat} (hl : h ∈ m.live) (cs : List (Option β)) :
    (m.set h (some cs)).live = m.live := by
  ext x
  by_cases hx : x = h
  · subst hx
    exact iff_of_true (by simp [set_blocks_self hl]) hl
  · simp [set_blocks_of_ne m hx]

theorem live_set_none (m : Heap β) (h : Nat) : (m.set h none).live = m.live \ {h} := by
  ext x
  by_cases hx : x = h
  · subst hx
    by_cases hl : x ∈ m.live
    · simp [set_blocks_self hl]
    · have hb : m.blocks x = none := by simpa using hl
      simp [set_self m hb, hb]
  · simp [set_blocks_of_ne m hx, hx]

theorem alloc_blocks_next (m : Heap β) (n : Nat) :
    (m.alloc n).blocks m.next = some (List.replicate n none) := by
  simp [alloc]

theorem alloc_blocks_of_live {m : Heap β} {x : Nat} (hl : x ∈ m.live) (n : Nat) :
    (m.alloc n).blocks x = m.blocks x := by
  have hx : x ≠ m.next := (lt_next_of_live hl).ne
  simp [alloc, hx]

theorem live_alloc (m : Heap β) (n : Nat) : (m.alloc n).live = insert m.next m.live := by
  ext x
  by_cases hx : x = m.next <;> simp [alloc, hx]

theorem next_not_live (m : Heap β) : m.next ∉ m.live :=
  fun hl => absurd (lt_next_of_live hl) (lt_irrefl _)

theorem free_block {m : Heap β} {h : Nat} (hl : h ∈ m.live) :
    m.free (.block h) = .ok (m.set h none) := by
  have hb : m.blocks h ≠ none := hl
  simp [free, hb]

theorem free_spec {m : Heap β} {p : Ptr} (hl : ∀ h ∈ p.ids, h ∈ m.live) :
    ∃ m', m.free p = .ok m' ∧ m'.live = m.live \ {h | h ∈ p.ids} := by
  cases p with
  | null => exact ⟨m, rfl, by ext x; simp⟩
  | zeroSize => exact ⟨m, rfl, by ext x; simp⟩
  | block k =>
    have hk : k ∈ m.live := hl k (by simp)
    refine ⟨m.set k none, free_block hk, ?_⟩
    rw [live_set_none]
    ext x
    simp

/-- Freeing distinct live blocks, each once, is no fault and leaves the others. -/
theorem freeList_spec (ps : List Ptr) {m : Heap β} (hl : ∀ h ∈ ps.flatMap Ptr.ids, h ∈ m.live)
    (hn : (ps.flatMap Ptr.ids).Nodup) :
    ∃ m', freeList ps m = .ok m' ∧ m'.live = m.live \ {h | h ∈ ps.flatMap Ptr.ids} := by
  induction ps generalizing m with
  | nil => exact ⟨m, rfl, by ext x; simp⟩
  | cons p ps ih =>
    rw [List.flatMap_cons] at hl hn
    obtain ⟨-, hrest, hdisj⟩ := List.nodup_append.mp hn
    obtain ⟨m₁, hfree, hlive⟩ := free_spec fun h hh => hl h (List.mem_append_left _ hh)
    have hl₁ : ∀ h ∈ ps.flatMap Ptr.ids, h ∈ m₁.live := by
      intro h hh
      rw [hlive]
      exact ⟨hl h (List.mem_append_right _ hh), fun hp => hdisj h hp h hh rfl⟩
    obtain ⟨m₂, hfrees, hlive₂⟩ := ih hl₁ hrest
    refine ⟨m₂, ?_, ?_⟩
    · rw [freeList, hfree, ok_bind, hfrees]
    · rw [hlive₂, hlive]
      ext x
      simp only [List.flatMap_cons, Set.mem_sdiff, Set.mem_ofPred_eq, List.mem_append]
      tauto

theorem freeList_append (ps qs : List Ptr) (m : Heap β) :
    freeList (ps ++ qs) m = (freeList ps m >>= fun m => freeList qs m) := by
  induction ps generalizing m with
  | nil => rfl
  | cons p ps ih =>
    rw [List.cons_append, freeList, freeList]
    cases m.free p with
    | error e => rfl
    | ok m' => exact ih m'

theorem readCells_eq {m : Heap β} {h off len : Nat} {pre mid post : List (Option β)}
    (hb : m.blocks h = some (pre ++ mid ++ post)) (ho : off = pre.length)
    (hl : len = mid.length) : m.readCells (.block h) off len = .ok mid := by
  subst ho hl
  by_cases hm : mid = []
  · simp [readCells, hm]
  · have hn : mid.length ≠ 0 := by simpa using hm
    simp [readCells, hb, hn]

@[simp] theorem readCells_zero (m : Heap β) (p : Ptr) (off : Nat) :
    m.readCells p off 0 = .ok [] := by
  simp [readCells]

@[simp] theorem writeCells_nil (m : Heap β) (p : Ptr) (off : Nat) :
    m.writeCells p off [] = .ok m := by
  simp [writeCells]

theorem writeCells_eq {m : Heap β} {h off : Nat} {pre mid post data : List (Option β)}
    (hb : m.blocks h = some (pre ++ mid ++ post)) (ho : off = pre.length)
    (hl : data.length = mid.length) :
    m.writeCells (.block h) off data = .ok (m.set h (some (pre ++ data ++ post))) := by
  subst ho
  by_cases hd : data = []
  · have hm : mid = [] := by simpa [hd] using hl.symm
    subst hd hm
    rw [writeCells_nil, set_self m hb]
  · simp [writeCells, hb, hd, hl]

theorem mapM_id_map_some (bs : List β) : (bs.map some).mapM id = some bs := by
  induction bs with
  | nil => rfl
  | cons b bs ih => simp [ih]

theorem load_eq {m : Heap β} {h off len : Nat} {pre post bs : List β}
    (hh : m.Holds h (pre ++ bs ++ post)) (ho : off = pre.length) (hl : len = bs.length) :
    m.load (.block h) off len = .ok bs := by
  obtain ⟨rest, hb⟩ := hh
  have hsplit : m.blocks h = some (pre.map some ++ bs.map some ++ (post.map some ++ rest)) := by
    simpa using hb
  have hr : m.readCells (.block h) off len = .ok (bs.map some) :=
    readCells_eq hsplit (by simpa using ho) (by simpa using hl)
  simp only [load, hr, ok_bind, mapM_id_map_some]

/-- What is loaded from a block depends on that block only. -/
theorem load_congr {m m' : Heap β} {h : Nat} (he : m'.blocks h = m.blocks h) (off len : Nat) :
    m'.load (.block h) off len = m.load (.block h) off len := by
  simp only [load, readCells, he]

@[simp] theorem load_zero (m : Heap β) (p : Ptr) (off : Nat) : m.load p off 0 = .ok [] := by
  simp [load]

/-- Copying initialised cells between two blocks overwrites as many cells of the target. -/
theorem memcpy_eq {m : Heap β} {d s dOff sOff len : Nat} {pre mid post : List (Option β)}
    {before bs after : List β} (hs : m.Holds s (before ++ bs ++ after))
    (hso : sOff = before.length) (hlen : len = bs.length)
    (hd : m.blocks d = some (pre ++ mid ++ post)) (hdo : dOff = pre.length)
    (hmid : mid.length = bs.length) :
    m.memcpy (.block d) dOff (.block s) sOff len =
      .ok (m.set d (some (pre ++ bs.map some ++ post))) := by
  obtain ⟨rest, hb⟩ := hs
  have hsplit : m.blocks s =
      some (before.map some ++ bs.map some ++ (after.map some ++ rest)) := by
    simpa using hb
  have hr : m.readCells (.block s) sOff len = .ok (bs.map some) :=
    readCells_eq hsplit (by simpa using hso) (by simpa using hlen)
  rw [memcpy, hr, ok_bind]
  exact writeCells_eq hd hdo (by simpa using hmid.symm)

@[simp] theorem memcpy_zero (m : Heap β) (d s : Ptr) (dOff sOff : Nat) :
    m.memcpy d dOff s sOff 0 = .ok m := by
  simp [memcpy]

/-- Copying initialised cells to the start of a fresh block. -/
theorem alloc_memcpy {m : Heap β} {s n : Nat} {before bs after : List β}
    (hs : m.Holds s (before ++ bs ++ after)) (hn : bs.length ≤ n) :
    ∃ m', (m.alloc n).memcpy (.block m.next) 0 (.block s) before.length bs.length = .ok m' ∧
      m'.blocks m.next = some (bs.map some ++ List.replicate (n - bs.length) none) ∧
      (∀ x ∈ m.live, m'.blocks x = m.blocks x) ∧ m'.live = insert m.next m.live := by
  have hsrc : (m.alloc n).Holds s (before ++ bs ++ after) :=
    hs.congr (alloc_blocks_of_live hs.live n)
  have hdst : (m.alloc n).blocks m.next = some ([] ++ List.replicate bs.length none ++
      List.replicate (n - bs.length) none) := by
    rw [alloc_blocks_next, List.nil_append, List.replicate_append_replicate]
    congr 2
    omega
  have hlive : m.next ∈ (m.alloc n).live := live_of_blocks (alloc_blocks_next m n)
  refine ⟨_, memcpy_eq hsrc rfl rfl hdst rfl (by simp), ?_, ?_, ?_⟩
  · exact set_blocks_self hlive _
  · intro x hx
    have hne : x ≠ m.next := fun he => m.next_not_live (he ▸ hx)
    rw [set_blocks_of_ne _ hne, alloc_blocks_of_live hx]
  · rw [live_set_some _ hlive, live_alloc]

end Heap

end Aesd.Foundation.BlockHeap
