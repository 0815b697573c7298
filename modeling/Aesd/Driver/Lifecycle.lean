/- Aesd/Driver/Lifecycle
   layer: system
   digest: The module loaded, opened, used, released and removed, any number of times. -/

import Aesd.Driver.Ownership
import Aesd.Driver.Session
import Mathlib.Data.Set.Card

set_option autoImplicit false
set_option relaxedAutoImplicit false

namespace Aesd.Driver.Lifecycle

open Aesd.Foundation.BlockHeap
open Aesd.Foundation.RecordLog
open Aesd.Foundation.Run
open Aesd.Driver.CircularBuffer
open Aesd.Driver.Device
open Aesd.Driver.LogRelation
open Aesd.Driver.Ownership
open Aesd.Driver.ReadCorrect
open Aesd.Driver.Session
open Aesd.Driver.WriteCorrect

section State

/-- The module's own data: `aesd_device` and `aesd_major`. -/
structure ModuleData where
  aesdDevice : AesdDev
  aesdMajor : Nat

/-- What the kernel holds for the module: the blocks it allocated, the majors it registered and
those that lead to its `cdev`, its data while it is loaded, and the number of open files of the
device. No step depends on `accepted`, the bytes reported as written since the module was
loaded. -/
structure Kernel where
  heap : Heap UInt8
  regions : List Nat
  cdevs : List Nat
  loaded : Option ModuleData
  files : Nat
  accepted : List UInt8

/-- A negative error number. -/
abbrev ErrorCode := { e : Int // e < 0 }

/-- What the kernel answers to `alloc_chrdev_region`, and what `cdev_add` returns. -/
structure LoadEnv where
  region : Except ErrorCode Nat
  cdevAdd : Int

inductive Label
  | insmod (env : LoadEnv)
  | open
  | release
  | call (c : Call)
  | rmmod

/-- A step the kernel does not allow, or a fault of the driver. -/
inductive Denied
  | refused
  | fault (f : Fault)

/-- The kernel before the module was ever loaded. -/
def bootKernel : Kernel where
  heap := Heap.empty
  regions := []
  cdevs := []
  loaded := none
  files := 0
  accepted := []

end State

section Steps

/-- `cdev_init` and `cdev_add`, and what `cdev_add` returns. -/
def aesdSetupCdev (err : Int) (major : Nat) (k : Kernel) : Int × Kernel :=
  if err ≠ 0 then (err, k) else (err, { k with cdevs := major :: k.cdevs })

/-- `aesd_init_module`: what it returns, and the kernel with the module's data behind it. -/
def initModule (env : LoadEnv) (k : Kernel) : Int × Kernel × ModuleData :=
  match env.region with
  | .error result => (result.val, k, ⟨aesdInitModule.dev, 0⟩)
  | .ok major =>
    let k := { k with regions := major :: k.regions }
    let (result, k) := aesdSetupCdev env.cdevAdd major k
    let k := if result ≠ 0 then { k with regions := k.regions.erase major } else k
    (result, k, ⟨aesdInitModule.dev, major⟩)

/-- `aesd_cleanup_module`. -/
def cleanupModule (data : ModuleData) (k : Kernel) : Except Fault Kernel := do
  let cdevs := k.cdevs.erase data.aesdMajor
  let heap ← aesdCleanupModule ⟨data.aesdDevice, k.heap⟩
  pure { k with cdevs := cdevs, heap := heap, regions := k.regions.erase data.aesdMajor }

/-- A call of `aesd_write` or `aesd_read` on the device, and the bytes it reports as written. -/
def deviceCall (s : DriverState) : Call → Except Fault (DriverState × List UInt8)
  | .write env payload => do
    let (r, s) ← aesdWrite env payload s
    pure (s, payload.take r.toNat)
  | .read env count fPos => do
    let result ← aesdRead env count fPos s
    pure (result.state, [])

/-- The kernel keeps a loaded module from being loaded again, lets a file be opened through a
`cdev` only, and refuses to remove a module that has open files. -/
def kernelStep (k : Kernel) : Label → Except Denied Kernel
  | .insmod env => match k.loaded with
    | some _ => .error .refused
    | none =>
      let (result, k, data) := initModule env k
      .ok (if result = 0 then { k with loaded := some data, accepted := [] } else k)
  | .open => match k.loaded with
    | none => .error .refused
    | some data =>
      if data.aesdMajor ∈ k.cdevs then .ok { k with files := k.files + 1 } else .error .refused
  | .release => if k.files = 0 then .error .refused else .ok { k with files := k.files - 1 }
  | .call c => match k.loaded with
    | none => .error .refused
    | some data =>
      if k.files = 0 then .error .refused
      else match deviceCall ⟨data.aesdDevice, k.heap⟩ c with
        | .error f => .error (.fault f)
        | .ok (s, bytes) =>
          .ok { k with
            loaded := some { data with aesdDevice := s.dev }
            heap := s.heap
            accepted := k.accepted ++ bytes }
  | .rmmod => match k.loaded with
    | none => .error .refused
    | some data =>
      if k.files ≠ 0 then .error .refused
      else match cleanupModule data k with
        | .error f => .error (.fault f)
        | .ok k => .ok { k with loaded := none }

end Steps

section Blocks

variable {s : DriverState} {log : Log} {slots : List Slot} {lost : Set Nat}

/-- A fresh device on a heap whose blocks belong to nobody. -/
theorem represents_fresh (m : Heap UInt8) :
    Represents ⟨aesdInitModule.dev, m⟩ Cut.empty [] m.live where
  owns :=
    { represents_init.owns with
      stored := by simp
      buffer := by simp [Cut.empty]
      live := by simp [aesdInitModule]
      unowned := by simp [aesdInitModule] }
  pendingSize := rfl

theorem lostAfterWrite_eq_union (env : WriteEnv) (payload : List UInt8) (s : DriverState)
    (lost : Set Nat) :
    lostAfterWrite env payload s lost = lost ∪ lostAfterWrite env payload s ∅ := by
  unfold lostAfterWrite
  split_ifs
  · rw [Set.union_empty]
  · rw [Set.empty_union]

/-- What a write forgets is the block behind the unfinished record. -/
theorem mem_ids_of_lost {env : WriteEnv} {payload : List UInt8} {x : Nat}
    (h : x ∈ lostAfterWrite env payload s ∅) : x ∈ s.dev.currInput.buffptr.ids := by
  unfold lostAfterWrite at h
  split_ifs at h
  · cases h
  · rcases h with h | h
    · cases h
    · exact h.2

theorem lost_finite (h : Represents s log slots lost) : lost.Finite := by
  apply (Set.finite_lt_nat s.heap.next).subset
  intro x hx
  exact Heap.lt_next_of_live ((h.owns.live x).mpr (.inr hx))

instance (env : WriteEnv) (payload : List UInt8) (s : DriverState) :
    Decidable (Forgets env payload s) :=
  inferInstanceAs (Decidable (_ ∧ _ ∧ (_ ∨ _)))

/-- A write loses one block if it forgets one, and none otherwise. -/
theorem lost_ncard (h : Represents s log slots lost) (env : WriteEnv) (payload : List UInt8) :
    (lostAfterWrite env payload s lost).ncard =
      lost.ncard + if Forgets env payload s then 1 else 0 := by
  have hiff := lostAfterWrite_eq_empty_iff env payload s
  rw [lostAfterWrite_eq_union]
  by_cases hforgets : Forgets env payload s
  · rw [if_pos hforgets]
    have hne : (lostAfterWrite env payload s ∅).Nonempty :=
      Set.nonempty_iff_ne_empty.mpr fun hnone => hiff.mp hnone hforgets
    obtain ⟨x, hx⟩ := hne
    obtain ⟨y, hy⟩ : ∃ y, s.dev.currInput.buffptr.ids = [y] := by
      cases hp : s.dev.currInput.buffptr with
      | block y => exact ⟨y, rfl⟩
      | null => exact absurd (by rw [hp]; rfl) hforgets.2.1
      | zeroSize => exact absurd (by rw [hp]; rfl) hforgets.2.1
    have hsingle : lostAfterWrite env payload s ∅ = {x} := by
      have hall : ∀ z ∈ lostAfterWrite env payload s ∅, z = y := by
        intro z hz
        have hids := mem_ids_of_lost hz
        rw [hy] at hids
        exact List.mem_singleton.mp hids
      ext z
      rw [Set.mem_singleton_iff]
      constructor
      · intro hz
        rw [hall z hz, hall x hx]
      · rintro rfl
        exact hx
    have hnot : x ∉ lost := fun hmem =>
      h.owns.unowned x hmem (List.mem_append_right _ (mem_ids_of_lost hx))
    rw [hsingle, Set.union_singleton, Set.ncard_insert_of_notMem hnot (lost_finite h)]
  · rw [if_neg hforgets, hiff.mpr hforgets, Set.union_empty, Nat.add_zero]

end Blocks

section Invariant

variable {k k' : Kernel} {n : Nat} {l : Label} {data : ModuleData}

/-- The blocks that a step loses. -/
def forgotten (k : Kernel) : Label → Nat
  | .call (.write env payload) => match k.loaded with
    | some data => if Forgets env payload ⟨data.aesdDevice, k.heap⟩ then 1 else 0
    | none => 0
  | _ => 0

/-- Nothing of a module that is not loaded is left in the kernel but `n` blocks. -/
structure Unloaded (k : Kernel) (n : Nat) : Prop where
  regions : k.regions = []
  cdevs : k.cdevs = []
  files : k.files = 0
  live : k.heap.live.ncard = n

/-- A loaded module has the major it registered, and its device stands for what was written since
then, beside `n` lost blocks. -/
structure Loaded (k : Kernel) (data : ModuleData) (n : Nat) : Prop where
  regions : k.regions = [data.aesdMajor]
  cdevs : k.cdevs = [data.aesdMajor]
  represents : ∃ slots lost, Represents ⟨data.aesdDevice, k.heap⟩
    (accept Cut.empty k.accepted) slots lost ∧ lost.ncard = n

def Settled (k : Kernel) (n : Nat) : Prop :=
  (k.loaded = none → Unloaded k n) ∧ ∀ data, k.loaded = some data → Loaded k data n

theorem settled_of_unloaded (hnone : k.loaded = none) (h : Unloaded k n) : Settled k n := by
  refine ⟨fun _ => h, ?_⟩
  intro data hdata
  rw [hnone] at hdata
  cases hdata

theorem settled_of_loaded (hsome : k.loaded = some data) (h : Loaded k data n) : Settled k n := by
  refine ⟨?_, ?_⟩
  · intro hnone
    rw [hsome] at hnone
    cases hnone
  · intro data' hdata
    rw [hsome] at hdata
    exact Option.some.inj hdata ▸ h

theorem settled_boot : Settled bootKernel 0 := by
  apply settled_of_unloaded rfl
  refine ⟨rfl, rfl, rfl, ?_⟩
  have hempty : bootKernel.heap.live = ∅ := by
    ext x
    simp [bootKernel, Heap.empty]
  rw [hempty, Set.ncard_empty]

/-- Loading the module succeeds with a fresh device, or leaves the kernel as it was. -/
theorem initModule_cases (env : LoadEnv) (k : Kernel) :
    ((initModule env k).1 = 0 ∧ ∃ major, initModule env k =
      (0, { k with regions := major :: k.regions, cdevs := major :: k.cdevs },
        ⟨aesdInitModule.dev, major⟩)) ∨
    ((initModule env k).1 ≠ 0 ∧ (initModule env k).2.1 = k) := by
  cases hregion : env.region with
  | error result =>
    right
    simp only [initModule, hregion, and_true]
    exact ne_of_lt result.2
  | ok major =>
    by_cases hzero : env.cdevAdd = 0
    · left
      simp [initModule, aesdSetupCdev, hregion, hzero]
    · right
      simp [initModule, aesdSetupCdev, hregion, hzero]

/-- A step that may be refused leaves the kernel settled. -/
def Settles (n : Nat) (r : Except Denied Kernel) : Prop :=
  (∀ f, r ≠ .error (.fault f)) ∧ ∀ k', r = .ok k' → Settled k' n

theorem settles_refused (n : Nat) : Settles n (.error .refused) :=
  ⟨fun _ h => (nomatch h), fun _ h => nomatch h⟩

theorem Settled.settles (h : Settled k n) : Settles n (.ok k) :=
  ⟨fun _ h => (nomatch h), fun _ hk => Except.ok.inj hk ▸ h⟩

theorem Settled.insmod (h : Settled k n) (env : LoadEnv) :
    Settles n (kernelStep k (.insmod env)) := by
  cases hloaded : k.loaded with
  | some data =>
    simp only [kernelStep, hloaded]
    exact settles_refused n
  | none =>
    obtain ⟨hregions, hcdevs, hfiles, hlive⟩ := h.1 hloaded
    simp only [kernelStep, hloaded]
    apply Settled.settles
    rcases initModule_cases env k with ⟨-, major, hinit⟩ | ⟨hne, hsame⟩
    · rw [hinit, if_pos rfl]
      refine settled_of_loaded rfl ⟨?_, ?_, [], k.heap.live, represents_fresh k.heap, hlive⟩
      · simp [hregions]
      · simp [hcdevs]
    · rw [if_neg hne, hsame]
      exact settled_of_unloaded hloaded ⟨hregions, hcdevs, hfiles, hlive⟩

theorem Settled.files (h : Settled k n) {data : ModuleData} (hloaded : k.loaded = some data)
    (files : Nat) : Settled { k with files := files } n := by
  obtain ⟨hregions, hcdevs, hrep⟩ := h.2 data hloaded
  exact settled_of_loaded hloaded ⟨hregions, hcdevs, hrep⟩

/-- A call of the device does not fault, and loses a block only if it forgets one. -/
theorem Loaded.call (h : Loaded k data n) (hloaded : k.loaded = some data) (c : Call) :
    ∃ s bytes, deviceCall ⟨data.aesdDevice, k.heap⟩ c = .ok (s, bytes) ∧
      Loaded
        { k with
          loaded := some { data with aesdDevice := s.dev }
          heap := s.heap
          accepted := k.accepted ++ bytes }
        { data with aesdDevice := s.dev } (n + forgotten k (.call c)) := by
  obtain ⟨hregions, hcdevs, slots, lost, hrep, hlost⟩ := h
  cases c with
  | write env payload =>
    obtain ⟨r, s, slots', hrun, hrep', -⟩ := aesdWrite_spec hrep env payload
    refine ⟨s, payload.take r.toNat, ?_, hregions, hcdevs, slots',
      lostAfterWrite env payload ⟨data.aesdDevice, k.heap⟩ lost, ?_, ?_⟩
    · simp only [deviceCall, hrun, ok_bind, pure_eq_ok]
    · rw [accept_append]
      exact hrep'
    · simp only [forgotten, hloaded]
      rw [lost_ncard hrep, hlost]
  | read env count fPos =>
    obtain ⟨result, hrun, hu⟩ := aesdRead_total hrep env count fPos
    refine ⟨result.state, [], ?_, hregions, hcdevs, slots, lost, ?_, hlost⟩
    · simp only [deviceCall, hrun, ok_bind, pure_eq_ok]
    · rw [List.append_nil]
      exact hu.represents hrep

theorem Loaded.cleanup (h : Loaded k data n) (hfiles : k.files = 0) :
    ∃ k', cleanupModule data k = .ok k' ∧ Unloaded { k' with loaded := none } n := by
  obtain ⟨hregions, hcdevs, slots, lost, hrep, hlost⟩ := h
  obtain ⟨m, hm, hlive⟩ := cleanup_spec hrep
  refine ⟨{ k with
    cdevs := k.cdevs.erase data.aesdMajor
    heap := m
    regions := k.regions.erase data.aesdMajor }, ?_, ?_, ?_, hfiles, ?_⟩
  · simp only [cleanupModule, hm, ok_bind, pure_eq_ok]
  · simp [hregions]
  · simp [hcdevs]
  · show m.live.ncard = n
    rw [hlive, hlost]

theorem Settled.open (h : Settled k n) : Settles n (kernelStep k .open) := by
  simp only [kernelStep]
  split
  next => exact settles_refused n
  next data hloaded =>
    split_ifs
    · exact (h.files hloaded _).settles
    · exact settles_refused n

theorem Settled.release (h : Settled k n) : Settles n (kernelStep k .release) := by
  simp only [kernelStep]
  split_ifs with hfiles
  · exact settles_refused n
  · rcases Option.eq_none_or_eq_some k.loaded with hnone | ⟨data, hloaded⟩
    · exact absurd (h.1 hnone).files hfiles
    · exact (h.files hloaded _).settles

theorem Settled.call (h : Settled k n) (c : Call) :
    Settles (n + forgotten k (.call c)) (kernelStep k (.call c)) := by
  cases hloaded : k.loaded with
  | none =>
    simp only [kernelStep, hloaded]
    exact settles_refused _
  | some data =>
    obtain ⟨s, bytes, hcall, hnext⟩ := (h.2 data hloaded).call hloaded c
    simp only [kernelStep, hloaded, hcall]
    split_ifs
    · exact settles_refused _
    · exact (settled_of_loaded rfl hnext).settles

theorem Settled.rmmod (h : Settled k n) : Settles n (kernelStep k .rmmod) := by
  cases hloaded : k.loaded with
  | none =>
    simp only [kernelStep, hloaded]
    exact settles_refused n
  | some data =>
    simp only [kernelStep, hloaded]
    split_ifs with hopen
    · exact settles_refused n
    · have hfiles : k.files = 0 := not_not.mp hopen
      obtain ⟨k₁, hclean, hleft⟩ := (h.2 data hloaded).cleanup hfiles
      simp only [hclean]
      exact (settled_of_unloaded rfl hleft).settles

/-- No step faults, and what is known of the kernel stays known. -/
theorem Settled.step (h : Settled k n) (l : Label) :
    Settles (n + forgotten k l) (kernelStep k l) := by
  cases l with
  | insmod env => exact h.insmod env
  | «open» => exact h.open
  | release => exact h.release
  | call c => exact h.call c
  | rmmod => exact h.rmmod

end Invariant

section Results

theorem run_no_fault {k : Kernel} {n : Nat} (h : Settled k n) (labels : List Label) (f : Fault) :
    run kernelStep k labels ≠ .error (.fault f) := by
  induction labels generalizing k n with
  | nil =>
    intro hrun
    cases hrun
  | cons l labels ih =>
    obtain ⟨hno, hnext⟩ := h.step l
    cases hstep : kernelStep k l with
    | error e =>
      intro hrun
      rw [run, hstep] at hrun
      exact hno f (hstep.trans (congrArg Except.error (Except.error.inj hrun)))
    | ok k' =>
      rw [run_cons_ok hstep]
      exact ih (hnext k' hstep)

/-- The module can be loaded, opened, used, released and removed any number of times, whatever the
kernel answers. No step faults. While it is not loaded, after a failed load as after a removal,
nothing of it is registered, no file of it is open, and of the blocks it allocated there are left
as many as there were writes that forgot one. While it is loaded, it has the one region and the
one `cdev` that its removal will give back, and its device shows what was written since it was
loaded, and nothing from before. -/
theorem module_lifecycle (labels : List Label) :
    (∀ f, run kernelStep bootKernel labels ≠ .error (.fault f)) ∧
    ∀ k, run kernelStep bootKernel labels = .ok k →
      (k.loaded = none → k.regions = [] ∧ k.cdevs = [] ∧ k.files = 0 ∧
        k.heap.live.ncard = tally kernelStep forgotten bootKernel labels) ∧
      ∀ data, k.loaded = some data →
        k.regions = [data.aesdMajor] ∧ k.cdevs = [data.aesdMajor] ∧
        view ⟨data.aesdDevice, k.heap⟩ = .ok (logView (accept Cut.empty k.accepted)) := by
  refine ⟨run_no_fault settled_boot labels, ?_⟩
  intro k hrun
  have hsettled : Settled k (0 + tally kernelStep forgotten bootKernel labels) :=
    run_tally (fun _ l k' _ h hstep => (h.step l).2 k' hstep) settled_boot hrun
  rw [Nat.zero_add] at hsettled
  refine ⟨?_, ?_⟩
  · intro hnone
    obtain ⟨hregions, hcdevs, hfiles, hlive⟩ := hsettled.1 hnone
    exact ⟨hregions, hcdevs, hfiles, hlive⟩
  · intro data hdata
    obtain ⟨hregions, hcdevs, slots, lost, hrep, -⟩ := hsettled.2 data hdata
    exact ⟨hregions, hcdevs, view_eq hrep⟩

/-- A line and a byte behind it, written in two calls: the module leaves one block behind. -/
example : tally kernelStep forgotten bootKernel
    [.insmod ⟨.ok 240, 0⟩, .open, .call (.write ⟨fun _ => true, 2⟩ [97, newline]),
      .call (.write ⟨fun _ => true, 1⟩ [98]), .release, .rmmod] = 1 := by
  decide

end Results

end Aesd.Driver.Lifecycle
