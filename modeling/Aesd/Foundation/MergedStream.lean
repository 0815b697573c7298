/- Aesd/Foundation/MergedStream
   layer: library
   digest: Several sources write to one stream, and where the records cut from it come from. -/

import Aesd.Foundation.RecordLog

set_option autoImplicit false
set_option relaxedAutoImplicit false

namespace Aesd.Foundation.MergedStream

open Aesd.Foundation.RecordLog

universe u v

variable {ι : Type u} {α : Type v}

section Definitions

/-- The symbols of a write with the source they come from. -/
def tag (w : ι × List α) : List (ι × α) := w.2.map (Prod.mk w.1)

def merged (ws : List (ι × List α)) : List (ι × α) := ws.flatMap tag

/-- The merged stream cut into records that know the source of every symbol. -/
def origins (isEnd : α → Bool) (ws : List (ι × List α)) : Cut (ι × α) :=
  Cut.empty.feed (fun x => isEnd x.2) (merged ws)

/-- What one source contributed. -/
def own [DecidableEq ι] (i : ι) (ws : List (ι × List α)) : List α :=
  (ws.filter fun w => w.1 == i).flatMap Prod.snd

def Unmixed (xs : List (ι × α)) : Prop := ∀ x ∈ xs, ∀ y ∈ xs, x.1 = y.1

/-- No source goes on with a record that another one has begun. -/
def Exclusive (isEnd : α → Bool) (ws : List (ι × List α)) : Prop :=
  ∀ pre w, pre ++ [w] <+: ws → w.2 ≠ [] → ∀ x ∈ (origins isEnd pre).pending, x.1 = w.1

end Definitions

section Contents

variable {isEnd : α → Bool}

theorem tag_contents (w : ι × List α) : (tag w).map Prod.snd = w.2 := by
  unfold tag
  rw [List.map_map]
  exact List.map_id _

theorem merged_contents (ws : List (ι × List α)) :
    (merged ws).map Prod.snd = ws.flatMap Prod.snd := by
  unfold merged
  rw [List.map_flatMap]
  exact congrArg (List.flatMap · ws) (funext tag_contents)

theorem origins_concat (ws : List (ι × List α)) (w : ι × List α) :
    origins isEnd (ws ++ [w]) = (origins isEnd ws).feed (fun x => isEnd x.2) (tag w) := by
  unfold origins merged
  rw [List.flatMap_append, List.flatMap_singleton, Cut.feed_append]

theorem filter_tag [DecidableEq ι] (i : ι) (w : ι × List α) :
    (tag w).filter (fun x => x.1 == i) = if w.1 == i then tag w else [] := by
  unfold tag
  split
  next h =>
    apply List.filter_eq_self.mpr
    intro x hx
    obtain ⟨a, -, rfl⟩ := List.mem_map.mp hx
    exact h
  next h =>
    apply List.filter_eq_nil_iff.mpr
    intro x hx
    obtain ⟨a, -, rfl⟩ := List.mem_map.mp hx
    exact h

theorem own_eq [DecidableEq ι] (i : ι) (ws : List (ι × List α)) :
    own i ws = ((merged ws).filter fun x => x.1 == i).map Prod.snd := by
  induction ws with
  | nil => rfl
  | cons w ws ih =>
    have hcons : merged (w :: ws) = tag w ++ merged ws := rfl
    unfold own at ih ⊢
    rw [hcons, List.filter_append, filter_tag, List.map_append, ← ih, List.filter_cons]
    split
    · rw [List.flatMap_cons, tag_contents]
    · rfl

theorem own_concat_self [DecidableEq ι] (ws : List (ι × List α)) (i : ι) (xs : List α) :
    own i (ws ++ [(i, xs)]) = own i ws ++ xs := by
  unfold own
  rw [List.filter_append, List.flatMap_append]
  simp

theorem own_concat_of_ne [DecidableEq ι] (ws : List (ι × List α)) {i j : ι} (h : j ≠ i)
    (xs : List α) : own j (ws ++ [(i, xs)]) = own j ws := by
  unfold own
  rw [List.filter_append, List.flatMap_append]
  simp [h.symm]

end Contents

section Mixing

variable {isEnd : α → Bool}

theorem Unmixed.of_source {xs : List (ι × α)} {i : ι} (h : ∀ x ∈ xs, x.1 = i) : Unmixed xs :=
  fun x hx y hy => (h x hx).trans (h y hy).symm

theorem Unmixed.subset {xs ys : List (ι × α)} (h : Unmixed ys) (hsub : ∀ x ∈ xs, x ∈ ys) :
    Unmixed xs := fun x hx y hy => h x (hsub x hx) y (hsub y hy)

theorem mem_tag {w : ι × List α} {x : ι × α} (h : x ∈ tag w) : x.1 = w.1 := by
  obtain ⟨a, -, rfl⟩ := List.mem_map.mp h
  rfl

/-- A source that goes on with its own record mixes nothing. -/
theorem feed_unmixed {i : ι} (xs : List (ι × α)) (hxs : ∀ x ∈ xs, x.1 = i) :
    ∀ c : Cut (ι × α), (∀ r ∈ c.records, Unmixed r) → (∀ x ∈ c.pending, x.1 = i) →
      (∀ r ∈ (c.feed (fun x => isEnd x.2) xs).records, Unmixed r) ∧
        ∀ x ∈ (c.feed (fun x => isEnd x.2) xs).pending, x.1 = i := by
  induction xs with
  | nil =>
    intro c hrecords hpending
    exact ⟨hrecords, hpending⟩
  | cons a xs ih =>
    intro c hrecords hpending
    have hgrown : ∀ x ∈ c.pending ++ [a], x.1 = i := by
      intro x hx
      rcases List.mem_append.mp hx with hx | hx
      · exact hpending x hx
      · exact List.mem_singleton.mp hx ▸ hxs a List.mem_cons_self
    rw [Cut.feed_cons]
    apply ih fun x hx => hxs x (List.mem_cons_of_mem a hx)
    · intro r hr
      unfold Cut.push at hr
      split at hr
      · rcases List.mem_append.mp hr with hr | hr
        · exact hrecords r hr
        · exact List.mem_singleton.mp hr ▸ Unmixed.of_source hgrown
      · exact hrecords r hr
    · unfold Cut.push
      split
      · exact nofun
      · exact hgrown

theorem Exclusive.of_concat {ws : List (ι × List α)} {w : ι × List α}
    (h : Exclusive isEnd (ws ++ [w])) : Exclusive isEnd ws :=
  fun pre w' hpre => h pre w' (hpre.trans (List.prefix_append _ _))

theorem exclusive_concat {ws : List (ι × List α)} {w : ι × List α} (h : Exclusive isEnd ws)
    (hnew : w.2 ≠ [] → ∀ x ∈ (origins isEnd ws).pending, x.1 = w.1) :
    Exclusive isEnd (ws ++ [w]) := by
  intro pre w' hpre
  rcases List.prefix_concat_iff.mp hpre with heq | hold
  · obtain ⟨rfl, hw⟩ := List.append_inj' heq rfl
    obtain rfl := List.singleton_inj.mp hw
    exact hnew
  · exact h pre w' hold

/-- Writes that mix nothing: every record has one source if and only if no source goes on with
what another has begun. -/
theorem exclusive_iff (ws : List (ι × List α)) :
    Exclusive isEnd ws ↔ (∀ r ∈ (origins isEnd ws).records, Unmixed r) ∧
      Unmixed (origins isEnd ws).pending := by
  induction ws using List.reverseRecOn with
  | nil =>
    constructor
    · intro _
      exact ⟨nofun, nofun⟩
    · intro _ pre w hpre
      have hlen := hpre.length_le
      rw [List.length_append, List.length_singleton, List.length_nil] at hlen
      omega
  | append_singleton ws w ih =>
    constructor
    · intro h
      obtain ⟨hrecords, hpending⟩ := ih.mp h.of_concat
      rw [origins_concat]
      by_cases hw : w.2 = []
      · have hnil : tag w = [] := by
          unfold tag
          rw [hw, List.map_nil]
        rw [hnil, Cut.feed_nil]
        exact ⟨hrecords, hpending⟩
      · have hfed := @feed_unmixed _ _ isEnd w.1 (tag w) (fun x hx => mem_tag hx) _ hrecords
          (h ws w (List.prefix_refl _) hw)
        exact ⟨hfed.1, Unmixed.of_source hfed.2⟩
    · rintro ⟨hrecords, hpending⟩
      rw [origins_concat] at hrecords hpending
      cases hw : w.2 with
      | nil =>
        have hnil : tag w = [] := by
          unfold tag
          rw [hw, List.map_nil]
        rw [hnil, Cut.feed_nil] at hrecords hpending
        exact exclusive_concat (ih.mpr ⟨hrecords, hpending⟩) fun hne => absurd hw hne
      | cons a as =>
        -- what was pending ends up in one piece with the first symbol of the write
        have htag : tag w = (w.1, a) :: as.map (Prod.mk w.1) := by
          unfold tag
          rw [hw, List.map_cons]
        obtain ⟨y, hy, hpre⟩ := @Cut.pending_prefix_feed _ (fun x => isEnd x.2)
          (origins isEnd ws) (w.1, a) (as.map (Prod.mk w.1))
        rw [← htag] at hy
        have hone : Unmixed y := hy.elim (hrecords y) fun he => he ▸ hpending
        have hfront := hone.subset fun x hx => hpre.mem hx
        refine exclusive_concat (ih.mpr ⟨?_, ?_⟩) fun _ x hx => ?_
        · intro r hr
          exact hrecords r ((Cut.records_prefix_feed _ _).mem hr)
        · exact hfront.subset fun x hx => List.mem_append_left _ hx
        · exact hfront x (List.mem_append_left _ hx) (w.1, a)
            (List.mem_append_right _ (List.mem_singleton_self _))

end Mixing

section Sources

variable {isEnd : α → Bool}

/-- The merged stream as it was cut. -/
theorem origins_decomposition (ws : List (ι × List α)) :
    merged ws = (origins isEnd ws).records.flatten ++ (origins isEnd ws).pending ∧
      (origins isEnd ws).WellCut (fun x => isEnd x.2) :=
  ⟨(Cut.feed_flatten_append Cut.empty (merged ws)).symm, (Cut.wellCut_empty _).feed _⟩

/-- Without the sources, the cut is the one of the stream as it arrives. -/
theorem origins_contents (ws : List (ι × List α)) :
    (origins isEnd ws).map Prod.snd = Cut.empty.feed isEnd (ws.flatMap Prod.snd) := by
  unfold origins
  rw [Cut.map_feed, merged_contents]
  rfl

/-- A selection that takes every part whole or leaves it out. -/
theorem filter_flatten {β : Type v} {p : β → Bool} {xss : List (List β)} :
    (∀ xs ∈ xss, xs ≠ [] ∧ ∀ x ∈ xs, ∀ y ∈ xs, p x = p y) →
      xss.flatten.filter p = (xss.filter fun xs => xs.all p).flatten := by
  induction xss with
  | nil =>
    intro _
    rfl
  | cons xs xss ih =>
    intro h
    obtain ⟨hne, huniform⟩ := h xs List.mem_cons_self
    obtain ⟨x, hx⟩ := List.exists_mem_of_ne_nil xs hne
    rw [List.flatten_cons, List.filter_append, ih fun ys hys => h ys (List.mem_cons_of_mem xs hys),
      List.filter_cons]
    cases hp : p x with
    | true =>
      have hall : ∀ y ∈ xs, p y = true := fun y hy => (huniform y hy x hx).trans hp
      rw [if_pos (List.all_eq_true.mpr hall), List.flatten_cons, List.filter_eq_self.mpr hall]
    | false =>
      have hnone : ∀ y ∈ xs, ¬p y = true := by
        intro y hy
        rw [huniform y hy x hx, hp]
        exact Bool.false_ne_true
      have hnot : ¬xs.all p = true := fun hall => hnone x hx (List.all_eq_true.mp hall x hx)
      rw [if_neg hnot, List.filter_eq_nil_iff.mpr hnone, List.nil_append]

/-- If every record has one source, the records of a source are those cut from what it alone
contributed. -/
theorem own_records [DecidableEq ι] {ws : List (ι × List α)}
    (h : ∀ r ∈ (origins isEnd ws).records, Unmixed r) (i : ι) :
    (Cut.empty.feed isEnd (own i ws)).records =
      ((origins isEnd ws).records.filter fun r => r.all fun x => x.1 == i).map
        (List.map Prod.snd) := by
  obtain ⟨hcut, hrecords, hpending⟩ := @origins_decomposition _ _ isEnd ws
  have hwhole : ∀ r ∈ (origins isEnd ws).records,
      r ≠ [] ∧ ∀ x ∈ r, ∀ y ∈ r, (x.1 == i) = (y.1 == i) := by
    intro r hr
    refine ⟨(hrecords r hr).ne_nil, fun x hx y hy => ?_⟩
    rw [h r hr x hx y hy]
  have hown : own i ws =
      (((origins isEnd ws).records.filter fun r => r.all fun x => x.1 == i).map
        (List.map Prod.snd)).flatten ++
      ((origins isEnd ws).pending.filter fun x => x.1 == i).map Prod.snd := by
    rw [own_eq, hcut, List.filter_append, filter_flatten hwhole, List.map_append,
      List.map_flatten]
  rw [hown, show (Cut.empty : Cut α) = ⟨[], []⟩ from rfl, Cut.feed_decomposition]
  · exact List.nil_append _
  · intro a ha
    obtain ⟨x, hx, rfl⟩ := List.mem_map.mp ha
    exact hpending x (List.mem_of_mem_filter hx)
  · intro r hr
    obtain ⟨r', hr', rfl⟩ := List.mem_map.mp hr
    exact (hrecords r' (List.mem_of_mem_filter hr')).map Prod.snd

end Sources

end Aesd.Foundation.MergedStream
