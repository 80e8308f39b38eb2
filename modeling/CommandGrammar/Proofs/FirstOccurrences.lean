import Mathlib.Data.List.Induction
import Mathlib.Data.List.Nodup

/-!
# First occurrences

`List.eraseDups` keeps the first occurrence of every member of a list.  It is what merging does to
the paths of a match and what folding does to the tags of a capture.

The main statement is `eraseDups_flatMap_eraseDups`: where every member of a list is expanded and
only first occurrences count in the end, they may as well be picked before the expansion.  The
induction goes from the right, because a member that is added at the end is kept or dropped and
changes nothing before it (`eraseDups_append_singleton`).
-/

namespace CommandGrammar

variable {α β : Type} [DecidableEq α] [DecidableEq β]

theorem nodup_eraseDups (l : List α) : l.eraseDups.Nodup := by
  match l with
  | [] => exact List.nodup_nil
  | first :: rest =>
    rw [List.eraseDups_cons, List.nodup_cons, List.mem_eraseDups]
    exact ⟨by simp, nodup_eraseDups _⟩
termination_by l.length
decreasing_by exact Nat.lt_succ_of_le (List.length_filter_le _ _)

theorem eraseDups_of_nodup {l : List α} (h : l.Nodup) : l.eraseDups = l := by
  induction l with
  | nil => rfl
  | cons first rest ih =>
    obtain ⟨hnew, hrest⟩ := List.nodup_cons.mp h
    have hfilter : rest.filter (fun other => !other == first) = rest := by
      rw [List.filter_eq_self]
      intro other hother
      have hne : other ≠ first := fun heq => hnew (heq ▸ hother)
      simpa using hne
    rw [List.eraseDups_cons, hfilter, ih hrest]

/-- A member that is added at the end is kept unless it has occurred. -/
theorem eraseDups_append_singleton (l : List α) (x : α) :
    (l ++ [x]).eraseDups = if x ∈ l then l.eraseDups else l.eraseDups ++ [x] := by
  rw [List.eraseDups_append]
  by_cases hx : x ∈ l
  · simp [hx, List.removeAll]
  · simp [hx, List.removeAll, List.eraseDups_cons]

theorem eraseDups_sublist (l : List α) : l.eraseDups.Sublist l := by
  induction l using List.reverseRecOn with
  | nil => exact List.Sublist.slnil
  | append_singleton l x ih =>
    rw [eraseDups_append_singleton]
    split
    · exact ih.trans (List.sublist_append_left l [x])
    · exact ih.append (List.Sublist.refl [x])

theorem length_eraseDups_le (l : List α) : l.eraseDups.length ≤ l.length :=
  (eraseDups_sublist l).length_le

theorem eraseDups_eq_nil_iff {l : List α} : l.eraseDups = [] ↔ l = [] := by
  simp only [List.eq_nil_iff_forall_not_mem, List.mem_eraseDups]

theorem removeAll_congr (l : List α) {s t : List α} (h : ∀ x, x ∈ s ↔ x ∈ t) :
    l.removeAll s = l.removeAll t := by
  refine List.filter_congr fun x _ => ?_
  simp [h x]

/-- First occurrences after an expansion are those after the expansion of first occurrences. -/
theorem eraseDups_flatMap_eraseDups (f : α → List β) (l : List α) :
    (l.eraseDups.flatMap f).eraseDups = (l.flatMap f).eraseDups := by
  induction l using List.reverseRecOn with
  | nil => rfl
  | append_singleton l x ih =>
    have hmem : ∀ y, y ∈ l.eraseDups.flatMap f ↔ y ∈ l.flatMap f := by
      intro y
      simp only [List.mem_flatMap, List.mem_eraseDups]
    rw [eraseDups_append_singleton, List.flatMap_append, List.flatMap_singleton,
      List.eraseDups_append, ← ih]
    split
    · next hx =>
      -- everything that `x` expands to has occurred with the earlier `x`
      have hnone : (f x).removeAll (l.flatMap f) = [] := by
        rw [List.removeAll, List.filter_eq_nil_iff]
        intro y hy
        have hoccurs : y ∈ l.flatMap f := List.mem_flatMap.mpr ⟨x, hx, hy⟩
        simpa using List.mem_flatMap.mp hoccurs
      rw [hnone, List.eraseDups_nil, List.append_nil]
    · rw [List.flatMap_append, List.flatMap_singleton, List.eraseDups_append,
        removeAll_congr _ hmem]

/-- Different members that stay different occur for the first time where they did. -/
theorem eraseDups_map {f : α → β} {l : List α} (h : ∀ x ∈ l, ∀ y ∈ l, f x = f y → x = y) :
    (l.map f).eraseDups = l.eraseDups.map f := by
  induction l using List.reverseRecOn with
  | nil => rfl
  | append_singleton l x ih =>
    have hx : x ∈ l ++ [x] := List.mem_append_right _ (List.mem_singleton_self x)
    have hl : ∀ y ∈ l, y ∈ l ++ [x] := fun y hy => List.mem_append_left _ hy
    have hmem : f x ∈ l.map f ↔ x ∈ l := by
      constructor
      · intro hfx
        obtain ⟨y, hy, heq⟩ := List.mem_map.mp hfx
        rw [← h y (hl y hy) x hx heq]
        exact hy
      · exact List.mem_map_of_mem
    rw [List.map_append, List.map_singleton, eraseDups_append_singleton,
      eraseDups_append_singleton, ih fun y hy z hz => h y (hl y hy) z (hl z hz)]
    simp only [hmem]
    split
    · rfl
    · rw [List.map_append, List.map_singleton]

end CommandGrammar
