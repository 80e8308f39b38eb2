import CommandGrammar.Search

/-!
# What a search finds

A search marks every node that it visits and passes over the marked ones, so at any moment it can
still come to those nodes that are reached from a waiting node without touching a mark.  `Reached`
is this set, and the one thing to prove about it is that it is kept by a visit: a way that touches
the visited node can be cut at its last passage through it, and what is left starts from a node
that comes right after it.

* `reached_cons_iff`: visiting a fresh node changes nothing about what is reached, except that the
  node itself is done.
* `mem_explore_iff`: a search yields exactly what is found at the reached nodes.
* `mem_exploreFrom_iff`: for a search from one node these are the nodes that `next` leads to.
* `nodup_explore`: nothing is yielded twice if different nodes have nothing in common.
-/

namespace CommandGrammar
namespace Search

variable {α β : Type}

/-- The nodes that `next` leads to from a node, in any number of steps. -/
inductive Leads (next : α → List α) (start : α) : α → Prop where
  | refl : Leads next start start
  | step {x y : α} : Leads next start x → y ∈ next x → Leads next start y

variable [BEq α] [Hashable α]

/-- The nodes that are reached from a waiting node over nodes without a mark. -/
inductive Reached (next : α → List α) (visited : Std.HashSet α) (waiting : List α) : α → Prop where
  | start {x : α} : x ∈ waiting → visited.contains x = false → Reached next visited waiting x
  | step {x y : α} : Reached next visited waiting x → y ∈ next x → visited.contains y = false →
      Reached next visited waiting y

section

variable {next : α → List α} {visited : Std.HashSet α} {waiting : List α} {x y : α}

theorem Reached.fresh (h : Reached next visited waiting x) : visited.contains x = false := by
  cases h with
  | start _ hfresh => exact hfresh
  | step _ _ hfresh => exact hfresh

theorem not_reached_nil : ¬ Reached next visited [] x := by
  intro h
  induction h with
  | start hmem _ => cases hmem
  | step _ _ _ ih => exact ih

theorem Reached.mono {others : List α} (hsub : ∀ z ∈ waiting, z ∈ others)
    (h : Reached next visited waiting x) : Reached next visited others x := by
  induction h with
  | start hmem hfresh => exact .start (hsub _ hmem) hfresh
  | step _ hmem hfresh ih => exact .step ih hmem hfresh

/-- A marked node adds nothing to what is reached. -/
theorem reached_cons_of_visited {rest : List α} (hx : visited.contains x = true) :
    Reached next visited (x :: rest) y ↔ Reached next visited rest y := by
  constructor
  · intro h
    induction h with
    | start hmem hfresh =>
      rcases List.mem_cons.mp hmem with rfl | hmem
      · rw [hx] at hfresh
        cases hfresh
      · exact .start hmem hfresh
    | step _ hmem hfresh ih => exact .step ih hmem hfresh
  · exact fun h => h.mono fun z hz => List.mem_cons_of_mem x hz

variable [LawfulBEq α]

theorem contains_insert_eq_false_iff :
    (visited.insert x).contains y = false ↔ y ≠ x ∧ visited.contains y = false := by
  rw [Std.HashSet.contains_insert, Bool.or_eq_false_iff, beq_eq_false_iff_ne, ne_comm]

/-- What is reached after a visit was reached before it. -/
theorem Reached.of_visit {rest : List α} (hx : visited.contains x = false)
    (h : Reached next (visited.insert x) (next x ++ rest) y) :
    Reached next visited (x :: rest) y := by
  have hself : Reached next visited (x :: rest) x := .start List.mem_cons_self hx
  induction h with
  | start hmem hfresh =>
    have hfresh' := (contains_insert_eq_false_iff.mp hfresh).2
    rcases List.mem_append.mp hmem with hmem | hmem
    · exact .step hself hmem hfresh'
    · exact .start (List.mem_cons_of_mem x hmem) hfresh'
  | step _ hmem hfresh ih => exact .step ih hmem (contains_insert_eq_false_iff.mp hfresh).2

/-- What is reached before a visit is the visited node or is reached after it.  The last passage
through the visited node is what the induction looks for. -/
theorem Reached.visit {rest : List α} (h : Reached next visited (x :: rest) y) :
    y = x ∨ Reached next (visited.insert x) (next x ++ rest) y := by
  induction h with
  | @start z hmem hfresh =>
    by_cases hz : z = x
    · exact .inl hz
    · have hrest : z ∈ rest := by simpa [hz] using hmem
      exact .inr (.start (List.mem_append_right _ hrest)
        (contains_insert_eq_false_iff.mpr ⟨hz, hfresh⟩))
  | @step w z _ hmem hfresh ih =>
    by_cases hz : z = x
    · exact .inl hz
    · have hfresh' := contains_insert_eq_false_iff.mpr ⟨hz, hfresh⟩
      rcases ih with rfl | hreached
      · exact .inr (.start (List.mem_append_left _ hmem) hfresh')
      · exact .inr (.step hreached hmem hfresh')

/-- A visit to a fresh node leaves what is reached as it was, but for the node itself. -/
theorem reached_cons_iff {rest : List α} (hx : visited.contains x = false) :
    Reached next visited (x :: rest) y ↔
      y = x ∨ Reached next (visited.insert x) (next x ++ rest) y := by
  constructor
  · exact Reached.visit
  · rintro (rfl | h)
    · exact .start List.mem_cons_self hx
    · exact h.of_visit hx

end

variable {next : α → List α}

theorem reached_empty_singleton_iff {start x : α} :
    Reached next ∅ [start] x ↔ Leads next start x := by
  constructor
  · intro h
    induction h with
    | start hmem _ => rw [List.mem_singleton.mp hmem]; exact .refl
    | step _ hmem _ ih => exact .step ih hmem
  · intro h
    induction h with
    | refl => exact .start List.mem_cons_self (by simp)
    | step _ hmem ih => exact .step ih hmem (by simp)

variable [LawfulBEq α] {found : α → List β} {region : Region next}

/-- A search yields what is found at the nodes that it can still reach. -/
theorem mem_explore_iff {visited : Std.HashSet α} {waiting : List α}
    {inside : ∀ x ∈ waiting, region.holds x} {b : β} :
    b ∈ explore next found region visited waiting inside ↔
      ∃ x, Reached next visited waiting x ∧ b ∈ found x := by
  induction visited, waiting, inside using explore.induct with
  | case1 visited inside =>
    rw [explore_nil]
    constructor
    · intro h
      cases h
    · rintro ⟨x, hx, _⟩
      exact absurd hx not_reached_nil
  | case2 visited x rest inside hseen _ ih =>
    rw [explore_cons_of_visited inside hseen, ih]
    simp only [reached_cons_of_visited hseen]
  | case3 visited x rest inside hseen _ ih =>
    have hfresh : visited.contains x = false := by simpa using hseen
    rw [explore_cons_of_fresh inside hfresh, List.mem_append, ih]
    simp only [reached_cons_iff hfresh]
    constructor
    · rintro (hb | ⟨y, hy, hb⟩)
      · exact ⟨x, .inl rfl, hb⟩
      · exact ⟨y, .inr hy, hb⟩
    · rintro ⟨y, rfl | hy, hb⟩
      · exact .inl hb
      · exact .inr ⟨y, hy, hb⟩

/-- No node is visited twice, so a search in which different nodes have nothing in common yields
nothing twice. -/
theorem nodup_explore {visited : Std.HashSet α} {waiting : List α}
    {inside : ∀ x ∈ waiting, region.holds x} (hfound : ∀ x, (found x).Nodup)
    (hapart : ∀ x y b, b ∈ found x → b ∈ found y → x = y) :
    (explore next found region visited waiting inside).Nodup := by
  induction visited, waiting, inside using explore.induct with
  | case1 visited inside =>
    rw [explore_nil]
    exact List.nodup_nil
  | case2 visited x rest inside hseen _ ih =>
    rw [explore_cons_of_visited inside hseen]
    exact ih
  | case3 visited x rest inside hseen _ ih =>
    rw [explore_cons_of_fresh inside (by simpa using hseen), List.nodup_append]
    refine ⟨hfound x, ih, ?_⟩
    rintro b hb other hother rfl
    obtain ⟨y, hy, hby⟩ := mem_explore_iff.mp hother
    have hne := (contains_insert_eq_false_iff.mp hy.fresh).1
    exact hne (hapart y x b hby hb)

/-- A search from one node yields exactly what is found at the nodes that `next` leads to. -/
theorem mem_exploreFrom_iff {start : α} {inside : region.holds start} {b : β} :
    b ∈ exploreFrom next found region start inside ↔ ∃ x, Leads next start x ∧ b ∈ found x := by
  rw [exploreFrom, mem_explore_iff]
  simp only [reached_empty_singleton_iff]

end Search
end CommandGrammar
