import Std.Data.HashSet

/-!
# Depth-first search

A search starts from a list of nodes and follows `next` from each of them, visiting every node at
most once: the nodes that are still to be visited wait in a list, the first of them is visited next,
and what comes after a node is put in front of what was waiting.  A visit yields whatever `found`
says of the node, and the search yields all of it in the order of the visits.

A search ends if it cannot leave a finite set of nodes.  That set is never computed.  It is given as
a property of nodes that `next` preserves and that finitely many nodes have (`Search.Region`); every
fresh visit leaves one node fewer in it to be visited.
-/

namespace CommandGrammar
namespace Search

variable {α β : Type}

/-- A finite set of nodes that a search cannot leave. -/
structure Region (next : α → List α) where
  holds : α → Prop
  closed : ∀ x, holds x → ∀ y ∈ next x, holds y
  finite : ∃ nodes : List α, ∀ x, holds x → x ∈ nodes

namespace Region

variable {next : α → List α} (region : Region next) {x : α} {rest : List α}

/-- What waits behind a node of the region lies in the region. -/
theorem inside_rest (inside : ∀ y ∈ x :: rest, region.holds y) : ∀ y ∈ rest, region.holds y :=
  fun y mem => inside y (List.mem_cons_of_mem x mem)

/-- What comes after a node of the region, and what waits behind it, lies in the region. -/
theorem inside_next (inside : ∀ y ∈ x :: rest, region.holds y) :
    ∀ y ∈ next x ++ rest, region.holds y := by
  intro y mem
  rcases List.mem_append.mp mem with mem | mem
  · exact region.closed x (inside x List.mem_cons_self) y mem
  · exact region.inside_rest inside y mem

end Region

variable [BEq α] [Hashable α]

/-- How many nodes of a list have not been visited. -/
def unvisited (nodes : List α) (visited : Std.HashSet α) : Nat :=
  nodes.countP fun x => !visited.contains x

theorem unvisited_insert_le [LawfulBEq α] (nodes : List α) (visited : Std.HashSet α) (x : α) :
    unvisited nodes (visited.insert x) ≤ unvisited nodes visited := by
  apply List.countP_mono_left
  intro y _ h
  simp only [Std.HashSet.contains_insert, Bool.not_or, Bool.and_eq_true] at h
  exact h.2

/-- A fresh visit leaves one node fewer to be visited. -/
theorem unvisited_insert_lt [LawfulBEq α] {nodes : List α} {visited : Std.HashSet α} {x : α}
    (mem : x ∈ nodes) (fresh : visited.contains x = false) :
    unvisited nodes (visited.insert x) < unvisited nodes visited := by
  induction nodes with
  | nil => simp at mem
  | cons y rest ih =>
    have le := unvisited_insert_le rest visited x
    simp only [unvisited, List.countP_cons] at ih le ⊢
    by_cases h : y = x
    · subst h
      have visited_now : (visited.insert y).contains y = true := by simp
      simp only [visited_now, fresh, Bool.not_true, Bool.not_false, Bool.false_eq_true, if_true,
        if_false]
      omega
    · have mem : x ∈ rest := by simpa [Ne.symm h] using mem
      have lt := ih mem
      have same : (visited.insert x).contains y = visited.contains y := by
        simp [Std.HashSet.contains_insert, Ne.symm h]
      simp only [same]
      omega

/-- Visits the waiting nodes and everything that can be reached from them, except what has been
visited before, and collects what is found. -/
def explore [LawfulBEq α] (next : α → List α) (found : α → List β) (region : Region next)
    (visited : Std.HashSet α) :
    (waiting : List α) → (∀ x ∈ waiting, region.holds x) → List β
  | [], _ => []
  | x :: rest, inside =>
    if _seen : visited.contains x then
      explore next found region visited rest (region.inside_rest inside)
    else
      found x ++ explore next found region (visited.insert x) (next x ++ rest)
        (region.inside_next inside)
termination_by waiting => (unvisited region.finite.choose visited, waiting.length)
decreasing_by
  · exact Prod.Lex.right _ (by simp)
  · exact Prod.Lex.left _ _ (unvisited_insert_lt
      (region.finite.choose_spec x (inside x List.mem_cons_self)) (by simpa using _seen))

section

variable [LawfulBEq α] {next : α → List α} {found : α → List β} {region : Region next}
  {visited : Std.HashSet α}

@[simp] theorem explore_nil (inside : ∀ x ∈ ([] : List α), region.holds x) :
    explore next found region visited [] inside = [] := by
  rw [explore]

/-- A node that has been visited is passed over. -/
theorem explore_cons_of_visited {x : α} {rest : List α}
    (inside : ∀ y ∈ x :: rest, region.holds y) (h : visited.contains x = true) :
    explore next found region visited (x :: rest) inside =
      explore next found region visited rest (region.inside_rest inside) := by
  rw [explore, dif_pos h]

/-- A fresh node yields what is found there, and what comes after it is visited next. -/
theorem explore_cons_of_fresh {x : α} {rest : List α}
    (inside : ∀ y ∈ x :: rest, region.holds y) (h : visited.contains x = false) :
    explore next found region visited (x :: rest) inside =
      found x ++ explore next found region (visited.insert x) (next x ++ rest)
        (region.inside_next inside) := by
  rw [explore, dif_neg (by simp [h])]

end

/-- Searches from one node. -/
def exploreFrom [LawfulBEq α] (next : α → List α) (found : α → List β) (region : Region next)
    (start : α) (inside : region.holds start) : List β :=
  explore next found region ∅ [start] fun _ mem => List.mem_singleton.mp mem ▸ inside

end Search
end CommandGrammar
