import CommandGrammar.Proofs.Reachability

/-!
# Depth-first search by recursion

A search keeps a list of nodes that wait, and looks at the marks only when a node is about to be
visited.  The same search can be written as a recursion without such a list: a node that has been
visited is passed over; any other node is marked, what is found there is put out, and then the nodes
after it are visited from first to last, each with the marks that the one before has left.  This is
`Search.Progress.visit`.

Both make the same visits in the same order, because the list of waiting nodes is the list of calls
that the recursion still has to make.  The induction is that of the search (`exists_foldlM_visit`):
a fresh node puts what comes after it in front of what is waiting, and to visit a list that is put
together from two parts is to visit one part and then the other.

Nothing says beforehand that the recursion ends.  It is defined for all graphs, and has no result
where it does not end; that it has one is part of what is shown.
-/

namespace CommandGrammar
namespace Search

/-- How far a recursion over a graph has come: the nodes that are marked, and what was put out. -/
structure Progress (α β : Type) [BEq α] [Hashable α] where
  visited : Std.HashSet α
  output : List β

namespace Progress

variable {α β : Type} [BEq α] [Hashable α]

/-- Visits a node and what can be reached from it, except what has been visited before. -/
def visit (next : α → List α) (found : α → List β) (progress : Progress α β) (x : α) :
    Option (Progress α β) :=
  if progress.visited.contains x then some progress
  else
    let marked : Progress α β := ⟨progress.visited.insert x, progress.output ++ found x⟩
    (next x).foldlM (fun progress y => progress |>.visit next found y) marked
partial_fixpoint

variable {next : α → List α} {found : α → List β} {visited : Std.HashSet α} {output : List β}
  {x : α}

theorem visit_of_visited (h : visited.contains x = true) :
    visit next found ⟨visited, output⟩ x = some ⟨visited, output⟩ := by
  rw [visit, if_pos h]

theorem visit_of_fresh (h : visited.contains x = false) :
    visit next found ⟨visited, output⟩ x =
      (next x).foldlM (visit next found) ⟨visited.insert x, output ++ found x⟩ := by
  rw [visit, if_neg (by rw [h]; exact Bool.false_ne_true)]

end Progress

variable {α β : Type} [BEq α] [Hashable α] [LawfulBEq α] {next following : α → List α}
  {found : α → List β} {region : Region next} {P : α → Prop}

/-- The recursion ends where the search does, and puts out what the search finds, in the same order.
It may follow other nodes than the search where `P` fails, as long as neither comes there. -/
theorem exists_foldlM_visit (hsame : ∀ x, P x → next x = following x)
    (hkept : ∀ x, P x → ∀ y ∈ next x, P y) {visited : Std.HashSet α} {waiting : List α}
    {inside : ∀ x ∈ waiting, region.holds x} (hwaiting : ∀ x ∈ waiting, P x) (output : List β) :
    ∃ marked, waiting.foldlM (Progress.visit following found) ⟨visited, output⟩ =
      some ⟨marked, output ++ explore next found region visited waiting inside⟩ := by
  induction visited, waiting, inside using explore.induct generalizing output with
  | case1 visited inside =>
    rw [explore_nil, List.append_nil]
    exact ⟨visited, rfl⟩
  | case2 visited x rest inside hseen _ ih =>
    obtain ⟨marked, hrest⟩ := ih (fun y hy => hwaiting y (List.mem_cons_of_mem x hy)) output
    rw [explore_cons_of_visited inside hseen, List.foldlM_cons, Progress.visit_of_visited hseen]
    exact ⟨marked, hrest⟩
  | case3 visited x rest inside hseen _ ih =>
    have hfresh : visited.contains x = false := by simpa using hseen
    have hx : P x := hwaiting x List.mem_cons_self
    have hnext : ∀ y ∈ next x ++ rest, P y := by
      intro y hy
      rcases List.mem_append.mp hy with hy | hy
      · exact hkept x hx y hy
      · exact hwaiting y (List.mem_cons_of_mem x hy)
    -- what waits after the visit is what the call for `x` has to visit, and then the other calls
    obtain ⟨marked, hall⟩ := ih hnext (output ++ found x)
    rw [List.foldlM_append] at hall
    rw [explore_cons_of_fresh inside hfresh, List.foldlM_cons, Progress.visit_of_fresh hfresh,
      ← hsame x hx, ← List.append_assoc]
    exact ⟨marked, hall⟩

/-- The recursion from one node puts out what a search from it finds. -/
theorem exists_visit (hsame : ∀ x, P x → next x = following x)
    (hkept : ∀ x, P x → ∀ y ∈ next x, P y) {start : α} {inside : region.holds start}
    (hstart : P start) :
    ∃ marked, Progress.visit following found ⟨∅, []⟩ start =
      some ⟨marked, exploreFrom next found region start inside⟩ := by
  obtain ⟨marked, hall⟩ := @exists_foldlM_visit _ _ _ _ _ _ _ found region P hsame hkept ∅ [start]
    (fun _ hmem => List.mem_singleton.mp hmem ▸ inside)
    (fun _ hmem => List.mem_singleton.mp hmem ▸ hstart) []
  rw [List.foldlM_cons, List.nil_append] at hall
  exact ⟨marked, (bind_pure _).symm.trans hall⟩

end Search
end CommandGrammar
