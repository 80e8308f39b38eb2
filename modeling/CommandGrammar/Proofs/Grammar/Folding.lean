import CommandGrammar.Proofs.Grammar.Parsing
import CommandGrammar.Proofs.Language

/-!
# Folding a tree

While a source is read, a parenthesised alternation of bare captures becomes one capture with all
their tags.  The tree is different from the one that is written, and a group that is folded may make
the group around it one that can be folded too.

Reading with folding is reading without it and folding the tree afterwards, from the leaves up: the
machine that folds and the one that does not go through the same stacks of drafts, up to folding.
In particular they fail at the same lexeme with the same fault.  What a tree denotes survives folding
if its leaves do not tell a capture with several tags from several captures (`JoinsTags`).

Main statements:

* `Reading.read_folded`: folding commutes with reading one lexeme;
* `parse_eq_map_foldedBelow`: reading with folding is reading without it, and folding;
* `denote_foldedBelow`: folding does not change what a tree denotes.
-/

open CommandGrammar.Grammar.Derivation

namespace CommandGrammar
namespace Grammar

/-! ## Folding a tree -/

mutual

/-- The tree with its alternations folded, from the leaves up. -/
def folded : Grammar → Grammar
  | .leaf rule => .leaf rule
  | .sequence children => .sequence (foldedAll children)
  | .alternatives branches => foldedGroup (foldedBranches branches)
  | .quantified quantifier inner => .quantified quantifier inner.folded

/-- The children of a sequence, folded. -/
def foldedAll : List Grammar → List Grammar
  | [] => []
  | child :: rest => child.folded :: foldedAll rest

/-- The branches of an alternation, folded. -/
def foldedBranches : List (List Grammar) → List (List Grammar)
  | [] => []
  | branch :: rest => foldedAll branch :: foldedBranches rest

end

/-- The tree with everything folded but an alternation at its root. -/
def foldedBelow : Grammar → Grammar
  | .alternatives branches => .alternatives (foldedBranches branches)
  | other => other.folded

theorem foldedAll_eq_map (children : List Grammar) : foldedAll children = children.map folded := by
  induction children with
  | nil => rw [foldedAll, List.map_nil]
  | cons child rest ih => rw [foldedAll, ih, List.map_cons]

theorem foldedBranches_eq_map (branches : List (List Grammar)) :
    foldedBranches branches = branches.map (List.map folded) := by
  induction branches with
  | nil => rw [foldedBranches, List.map_nil]
  | cons branch rest ih => rw [foldedBranches, ih, foldedAll_eq_map, List.map_cons]

theorem isQuantified_folded (grammar : Grammar) :
    grammar.folded.isQuantified = grammar.isQuantified := by
  cases grammar with
  | alternatives branches =>
    rw [folded]
    exact isQuantified_foldedGroup _
  | _ => rw [folded] <;> rfl

theorem folded_plainGroup (branches : List (List Grammar)) :
    (plainGroup branches).folded = foldedGroup (branches.map (List.map folded)) := by
  match branches with
  | [] | first :: second :: rest =>
    rw [plainGroup, folded, foldedBranches_eq_map]
    nofun
  | [children] =>
    rw [plainGroup, folded, foldedAll_eq_map, List.map_singleton, ← gathered_true (by simp)]
    rfl

theorem foldedBelow_plainGroup (branches : List (List Grammar)) :
    (plainGroup branches).foldedBelow = plainGroup (branches.map (List.map folded)) := by
  match branches with
  | [] => rfl
  | [children] =>
    rw [plainGroup, foldedBelow, folded, foldedAll_eq_map]
    · rfl
    · nofun
  | first :: second :: rest =>
    rw [plainGroup, foldedBelow, foldedBranches_eq_map]
    · rfl
    · nofun

/-! ## Reading and folding -/

/-- A draft with the trees in it folded. -/
def Draft.folded (draft : Draft) : Draft :=
  ⟨draft.branches.map (List.map Grammar.folded), draft.elements.map Grammar.folded⟩

namespace Draft

theorem content_folded (draft : Draft) :
    draft.folded.content = draft.content.map (List.map Grammar.folded) := by
  simp [content, folded]

/-- How a group ends: with a fault if its current branch is empty, else with its tree. -/
theorem finish_eq (draft : Draft) (folding : Bool) :
    draft.finish folding =
      if draft.elements = [] then
        .error (if draft.branches = [] then .emptyGroup else .emptyAlternative)
      else .ok (gathered folding draft.content) := by
  by_cases hne : draft.elements = []
  · obtain ⟨branches, elements⟩ := draft
    obtain rfl : elements = [] := hne
    cases branches <;> rfl
  · rw [if_neg hne]
    exact finish_eq_ok_iff.mpr ⟨hne, rfl⟩

theorem finish_folded (draft : Draft) :
    draft.folded.finish true = (draft.finish false).map Grammar.folded := by
  rw [finish_eq, finish_eq, content_folded, gathered_false]
  by_cases hne : draft.elements = []
  · simp [folded, hne, Except.map]
  · rw [if_neg hne, if_neg (by simpa [folded] using hne), Except.map, folded_plainGroup,
      gathered_true (by simpa using draft.content_ne_nil)]

/-- The source as a whole is not folded. -/
theorem finish_folded_below (draft : Draft) :
    draft.folded.finish false = (draft.finish false).map foldedBelow := by
  rw [finish_eq, finish_eq, content_folded, gathered_false, gathered_false]
  by_cases hne : draft.elements = []
  · simp [folded, hne, Except.map]
  · rw [if_neg hne, if_neg (by simpa [folded] using hne), Except.map, foldedBelow_plainGroup]

theorem push_folded (draft : Draft) (element : Grammar) :
    draft.folded.push element.folded = (draft.push element).folded := rfl

theorem quantify_folded (draft : Draft) (quantifier : Quantifier) :
    draft.folded.quantify quantifier = (draft.quantify quantifier).map folded := by
  obtain ⟨branches, elements⟩ := draft
  cases elements with
  | nil => rfl
  | cons last before =>
    show (if last.folded.isQuantified then _ else _) = _
    rw [isQuantified_folded]
    by_cases hlast : last.isQuantified = true
    · simp [quantify, hlast, Except.map]
    · simp [quantify, hlast, Except.map, folded, Grammar.folded]

theorem nextBranch_folded (draft : Draft) :
    draft.folded.nextBranch = draft.nextBranch.map folded := by
  obtain ⟨branches, elements⟩ := draft
  cases elements with
  | nil => rfl
  | cons last before => simp [nextBranch, Except.map, folded]

end Draft

theorem folded_of_classify {text : String} {leaf : Grammar} (h : classify text = .ok leaf) :
    leaf.folded = leaf := by
  obtain ⟨-, rfl⟩ := classify_eq_ok_iff_oneCased.mp h
  unfold wordTree
  split <;> rw [folded]

namespace Reading

/-- What has been read, with the trees in it folded. -/
def folded (reading : Reading) : Reading := ⟨reading.inner.folded, reading.outer.map Draft.folded⟩

/-- The machine that folds does with a lexeme what the other one does, and folds. -/
theorem read_folded (reading : Reading) (lexeme : Lexeme) :
    reading.folded.read true lexeme = (reading.read false lexeme).map folded := by
  obtain ⟨draft, around⟩ := reading
  cases lexeme with
  | word text =>
    rw [read, read]
    cases hleaf : classify text with
    | error fault => rfl
    | ok leaf =>
      have hfolded := folded_of_classify hleaf
      show Except.ok (⟨draft.folded.push leaf, _⟩ : Reading) = .ok ⟨(draft.push leaf).folded, _⟩
      rw [← Draft.push_folded, hfolded]
      rfl
  | openGroup =>
    have hdepth : depth (folded ⟨draft, around⟩) = depth ⟨draft, around⟩ := List.length_map ..
    rw [read, read, hdepth]
    by_cases hmost : depth ⟨draft, around⟩ = maxNesting
    · rw [if_pos hmost, if_pos hmost]
      rfl
    · rw [if_neg hmost, if_neg hmost]
      rfl
  | closeGroup =>
    cases around with
    | nil => rfl
    | cons outside around =>
      show (draft.folded.finish true >>= fun group => _) = _
      rw [Draft.finish_folded]
      show _ = Except.map folded (draft.finish false >>= fun group => _)
      cases draft.finish false <;> rfl
  | bar =>
    show (draft.folded.nextBranch >>= fun inner => _) = _
    rw [Draft.nextBranch_folded]
    show _ = Except.map folded (draft.nextBranch >>= fun inner => _)
    cases draft.nextBranch <;> rfl
  | quantifier quantifier =>
    show (draft.folded.quantify quantifier >>= fun inner => _) = _
    rw [Draft.quantify_folded]
    show _ = Except.map folded (draft.quantify quantifier >>= fun inner => _)
    cases draft.quantify quantifier <;> rfl

theorem readAll_folded (reading : Reading) (placed : List Placed) :
    reading.folded.readAll true placed = (reading.readAll false placed).map folded := by
  induction placed generalizing reading with
  | nil => rfl
  | cons first rest ih =>
    rw [readAll, readAll, read_folded]
    cases reading.read false first.lexeme with
    | error fault => rfl
    | ok next => exact ih next

theorem finish_folded (reading : Reading) :
    reading.folded.finish = reading.finish.map foldedBelow := by
  obtain ⟨draft, around⟩ := reading
  cases around with
  | nil => exact draft.finish_folded_below
  | cons outside around => simp [finish, folded, depth, Except.map]

end Reading

/-- **Reading with folding is reading without it, and folding afterwards.** -/
theorem parse_eq_map_foldedBelow (source : String) :
    parse source = (parseWith false source).map foldedBelow := by
  have hstart : Reading.start = Reading.start.folded := rfl
  rw [parse, parseWith, parseWith, hstart, Reading.readAll_folded, ← hstart]
  cases Reading.start.readAll false (lexemes source) with
  | error error => rfl
  | ok reading =>
    simp only [Except.map, Reading.finish_folded]
    cases reading.finish <;> rfl

/-! ## What a folded tree denotes -/

section

variable {α : Type}

/-- The leaves do not tell a capture with several tags from several captures: with the tags of all
of them it denotes what they denote together. -/
def JoinsTags (leaf : Rule → Language α) : Prop :=
  ∀ tags : List (List String), tags ≠ [] →
    leaf (.capture tags.flatten.eraseDups) = (tags.map fun own => leaf (.capture own)).sum

theorem eq_map_of_mapM_bareTags {branches : List (List Grammar)} {tags : List (List String)}
    (h : branches.mapM bareTags = some tags) : branches = tags.map fun own => [capture own] := by
  induction branches generalizing tags with
  | nil =>
    cases h
    rfl
  | cons branch rest ih =>
    rw [List.mapM_cons] at h
    obtain ⟨own, hown, h⟩ := Option.bind_eq_some_iff.mp h
    obtain ⟨others, hothers, h⟩ := Option.bind_eq_some_iff.mp h
    cases h
    unfold bareTags at hown
    split at hown
    · cases hown
      rw [ih hothers, List.map_cons]
    · cases hown

variable {leaf : Rule → Language α}

theorem denoteBranches_bare (tags : List (List String)) :
    denoteBranches leaf (tags.map fun own => [capture own]) =
      tags.map fun own => leaf (.capture own) := by
  induction tags with
  | nil => rw [List.map_nil, denoteBranches, List.map_nil]
  | cons own rest ih =>
    rw [List.map_cons, denoteBranches, ih, denoteAll, denoteAll, denote, mul_one, List.map_cons]

theorem denote_plainGroup (branches : List (List Grammar)) :
    (plainGroup branches).denote leaf = oneOf (denoteBranches leaf branches) := by
  match branches with
  | [] | first :: second :: rest =>
    rw [plainGroup, denote]
    nofun
  | [children] =>
    rw [plainGroup, denote, denoteBranches, denoteBranches, oneOf_cons, List.sum_singleton]

theorem denote_foldedGroup (hleaf : JoinsTags leaf) (branches : List (List Grammar)) :
    (foldedGroup branches).denote leaf = oneOf (denoteBranches leaf branches) := by
  unfold foldedGroup
  split
  · next tags htags =>
    split
    · next hlength =>
      obtain rfl := eq_map_of_mapM_bareTags htags
      cases tags with
      | nil => exact absurd hlength (by decide)
      | cons own rest =>
        rw [denote, hleaf _ (List.cons_ne_nil own rest), denoteBranches_bare, List.map_cons,
          oneOf_cons]
    · exact denote_plainGroup branches
  · exact denote_plainGroup branches

mutual

/-- Folding does not change what a tree denotes. -/
theorem denote_folded (hleaf : JoinsTags leaf) : (grammar : Grammar) →
    grammar.folded.denote leaf = grammar.denote leaf
  | .leaf rule => by rw [folded]
  | .sequence children => by rw [folded, denote, denote, denoteAll_folded hleaf children]
  | .alternatives branches => by
    rw [folded, denote_foldedGroup hleaf, denote, denoteBranches_folded hleaf branches]
  | .quantified quantifier inner => by rw [folded, denote, denote, denote_folded hleaf inner]

theorem denoteAll_folded (hleaf : JoinsTags leaf) : (children : List Grammar) →
    denoteAll leaf (foldedAll children) = denoteAll leaf children
  | [] => by rw [foldedAll]
  | child :: rest => by
    rw [foldedAll, denoteAll, denoteAll, denote_folded hleaf child, denoteAll_folded hleaf rest]

theorem denoteBranches_folded (hleaf : JoinsTags leaf) : (branches : List (List Grammar)) →
    denoteBranches leaf (foldedBranches branches) = denoteBranches leaf branches
  | [] => by rw [foldedBranches]
  | branch :: rest => by
    rw [foldedBranches, denoteBranches, denoteBranches, denoteAll_folded hleaf branch,
      denoteBranches_folded hleaf rest]

end

theorem denote_foldedBelow (hleaf : JoinsTags leaf) (grammar : Grammar) :
    grammar.foldedBelow.denote leaf = grammar.denote leaf := by
  unfold foldedBelow
  split
  · next branches => rw [denote, denote, denoteBranches_folded hleaf branches]
  · exact denote_folded hleaf _

end

/-! ## Trees that are read without folding -/

theorem mem_leavesAll_iff {children : List Grammar} {rule : Rule} :
    rule ∈ leavesAll children ↔ ∃ child ∈ children, rule ∈ child.leaves := by
  induction children with
  | nil => simp [leavesAll]
  | cons child rest ih => simp [leavesAll, ih]

theorem mem_leavesBranches_iff {branches : List (List Grammar)} {rule : Rule} :
    rule ∈ leavesBranches branches ↔
      ∃ branch ∈ branches, ∃ child ∈ branch, rule ∈ child.leaves := by
  induction branches with
  | nil => simp [leavesBranches]
  | cons branch rest ih => simp [leavesBranches, ih, mem_leavesAll_iff]

theorem mem_leaves_plainGroup_iff {branches : List (List Grammar)} {rule : Rule} :
    rule ∈ (plainGroup branches).leaves ↔
      ∃ branch ∈ branches, ∃ child ∈ branch, rule ∈ child.leaves := by
  rw [← mem_leavesBranches_iff]
  match branches with
  | [] | first :: second :: rest =>
    rw [plainGroup, leaves]
    nofun
  | [children] => rw [plainGroup, leaves, leavesBranches, leavesBranches, List.append_nil]

/-- A keyword, or a capture with one tag. -/
def IsWordRule : Rule → Prop
  | .keyword _ => True
  | .capture tags => ∃ tag, tags = [tag]

/-- Without folding every leaf is that of a word. -/
theorem isWordRule_of_parseWith {source : String} {tree : Grammar}
    (h : parseWith false source = .ok tree) : ∀ rule ∈ tree.leaves, IsWordRule rule := by
  have hp : Inherited false fun tree => ∀ rule ∈ tree.leaves, IsWordRule rule := by
    refine ⟨fun text leaf hleaf rule hrule => ?_, fun branches hbranches rule hrule => ?_, ?_⟩
    · obtain ⟨-, rfl⟩ := classify_eq_ok_iff_oneCased.mp hleaf
      unfold wordTree at hrule
      split at hrule
      · rw [List.mem_singleton.mp hrule]
        exact trivial
      · rw [List.mem_singleton.mp hrule]
        exact ⟨text, rfl⟩
    · rw [gathered_false] at hrule
      obtain ⟨branch, hbranch, child, hchild, hrule⟩ := mem_leaves_plainGroup_iff.mp hrule
      exact hbranches branch hbranch child hchild rule hrule
    · exact fun quantifier inner hinner => hinner
  exact hp.of_parseWith h

end Grammar
end CommandGrammar
