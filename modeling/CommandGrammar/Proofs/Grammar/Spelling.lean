import CommandGrammar.Grammar.Printer
import CommandGrammar.Proofs.Grammar.Canonical

/-!
# The lexemes of a canonical tree

Between the text of a grammar and its tree stand its lexemes.  `spelling` writes a tree down in
lexemes, and reading them adds the tree to the draft that is being read (`IsElement.legible`).  The
statement is about a tree inside a larger source: it is made for any drafts that are open, as long
as they leave enough levels for the groups of the tree.

A capture with several tags is spelled as a group, whose branches are captures with one tag each
(`tagBranches`); closing the group folds them back into one capture.  An alternation that is
canonical below the root is not folded, and this is what the condition on it is for.
-/

namespace CommandGrammar
namespace Grammar

/-! ## Spelling -/

/-- The lexemes of a group whose branches have the given lexemes. -/
def groupSpelling (branches : List (List Lexeme)) : List Lexeme :=
  .openGroup :: ([.bar].intercalate branches ++ [.closeGroup])

/-- The lexemes of a capture: a single tag stands bare. -/
def captureSpelling : List String → List Lexeme
  | [tag] => [.word tag]
  | tags => groupSpelling (tags.map fun tag => [.word tag])

mutual

/-- The lexemes of a grammar inside a larger one. -/
def spelling : Grammar → List Lexeme
  | .leaf (.keyword word) => [.word word]
  | .leaf (.capture tags) => captureSpelling tags
  | .sequence children => groupSpelling [spellingAll children]
  | .alternatives branches => groupSpelling (spellingBranches branches)
  | .quantified quantifier inner => inner.spelling ++ [.quantifier quantifier]

/-- The lexemes of the children of a sequence. -/
def spellingAll : List Grammar → List Lexeme
  | [] => []
  | child :: rest => child.spelling ++ spellingAll rest

/-- The lexemes of the branches of an alternation. -/
def spellingBranches : List (List Grammar) → List (List Lexeme)
  | [] => []
  | branch :: rest => spellingAll branch :: spellingBranches rest

end

/-- The branches of an alternation that is folded into a capture with the given tags. -/
def tagBranches (tags : List String) : List (List Grammar) := tags.map fun tag => [capture [tag]]

theorem spellingBranches_tagBranches (tags : List String) :
    spellingBranches (tagBranches tags) = tags.map fun tag => [.word tag] := by
  induction tags with
  | nil => rfl
  | cons tag rest ih =>
    rw [tagBranches, List.map_cons, spellingBranches, ← tagBranches, ih, List.map_cons]
    rfl

theorem sharedTags_tagBranches (tags : List String) : sharedTags (tagBranches tags) = some tags := by
  induction tags with
  | nil => rfl
  | cons tag rest ih =>
    rw [tagBranches, List.map_cons, sharedTags, ← tagBranches, ih]
    rfl

theorem captureSpelling_of_two_le {tags : List String} (h : 2 ≤ tags.length) :
    captureSpelling tags = groupSpelling (spellingBranches (tagBranches tags)) := by
  rw [spellingBranches_tagBranches]
  match tags, h with
  | first :: second :: rest, _ => rfl

/-- A group of captures with one tag each is the capture with their tags. -/
theorem gathered_tagBranches {tags : List String} (hlength : 2 ≤ tags.length) (h : tags.Nodup) :
    gathered true (tagBranches tags) = capture tags := by
  have hbranches : 2 ≤ (tagBranches tags).length := by
    rw [tagBranches, List.length_map]
    exact hlength
  rw [gathered_of_two_le true hbranches, alternation_of_shared (sharedTags_tagBranches tags),
    eraseDups_of_nodup h]

/-! ## Reading a spelling -/

/-- The reading with an element added to the innermost draft. -/
def Reading.push (reading : Reading) (element : Grammar) : Reading :=
  ⟨reading.inner.push element, reading.outer⟩

/-- Reading the lexemes of a tree adds it to the draft, as long as so many more groups may be
opened. -/
def Legible (room : Nat) (tree : Grammar) : Prop :=
  ∀ reading : Reading, reading.depth + room ≤ maxNesting →
    Reading.Reads true reading tree.spelling (reading.push tree)

section

variable {room : Nat} {around : List Draft}

/-- The children of a sequence are added one after the other. -/
theorem reads_spellingAll {children : List Grammar} (h : ∀ child ∈ children, Legible room child)
    (hdepth : around.length + room ≤ maxNesting) (branches : List (List Grammar))
    (elements : List Grammar) :
    Reading.Reads true ⟨⟨branches, elements⟩, around⟩ (spellingAll children)
      ⟨⟨branches, children.reverse ++ elements⟩, around⟩ := by
  induction children generalizing elements with
  | nil => exact .nil
  | cons child rest ih =>
    rw [spellingAll, List.reverse_cons, List.append_assoc]
    have hchild := h child List.mem_cons_self ⟨⟨branches, elements⟩, around⟩ hdepth
    have hrest := ih (fun other hother => h other (List.mem_cons_of_mem _ hother))
      (child :: elements)
    exact hchild.trans hrest

/-- The branches of a group are added one after the other, and the last one is left open. -/
theorem reads_spellingBranches {branches : List (List Grammar)} (hne : branches ≠ [])
    (h : ∀ branch ∈ branches, branch ≠ [] ∧ ∀ child ∈ branch, Legible room child)
    (hdepth : around.length + room ≤ maxNesting) (done : List (List Grammar)) :
    ∃ draft : Draft, Reading.Reads true ⟨⟨done, []⟩, around⟩
        ([.bar].intercalate (spellingBranches branches)) ⟨draft, around⟩ ∧
      draft.elements ≠ [] ∧ draft.content = done.reverse ++ branches := by
  induction branches generalizing done with
  | nil => exact absurd rfl hne
  | cons first rest ih =>
    obtain ⟨hfirst, hchildren⟩ := h first List.mem_cons_self
    have hreads := reads_spellingAll hchildren hdepth done []
    rw [List.append_nil] at hreads
    cases rest with
    | nil =>
      refine ⟨⟨done, first.reverse⟩, ?_, List.reverse_ne_nil_iff.mpr hfirst, ?_⟩
      · rw [spellingBranches, spellingBranches, List.intercalate_singleton]
        exact hreads
      · rw [Draft.content, List.reverse_reverse]
    | cons second others =>
      obtain ⟨draft, hothers, hlast, hcontent⟩ := ih (List.cons_ne_nil _ _)
        (fun branch hbranch => h branch (List.mem_cons_of_mem _ hbranch)) (first :: done)
      refine ⟨draft, ?_, hlast, ?_⟩
      · rw [spellingBranches, spellingBranches, List.intercalate_cons_cons, ← spellingBranches]
        exact (hreads.bar hfirst).trans hothers
      · rw [hcontent, List.reverse_cons, List.append_assoc]
        rfl

/-- Reading a group adds its tree to the draft around it. -/
theorem reads_groupSpelling {branches : List (List Grammar)} (hne : branches ≠ [])
    (h : ∀ branch ∈ branches, branch ≠ [] ∧ ∀ child ∈ branch, Legible room child)
    {reading : Reading} (hdepth : reading.depth + (room + 1) ≤ maxNesting) :
    Reading.Reads true reading (groupSpelling (spellingBranches branches))
      (reading.push (gathered true branches)) := by
  obtain ⟨inner, outer⟩ := reading
  have hlevels : outer.length + (room + 1) ≤ maxNesting := hdepth
  have hopen : outer.length ≠ maxNesting := by omega
  have hinside : (inner :: outer).length + room ≤ maxNesting := by
    rw [List.length_cons]
    omega
  obtain ⟨draft, hreads, hlast, hcontent⟩ := reads_spellingBranches hne h hinside []
  have hgroup := hreads.group hopen hlast
  rw [hcontent] at hgroup
  exact hgroup

end

/-- A leaf is read as it is written. -/
theorem legible_word {room : Nat} {text : String} {leaf : Grammar}
    (hspelling : leaf.spelling = [.word text]) (h : classify text = .ok leaf) :
    Legible room leaf := by
  intro reading _
  rw [hspelling]
  exact (Reading.Advances.word h).reads

theorem legible_keyword {room : Nat} {word : String} (h : IsKeyword word) :
    Legible room (keyword word) :=
  legible_word rfl ((classify_eq_ok_iff h.plain).mpr (Or.inl ⟨h, rfl⟩))

theorem legible_tag {room : Nat} {tag : String} (h : IsTag tag) : Legible room (capture [tag]) :=
  legible_word rfl ((classify_eq_ok_iff h.plain).mpr (Or.inr ⟨h, rfl⟩))

/-- Reading the lexemes of an element adds the element to the draft. -/
theorem IsElement.legible {room : Nat} {tree : Grammar} (h : tree.IsElement room) :
    Legible room tree := by
  induction h with
  | keyword hword => exact legible_keyword hword
  | tag htag => exact legible_tag htag
  | @tags room tags hlength hnodup htags =>
    intro reading hdepth
    have hne : tagBranches tags ≠ [] := by
      rw [tagBranches, Ne, List.map_eq_nil_iff]
      rintro rfl
      cases hlength
    have hlegible : ∀ branch ∈ tagBranches tags, branch ≠ [] ∧
        ∀ child ∈ branch, Legible room child := by
      intro branch hbranch
      obtain ⟨tag, htag, rfl⟩ := List.mem_map.mp hbranch
      refine ⟨List.cons_ne_nil _ _, fun child hchild => ?_⟩
      rw [List.mem_singleton.mp hchild]
      exact legible_tag (htags tag htag)
    have hreads := reads_groupSpelling hne hlegible hdepth
    rw [gathered_tagBranches hlength hnodup, ← captureSpelling_of_two_le hlength] at hreads
    exact hreads
  | @sequence room children hne _ ih =>
    intro reading hdepth
    have hlegible : ∀ branch ∈ [children], branch ≠ [] ∧ ∀ child ∈ branch, Legible room child := by
      intro branch hbranch
      rw [List.mem_singleton.mp hbranch]
      exact ⟨hne, ih⟩
    exact reads_groupSpelling (List.cons_ne_nil _ _) hlegible hdepth
  | @alternatives room branches hlength hne _ hfold ih =>
    intro reading hdepth
    have hbranches : branches ≠ [] := by
      rintro rfl
      cases hlength
    have hshared : sharedTags branches = none := by
      rw [Option.eq_none_iff_forall_ne_some]
      exact fun tags htags => hfold (exists_sharedTags_iff.mp ⟨tags, htags⟩)
    have hreads := reads_groupSpelling hbranches
      (fun branch hbranch => ⟨hne branch hbranch, ih branch hbranch⟩) hdepth
    rw [gathered_of_two_le true hlength, alternation_of_not_shared hshared] at hreads
    exact hreads
  | quantified hinner _ ih =>
    intro reading hdepth
    exact (ih reading hdepth).trans (Reading.Advances.quantifier hinner).reads

end Grammar
end CommandGrammar
