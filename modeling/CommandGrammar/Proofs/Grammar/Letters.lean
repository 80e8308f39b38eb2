import CommandGrammar.Proofs.Grammar.Cutting
import CommandGrammar.Proofs.Grammar.Parsing
import Mathlib.Data.List.Flatten

/-!
# The letters of a source

The letters of a source are the characters of its words: everything but separators, parentheses,
bars and quantifiers.  Reading a source and writing the tree down again adds no letter.  Parentheses
may go and spaces may come, but a letter is only ever lost, and this where a group of captures is
folded and a tag that has occurred is dropped (`filter_isWordChar_toSource_sublist`).  The letters are
therefore a measure of a text that the text of its tree does not exceed, whereas its length may well
grow.

Both texts are compared with the letters in the spelling of the tree.  On the side of the source this
is an induction over its derivation.

The last section says where the text of a tree begins and ends: never with a separator.
-/

namespace CommandGrammar
namespace Grammar

open CommandGrammar.Grammar.Derivation

/-! ## Letters of lexemes -/

/-- The letters of one lexeme: a mark has none. -/
def Lexeme.letters : Lexeme → List Char
  | .word text => text.toList
  | _ => []

/-- The characters of the words among some lexemes. -/
def letters (lexemes : List Lexeme) : List Char := lexemes.flatMap Lexeme.letters

@[simp] theorem letters_nil : letters [] = [] := rfl

@[simp] theorem letters_cons (lexeme : Lexeme) (rest : List Lexeme) :
    letters (lexeme :: rest) = lexeme.letters ++ letters rest := List.flatMap_cons

@[simp] theorem letters_append (first second : List Lexeme) :
    letters (first ++ second) = letters first ++ letters second := List.flatMap_append

theorem letters_of_markOf {c : Char} {mark : Lexeme} (h : markOf c = some mark) :
    mark.letters = [] := by
  cases mark with
  | word text => exact absurd h (markOf_ne_word c text)
  | openGroup | closeGroup | bar | quantifier _ => rfl

/-- A text is cut without losing a letter. -/
theorem letters_map_lexemesFrom (offset : Nat) (cs : List Char) :
    letters ((lexemesFrom offset cs).map Placed.lexeme) = cs.filter isWordChar := by
  fun_induction lexemesFrom offset cs with
  | case1 => rfl
  | case2 offset c rest hseparator ih =>
    have hc : isWordChar c = false := by simp [isWordChar, isDelimiter_of_isSeparator hseparator]
    rw [ih, List.filter_cons_of_neg (by simp [hc])]
  | case3 offset c rest hseparator mark hmark ih =>
    have hc : isWordChar c = false := by simp [isWordChar, isDelimiter_of_markOf hmark]
    rw [List.map_cons, letters_cons, ih, letters_of_markOf hmark, List.nil_append,
      List.filter_cons_of_neg (by simp [hc])]
  | case4 offset c rest hseparator hmark tail ih =>
    have hc : isWordChar c = true := isWordChar_of_markOf hseparator hmark
    have htail : tail.filter isWordChar = tail :=
      List.filter_eq_self.mpr (List.all_eq_true.mp List.all_takeWhile)
    have hrest : rest.filter isWordChar = tail ++ (rest.dropWhile isWordChar).filter isWordChar := by
      rw [← htail, ← List.filter_append, List.takeWhile_append_dropWhile]
    rw [List.map_cons, letters_cons, ih, List.filter_cons_of_pos hc, hrest, Lexeme.letters,
      String.toList_ofList, List.cons_append]

/-- Bars between branches have no letters. -/
theorem letters_intercalate_bar (branches : List (List Lexeme)) :
    letters ([.bar].intercalate branches) = branches.flatMap letters := by
  induction branches with
  | nil => rfl
  | cons first rest ih =>
    cases rest with
    | nil => simp
    | cons second more =>
      rw [List.intercalate_cons_cons, letters_append, letters_append, ih, List.flatMap_cons]
      simp [Lexeme.letters]

/-! ## Letters of trees -/

theorem letters_groupSpelling (branches : List (List Lexeme)) :
    letters (groupSpelling branches) = branches.flatMap letters := by
  rw [groupSpelling, letters_cons, letters_append, letters_intercalate_bar]
  simp [Lexeme.letters]

theorem letters_captureSpelling (tags : List String) :
    letters (captureSpelling tags) = tags.flatMap String.toList := by
  unfold captureSpelling
  split
  · simp [Lexeme.letters]
  · rw [letters_groupSpelling, List.flatMap_map]
    simp [Lexeme.letters]

theorem letters_plainGroup (branches : List (List Grammar)) :
    letters (plainGroup branches).spelling = (spellingBranches branches).flatMap letters := by
  unfold plainGroup
  split
  · rw [spelling, letters_groupSpelling, spellingBranches, spellingBranches]
  · rw [spelling, letters_groupSpelling]

/-- The letters of branches that are bare captures are those of their tags. -/
theorem letters_of_sharedTags {branches : List (List Grammar)} {tags : List String}
    (h : sharedTags branches = some tags) :
    (spellingBranches branches).flatMap letters = tags.flatMap String.toList := by
  fun_induction sharedTags branches generalizing tags with
  | case1 =>
    obtain rfl := Option.some.inj h
    rfl
  | case2 first rest ih =>
    obtain ⟨others, hothers, rfl⟩ := Option.map_eq_some_iff.mp h
    rw [spellingBranches, List.flatMap_cons, ih hothers, List.flatMap_append]
    simp [spellingAll, spelling, letters_captureSpelling]
  | case3 => cases h

/-- Folding a group drops tags that have occurred, and adds nothing. -/
theorem letters_foldedGroup_sublist (branches : List (List Grammar)) :
    (letters (foldedGroup branches).spelling).Sublist
      ((spellingBranches branches).flatMap letters) := by
  have hshared := sharedTags_eq_mapM branches
  unfold foldedGroup
  split
  · next tags htags =>
    rw [htags] at hshared
    split
    · rw [spelling, letters_captureSpelling, letters_of_sharedTags hshared]
      exact (eraseDups_sublist tags.flatten).flatMap String.toList
    · rw [letters_plainGroup]
  · rw [letters_plainGroup]

theorem letters_marked (mark : Option Quantifier) (tree : Grammar) :
    letters (marked mark tree).spelling = letters tree.spelling := by
  cases mark with
  | none => rfl
  | some quantifier => simp [marked, spelling, Lexeme.letters]

theorem letters_wordTree (text : String) : letters (wordTree text).spelling = text.toList := by
  unfold wordTree
  split <;> simp [spelling, captureSpelling, Lexeme.letters]

/-! ## From a source to its tree -/

mutual

/-- The tree of an alternation has no more letters than its lexemes. -/
theorem Derivation.Alts.letters_sublist : (d : Alts) →
    ((spellingBranches d.branches).flatMap letters).Sublist (letters d.lexemes)
  | .last branch => by
    rw [Alts.branches, Alts.lexemes, spellingBranches, spellingBranches, List.flatMap_singleton]
    exact branch.letters_sublist
  | .bar branch rest => by
    rw [Alts.branches, Alts.lexemes, spellingBranches, List.flatMap_cons, letters_append]
    exact branch.letters_sublist.append rest.letters_sublist

/-- The elements of a branch have no more letters than its lexemes. -/
theorem Derivation.Branch.letters_sublist : (d : Branch) →
    (letters (spellingAll d.elements)).Sublist (letters d.lexemes)
  | .last element => by
    rw [Branch.elements, Branch.lexemes, spellingAll, spellingAll, List.append_nil]
    exact element.letters_sublist
  | .cons element rest => by
    rw [Branch.elements, Branch.lexemes, spellingAll, letters_append, letters_append]
    exact element.letters_sublist.append rest.letters_sublist

/-- The tree of an element has no more letters than its lexemes. -/
theorem Derivation.Element.letters_sublist : (d : Element) →
    (letters d.tree.spelling).Sublist (letters d.lexemes)
  | .word text mark => by
    rw [Element.tree, Element.lexemes, letters_marked, letters_wordTree, letters_cons]
    exact List.sublist_append_left _ _
  | .group alts mark => by
    have hinside := (letters_foldedGroup_sublist alts.branches).trans alts.letters_sublist
    rw [Element.tree, Element.lexemes, letters_marked, letters_cons, letters_append]
    exact hinside.trans (List.sublist_append_left _ _)

end

/-- What is read from a source has no letters that the source does not have. -/
theorem letters_spelling_sublist {source : String} {tree : Grammar} (h : parse source = .ok tree) :
    (letters tree.spelling).Sublist (source.toList.filter isWordChar) := by
  obtain ⟨d, hlexemes, -, -, rfl⟩ := parse_eq_ok_iff_exists_derivation.mp h
  have hsource : letters d.lexemes = source.toList.filter isWordChar := by
    rw [hlexemes]
    exact letters_map_lexemesFrom 0 source.toList
  rw [Alts.tree, letters_plainGroup, ← hsource]
  exact d.letters_sublist

/-- What is written for a tree has the letters of the tree. -/
theorem Canonical.filter_isWordChar_toSource {tree : Grammar} (h : tree.Canonical) :
    tree.toSource.toList.filter isWordChar = letters tree.spelling := by
  obtain ⟨branches, -, hbranches, rfl, hsource⟩ := h.exists_branches
  rw [gathered_false] at hsource ⊢
  rw [hsource, ← letters_map_lexemesFrom 0, letters_plainGroup, ← letters_intercalate_bar]
  exact congrArg letters (kinds_branchTexts hbranches)

/-- **Reading a source and writing its tree adds no letter.** -/
theorem filter_isWordChar_toSource_sublist {source : String} {tree : Grammar}
    (h : parse source = .ok tree) :
    (tree.toSource.toList.filter isWordChar).Sublist (source.toList.filter isWordChar) := by
  rw [(canonical_of_parse h).filter_isWordChar_toSource]
  exact letters_spelling_sublist h

/-! ## Where a text begins and ends -/

/-- A text that begins and ends with characters that are no separators. -/
structure Framed (cs : List Char) : Prop where
  first : ∃ c ∈ cs.head?, Text.isSeparator c = false
  last : ∃ c ∈ cs.getLast?, Text.isSeparator c = false

/-- Only the outer parts of a text matter. -/
theorem Framed.append {first last : List Char} (hfirst : Framed first) (hlast : Framed last)
    (between : List Char) : Framed (first ++ between ++ last) := by
  obtain ⟨c, hc, hfirst⟩ := hfirst.first
  obtain ⟨d, hd, hlast⟩ := hlast.last
  refine ⟨⟨c, ?_, hfirst⟩, d, ?_, hlast⟩
  · rw [Option.mem_def] at hc
    simp [List.head?_append, hc]
  · rw [Option.mem_def] at hd
    simp [List.getLast?_append, hd]

theorem framed_singleton {c : Char} (h : Text.isSeparator c = false) : Framed [c] :=
  ⟨⟨c, rfl, h⟩, c, rfl, h⟩

theorem framed_word {case other : Char → Bool} {text : String} (h : IsWord case other text) :
    Framed text.toList := by
  have hplain : ∀ c ∈ text.toList, Text.isSeparator c = false := by
    intro c hc
    by_contra hseparator
    have hdelimiter := isDelimiter_of_isSeparator (Bool.not_eq_false _ ▸ hseparator)
    rw [h.plain c hc] at hdelimiter
    cases hdelimiter
  obtain ⟨c, hc, -⟩ := h.exists_case
  have hne : text.toList ≠ [] := List.ne_nil_of_mem hc
  exact ⟨⟨_, List.head?_eq_some_head hne, hplain _ (List.head_mem hne)⟩,
    _, List.getLast?_eq_some_getLast hne, hplain _ (List.getLast_mem hne)⟩

theorem framed_intercalate (separator : String) {texts : List String} (hne : texts ≠ [])
    (h : ∀ text ∈ texts, Framed text.toList) : Framed (separator.intercalate texts).toList := by
  induction texts with
  | nil => exact absurd rfl hne
  | cons first rest ih =>
    obtain ⟨hfirst, hrest⟩ := List.forall_mem_cons.mp h
    cases rest with
    | nil => rwa [String.intercalate_singleton]
    | cons second more =>
      rw [String.intercalate_cons_cons, String.toList_append, String.toList_append]
      exact hfirst.append (ih (List.cons_ne_nil _ _) hrest) _

theorem framed_parenthesised (text : String) : Framed ("(" ++ text ++ ")").toList := by
  rw [String.toList_append, String.toList_append]
  exact (framed_singleton rfl).append (framed_singleton rfl) _

theorem IsElement.framed {room : Nat} {tree : Grammar} (h : tree.IsElement room) :
    Framed tree.element.toList := by
  induction h with
  | keyword hword => exact framed_word hword
  | tag htag => exact framed_word htag
  | @tags room tags hlength _ _ =>
    match tags, hlength with
    | first :: second :: rest, _ => exact framed_parenthesised _
  | sequence _ _ _ => exact framed_parenthesised _
  | alternatives _ _ _ _ _ => exact framed_parenthesised _
  | @quantified _ quantifier inner _ _ ih =>
    have hsymbol : Text.isSeparator quantifier.symbol = false := by cases quantifier <;> rfl
    rw [element, String.toList_append, toList_toString, ← List.append_nil inner.element.toList]
    exact ih.append (framed_singleton hsymbol) []

/-- The text of a tree begins and ends with characters that are no separators. -/
theorem Canonical.framed_toSource {tree : Grammar} (h : tree.Canonical) :
    Framed tree.toSource.toList := by
  obtain ⟨branches, hne, hbranches, -, hsource⟩ := h.exists_branches
  rw [hsource, branchTexts_eq_map]
  refine framed_intercalate "|" (by simp [hne]) fun text htext => ?_
  obtain ⟨branch, hbranch, rfl⟩ := List.mem_map.mp htext
  obtain ⟨hchildren, helements⟩ := hbranches branch hbranch
  rw [elements_eq_map]
  refine framed_intercalate " " (by simp [hchildren]) fun text htext => ?_
  obtain ⟨child, hchild, rfl⟩ := List.mem_map.mp htext
  exact (helements child hchild).framed

end Grammar
end CommandGrammar
