import CommandGrammar.Proofs.Grammar.Derivation
import CommandGrammar.Proofs.Grammar.Drafting

/-!
# Reading finds the derivation

A source is read by a machine with a stack of drafts, and its grammar is a recursive one.  This
module shows that they agree: a source is read exactly when its lexemes are derived from an
alternation, its words have letters of one case, and its groups are not nested too deeply; and what
is read is the tree of the derivation.

From a derivation to a run of the machine the proof is by recursion on the derivation
(`Derivation.Alts.reads`).  From a run to a derivation it needs an invariant for the lexemes that
have been read when the source is still incomplete.  `Draft.Derived` says that they derive a group up
to some place inside it, and `Reading.Derived` says so for every group that is open, together with
the number of levels that are left in it.  Every lexeme preserves this (`Reading.Derived.advances`).

Main statements:

* `Reading.Derived.reads`: whatever has been read is derived so far;
* `parse_eq_ok_iff_exists_derivation`: a source is read exactly when it has a derivation;
* `parse_agrees_derivations`: the same together with the uniqueness of the derivation.
-/

open CommandGrammar.Grammar.Derivation

namespace CommandGrammar
namespace Grammar

/-! ## Words -/

theorem oneCased_iff {text : String} : OneCased text ↔
    text.toList.any Text.isLower = true ∧ text.toList.any Text.isUpper = false ∨
      text.toList.any Text.isUpper = true ∧ text.toList.any Text.isLower = false := by
  simp only [OneCased, List.any_eq_true, List.any_eq_false, Bool.not_eq_true]

instance (text : String) : Decidable (OneCased text) := decidable_of_iff _ oneCased_iff.symm

/-- A word is accepted exactly when it has letters of one case, and its leaf is the one that is
prescribed. -/
theorem classify_eq_ok_iff_oneCased {text : String} {leaf : Grammar} :
    classify text = .ok leaf ↔ OneCased text ∧ leaf = wordTree text := by
  rw [oneCased_iff, classify, wordTree]
  cases text.toList.any Text.isLower <;> cases text.toList.any Text.isUpper <;>
    simp [@eq_comm _ leaf]

/-- All words among the lexemes have letters of one case. -/
def WordsOneCased (lexemes : List Lexeme) : Prop := ∀ text, .word text ∈ lexemes → OneCased text

theorem wordsOneCased_append {first second : List Lexeme} :
    WordsOneCased (first ++ second) ↔ WordsOneCased first ∧ WordsOneCased second := by
  simp only [WordsOneCased, List.mem_append, or_imp, forall_and]

theorem wordsOneCased_cons {lexeme : Lexeme} {rest : List Lexeme} :
    WordsOneCased (lexeme :: rest) ↔ WordsOneCased [lexeme] ∧ WordsOneCased rest :=
  @wordsOneCased_append [lexeme] rest

/-! ## Groups -/

/-- The source as a whole is gathered as it is written. -/
theorem gathered_false (branches : List (List Grammar)) :
    gathered false branches = plainGroup branches := by
  match branches with
  | [] => rfl
  | [children] => rfl
  | first :: second :: rest => rfl

theorem sharedTags_eq_mapM : (branches : List (List Grammar)) →
    sharedTags branches = (branches.mapM bareTags).map List.flatten
  | [] => rfl
  | [.leaf (.capture tags)] :: rest => by
    rw [sharedTags, sharedTags_eq_mapM rest, List.mapM_cons]
    cases rest.mapM bareTags <;> rfl
  | [] :: rest | [.leaf (.keyword _)] :: rest | [.sequence _] :: rest
  | [.alternatives _] :: rest | [.quantified ..] :: rest => by
    rw [List.mapM_cons]
    rfl
  | (first :: second :: others) :: rest => by
    rw [List.mapM_cons]
    rcases first with (_ | _) | _ | _ | _ <;> rfl

/-- A group is gathered by folding what can be folded. -/
theorem gathered_true {branches : List (List Grammar)} (hne : branches ≠ []) :
    gathered true branches = foldedGroup branches := by
  match branches with
  | [] => exact absurd rfl hne
  | [children] =>
    rw [foldedGroup]
    split <;> rfl
  | first :: second :: rest =>
    have hlength : 2 ≤ (first :: second :: rest).length := by simp
    have hshared := sharedTags_eq_mapM (first :: second :: rest)
    rw [gathered_of_two_le true hlength, foldedGroup]
    cases htags : (first :: second :: rest).mapM bareTags with
    | none =>
      rw [htags] at hshared
      exact alternation_of_not_shared hshared true
    | some tags =>
      rw [htags] at hshared
      rw [alternation_of_shared hshared]
      exact (if_pos hlength).symm

theorem isQuantified_plainGroup (branches : List (List Grammar)) :
    (plainGroup branches).isQuantified = false := by
  unfold plainGroup
  split <;> rfl

theorem isQuantified_foldedGroup (branches : List (List Grammar)) :
    (foldedGroup branches).isQuantified = false := by
  unfold foldedGroup
  split
  · split
    · rfl
    · exact isQuantified_plainGroup branches
  · exact isQuantified_plainGroup branches

theorem isQuantified_wordTree (text : String) : (wordTree text).isQuantified = false := by
  unfold wordTree
  split <;> rfl

/-! ## From a derivation to a run -/

/-- A quantifier is put on the element that was read last. -/
theorem reads_markLexemes {tree : Grammar} (h : tree.isQuantified = false) (draft : Draft)
    (around : List Draft) (mark : Option Quantifier) :
    Reading.Reads true ⟨draft.push tree, around⟩ (markLexemes mark)
      ⟨draft.push (marked mark tree), around⟩ := by
  cases mark with
  | none => exact .nil
  | some quantifier => exact (Reading.Advances.quantifier h).reads

namespace Derivation

theorem Alts.branches_ne_nil (d : Alts) : d.branches ≠ [] := by
  cases d with
  | last branch => simp [branches]
  | bar branch rest => simp [branches]

theorem Branch.elements_ne_nil (d : Branch) : d.elements ≠ [] := by
  cases d with
  | last element => simp [elements]
  | cons element rest => simp [elements]

mutual

/-- The branches of an alternation are read one after the other, and the last one is left open. -/
theorem Alts.reads : (d : Alts) → (around : List Draft) → around.length + d.depth ≤ maxNesting →
    WordsOneCased d.lexemes → (done : List (List Grammar)) →
    ∃ draft : Draft, Reading.Reads true ⟨⟨done, []⟩, around⟩ d.lexemes ⟨draft, around⟩ ∧
      draft.elements ≠ [] ∧ draft.content = done.reverse ++ d.branches
  | .last branch, around, hdepth, hwords, done => by
    rw [Alts.depth] at hdepth
    rw [Alts.lexemes] at hwords ⊢
    have hreads := Branch.reads branch around hdepth hwords done []
    rw [List.append_nil] at hreads
    refine ⟨_, hreads, List.reverse_ne_nil_iff.mpr branch.elements_ne_nil, ?_⟩
    rw [Draft.content, List.reverse_reverse, Alts.branches]
  | .bar branch rest, around, hdepth, hwords, done => by
    rw [Alts.depth] at hdepth
    rw [Alts.lexemes, wordsOneCased_append, wordsOneCased_cons] at hwords
    obtain ⟨hbranch, -, hrest⟩ := hwords
    have hreads := Branch.reads branch around (by omega) hbranch done []
    rw [List.append_nil] at hreads
    obtain ⟨draft, hothers, hne, hcontent⟩ :=
      Alts.reads rest around (by omega) hrest (branch.elements :: done)
    refine ⟨draft, ?_, hne, ?_⟩
    · rw [Alts.lexemes, List.append_cons]
      exact (hreads.bar branch.elements_ne_nil).trans hothers
    · rw [hcontent, Alts.branches, List.reverse_cons, List.append_assoc]
      rfl

/-- The elements of a branch are read one after the other. -/
theorem Branch.reads : (d : Branch) → (around : List Draft) →
    around.length + d.depth ≤ maxNesting → WordsOneCased d.lexemes →
    (done : List (List Grammar)) → (before : List Grammar) →
    Reading.Reads true ⟨⟨done, before⟩, around⟩ d.lexemes
      ⟨⟨done, d.elements.reverse ++ before⟩, around⟩
  | .last element, around, hdepth, hwords, done, before => by
    rw [Branch.depth] at hdepth
    rw [Branch.lexemes] at hwords ⊢
    rw [Branch.elements]
    exact Element.reads element around hdepth hwords ⟨done, before⟩
  | .cons element rest, around, hdepth, hwords, done, before => by
    rw [Branch.depth] at hdepth
    rw [Branch.lexemes, wordsOneCased_append] at hwords
    have helement := Element.reads element around (by omega) hwords.1 ⟨done, before⟩
    have hrest := Branch.reads rest around (by omega) hwords.2 done (element.tree :: before)
    rw [Branch.lexemes, Branch.elements, List.reverse_cons, List.append_assoc]
    exact helement.trans hrest

/-- An element is added to the draft. -/
theorem Element.reads : (d : Element) → (around : List Draft) →
    around.length + d.depth ≤ maxNesting → WordsOneCased d.lexemes → (draft : Draft) →
    Reading.Reads true ⟨draft, around⟩ d.lexemes ⟨draft.push d.tree, around⟩
  | .word text mark, around, _, hwords, draft => by
    have hcase : OneCased text := hwords text (by rw [Element.lexemes]; exact List.mem_cons_self)
    rw [Element.lexemes, Element.tree]
    exact .cons (.word (classify_eq_ok_iff_oneCased.mpr ⟨hcase, rfl⟩))
      (reads_markLexemes (isQuantified_wordTree text) draft around mark)
  | .group alts mark, around, hdepth, hwords, draft => by
    rw [Element.depth] at hdepth
    rw [Element.lexemes, wordsOneCased_cons, wordsOneCased_append] at hwords
    have hinside : (draft :: around).length + alts.depth ≤ maxNesting := by
      rw [List.length_cons]
      omega
    obtain ⟨inner, hreads, hne, hcontent⟩ := Alts.reads alts (draft :: around) hinside hwords.2.1 []
    have hgroup := Reading.Reads.group (by omega) hreads hne
    rw [hcontent, List.reverse_nil, List.nil_append, gathered_true alts.branches_ne_nil] at hgroup
    have hmarked := hgroup.trans
      (reads_markLexemes (isQuantified_foldedGroup alts.branches) draft around mark)
    rw [List.cons_append, List.append_assoc] at hmarked
    rw [Element.lexemes, Element.tree]
    exact hmarked

end

/-! ## Derivations that go on -/

/-- An alternation with one more element at its beginning. -/
def Alts.prepend (element : Element) : Alts → Alts
  | .last branch => .last (.cons element branch)
  | .bar branch rest => .bar (.cons element branch) rest

theorem Alts.lexemes_prepend (element : Element) (d : Alts) :
    (d.prepend element).lexemes = element.lexemes ++ d.lexemes := by
  cases d with
  | last branch => rw [prepend, lexemes, lexemes, Branch.lexemes]
  | bar branch rest => rw [prepend, lexemes, lexemes, Branch.lexemes, List.append_assoc]

theorem Alts.depth_prepend (element : Element) (d : Alts) :
    (d.prepend element).depth = max element.depth d.depth := by
  cases d with
  | last branch => rw [prepend, depth, depth, Branch.depth]
  | bar branch rest => rw [prepend, depth, depth, Branch.depth, Nat.max_assoc]

theorem Alts.branches_prepend (element : Element) {d : Alts} {first : List Grammar}
    {others : List (List Grammar)} (h : d.branches = first :: others) :
    (d.prepend element).branches = (element.tree :: first) :: others := by
  cases d with
  | last branch =>
    rw [branches] at h
    obtain ⟨rfl, rfl⟩ := List.cons.inj h
    rw [prepend, branches, Branch.elements]
  | bar branch rest =>
    rw [branches] at h
    obtain ⟨rfl, rfl⟩ := List.cons.inj h
    rw [prepend, branches, Branch.elements]

/-- An element whose tree has no quantifier can be followed by one. -/
theorem Element.exists_quantified {element : Element} (h : element.tree.isQuantified = false)
    (quantifier : Quantifier) : ∃ other : Element,
      other.lexemes = element.lexemes ++ [.quantifier quantifier] ∧
      other.tree = quantified quantifier element.tree ∧ other.depth = element.depth := by
  cases element with
  | word text mark =>
    cases mark with
    | none => exact ⟨.word text (some quantifier), by simp [lexemes, markLexemes],
        by simp [tree, marked], by rw [depth, depth]⟩
    | some other =>
      rw [tree] at h
      cases h
  | group alts mark =>
    cases mark with
    | none => exact ⟨.group alts (some quantifier), by simp [lexemes, markLexemes],
        by simp [tree, marked], by rw [depth, depth]⟩
    | some other =>
      rw [tree] at h
      cases h

end Derivation

/-! ## From a run to a derivation -/

/-- The lexemes derive a group up to a place inside it, with groups nested to at most the given
number of levels, and the draft holds what they prescribe. -/
inductive Draft.Derived (room : Nat) : Draft → List Lexeme → Prop where
  | start : Derived room .start []
  /-- One more element of the current branch. -/
  | element {draft : Draft} {lexemes : List Lexeme} {element : Element} :
      Derived room draft lexemes → element.depth ≤ room →
      Derived room (draft.push element.tree) (lexemes ++ element.lexemes)
  /-- The last element of the current branch and the bar after it. -/
  | branch {draft : Draft} {lexemes : List Lexeme} {element : Element} :
      Derived room draft lexemes → element.depth ≤ room →
      Derived room ⟨(draft.push element.tree).elements.reverse :: draft.branches, []⟩
        (lexemes ++ element.lexemes ++ [.bar])

namespace Draft.Derived

variable {room : Nat} {draft : Draft} {lexemes : List Lexeme}

/-- A current branch that is not empty ends with an element. -/
theorem exists_last (h : draft.Derived room lexemes) (hne : draft.elements ≠ []) :
    ∃ (before : Draft) (read : List Lexeme) (element : Element), before.Derived room read ∧
      element.depth ≤ room ∧ draft = before.push element.tree ∧
      lexemes = read ++ element.lexemes := by
  cases h with
  | start => exact absurd rfl hne
  | element hbefore hdepth => exact ⟨_, _, _, hbefore, hdepth, rfl, rfl⟩
  | branch => exact absurd rfl hne

/-- What is derived so far goes on with any alternation. -/
theorem exists_append (h : draft.Derived room lexemes) {rest : Alts} (hdepth : rest.depth ≤ room)
    {first : List Grammar} {others : List (List Grammar)}
    (hrest : rest.branches = first :: others) :
    ∃ d : Alts, d.lexemes = lexemes ++ rest.lexemes ∧ d.depth ≤ room ∧
      d.branches = draft.branches.reverse ++ (draft.elements.reverse ++ first) :: others := by
  induction h generalizing rest first others with
  | start => exact ⟨rest, rfl, hdepth, hrest⟩
  | @element before read element _ helement ih =>
    have hroom : (rest.prepend element).depth ≤ room := by
      rw [Alts.depth_prepend]
      exact Nat.max_le.mpr ⟨helement, hdepth⟩
    obtain ⟨d, hlexemes, hd, hbranches⟩ := ih hroom (Alts.branches_prepend element hrest)
    refine ⟨d, ?_, hd, ?_⟩
    · rw [hlexemes, Alts.lexemes_prepend, List.append_assoc]
    · rw [hbranches, push, List.reverse_cons, List.append_assoc]
      rfl
  | @branch before read element _ helement ih =>
    -- the bar ends a branch whose last element is this one
    have hroom : (Alts.bar (.last element) rest).depth ≤ room := by
      rw [Alts.depth, Branch.depth]
      exact Nat.max_le.mpr ⟨helement, hdepth⟩
    have hbar : (Alts.bar (.last element) rest).branches = [element.tree] :: first :: others := by
      rw [Alts.branches, Branch.elements, hrest]
    obtain ⟨d, hlexemes, hd, hbranches⟩ := ih hroom hbar
    refine ⟨d, ?_, hd, ?_⟩
    · rw [hlexemes, Alts.lexemes, Branch.lexemes, List.append_assoc, List.append_assoc]
      rfl
    · rw [hbranches, push, List.reverse_cons, List.reverse_cons, List.append_assoc]
      rfl

/-- A group that can end where it is has been derived. -/
theorem exists_alts (h : draft.Derived room lexemes) (hne : draft.elements ≠ []) :
    ∃ d : Alts, d.lexemes = lexemes ∧ d.depth ≤ room ∧ d.branches = draft.content := by
  obtain ⟨before, read, element, hbefore, hdepth, rfl, rfl⟩ := h.exists_last hne
  have hroom : (Alts.last (.last element)).depth ≤ room := by
    rw [Alts.depth, Branch.depth]
    exact hdepth
  have hlast : (Alts.last (.last element)).branches = [[element.tree]] := by
    rw [Alts.branches, Branch.elements]
  obtain ⟨d, hlexemes, hd, hbranches⟩ := hbefore.exists_append hroom hlast
  refine ⟨d, ?_, hd, ?_⟩
  · rw [hlexemes, Alts.lexemes, Branch.lexemes]
  · rw [hbranches, content, push, List.reverse_cons]

/-! Each of the following lemmas is about one lexeme. -/

theorem word (h : draft.Derived room lexemes) {text : String} {leaf : Grammar}
    (hleaf : classify text = .ok leaf) :
    (draft.push leaf).Derived room (lexemes ++ [.word text]) := by
  obtain ⟨-, rfl⟩ := classify_eq_ok_iff_oneCased.mp hleaf
  have hdepth : (Element.word text none).depth ≤ room := by
    rw [Element.depth]
    exact Nat.zero_le room
  have hword := h.element hdepth
  rw [Element.lexemes, Element.tree] at hword
  exact hword

theorem bar (h : draft.Derived room lexemes) (hne : draft.elements ≠ []) :
    Derived room ⟨draft.elements.reverse :: draft.branches, []⟩ (lexemes ++ [.bar]) := by
  obtain ⟨before, read, element, hbefore, hdepth, rfl, rfl⟩ := h.exists_last hne
  exact hbefore.branch hdepth

theorem quantifier {branches : List (List Grammar)} {last : Grammar} {before : List Grammar}
    (h : Derived room ⟨branches, last :: before⟩ lexemes) (hlast : last.isQuantified = false)
    (quantifier : Quantifier) :
    Derived room ⟨branches, .quantified quantifier last :: before⟩
      (lexemes ++ [.quantifier quantifier]) := by
  obtain ⟨earlier, read, element, hearlier, hdepth, hpush, rfl⟩ :=
    h.exists_last (List.cons_ne_nil last before)
  rw [push, Draft.mk.injEq, List.cons.injEq] at hpush
  obtain ⟨rfl, rfl, rfl⟩ := hpush
  -- the quantifier becomes part of the element before it
  obtain ⟨other, hlexemes, htree, hsame⟩ := Element.exists_quantified hlast quantifier
  have hother := hearlier.element (Nat.le_trans (Nat.le_of_eq hsame) hdepth)
  rw [hlexemes, htree, ← List.append_assoc] at hother
  exact hother

/-- A group that ends is an element of the group around it, which has more levels left. -/
theorem group {outside : Draft} {read : List Lexeme} {levels : Nat}
    (h : outside.Derived levels read) (hinside : draft.Derived room lexemes)
    (hlevels : room < levels) (hne : draft.elements ≠ []) :
    (outside.push (gathered true draft.content)).Derived levels
      (read ++ .openGroup :: (lexemes ++ [.closeGroup])) := by
  obtain ⟨d, rfl, hd, hbranches⟩ := hinside.exists_alts hne
  have hdepth : (Element.group d none).depth ≤ levels := by
    rw [Element.depth]
    omega
  have hgroup := h.element hdepth
  rw [Element.lexemes, Element.tree, hbranches, ← gathered_true draft.content_ne_nil] at hgroup
  exact hgroup

end Draft.Derived

/-- The lexemes derive the beginnings of all these groups, each of them up to where the next one
opens. -/
inductive Opened : List Draft → List Lexeme → Prop where
  | root : Opened [] []
  | group {outside : Draft} {around : List Draft} {before lexemes : List Lexeme} :
      Opened around before → outside.Derived (maxNesting - around.length) lexemes →
      around.length < maxNesting →
      Opened (outside :: around) (before ++ lexemes ++ [.openGroup])

theorem Opened.length_le {around : List Draft} {before : List Lexeme} (h : Opened around before) :
    around.length ≤ maxNesting := by
  cases h with
  | root => exact Nat.zero_le _
  | group _ _ hlength => exact hlength

namespace Reading

/-- The lexemes derive what has been read: the beginnings of the groups that are open, and the
innermost one up to this place. -/
def Derived (reading : Reading) (read : List Lexeme) : Prop :=
  ∃ before lexemes, Opened reading.outer before ∧
    reading.inner.Derived (maxNesting - reading.outer.length) lexemes ∧ before ++ lexemes = read

theorem derived_start : start.Derived [] := ⟨[], [], .root, .start, rfl⟩

/-- Reading a lexeme goes on with the derivation. -/
theorem Derived.advances {reading next : Reading} {read : List Lexeme} {lexeme : Lexeme}
    (h : reading.Derived read) (hstep : Advances true reading lexeme next) :
    next.Derived (read ++ [lexeme]) := by
  obtain ⟨before, lexemes, houter, hinner, rfl⟩ := h
  rw [List.append_assoc]
  cases hstep with
  | word hleaf => exact ⟨_, _, houter, hinner.word hleaf, rfl⟩
  | openGroup hdepth =>
    have hlength := Nat.lt_of_le_of_ne houter.length_le hdepth
    refine ⟨_, [], houter.group hinner hlength, .start, ?_⟩
    rw [List.append_nil, List.append_assoc]
  | @closeGroup draft outside around hne =>
    cases houter with
    | group houter houtside hlength =>
      have hlevels : maxNesting - (outside :: around).length < maxNesting - around.length := by
        rw [List.length_cons]
        omega
      refine ⟨_, _, houter, houtside.group hinner hlevels hne, ?_⟩
      simp only [List.append_assoc, List.cons_append, List.nil_append]
  | bar hne => exact ⟨_, _, houter, hinner.bar hne, rfl⟩
  | quantifier hlast => exact ⟨_, _, houter, hinner.quantifier hlast _, rfl⟩

/-- Whatever has been read is derived so far. -/
theorem Derived.reads {reading next : Reading} {read lexemes : List Lexeme}
    (h : reading.Derived read) (hreads : Reads true reading lexemes next) :
    next.Derived (read ++ lexemes) := by
  induction hreads generalizing read with
  | nil =>
    rw [List.append_nil]
    exact h
  | cons hstep _ ih =>
    have hnext := ih (h.advances hstep)
    rw [List.append_assoc] at hnext
    exact hnext

theorem Advances.wordsOneCased {reading next : Reading} {lexeme : Lexeme}
    (h : Advances true reading lexeme next) : WordsOneCased [lexeme] := by
  intro text htext
  obtain rfl := List.mem_singleton.mp htext
  cases h with
  | word hleaf => exact (classify_eq_ok_iff_oneCased.mp hleaf).1

/-- The words that are read have letters of one case. -/
theorem Reads.wordsOneCased {reading next : Reading} {lexemes : List Lexeme}
    (h : Reads true reading lexemes next) : WordsOneCased lexemes := by
  induction h with
  | nil => nofun
  | cons hstep _ ih => exact wordsOneCased_cons.mpr ⟨hstep.wordsOneCased, ih⟩

end Reading

/-! ## Sources -/

/-- A source is read exactly when its lexemes are derived from an alternation within the limits on
words and on nesting, and its tree is that of the derivation. -/
theorem parse_eq_ok_iff_exists_derivation {source : String} {tree : Grammar} :
    parse source = .ok tree ↔ ∃ d : Alts, d.lexemes = (lexemes source).map Placed.lexeme ∧
      WordsOneCased d.lexemes ∧ d.depth ≤ maxNesting ∧ tree = d.tree := by
  rw [parse, parseWith_eq_ok_iff]
  constructor
  · rintro ⟨draft, hreads, hne, rfl⟩
    obtain ⟨before, read, houter, hinner, hread⟩ := Reading.derived_start.reads hreads
    cases houter
    obtain ⟨d, hlexemes, hdepth, hbranches⟩ := hinner.exists_alts hne
    have hsource : d.lexemes = (lexemes source).map Placed.lexeme := hlexemes.trans hread
    refine ⟨d, hsource, ?_, hdepth, ?_⟩
    · rw [hsource]
      exact hreads.wordsOneCased
    · rw [Alts.tree, hbranches, gathered_false]
  · rintro ⟨d, hlexemes, hwords, hdepth, rfl⟩
    have hroom : ([] : List Draft).length + d.depth ≤ maxNesting := by
      rw [List.length_nil, Nat.zero_add]
      exact hdepth
    obtain ⟨draft, hreads, hne, hcontent⟩ := d.reads [] hroom hwords []
    rw [hlexemes] at hreads
    refine ⟨draft, hreads, hne, ?_⟩
    rw [gathered_false, hcontent]
    rfl

/-- **The parser accepts exactly its grammar.**  A source is read as a tree exactly when its lexemes
are derived from an alternation, every word among them has letters of one case only, groups are
nested to at most 256 levels, and the tree is that of the derivation; and there is at most one
derivation. -/
theorem parse_agrees_derivations :
    (∀ (source : String) (tree : Grammar), parse source = .ok tree ↔
      ∃ d : Alts, d.lexemes = (lexemes source).map Placed.lexeme ∧
        (∀ text, .word text ∈ d.lexemes → OneCased text) ∧ d.depth ≤ 256 ∧ tree = d.tree) ∧
    (∀ d e : Alts, d.lexemes = e.lexemes → d = e) :=
  ⟨fun _ _ => parse_eq_ok_iff_exists_derivation, fun _ _ => Alts.lexemes_inj⟩

/-- The derivation of `take (ITEM|NPC|ITEM)?`. -/
def takeItem : Alts :=
  .last (.cons (.word "take" none) (.last (.group
    (.bar (.last (.word "ITEM" none)) (.bar (.last (.word "NPC" none))
      (.last (.last (.word "ITEM" none)))))
    (some .optional))))

/-- The tags of a group are collected once each, and the quantifier after it is put on their
capture; no other derivation has these lexemes. -/
theorem parse_agrees_derivations_takeItem :
    parse "take (ITEM|NPC|ITEM)?" =
      .ok (sequence [keyword "take", quantified .optional (capture ["ITEM", "NPC"])]) ∧
    ∀ e : Alts, e.lexemes = (lexemes "take (ITEM|NPC|ITEM)?").map Placed.lexeme → e = takeItem := by
  have hlexemes : takeItem.lexemes = (lexemes "take (ITEM|NPC|ITEM)?").map Placed.lexeme := by
    decide +kernel
  have hwords : ∀ text, .word text ∈ takeItem.lexemes → OneCased text := by
    intro text htext
    simp only [takeItem, Alts.lexemes, Branch.lexemes, Element.lexemes, markLexemes,
      List.cons_append, List.nil_append, List.mem_cons, Lexeme.word.injEq, reduceCtorEq,
      List.not_mem_nil, or_false, false_or] at htext
    rcases htext with rfl | rfl | rfl | rfl <;> decide +kernel
  constructor
  · exact (parse_agrees_derivations.1 _ _).mpr
      ⟨takeItem, hlexemes, hwords, by decide, by decide +kernel⟩
  · intro e he
    exact parse_agrees_derivations.2 e takeItem (he.trans hlexemes.symm)

end Grammar
end CommandGrammar
