import CommandGrammar.Grammar.Parser

/-!
# Derivations of a grammar's source

The language that grammars are written in has a grammar of its own, over lexemes:

* an alternation is one or more branches with bars between them;
* a branch is one or more elements;
* an element is a word or a parenthesised alternation, and at most one quantifier after it.

`Alts`, `Branch` and `Element` are the derivation trees of this grammar.  Every one of them has its
lexemes, the depth to which its groups are nested, and the trees that it prescribes; none of these
mentions how a source is read.  A source is derived from an alternation, whose tree is `Alts.tree`.

The grammar is unambiguous: different alternations have different lexemes (`Alts.lexemes_inj`).  The
proof reads two derivations side by side from the left.  For this it has to know what can stand
after an element, a branch and an alternation, since it is only what follows that tells where one of
them ends: `AfterElement`, `AfterBranch` and `AfterAlts`.
-/

namespace CommandGrammar
namespace Grammar
namespace Derivation

mutual

/-- One or more branches with bars between them. -/
inductive Alts where
  | last (branch : Branch)
  | bar (branch : Branch) (rest : Alts)

/-- One or more elements. -/
inductive Branch where
  | last (element : Element)
  | cons (element : Element) (rest : Branch)

/-- A word or a group, and the quantifier after it if there is one. -/
inductive Element where
  | word (text : String) (mark : Option Quantifier)
  | group (alts : Alts) (mark : Option Quantifier)

end

/-! ## What is derived -/

/-- The lexemes of a quantifier that may be missing. -/
def markLexemes : Option Quantifier → List Lexeme
  | none => []
  | some quantifier => [.quantifier quantifier]

mutual

/-- The lexemes of an alternation. -/
def Alts.lexemes : Alts → List Lexeme
  | .last branch => branch.lexemes
  | .bar branch rest => branch.lexemes ++ .bar :: rest.lexemes

/-- The lexemes of a branch. -/
def Branch.lexemes : Branch → List Lexeme
  | .last element => element.lexemes
  | .cons element rest => element.lexemes ++ rest.lexemes

/-- The lexemes of an element. -/
def Element.lexemes : Element → List Lexeme
  | .word text mark => .word text :: markLexemes mark
  | .group alts mark => .openGroup :: (alts.lexemes ++ .closeGroup :: markLexemes mark)

end

mutual

/-- The depth to which groups are nested in an alternation. -/
def Alts.depth : Alts → Nat
  | .last branch => branch.depth
  | .bar branch rest => max branch.depth rest.depth

/-- The depth to which groups are nested in a branch. -/
def Branch.depth : Branch → Nat
  | .last element => element.depth
  | .cons element rest => max element.depth rest.depth

/-- The depth to which groups are nested in an element, itself included. -/
def Element.depth : Element → Nat
  | .word _ _ => 0
  | .group alts _ => alts.depth + 1

end

/-- A word that has lowercase characters and no uppercase ones, or uppercase characters and no
lowercase ones. -/
def OneCased (text : String) : Prop :=
  (∃ c ∈ text.toList, Text.isLower c = true) ∧ (∀ c ∈ text.toList, Text.isUpper c = false) ∨
    (∃ c ∈ text.toList, Text.isUpper c = true) ∧ (∀ c ∈ text.toList, Text.isLower c = false)

/-! ## The tree that is prescribed -/

/-- The leaf of a word: a keyword when it is lowercase, else a capture with one tag. -/
def wordTree (text : String) : Grammar :=
  if text.toList.any Text.isLower then keyword text else capture [text]

/-- An element with the quantifier after it, if there is one. -/
def marked : Option Quantifier → Grammar → Grammar
  | none, tree => tree
  | some quantifier, tree => quantified quantifier tree

/-- A group as it is written: a single branch is a sequence. -/
def plainGroup : List (List Grammar) → Grammar
  | [children] => sequence children
  | branches => alternatives branches

/-- The tags of a branch that is one capture without a quantifier. -/
def bareTags : List Grammar → Option (List String)
  | [.leaf (.capture tags)] => some tags
  | _ => none

/-- A parenthesised group: several branches that are each one capture without a quantifier become
one capture, with all their tags in the order of the first occurrence of each. -/
def foldedGroup (branches : List (List Grammar)) : Grammar :=
  match branches.mapM bareTags with
  | some tags => if 2 ≤ branches.length then capture tags.flatten.eraseDups else plainGroup branches
  | none => plainGroup branches

mutual

/-- The trees of the elements of every branch. -/
def Alts.branches : Alts → List (List Grammar)
  | .last branch => [branch.elements]
  | .bar branch rest => branch.elements :: rest.branches

/-- The trees of the elements. -/
def Branch.elements : Branch → List Grammar
  | .last element => [element.tree]
  | .cons element rest => element.tree :: rest.elements

/-- The tree of an element. -/
def Element.tree : Element → Grammar
  | .word text mark => marked mark (wordTree text)
  | .group alts mark => marked mark (foldedGroup alts.branches)

end

/-- The tree of a source as a whole, which is never folded. -/
def Alts.tree (alts : Alts) : Grammar := plainGroup alts.branches

/-! ## Where a derivation begins and ends -/

/-- A lexeme that an element can begin with. -/
def BeginsElement : Lexeme → Prop
  | .word _ | .openGroup => True
  | _ => False

theorem Element.exists_lexemes_eq_cons (element : Element) :
    ∃ first rest, element.lexemes = first :: rest ∧ BeginsElement first := by
  cases element with
  | word text mark => exact ⟨.word text, _, by rw [lexemes], trivial⟩
  | group alts mark => exact ⟨.openGroup, _, by rw [lexemes], trivial⟩

theorem Branch.exists_lexemes_eq_cons (branch : Branch) :
    ∃ first rest, branch.lexemes = first :: rest ∧ BeginsElement first := by
  cases branch with
  | last element =>
    rw [lexemes]
    exact element.exists_lexemes_eq_cons
  | cons element rest =>
    obtain ⟨first, others, hlexemes, hfirst⟩ := element.exists_lexemes_eq_cons
    exact ⟨first, others ++ rest.lexemes, by rw [lexemes, hlexemes, List.cons_append], hfirst⟩

/-- What can stand after an element: it does not begin with a quantifier. -/
def AfterElement (rest : List Lexeme) : Prop :=
  ∀ quantifier, rest.head? ≠ some (.quantifier quantifier)

/-- What can stand after a branch: nothing, or it begins with a bar or the end of a group. -/
def AfterBranch (rest : List Lexeme) : Prop :=
  ∀ first ∈ rest.head?, first = .bar ∨ first = .closeGroup

/-- What can stand after an alternation: nothing, or it begins with the end of a group. -/
def AfterAlts (rest : List Lexeme) : Prop := ∀ first ∈ rest.head?, first = .closeGroup

theorem AfterBranch.afterElement {rest : List Lexeme} (h : AfterBranch rest) :
    AfterElement rest := by
  intro quantifier hhead
  rcases h _ hhead with heq | heq <;> cases heq

theorem AfterAlts.afterBranch {rest : List Lexeme} (h : AfterAlts rest) : AfterBranch rest :=
  fun first hfirst => .inr (h first hfirst)

theorem afterAlts_nil : AfterAlts [] := nofun

theorem afterAlts_closeGroup (rest : List Lexeme) : AfterAlts (.closeGroup :: rest) :=
  fun _ hfirst => (Option.some.inj hfirst).symm

theorem afterBranch_bar (rest : List Lexeme) : AfterBranch (.bar :: rest) :=
  fun _ hfirst => .inl (Option.some.inj hfirst).symm

/-- Elements follow each other. -/
theorem afterElement_branch (branch : Branch) (rest : List Lexeme) :
    AfterElement (branch.lexemes ++ rest) := by
  obtain ⟨first, others, hlexemes, hfirst⟩ := branch.exists_lexemes_eq_cons
  rw [hlexemes]
  intro quantifier hhead
  obtain rfl : first = .quantifier quantifier := Option.some.inj hhead
  exact hfirst

/-- A branch goes on as long as there are elements. -/
theorem not_afterBranch_branch (branch : Branch) (rest : List Lexeme) :
    ¬ AfterBranch (branch.lexemes ++ rest) := by
  obtain ⟨first, others, hlexemes, hfirst⟩ := branch.exists_lexemes_eq_cons
  rw [hlexemes]
  intro hafter
  rcases hafter first rfl with rfl | rfl <;> exact hfirst

theorem not_afterAlts_bar (rest : List Lexeme) : ¬ AfterAlts (.bar :: rest) := by
  intro hafter
  cases hafter .bar rfl

/-! ## Unambiguity -/

theorem markLexemes_append_inj {mark other : Option Quantifier} {rest others : List Lexeme}
    (hrest : AfterElement rest) (hothers : AfterElement others)
    (h : markLexemes mark ++ rest = markLexemes other ++ others) : mark = other ∧ rest = others := by
  cases mark with
  | none =>
    cases other with
    | none => exact ⟨rfl, h⟩
    | some quantifier =>
      obtain rfl : rest = .quantifier quantifier :: others := h
      exact absurd rfl (hrest quantifier)
  | some quantifier =>
    cases other with
    | none =>
      obtain rfl : .quantifier quantifier :: rest = others := h
      exact absurd rfl (hothers quantifier)
    | some _ =>
      cases h
      exact ⟨rfl, rfl⟩

mutual

/-- What begins with an alternation and can end there begins with no other one. -/
theorem Alts.append_inj {rest others : List Lexeme} (hrest : AfterAlts rest)
    (hothers : AfterAlts others) :
    (d e : Alts) → d.lexemes ++ rest = e.lexemes ++ others → d = e ∧ rest = others
  | .last branch, .last other, h => by
    rw [Alts.lexemes, Alts.lexemes] at h
    obtain ⟨rfl, hend⟩ :=
      Branch.append_inj hrest.afterBranch hothers.afterBranch branch other h
    exact ⟨rfl, hend⟩
  | .last branch, .bar other further, h => by
    rw [Alts.lexemes, Alts.lexemes, List.append_assoc] at h
    obtain ⟨-, rfl⟩ := Branch.append_inj hrest.afterBranch (afterBranch_bar _) branch other h
    exact absurd hrest (not_afterAlts_bar _)
  | .bar branch more, .last other, h => by
    rw [Alts.lexemes, Alts.lexemes, List.append_assoc] at h
    obtain ⟨-, rfl⟩ := Branch.append_inj (afterBranch_bar _) hothers.afterBranch branch other h
    exact absurd hothers (not_afterAlts_bar _)
  | .bar branch more, .bar other further, h => by
    rw [Alts.lexemes, Alts.lexemes, List.append_assoc, List.append_assoc] at h
    obtain ⟨rfl, hbar⟩ :=
      Branch.append_inj (afterBranch_bar _) (afterBranch_bar _) branch other h
    obtain ⟨rfl, hend⟩ := Alts.append_inj hrest hothers more further (List.cons.inj hbar).2
    exact ⟨rfl, hend⟩

/-- What begins with a branch and can end there begins with no other one. -/
theorem Branch.append_inj {rest others : List Lexeme} (hrest : AfterBranch rest)
    (hothers : AfterBranch others) :
    (d e : Branch) → d.lexemes ++ rest = e.lexemes ++ others → d = e ∧ rest = others
  | .last element, .last other, h => by
    rw [Branch.lexemes, Branch.lexemes] at h
    obtain ⟨rfl, hend⟩ :=
      Element.append_inj hrest.afterElement hothers.afterElement element other h
    exact ⟨rfl, hend⟩
  | .last element, .cons other further, h => by
    rw [Branch.lexemes, Branch.lexemes, List.append_assoc] at h
    obtain ⟨-, rfl⟩ :=
      Element.append_inj hrest.afterElement (afterElement_branch further _) element other h
    exact absurd hrest (not_afterBranch_branch further _)
  | .cons element more, .last other, h => by
    rw [Branch.lexemes, Branch.lexemes, List.append_assoc] at h
    obtain ⟨-, rfl⟩ :=
      Element.append_inj (afterElement_branch more _) hothers.afterElement element other h
    exact absurd hothers (not_afterBranch_branch more _)
  | .cons element more, .cons other further, h => by
    rw [Branch.lexemes, Branch.lexemes, List.append_assoc, List.append_assoc] at h
    obtain ⟨rfl, hmore⟩ := Element.append_inj (afterElement_branch more _)
      (afterElement_branch further _) element other h
    obtain ⟨rfl, hend⟩ := Branch.append_inj hrest hothers more further hmore
    exact ⟨rfl, hend⟩

/-- What begins with an element and can end there begins with no other one. -/
theorem Element.append_inj {rest others : List Lexeme} (hrest : AfterElement rest)
    (hothers : AfterElement others) :
    (d e : Element) → d.lexemes ++ rest = e.lexemes ++ others → d = e ∧ rest = others
  | .word text mark, .word other sign, h => by
    rw [Element.lexemes, Element.lexemes] at h
    obtain ⟨htext, hmark⟩ := List.cons.inj h
    obtain rfl := Lexeme.word.inj htext
    obtain ⟨rfl, hend⟩ := markLexemes_append_inj hrest hothers hmark
    exact ⟨rfl, hend⟩
  | .word text mark, .group alts sign, h => by
    rw [Element.lexemes, Element.lexemes] at h
    cases (List.cons.inj h).1
  | .group alts mark, .word text sign, h => by
    rw [Element.lexemes, Element.lexemes] at h
    cases (List.cons.inj h).1
  | .group alts mark, .group inner sign, h => by
    rw [Element.lexemes, Element.lexemes, List.cons_append, List.cons_append,
      List.append_assoc, List.append_assoc] at h
    obtain ⟨rfl, hclose⟩ := Alts.append_inj (afterAlts_closeGroup _) (afterAlts_closeGroup _)
      alts inner (List.cons.inj h).2
    obtain ⟨rfl, hend⟩ := markLexemes_append_inj hrest hothers (List.cons.inj hclose).2
    exact ⟨rfl, hend⟩

end

/-- **The grammar of sources is unambiguous**: lexemes are derived in at most one way. -/
theorem Alts.lexemes_inj {d e : Alts} (h : d.lexemes = e.lexemes) : d = e := by
  refine (append_inj afterAlts_nil afterAlts_nil d e ?_).1
  rw [h]

end Derivation
end Grammar
end CommandGrammar
