/-!
# Command grammars

A command grammar says which lines a command takes.  Its leaves are the rules that a reading of a
line is reported in: a keyword stands for itself, and a capture stands for any run of one or more
tokens, which it claims under its tags.  Above the leaves there are sequences, alternatives and the
three quantifiers.

A tree may have shapes that no source text has: an empty sequence, no alternatives at all, a
quantifier under a quantifier, a bare leaf at the root, any text as a keyword.  All operations are
defined on those as well.
-/

namespace CommandGrammar

/-- What a leaf of a grammar stands for, and what a reading reports. -/
inductive Rule where
  /-- The one token `word`. -/
  | keyword (word : String)
  /-- Any run of tokens, claimed under the tags. -/
  | capture (tags : List String)
  deriving DecidableEq, Hashable, Repr

namespace Rule

/-- Whether the rule is a capture. -/
def isCapture : Rule → Bool
  | .keyword _ => false
  | .capture _ => true

/-- A rule as it is named in a reading or a table: the word, or the tags with bars between. -/
def name : Rule → String
  | .keyword word => word
  | .capture tags => "|".intercalate tags

end Rule

/-- How often the element before a quantifier may occur. -/
inductive Quantifier where
  /-- Any number of times. -/
  | star
  /-- At least once. -/
  | plus
  /-- At most once. -/
  | optional
  deriving DecidableEq, Repr

/-- The character that a quantifier is written with. -/
def Quantifier.symbol : Quantifier → Char
  | .star => '*'
  | .plus => '+'
  | .optional => '?'

/-- A command grammar. -/
inductive Grammar where
  | leaf (rule : Rule)
  /-- The children one after the other. -/
  | sequence (children : List Grammar)
  /-- Any one of the branches, each of which is a sequence. -/
  | alternatives (branches : List (List Grammar))
  | quantified (quantifier : Quantifier) (inner : Grammar)
  deriving Repr

namespace Grammar

/-- The grammar of a single keyword. -/
abbrev keyword (word : String) : Grammar := .leaf (.keyword word)

/-- The grammar of a single capture. -/
abbrev capture (tags : List String) : Grammar := .leaf (.capture tags)

/-! ## Equality of trees -/

mutual

/-- Compares two trees from the root down. -/
def decideEq : (a b : Grammar) → Decidable (a = b)
  | .leaf r, .leaf s => decidable_of_iff (r = s) (by simp)
  | .sequence as, .sequence bs =>
    have := decideEqAll as bs
    decidable_of_iff (as = bs) (by simp)
  | .alternatives as, .alternatives bs =>
    have := decideEqBranches as bs
    decidable_of_iff (as = bs) (by simp)
  | .quantified p a, .quantified q b =>
    have := decideEq a b
    decidable_of_iff (p = q ∧ a = b) (by simp)
  | .leaf _, .sequence _ | .leaf _, .alternatives _ | .leaf _, .quantified .. => isFalse nofun
  | .sequence _, .leaf _ | .sequence _, .alternatives _ | .sequence _, .quantified .. =>
    isFalse nofun
  | .alternatives _, .leaf _ | .alternatives _, .sequence _ | .alternatives _, .quantified .. =>
    isFalse nofun
  | .quantified .., .leaf _ | .quantified .., .sequence _ | .quantified .., .alternatives _ =>
    isFalse nofun

/-- Compares two sequences child by child. -/
def decideEqAll : (as bs : List Grammar) → Decidable (as = bs)
  | [], [] => isTrue rfl
  | [], _ :: _ | _ :: _, [] => isFalse nofun
  | a :: as, b :: bs =>
    have := decideEq a b
    have := decideEqAll as bs
    decidable_of_iff (a = b ∧ as = bs) (by simp)

/-- Compares two lists of branches branch by branch. -/
def decideEqBranches : (as bs : List (List Grammar)) → Decidable (as = bs)
  | [], [] => isTrue rfl
  | [], _ :: _ | _ :: _, [] => isFalse nofun
  | a :: as, b :: bs =>
    have := decideEqAll a b
    have := decideEqBranches as bs
    decidable_of_iff (a = b ∧ as = bs) (by simp)

end

instance : DecidableEq Grammar := decideEq

/-! ## Parts of a tree -/

/-- Whether a quantifier stands at the root. -/
def isQuantified : Grammar → Bool
  | .quantified .. => true
  | _ => false

mutual

/-- The rules at the leaves, from left to right. -/
def leaves : Grammar → List Rule
  | .leaf rule => [rule]
  | .sequence children => leavesAll children
  | .alternatives branches => leavesBranches branches
  | .quantified _ inner => inner.leaves

/-- The rules at the leaves of a sequence. -/
def leavesAll : List Grammar → List Rule
  | [] => []
  | child :: rest => child.leaves ++ leavesAll rest

/-- The rules at the leaves of a list of branches. -/
def leavesBranches : List (List Grammar) → List Rule
  | [] => []
  | branch :: rest => leavesAll branch ++ leavesBranches rest

end

end Grammar

end CommandGrammar
