import CommandGrammar.Grammar.Basic
import CommandGrammar.Text.Quoted

/-!
# Interpretations

An interpretation is one reading of a line: the rules of the grammar in the order in which they were
completed, each with the tokens that it claims.  An automaton that was not made from a grammar may
also leave tokens that no rule has claimed; they stay in the reading as they are.
-/

namespace CommandGrammar

/-- A completed rule and the tokens that it claims. -/
structure Claim where
  rule : Rule
  tokens : List String
  deriving DecidableEq, Hashable, Repr

/-- A part of a reading. -/
inductive Entry where
  /-- A token that no rule has claimed. -/
  | token (text : String)
  | claim (made : Claim)
  deriving DecidableEq, Hashable, Repr

namespace Entry

/-- The claim of an entry, if it is one. -/
def claim? : Entry → Option Claim
  | .token _ => none
  | .claim made => some made

/-- An entry as it is shown to a user: a keyword stands for itself, and a capture shows its tags and
then its tokens between brackets. -/
def shown : Entry → String
  | .token text => Text.quoted text
  | .claim ⟨.keyword word, _⟩ => word
  | .claim ⟨.capture tags, tokens⟩ =>
    (Rule.capture tags).name ++ "[" ++ " ".intercalate tokens ++ "]"

end Entry

/-- One reading of a line. -/
structure Interpretation where
  entries : List Entry
  deriving DecidableEq, Hashable, Repr

namespace Interpretation

/-- The number of entries. -/
def size (reading : Interpretation) : Nat := reading.entries.length

/-- Whether a reading has no entries. -/
def isEmpty (reading : Interpretation) : Bool := reading.entries.isEmpty

/-- The claims of a reading, in order. -/
def claims (reading : Interpretation) : List Claim := reading.entries.filterMap Entry.claim?

/-- The captures of a reading, each as its tags and its tokens, in order. -/
def captures (reading : Interpretation) : List (List String × List String) :=
  reading.claims.filterMap fun claim =>
    match claim.rule with
    | .capture tags => some (tags, claim.tokens)
    | .keyword _ => none

/-- The keywords of a reading, in order. -/
def keywords (reading : Interpretation) : List String :=
  reading.claims.filterMap fun claim =>
    match claim.rule with
    | .keyword word => some word
    | .capture _ => none

/-- A reading as it is shown to a user. -/
def shown (reading : Interpretation) : String := " ".intercalate (reading.entries.map Entry.shown)

end Interpretation

end CommandGrammar
