import CommandGrammar.Grammar.Basic
import CommandGrammar.Text.Quoted
import CommandGrammar.Text.Outline

/-!
# Writing grammars

`Grammar.toSource` writes a grammar the way it is entered: children with a space between, branches
with a bar between, a quantifier right after its element, and parentheses around every group below
the root and around a capture that does not have exactly one tag.  `Grammar.element` writes it as
it stands inside a larger grammar, so a group has its parentheses there at the root too.

`Grammar.outline` shows the shape of the tree with every node named.
-/

namespace CommandGrammar
namespace Grammar

/-- A capture inside a grammar: a single tag stands bare, any other number in parentheses. -/
def captureElement : List String → String
  | [tag] => tag
  | tags => "(" ++ "|".intercalate tags ++ ")"

mutual

/-- A grammar as an element of a larger one. -/
def element : Grammar → String
  | .leaf (.keyword word) => word
  | .leaf (.capture tags) => captureElement tags
  | .sequence children => "(" ++ " ".intercalate (elements children) ++ ")"
  | .alternatives branches => "(" ++ "|".intercalate (branchTexts branches) ++ ")"
  | .quantified quantifier inner => inner.element ++ quantifier.symbol.toString

/-- The children of a sequence as elements. -/
def elements : List Grammar → List String
  | [] => []
  | child :: rest => child.element :: elements rest

/-- The branches of an alternation, each with its children written out. -/
def branchTexts : List (List Grammar) → List String
  | [] => []
  | branch :: rest => " ".intercalate (elements branch) :: branchTexts rest

end

/-- A grammar as it is entered: the group at the root goes without parentheses. -/
def toSource : Grammar → String
  | .sequence children => " ".intercalate (elements children)
  | .alternatives branches => "|".intercalate (branchTexts branches)
  | other => other.element

/-! ## The shape of a tree -/

/-- The name of a quantifier's node. -/
def quantifierName : Quantifier → String
  | .star => "Star"
  | .plus => "Plus"
  | .optional => "Optional"

/-- A leaf of the shape that holds a quoted text. -/
def textLeaf (text : String) : Text.Outline := .leaf (Text.quoted text)

mutual

/-- The shape of the tree, every node named. -/
def outline : Grammar → Text.Outline
  | .leaf (.keyword word) => .node "Keyword" (textLeaf word)
  | .leaf (.capture tags) => .node "Variable" (.list (tags.map textLeaf))
  | .sequence children => .node "Group" (.node "Sequence" (.list (outlineAll children)))
  | .alternatives branches =>
    .node "Group" (.node "Alternatives" (.list (outlineBranches branches)))
  | .quantified quantifier inner => .node (quantifierName quantifier) inner.outline

/-- The shapes of the children of a sequence. -/
def outlineAll : List Grammar → List Text.Outline
  | [] => []
  | child :: rest => child.outline :: outlineAll rest

/-- The shapes of the branches of an alternation. -/
def outlineBranches : List (List Grammar) → List Text.Outline
  | [] => []
  | branch :: rest => .list (outlineAll branch) :: outlineBranches rest

end

end Grammar
end CommandGrammar
