/-!
# Outlines

An outline is a labelled tree that is about to be shown: a leaf is finished text, a node is a name
applied to one part, and a list is a row of parts between brackets.  There are two ways to show
one.  `Outline.inline` writes it on one line.  `Outline.indented` gives every part a line of its
own, four spaces deeper than what it belongs to and with a comma after it; only the empty list
stays on its line.
-/

namespace CommandGrammar
namespace Text

/-- A labelled tree that is about to be shown. -/
inductive Outline where
  | leaf (text : String)
  | node (name : String) (part : Outline)
  | list (parts : List Outline)

namespace Outline

mutual

/-- The outline on one line. -/
def inline : Outline → String
  | .leaf text => text
  | .node name part => name ++ "(" ++ part.inline ++ ")"
  | .list parts => "[" ++ ", ".intercalate (inlineAll parts) ++ "]"

/-- Every outline of a row on one line. -/
def inlineAll : List Outline → List String
  | [] => []
  | part :: rest => part.inline :: inlineAll rest

end

/-- The blank margin of a depth: four spaces per level. -/
def margin (depth : Nat) : String := "".pushn ' ' (4 * depth)

mutual

/-- The outline over several lines, for a reader at the given depth.  The first line carries no
margin: it continues the line on which the outline begins. -/
def indented (depth : Nat) : Outline → String
  | .leaf text => text
  | .node name part =>
    name ++ "(\n" ++ margin (depth + 1) ++ part.indented (depth + 1) ++ ",\n" ++ margin depth ++ ")"
  | .list [] => "[]"
  | .list (part :: rest) =>
    "[\n" ++ margin (depth + 1) ++ part.indented (depth + 1) ++ ",\n" ++
      linesOf (depth + 1) rest ++ margin depth ++ "]"

/-- The lines of a row of parts, each with its margin and its comma. -/
def linesOf (depth : Nat) : List Outline → String
  | [] => ""
  | part :: rest => margin depth ++ part.indented depth ++ ",\n" ++ linesOf depth rest

end

end Outline

end Text
end CommandGrammar
