/-!
# Sets of code points

A character property such as "is a lowercase letter" is a set of code points.  Such sets come in
runs, so a set is written here as the ascending list of the points at which membership changes:
the first point is the first member, the second is the first point after that run, and so on.
`[0x61, 0x7B]` is the set of the letters from `a` to `z`.

A point belongs to the set if an odd number of changes lie at or below it.  Since the list ascends,
this is found out by walking up the changes and stopping at the first one above the point.
-/

namespace CommandGrammar
namespace Text

/-- A set of code points, as the ascending list of the points at which membership changes. -/
structure CodePoints where
  changes : List Nat

namespace CodePoints

/-- Walks up the changes, flipping the answer at each one that is passed, and stops at the first
change above the point. -/
def flips (point : Nat) : List Nat → Bool → Bool
  | [], inside => inside
  | change :: rest, inside => if point < change then inside else flips point rest (!inside)

/-- Whether a character belongs to the set. -/
def contains (set : CodePoints) (c : Char) : Bool :=
  flips c.toNat set.changes false

end CodePoints

end Text
end CommandGrammar
