import CommandGrammar.Grammar.Lexeme
import CommandGrammar.Text.Letter
import CommandGrammar.Text.Quoted

/-!
# Reading grammars

A grammar is read from its lexemes in one pass.  What has been read so far is a stack of drafts, one
for every group that is still open and one for the source as a whole; a lexeme changes the innermost
draft, opens a new one, or closes the innermost one and hands its tree to the draft around it.

A word is a keyword when it has lowercase letters and no uppercase ones, and a capture when it is
the other way round; a word with both or with neither is refused.  Groups may be nested to
`maxNesting` levels.

A parenthesised alternation whose branches are all single bare captures says no more than that one
run of tokens goes by several tags, so it becomes a single capture with the tags of all branches, in
the order in which they first occur.  The source as a whole is never folded in this way.

Errors carry the offset of the lexeme at which they arise; what is missing at the end of the source
is reported at its length.
-/

namespace CommandGrammar
namespace Grammar

/-- The number of groups that may be open at once. -/
def maxNesting : Nat := 256

/-! ## Errors -/

/-- What can be wrong with a grammar's source. -/
inductive SourceFault where
  | unmatchedClose
  | emptyGroup
  | emptyAlternative
  /-- A quantifier with no element before it. -/
  | missingTarget (quantifier : Quantifier)
  /-- A quantifier after an element that has one. -/
  | alreadyQuantified (quantifier : Quantifier)
  /-- A word that is neither a keyword nor a capture. -/
  | unrecognizedWord (word : String)
  /-- Groups that are open at the end. -/
  | unclosedGroups (count : Nat)
  | nestingTooDeep (limit : Nat)
  deriving DecidableEq, Repr

/-- What a user is told about a fault. -/
def SourceFault.message : SourceFault → String
  | .unmatchedClose => "unmatched ')'"
  | .emptyGroup => "empty group"
  | .emptyAlternative => "empty alternative"
  | .missingTarget quantifier =>
    "expected an element before '" ++ quantifier.symbol.toString ++ "'"
  | .alreadyQuantified quantifier =>
    "element already has a quantifier, cannot apply '" ++ quantifier.symbol.toString ++ "'"
  | .unrecognizedWord word => "unrecognized token " ++ Text.quoted word
  | .unclosedGroups count => "expected " ++ toString count ++ " ')', but input ended"
  | .nestingTooDeep limit => "groups nested deeper than " ++ toString limit

/-- A fault, and the number of characters before the place at which it was found. -/
structure SourceError where
  fault : SourceFault
  offset : Nat
  deriving DecidableEq, Repr

/-- What a user is told about an error in a grammar's source. -/
def SourceError.message (error : SourceError) : String :=
  error.fault.message ++ " at offset " ++ toString error.offset

/-! ## Words -/

/-- The leaf that a word stands for. -/
def classify (word : String) : Except SourceFault Grammar :=
  match word.toList.any Text.isLower, word.toList.any Text.isUpper with
  | true, false => .ok (keyword word)
  | false, true => .ok (capture [word])
  | _, _ => .error (.unrecognizedWord word)

/-! ## Drafts -/

/-- A group that is being read: the branches before the last bar, last one first, and the elements
since then, last one first. -/
structure Draft where
  branches : List (List Grammar)
  elements : List Grammar

namespace Draft

/-- The draft of a group of which nothing has been read. -/
def start : Draft := ⟨[], []⟩

/-- Adds an element to the current branch. -/
def push (draft : Draft) (element : Grammar) : Draft :=
  ⟨draft.branches, element :: draft.elements⟩

/-- Puts a quantifier on the last element of the current branch. -/
def quantify (draft : Draft) (quantifier : Quantifier) : Except SourceFault Draft :=
  match draft.elements with
  | [] => .error (.missingTarget quantifier)
  | last :: before =>
    if last.isQuantified then .error (.alreadyQuantified quantifier)
    else .ok ⟨draft.branches, .quantified quantifier last :: before⟩

/-- Ends the current branch and begins the next one. -/
def nextBranch (draft : Draft) : Except SourceFault Draft :=
  match draft.elements with
  | [] => .error .emptyAlternative
  | elements => .ok ⟨elements.reverse :: draft.branches, []⟩

end Draft

/-- The tags of all branches, in the order of their first occurrence, when every branch is a single
bare capture. -/
def sharedTags : List (List Grammar) → Option (List String)
  | [] => some []
  | [.leaf (.capture tags)] :: rest => (sharedTags rest).map (tags ++ ·)
  | _ => none

/-- The tree of an alternation of at least two branches; `folding` says whether branches that are
all single bare captures become one capture. -/
def alternation (folding : Bool) (branches : List (List Grammar)) : Grammar :=
  match folding, sharedTags branches with
  | true, some tags => capture tags.eraseDups
  | _, _ => alternatives branches

/-- The tree of a group that ends here. -/
def Draft.finish (draft : Draft) (folding : Bool) : Except SourceFault Grammar :=
  match draft.elements, draft.branches with
  | [], [] => .error .emptyGroup
  | [], _ :: _ => .error .emptyAlternative
  | elements, [] => .ok (sequence elements.reverse)
  | elements, branches => .ok (alternation folding (elements.reverse :: branches).reverse)

/-! ## The pass over the lexemes -/

/-- What has been read: the draft of the innermost open group, and the drafts around it from the
inside out.  With no group open the one draft is that of the source as a whole. -/
structure Reading where
  inner : Draft
  outer : List Draft

namespace Reading

/-- Nothing has been read. -/
def start : Reading := ⟨.start, []⟩

/-- The number of open groups. -/
def depth (reading : Reading) : Nat := reading.outer.length

/-- Reads one lexeme; `folding` says whether closed groups of bare captures are folded. -/
def read (folding : Bool) (reading : Reading) : Lexeme → Except SourceFault Reading
  | .word text => do
    let leaf ← classify text
    return ⟨reading.inner.push leaf, reading.outer⟩
  | .openGroup =>
    if reading.depth = maxNesting then .error (.nestingTooDeep maxNesting)
    else .ok ⟨.start, reading.inner :: reading.outer⟩
  | .closeGroup =>
    match reading.outer with
    | [] => .error .unmatchedClose
    | around :: outer => do
      let group ← reading.inner.finish folding
      return ⟨around.push group, outer⟩
  | .bar => do
    let inner ← reading.inner.nextBranch
    return ⟨inner, reading.outer⟩
  | .quantifier quantifier => do
    let inner ← reading.inner.quantify quantifier
    return ⟨inner, reading.outer⟩

/-- Reads lexemes one after the other, up to the first fault. -/
def readAll (folding : Bool) (reading : Reading) : List Placed → Except SourceError Reading
  | [] => .ok reading
  | placed :: rest =>
    match reading.read folding placed.lexeme with
    | .ok next => next.readAll folding rest
    | .error fault => .error ⟨fault, placed.offset⟩

/-- The tree of the source when it ends here. -/
def finish (reading : Reading) : Except SourceFault Grammar :=
  match reading.outer with
  | [] => reading.inner.finish false
  | _ :: _ => .error (.unclosedGroups reading.depth)

end Reading

/-- Reads a grammar; `folding` says whether parenthesised alternations of bare captures become
single captures. -/
def parseWith (folding : Bool) (source : String) : Except SourceError Grammar :=
  match Reading.start.readAll folding (lexemes source) with
  | .error error => .error error
  | .ok reading =>
    match reading.finish with
    | .ok tree => .ok tree
    | .error fault => .error ⟨fault, source.length⟩

/-- Reads a grammar. -/
def parse (source : String) : Except SourceError Grammar := parseWith true source

end Grammar
end CommandGrammar
