import CommandGrammar.Grammar.Basic
import CommandGrammar.Text.Blank

/-!
# The lexemes of a grammar's source

The source of a grammar is cut into lexemes before it is read: parentheses, bars and quantifiers
are lexemes of one character, and a word is a longest run of characters that are neither one of
these nor a separator.  Every lexeme remembers how many characters stand before it, which is how an
error points into the source.

`lexemesFrom` ends because what is left after a lexeme is shorter.
-/

namespace CommandGrammar
namespace Grammar

/-- The kinds of lexemes. -/
inductive Lexeme where
  | word (text : String)
  | openGroup
  | closeGroup
  | bar
  | quantifier (quantifier : Quantifier)
  deriving DecidableEq, Repr

/-- A lexeme, and the number of characters before it. -/
structure Placed where
  lexeme : Lexeme
  offset : Nat
  deriving DecidableEq, Repr

/-- The lexeme that a single character forms, if it forms one. -/
def markOf : Char → Option Lexeme
  | '(' => some .openGroup
  | ')' => some .closeGroup
  | '|' => some .bar
  | '*' => some (.quantifier .star)
  | '+' => some (.quantifier .plus)
  | '?' => some (.quantifier .optional)
  | _ => none

/-- Whether a character ends a word: a separator does, and so does a character that is a lexeme. -/
def isDelimiter (c : Char) : Bool := Text.isSeparator c || (markOf c).isSome

/-- Whether a character can stand in a word. -/
def isWordChar (c : Char) : Bool := !isDelimiter c

/-- The lexemes of the characters from `offset` on. -/
def lexemesFrom (offset : Nat) : List Char → List Placed
  | [] => []
  | c :: rest =>
    if Text.isSeparator c then lexemesFrom (offset + 1) rest
    else match markOf c with
      | some mark => ⟨mark, offset⟩ :: lexemesFrom (offset + 1) rest
      | none =>
        let tail := rest.takeWhile isWordChar
        ⟨.word (String.ofList (c :: tail)), offset⟩ ::
          lexemesFrom (offset + 1 + tail.length) (rest.dropWhile isWordChar)
termination_by cs => cs.length
decreasing_by
  all_goals simp only [List.length_cons]
  · omega
  · omega
  · have := (List.dropWhile_sublist isWordChar (l := rest)).length_le
    omega

@[simp] theorem lexemesFrom_nil (offset : Nat) : lexemesFrom offset [] = [] := by
  rw [lexemesFrom]

/-- A separator is passed over. -/
theorem lexemesFrom_separator {c : Char} (h : Text.isSeparator c = true) (offset : Nat)
    (rest : List Char) : lexemesFrom offset (c :: rest) = lexemesFrom (offset + 1) rest := by
  rw [lexemesFrom, if_pos h]

/-- A mark is a lexeme by itself. -/
theorem lexemesFrom_mark {c : Char} {mark : Lexeme} (hs : Text.isSeparator c = false)
    (h : markOf c = some mark) (offset : Nat) (rest : List Char) :
    lexemesFrom offset (c :: rest) = ⟨mark, offset⟩ :: lexemesFrom (offset + 1) rest := by
  rw [lexemesFrom, if_neg (by simp [hs])]
  simp [h]

/-- Any other character begins a word, which ends before the next delimiter. -/
theorem lexemesFrom_word {c : Char} (h : isWordChar c = true) (offset : Nat) (rest : List Char) :
    lexemesFrom offset (c :: rest) =
      ⟨.word (String.ofList (c :: rest.takeWhile isWordChar)), offset⟩ ::
        lexemesFrom (offset + 1 + (rest.takeWhile isWordChar).length)
          (rest.dropWhile isWordChar) := by
  simp only [isWordChar, isDelimiter, Bool.not_eq_true', Bool.or_eq_false_iff,
    Option.isSome_eq_false_iff, Option.isNone_iff_eq_none] at h
  rw [lexemesFrom, if_neg (by simp [h.1])]
  simp [h.2]

/-- The lexemes of a source text. -/
def lexemes (source : String) : List Placed := lexemesFrom 0 source.toList

end Grammar
end CommandGrammar
