import CommandGrammar.Text.CodePoints

/-!
# Blanks

Two notions of blank are in use.  What separates the words of a line or of a grammar is a short
list that anyone can type: space, tab, carriage return and line feed (`isSeparator`).  What is cut
off around a line before it is looked at, and what ends the name of a command, is the Unicode 17
property `White_Space` (`isBlank`), which has the no-break space, the ideographic space and the
line separators as well.

The second half of the module cuts blanks off either end of a text.
-/

namespace CommandGrammar
namespace Text

/-- The characters with the property `White_Space`. -/
def whiteSpace : CodePoints :=
  ⟨[
    0x9, 0xE, 0x20, 0x21, 0x85, 0x86, 0xA0, 0xA1, 0x1680, 0x1681, 0x2000, 0x200B, 0x2028,
    0x202A, 0x202F, 0x2030, 0x205F, 0x2060, 0x3000, 0x3001]⟩

/-- Whether a character is white space in any script. -/
def isBlank (c : Char) : Bool := whiteSpace.contains c

/-- Whether a character separates words: a space, a tab, a carriage return or a line feed. -/
def isSeparator (c : Char) : Bool :=
  c == ' ' || c == '\t' || c == '\r' || c == '\n'

/-- What separates words is white space; the converse fails, as for the no-break space. -/
theorem isBlank_of_isSeparator {c : Char} (h : isSeparator c = true) : isBlank c = true := by
  simp only [isSeparator, Bool.or_eq_true, beq_iff_eq] at h
  rcases h with ((rfl | rfl) | rfl) | rfl <;> decide

/-! ## Trimming -/

/-- Cuts the blanks off the front. -/
def trimLeft (cs : List Char) : List Char := cs.dropWhile isBlank

/-- Cuts the blanks off the back. -/
def trimRight (cs : List Char) : List Char := (cs.reverse.dropWhile isBlank).reverse

/-- Cuts the blanks off both ends. -/
def trim (cs : List Char) : List Char := trimRight (trimLeft cs)

end Text
end CommandGrammar
