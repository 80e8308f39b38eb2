import CommandGrammar.Text.Printable

/-!
# Quoted text

A text is quoted so that it can be shown inside a sentence or a list without doubt about where it
begins and ends or what it holds.  It stands between double quotes; a double quote or a backslash
inside it has a backslash before it; the null character, the tab, the carriage return and the line
feed have their one-letter names; any other character that cannot be shown as it is goes by its
number, in lowercase hexadecimal between braces.  A single quote needs no care.
-/

namespace CommandGrammar
namespace Text

/-- A character by number, as in `\u{301}`. -/
def byNumber (c : Char) : List Char :=
  "\\u\x7b".toList ++ Nat.toDigits 16 c.toNat ++ ['\x7d']

/-- A character as it is written between double quotes. -/
def escape (c : Char) : List Char :=
  if c == '"' then ['\\', '"']
  else if c == '\\' then ['\\', '\\']
  else if c == '\x00' then ['\\', '0']
  else if c == '\t' then ['\\', 't']
  else if c == '\r' then ['\\', 'r']
  else if c == '\n' then ['\\', 'n']
  else if isPrintable c then [c]
  else byNumber c

/-- A text between double quotes. -/
def quoted (s : String) : String :=
  String.ofList ('"' :: s.toList.flatMap escape ++ ['"'])

/-- A list of texts, each quoted, between brackets. -/
def quotedList (items : List String) : String :=
  "[" ++ ", ".intercalate (items.map quoted) ++ "]"

end Text
end CommandGrammar
