import CommandGrammar.Text.Blank

/-!
# Lines and their tokens

A command line is cut into tokens at separators: space, tab, carriage return and line feed.  A
quote, single or double, that stands where a token could begin opens a quoted token; it runs to the
next quote of the same kind, may be empty and may hold separators, and the quotes themselves are
dropped.  Inside an unquoted token a quote is a character like any other, so `what's` is one token.
Nothing has to stand between a closing quote and the next token.

A quote that is still open at the end of the line is where the two modes part.  The lenient mode
takes the rest of the line as the token; the strict mode refuses the line and points at the quote.

The cut is one pass over the characters.  What it has to remember between two characters is where
it stands: in a gap, inside a word, or inside quotes (`Line.Place`).
-/

namespace CommandGrammar

/-- What becomes of a quote that is open at the end of a line. -/
inductive QuoteMode where
  /-- The rest of the line is the token. -/
  | lenient
  /-- The line is refused. -/
  | strict
  deriving DecidableEq, Repr

/-- A quote without its partner, and the number of characters before it. -/
structure OpenQuote where
  quote : Char
  offset : Nat
  deriving DecidableEq, Repr

/-- What a user is told about an open quote. -/
def OpenQuote.message (unclosed : OpenQuote) : String :=
  "unterminated " ++ unclosed.quote.toString ++ " quote starting at offset " ++
    toString unclosed.offset

namespace Line

/-- Whether a character can open a quoted token. -/
def isQuote (c : Char) : Bool := c == '"' || c == '\''

/-- Where a reader of a line stands between two characters.  The characters of an unfinished token
are kept last one first. -/
inductive Place where
  /-- Between tokens. -/
  | gap
  /-- Inside an unquoted token. -/
  | word (chars : List Char)
  /-- Inside a token that was opened by `quote` after `start` characters. -/
  | quoted (quote : Char) (start : Nat) (chars : List Char)
  deriving DecidableEq, Repr

/-- A reader of a line: the finished tokens, last one first, and where it stands. -/
structure Reader where
  finished : List String
  place : Place
  deriving DecidableEq, Repr

/-- The reader before the first character. -/
def Reader.start : Reader := ⟨[], .gap⟩

/-- Ends the current token; its characters are given last one first. -/
def Reader.finish (r : Reader) (chars : List Char) : Reader :=
  ⟨String.ofList chars.reverse :: r.finished, .gap⟩

/-- Reads one character, which has `offset` characters before it. -/
def Reader.read (r : Reader) (offset : Nat) (c : Char) : Reader :=
  match r.place with
  | .gap =>
    if isQuote c then ⟨r.finished, .quoted c offset []⟩
    else if Text.isSeparator c then r
    else ⟨r.finished, .word [c]⟩
  | .word chars =>
    if Text.isSeparator c then r.finish chars else ⟨r.finished, .word (c :: chars)⟩
  | .quoted quote start chars =>
    if c == quote then r.finish chars else ⟨r.finished, .quoted quote start (c :: chars)⟩

/-- Reads the characters from `offset` on. -/
def Reader.readAll (r : Reader) (offset : Nat) : List Char → Reader
  | [] => r
  | c :: rest => (r.read offset c).readAll (offset + 1) rest

/-- The tokens of a line, and the quote that was open at its end, if there was one. -/
structure Cut where
  tokens : List String
  unclosed : Option OpenQuote
  deriving DecidableEq, Repr

/-- What a reader has found when the line ends where it stands. -/
def Reader.cut (r : Reader) : Cut :=
  match r.place with
  | .gap => ⟨r.finished.reverse, none⟩
  | .word chars => ⟨(r.finish chars).finished.reverse, none⟩
  | .quoted quote start chars => ⟨(r.finish chars).finished.reverse, some ⟨quote, start⟩⟩

/-- Cuts a line into tokens. -/
def cut (line : String) : Cut := (Reader.start.readAll 0 line.toList).cut

/-- The tokens of a line in the lenient mode, which refuses no line. -/
def tokens (line : String) : List String := (cut line).tokens

/-- The tokens of a line, or the open quote for which the strict mode refuses it. -/
def tokenize (mode : QuoteMode) (line : String) : Except OpenQuote (List String) :=
  match mode, (cut line).unclosed with
  | .strict, some unclosed => .error unclosed
  | _, _ => .ok (cut line).tokens

@[simp] theorem tokenize_lenient (line : String) : tokenize .lenient line = .ok (tokens line) := by
  simp [tokenize, tokens]

end Line

end CommandGrammar
