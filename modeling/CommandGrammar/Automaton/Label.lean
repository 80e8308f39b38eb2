/-!
# Labels and the symbols they accept

An automaton reads the tokens of a line and then, once, the mark at the end of the line.  A
consuming transition carries a label, which is either one word or any token at all; no label accepts
the end mark.

Labels are ordered: words by their code points, and the label for any token after every word.  The
order is what makes a state's transitions come in one definite sequence.  Symbols are ordered in the
same way, tokens before the end mark, for the reports of what was received.
-/

namespace CommandGrammar

/-- What an automaton reads: a token, or the mark at the end of the line. -/
inductive Symbol where
  | token (text : String)
  | finish
  deriving DecidableEq, Repr

namespace Symbol

/-- The symbols of a line: its tokens, then the end mark. -/
def ofTokens (tokens : List String) : List Symbol := tokens.map .token ++ [.finish]

/-- A symbol as it is shown to a user. -/
def shown : Symbol → String
  | .token text => "'" ++ text ++ "'"
  | .finish => "end of input"

/-- Tokens come before the end mark. -/
def rank : Symbol → Nat
  | .token _ => 0
  | .finish => 1

/-- The text by which two symbols of one rank are compared. -/
def text : Symbol → String
  | .token text => text
  | .finish => ""

instance : Ord Symbol := ⟨compareLex (compareOn rank) (compareOn text)⟩

instance : Std.TransOrd Symbol :=
  inferInstanceAs (Std.TransCmp (compareLex (compareOn rank) (compareOn text)))

instance : Std.LawfulEqOrd Symbol where
  eq_of_compare {a b} h := by
    obtain ⟨hrank, htext⟩ := compareLex_eq_eq.mp h
    have hrank : a.rank = b.rank := Std.LawfulEqCmp.eq_of_compare hrank
    have htext : a.text = b.text := Std.LawfulEqCmp.eq_of_compare htext
    cases a <;> cases b <;> simp_all [rank, text]

end Symbol

/-- The label of a consuming transition. -/
inductive Label where
  | word (text : String)
  | any
  deriving DecidableEq, Repr

namespace Label

/-- Whether a transition with this label can be taken on the symbol. -/
def accepts : Label → Symbol → Bool
  | .any, .token _ => true
  | .word expected, .token text => expected == text
  | _, .finish => false

@[simp] theorem accepts_finish (label : Label) : label.accepts .finish = false := by
  cases label <;> rfl

@[simp] theorem any_accepts_token (text : String) : any.accepts (.token text) = true := rfl

@[simp] theorem word_accepts_token (expected text : String) :
    (word expected).accepts (.token text) = (expected == text) := rfl

/-- A label as it is shown to a user. -/
def shown : Label → String
  | .word text => "'" ++ text ++ "'"
  | .any => "<any>"

/-! ## The order of labels -/

/-- Words come before the label for any token. -/
def rank : Label → Nat
  | .word _ => 0
  | .any => 1

/-- The text by which two labels of one rank are compared. -/
def text : Label → String
  | .word text => text
  | .any => ""

instance : Ord Label := ⟨compareLex (compareOn rank) (compareOn text)⟩

instance : Std.TransOrd Label :=
  inferInstanceAs (Std.TransCmp (compareLex (compareOn rank) (compareOn text)))

instance : Std.LawfulEqOrd Label where
  eq_of_compare {a b} h := by
    obtain ⟨hrank, htext⟩ := compareLex_eq_eq.mp h
    have hrank : a.rank = b.rank := Std.LawfulEqCmp.eq_of_compare hrank
    have htext : a.text = b.text := Std.LawfulEqCmp.eq_of_compare htext
    cases a <;> cases b <;> simp_all [rank, text]

end Label

end CommandGrammar
