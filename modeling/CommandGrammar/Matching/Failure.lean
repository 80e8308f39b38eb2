import CommandGrammar.Automaton.Basic
import CommandGrammar.OrderedSet
import CommandGrammar.Search

/-!
# Failed matches

When no way leads across a symbol, the match has failed, and every way that was alive before it
reports a failure: the symbol that was received, and everything that could have stood in its place.
The failures of a match form a set, and so do the expectations of a failure; both are shown in
ascending order.

`Automaton.expected` collects what a state and the states it reaches for free could have consumed.
-/

namespace CommandGrammar

/-! ## Expectations -/

/-- What could have stood in the place of a symbol. -/
inductive Expectation where
  /-- A token that the label accepts. -/
  | label (expected : Label)
  /-- The end mark. -/
  | finish
  /-- A free transition. -/
  | free
  /-- The completion of a rule. -/
  | emit
  /-- No further token: the line was complete. -/
  | nothing
  deriving DecidableEq, Repr

namespace Expectation

/-- An expectation as it is shown to a user. -/
def shown : Expectation → String
  | .label l => l.shown
  | .finish => "<end>"
  | .free => "<epsilon>"
  | .emit => "<emit>"
  | .nothing => "<end of input>"

/-- The order of the kinds. -/
def rank : Expectation → Nat
  | .label _ => 0
  | .finish => 1
  | .free => 2
  | .emit => 3
  | .nothing => 4

/-- The label by which two expectations of one kind are compared. -/
def key : Expectation → Label
  | .label l => l
  | _ => .any

instance : Ord Expectation := ⟨compareLex (compareOn rank) (compareOn key)⟩

instance : Std.TransOrd Expectation :=
  inferInstanceAs (Std.TransCmp (compareLex (compareOn rank) (compareOn key)))

instance : Std.LawfulEqOrd Expectation where
  eq_of_compare {a b} h := by
    obtain ⟨hrank, hkey⟩ := compareLex_eq_eq.mp h
    have hrank : a.rank = b.rank := Std.LawfulEqCmp.eq_of_compare hrank
    have hkey : a.key = b.key := Std.LawfulEqCmp.eq_of_compare hkey
    cases a <;> cases b <;> simp_all [rank, key]

end Expectation

/-! ## Failures -/

/-- How one way through an automaton came to its end. -/
structure Failure where
  expected : OrderedSet Expectation
  received : Symbol
  deriving DecidableEq

namespace Failure

/-- A failure as it is shown to a user. -/
def shown (failure : Failure) : String :=
  match failure.expected.toList with
  | [] => "unexpected " ++ failure.received.shown
  | expected =>
    "expected one of " ++ ", ".intercalate (expected.map Expectation.shown) ++ "; got " ++
      failure.received.shown

instance : Ord Failure := ⟨compareLex (compareOn expected) (compareOn received)⟩

instance : Std.TransOrd Failure :=
  inferInstanceAs (Std.TransCmp (compareLex (compareOn expected) (compareOn received)))

instance : Std.LawfulEqOrd Failure where
  eq_of_compare {a b} h := by
    obtain ⟨hexpected, hreceived⟩ := compareLex_eq_eq.mp h
    have hexpected : a.expected = b.expected := Std.LawfulEqCmp.eq_of_compare hexpected
    have hreceived : a.received = b.received := Std.LawfulEqCmp.eq_of_compare hreceived
    cases a; cases b; simp_all

end Failure

/-- Why a line has no readings. -/
inductive MatchError where
  /-- No way led across a symbol. -/
  | noMatch (failures : OrderedSet Failure)
  /-- More than `limit` ways were alive after the symbol at `position`. -/
  | tooManyPaths (limit position : Nat)
  deriving DecidableEq

namespace MatchError

/-- What a user is told about a line without readings. -/
def message : MatchError → String
  | .noMatch failures =>
    "no interpretation matched: " ++ "; ".intercalate (failures.toList.map Failure.shown)
  | .tooManyPaths limit position =>
    "limit exceeded: max live paths (" ++ toString limit ++ ") exceeded at token " ++
      toString position

/-- Everything that some failure of a set expected. -/
def expectations (failures : OrderedSet Failure) : OrderedSet Expectation :=
  OrderedSet.ofList (failures.toList.flatMap fun failure => failure.expected.toList)

end MatchError

/-! ## What a state expects -/

namespace Automaton

/-- The states that follow a state by one free transition. -/
def freeSuccessors (a : Automaton) (id : Nat) : List Nat :=
  match a.state? id with
  | some (.free next) => next
  | some (.emit _ next) => next
  | _ => []

/-- What a state by itself could have consumed in the place of a symbol.  A state that consumes the
symbol has nothing to report. -/
def expectedAt (a : Automaton) (symbol : Symbol) (id : Nat) : List Expectation :=
  match a.state? id with
  | some (.consume transitions) =>
    if transitions.labels.any (·.accepts symbol) then []
    else transitions.labels.map .label
  | some .halt => if id = a.accept ∧ symbol ≠ .finish then [.nothing] else []
  | some (.emit _ []) => if id = a.accept ∧ symbol ≠ .finish then [.nothing] else []
  | _ => []

/-- A search over free transitions stays among the states of the table and its start. -/
def freeRegion (a : Automaton) (start : Nat) : Search.Region a.freeSuccessors where
  holds id := id = start ∨ id < a.size
  closed := by
    intro id _ target mem
    unfold freeSuccessors at mem
    split at mem
    · next h => exact .inr (successor_lt_size h mem)
    · next h => exact .inr (successor_lt_size h mem)
    · simp at mem
  finite := ⟨start :: List.range a.size, fun id h => by simpa using h⟩

/-- What a state, and the states it reaches for free, could have consumed in the place of a
symbol. -/
def expected (a : Automaton) (state : Nat) (symbol : Symbol) : OrderedSet Expectation :=
  OrderedSet.ofList <|
    Search.exploreFrom a.freeSuccessors (a.expectedAt symbol) (a.freeRegion state) state (.inl rfl)

end Automaton

end CommandGrammar
