import CommandGrammar.Exchange.Value
import CommandGrammar.Interpretation
import CommandGrammar.Line
import CommandGrammar.Matching.Failure
import CommandGrammar.Matching.Options

/-!
# Records as plain data

Options, expectations, failures and readings can be handed to other programs.  Each record has one
written form; what is read may also be a list of its fields in order, or an object with more fields
than it needs.  A choice without content is written as its name, a choice with content as an object
with one field.  Sets are written in ascending order and read in any.
-/

namespace CommandGrammar
namespace Exchange

open Value

/-! ## Options -/

/-- Writes match options. -/
def ofMatchOptions (options : MatchOptions) : Value :=
  .object [("max_live_paths", .number options.maxLivePaths),
    ("merge_duplicate_paths", .bool options.mergeDuplicatePaths)]

/-- Reads match options. -/
def matchOptions? (value : Value) : Option MatchOptions :=
  (record2? "max_live_paths" number? "merge_duplicate_paths" bool? value).map
    fun (limit, merge) => ⟨limit, merge⟩

/-- Writes a quote mode, which is the one field of a record. -/
def ofQuoteMode (mode : QuoteMode) : Value :=
  .object [("quotes", .text (match mode with
    | .lenient => "Lenient"
    | .strict => "Strict"))]

/-- Reads the name of a quote mode. -/
def quoteModeName? (value : Value) : Option QuoteMode :=
  match choice? value with
  | some ("Lenient", content) => if isBare content then some .lenient else none
  | some ("Strict", content) => if isBare content then some .strict else none
  | _ => none

/-- Reads a quote mode, which is the one field of a record. -/
def quoteMode? (value : Value) : Option QuoteMode := record1? "quotes" quoteModeName? value

/-! ## Failures -/

/-- Writes an expectation. -/
def ofExpectation : Expectation → Value
  | .label (.word word) => choice "Word" (.text word)
  | .label .any => .text "Any"
  | .finish => .text "End"
  | .free => .text "Epsilon"
  | .emit => .text "Emit"
  | .nothing => .text "Nothing"

/-- The expectation without content that has a name. -/
def bareExpectation? : String → Option Expectation
  | "Any" => some (.label .any)
  | "End" => some .finish
  | "Epsilon" => some .free
  | "Emit" => some .emit
  | "Nothing" => some .nothing
  | _ => none

/-- Reads an expectation. -/
def expectation? (value : Value) : Option Expectation :=
  match choice? value with
  | some ("Word", some content) => content.text?.map fun word => .label (.word word)
  | some (name, content) => if isBare content then bareExpectation? name else none
  | none => none

/-- Writes the symbol that was received. -/
def ofSymbol : Symbol → Value
  | .token token => choice "Token" (.text token)
  | .finish => .text "End"

/-- Reads the symbol that was received. -/
def symbol? (value : Value) : Option Symbol :=
  match choice? value with
  | some ("Token", some content) => content.text?.map .token
  | some ("End", content) => if isBare content then some .finish else none
  | _ => none

/-- Writes a failure. -/
def ofFailure (failure : Failure) : Value :=
  .object [("expected", .list (failure.expected.toList.map ofExpectation)),
    ("received", ofSymbol failure.received)]

/-- Reads a failure. -/
def failure? (value : Value) : Option Failure :=
  (record2? "expected" (list? expectation?) "received" symbol? value).map
    fun (expected, received) => ⟨OrderedSet.ofList expected, received⟩

/-- Writes a set of failures. -/
def ofFailures (failures : OrderedSet Failure) : Value :=
  .list (failures.toList.map ofFailure)

/-- Reads a set of failures. -/
def failures? (value : Value) : Option (OrderedSet Failure) :=
  (list? failure? value).map OrderedSet.ofList

/-! ## Readings -/

/-- Writes a rule. -/
def ofRule : Rule → Value
  | .keyword word => choice "Keyword" (.text word)
  | .capture tags => choice "Variable" (texts tags)

/-- Reads a rule. -/
def rule? (value : Value) : Option Rule :=
  match choice? value with
  | some ("Keyword", some content) => content.text?.map .keyword
  | some ("Variable", some content) => (list? text? content).map .capture
  | _ => none

/-- Writes a claim. -/
def ofClaim (claim : Claim) : Value :=
  .object [("rule", ofRule claim.rule), ("tokens", texts claim.tokens)]

/-- Reads a claim. -/
def claim? (value : Value) : Option Claim :=
  (record2? "rule" rule? "tokens" (list? text?) value).map fun (rule, tokens) => ⟨rule, tokens⟩

/-- Writes an entry. -/
def ofEntry : Entry → Value
  | .token token => choice "Token" (.text token)
  | .claim made => choice "Parsed" (ofClaim made)

/-- Reads an entry. -/
def entry? (value : Value) : Option Entry :=
  match choice? value with
  | some ("Token", some content) => content.text?.map .token
  | some ("Parsed", some content) => (claim? content).map .claim
  | _ => none

/-- Writes a reading. -/
def ofInterpretation (reading : Interpretation) : Value :=
  .object [("entries", .list (reading.entries.map ofEntry))]

/-- Reads a reading. -/
def interpretation? (value : Value) : Option Interpretation :=
  (record1? "entries" (list? entry?) value).map Interpretation.mk

end Exchange
end CommandGrammar
