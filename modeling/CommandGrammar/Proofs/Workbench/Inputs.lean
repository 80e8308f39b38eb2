import CommandGrammar.Workbench.Session
import Mathlib.Data.List.Induction

/-!
# The inputs of a session

A session reads one input after the other and evaluates it (`Session.hearAll_eq`).  Since an input
that is not finished can be read on, it makes no difference whether the answers of the editor come
all at once or one by one (`Session.hearAll_cons`).

A `:grammar` command that is entered over several lines is one input.  What has been read of it after
some of its lines is their text with spaces between them (`soFar`), and reading goes on as long as
there are open groups in this text.

Main statements:

* `Session.hearAll_cons`: a session hears its answers one by one;
* `readInput_append`: lines with which groups are left open, and what is read after them;
* `readInput_entry`: all lines of an entry.
-/

namespace CommandGrammar
namespace Workbench

theorem Transcript.append_def (a b : Transcript) :
    a ++ b = ⟨a.output ++ b.output, a.errors ++ b.errors, a.prompts ++ b.prompts,
      a.history ++ b.history, a.events ++ b.events⟩ := rfl

theorem Transcript.empty_append (transcript : Transcript) : empty ++ transcript = transcript := by
  simp [append_def, empty]

theorem Transcript.prompted_cons (prompt : String) (prompts : List String)
    (first others : Transcript) :
    first.prompted (prompt :: prompts) ++ others =
      empty.prompted [prompt] ++ (first.prompted prompts ++ others) := by
  simp [prompted, append_def, empty]

theorem InputReading.prompted_prompted (first second : List String) (reading : InputReading) :
    (reading.prompted second).prompted first = reading.prompted (first ++ second) := by
  simp [prompted, List.append_assoc]

/-! ## One answer -/

section

variable {prompts : Prompts} {before : Option String} {heard : Heard}

theorem readInput_of_unfinished {input : Option String}
    (h : takeIn before heard = .unfinished input) (rest : List Heard) :
    readInput prompts before (heard :: rest) =
      (readInput prompts input rest).prompted [prompts.next before] := by
  rw [readInput, h]

theorem readInput_of_complete {result : Except WorkbenchError (Option String)} {written : String}
    (h : takeIn before heard = .complete result written) (rest : List Heard) :
    readInput prompts before (heard :: rest) =
      ⟨.complete result written, [prompts.next before], rest⟩ := by
  rw [readInput, h]

end

/-- What one answer makes of an input is what reading it from this answer alone comes to. -/
theorem readInput_singleton (prompts : Prompts) (before : Option String) (heard : Heard) :
    readInput prompts before [heard] = ⟨takeIn before heard, [prompts.next before], []⟩ := by
  cases htake : takeIn before heard with
  | complete result written => rw [readInput_of_complete htake]
  | unfinished input => rw [readInput_of_unfinished htake, readInput, InputReading.prompted]; rfl

namespace Session

theorem proceed_input (session : Session) (input : String) :
    session.proceed (.complete (.ok (some input)) "") = submit session.workbench input :=
  Prod.ext rfl (Transcript.empty_append _)

/-- A line that leaves no group open is handed over at once. -/
theorem respond_line {line : String} (h : openGroups line = 0) (bench : Workbench) :
    (goOn bench).respond (.line line) = submit bench line := by
  have htake : takeIn none (.line line) = .complete (.ok (some line)) "" := if_pos h
  rw [respond, goOn, htake, proceed_input]

/-- A session that is not over reads an input, proceeds with it, and hears the answers that are
left. -/
theorem hearAll_eq {session : Session} (h : session.ending = none) (prompts : Prompts)
    (answers : List Heard) :
    session.hearAll prompts answers =
      let reading := readInput prompts session.unfinished answers
      let next := session.proceed reading.intake
      let others := next.1.hearAll prompts reading.left
      (others.1, next.2.prompted reading.prompts ++ others.2) := by
  cases answers with
  | nil => simp only [readInput, proceed, hearAll, Transcript.prompted, Transcript.append_def]; rfl
  | cons heard rest => rw [hearAll, h]

/-- **A session may be taken across its answers one by one.** -/
theorem hearAll_cons {session : Session} (h : session.ending = none) (prompts : Prompts)
    (heard : Heard) (rest : List Heard) :
    session.hearAll prompts (heard :: rest) =
      let next := session.respond heard
      let others := next.1.hearAll prompts rest
      (others.1, next.2.prompted [prompts.next session.unfinished] ++ others.2) := by
  rw [hearAll_eq h, respond]
  cases hintake : takeIn session.unfinished heard with
  | complete result written => rw [readInput_of_complete hintake]
  | unfinished input =>
    -- the rest of the input is read from the state in which the session waits for it
    have hgoing : Session.ending { session with unfinished := input } = none := h
    have hnext : session.proceed (.unfinished input) =
        ({ session with unfinished := input }, .empty) := rfl
    rw [readInput_of_unfinished hintake, hnext]
    simp only [hearAll_eq hgoing]
    exact Prod.ext rfl (Transcript.prompted_cons _ _ _ _)

end Session

/-! ## The lines of an entry -/

/-- The text of an entry: its lines with spaces between them. -/
def entry (lines : List String) : String := " ".intercalate lines

theorem entry_singleton (line : String) : entry [line] = line := String.intercalate_singleton

theorem entry_append_singleton {lines : List String} (h : lines ≠ []) (line : String) :
    entry (lines ++ [line]) = entry lines ++ " " ++ line := by
  rw [entry, String.intercalate_append_of_ne_nil h (List.cons_ne_nil _ _),
    String.intercalate_singleton, entry]

/-- What has been read of an entry after some of its lines. -/
def soFar (lines : List String) : Option String := if lines = [] then none else some (entry lines)

theorem soFar_append_singleton (lines : List String) (line : String) :
    soFar (lines ++ [line]) = some (entry (lines ++ [line])) := if_neg (by simp)

/-- One more line of an entry. -/
theorem takeIn_line (lines : List String) (line : String) :
    takeIn (soFar lines) (.line line) =
      if openGroups (entry (lines ++ [line])) = 0 then
        .complete (.ok (some (entry (lines ++ [line])))) ""
      else .unfinished (soFar (lines ++ [line])) := by
  rw [soFar_append_singleton]
  by_cases hnil : lines = []
  · rw [hnil, List.nil_append, entry_singleton]
    rfl
  · rw [entry_append_singleton hnil, soFar, if_neg hnil]
    rfl

/-- The prompts with which so many lines of one entry are asked for. -/
def asked (prompts : Prompts) : Nat → List String
  | 0 => []
  | count + 1 => prompts.first :: List.replicate count prompts.continued

theorem asked_append_singleton (prompts : Prompts) (lines : List String) (line : String) :
    asked prompts (lines ++ [line]).length =
      asked prompts lines.length ++ [prompts.next (soFar lines)] := by
  rw [List.length_append, List.length_singleton]
  cases lines with
  | nil => rfl
  | cons first rest =>
    rw [List.length_cons, asked, asked, List.replicate_succ', List.cons_append]
    rfl

/-- Lines with which groups are left open are read one after the other, and the input is read on from
them. -/
theorem readInput_append (prompts : Prompts) {lines : List String}
    (h : ∀ part, part ≠ [] → part <+: lines → openGroups (entry part) ≠ 0) (more : List Heard) :
    readInput prompts none (lines.map .line ++ more) =
      (readInput prompts (soFar lines) more).prompted (asked prompts lines.length) := by
  induction lines using List.reverseRecOn generalizing more with
  | nil => rfl
  | append_singleton lines line ih =>
    have hopen := h (lines ++ [line]) (by simp) (List.prefix_refl _)
    have htake := takeIn_line lines line
    rw [if_neg hopen] at htake
    rw [List.map_append, List.append_assoc, List.map_singleton, List.singleton_append,
      ih fun part hne hpart => h part hne (hpart.trans (List.prefix_append _ _)),
      readInput_of_unfinished htake, InputReading.prompted_prompted, asked_append_singleton]

/-- Lines that make up one entry: groups are open after every line but the last. -/
structure IsEntry (lines : List String) : Prop where
  ne_nil : lines ≠ []
  opened : ∀ begun, begun ≠ [] → begun <+: lines → begun ≠ lines → 0 < openGroups (entry begun)
  closed : openGroups (entry lines) = 0

/-- **The lines of an entry are read as one input**, with spaces between them, and what comes after
them is left alone. -/
theorem readInput_entry (prompts : Prompts) {lines : List String} (h : IsEntry lines)
    (more : List Heard) :
    readInput prompts none (lines.map .line ++ more) =
      ⟨.complete (.ok (some (entry lines))) "", asked prompts lines.length, more⟩ := by
  cases lines using List.reverseRecOn with
  | nil => exact absurd rfl h.ne_nil
  | append_singleton lines line =>
    have hopened : ∀ part, part ≠ [] → part <+: lines → openGroups (entry part) ≠ 0 := by
      intro part hne hpart
      have hshorter := hpart.length_le
      refine Nat.ne_of_gt (h.opened part hne (hpart.trans (List.prefix_append _ _)) ?_)
      rintro rfl
      rw [List.length_append, List.length_singleton] at hshorter
      omega
    have htake := takeIn_line lines line
    rw [if_pos h.closed] at htake
    rw [List.map_append, List.append_assoc, List.map_singleton, List.singleton_append,
      readInput_append prompts hopened, readInput_of_complete htake, asked_append_singleton]
    rfl

end Workbench
end CommandGrammar
