import CommandGrammar.Proofs.Workbench.ActiveGrammar
import CommandGrammar.Proofs.Workbench.ByteLines
import CommandGrammar.Proofs.Workbench.Inputs

/-!
# Sessions and batches

A session and a batch are two loops around the same evaluation.  The one hears lines from an editor,
keeps a history, writes errors apart from answers and lets a failure of the editor through; the
other cuts its lines out of a stream of bytes, writes everything in one place and counts the errors.
Over the same lines both lead the same dialogue: the lines that are not blank are evaluated one
after the other, up to the first that asks to quit (`dialogue`).  What a batch reports of a dialogue is
`BatchRun.Reports`, and what a session reports of it is `SessionRun.Reports`.

A session ends at a failure of the editor and goes on after any other.  This makes no difference to
a dialogue, since no evaluation fails in the name of the editor (`eval_ne_editor`).

Main statements:

* `reports_runLines`: what a batch does with its lines;
* `reports_resume`: what a session does with lines that it hears;
* `session_agrees_batch`: the two together, from the text of the lines.
-/

namespace CommandGrammar
namespace Workbench

/-! ## Dialogues -/

/-- A line and what it was evaluated to. -/
structure Turn where
  line : String
  evaluation : Evaluation

namespace Turn

/-- Whether the line asks to quit. -/
def quits (turn : Turn) : Bool :=
  match turn.evaluation.result with
  | .ok .quit => true
  | _ => false

/-- What is shown in answer to the line: the text that is not empty, and a line feed. -/
def shown (turn : Turn) : String :=
  match turn.evaluation.result with
  | .ok (.output text) => if text = "" then "" else text ++ "\n"
  | _ => ""

/-- The message of a line that fails. -/
def message? (turn : Turn) : Option String :=
  match turn.evaluation.result with
  | .error error => some error.message
  | _ => none

theorem result_of_quits {turn : Turn} (h : turn.quits = true) :
    turn.evaluation.result = .ok .quit := by
  unfold quits at h
  split at h
  · assumption
  · cases h

/-- The messages of the lines that fail. -/
def messages (turns : List Turn) : List String := turns.filterMap message?

theorem messages_cons (turn : Turn) (turns : List Turn) :
    messages (turn :: turns) = turn.message?.toList ++ messages turns := by
  unfold messages
  cases h : turn.message? with
  | none => rw [List.filterMap_cons_none h]; rfl
  | some message => rw [List.filterMap_cons_some h]; rfl

/-- A message with a mark before it and a line feed after it. -/
def marked (mark message : String) : String := mark ++ message ++ "\n"

/-- A turn as it stands in the output of a batch: what is shown, or the message. -/
def written (turn : Turn) : String := turn.shown ++ turn.message?.elim "" (marked "error: ")

/-- A turn as a session writes it down, with the prompts that asked for it. -/
def spoken (asked : List String) (turn : Turn) : Transcript where
  output := turn.shown
  errors := turn.message?.elim "" (marked "\x1b[31merror:\x1b[0m ")
  prompts := asked
  history := [turn.line]
  events := turn.evaluation.events

end Turn

/-- The turn that a line takes. -/
def turn (bench : Workbench) (line : String) : Turn := ⟨line, bench.eval line⟩

@[simp] theorem line_turn (bench : Workbench) (line : String) : (bench.turn line).line = line := rfl

@[simp] theorem evaluation_turn (bench : Workbench) (line : String) :
    (bench.turn line).evaluation = bench.eval line := rfl

/-- Evaluates every line, each in the workbench that the line before it leaves. -/
def turns (bench : Workbench) : List String → List Turn
  | [] => []
  | line :: rest => bench.turn line :: (bench.eval line).workbench.turns rest

/-- The turns that lines lead to: those of the lines that are not blank, up to and including the
first that asks to quit. -/
def dialogue (bench : Workbench) (lines : List String) : List Turn :=
  let all := bench.turns (lines.filter (!isBlankLine ·))
  all.take (all.findIdx Turn.quits + 1)

section

variable (bench : Workbench) {line : String} (rest : List String)

theorem dialogue_of_blank (h : isBlankLine line = true) :
    bench.dialogue (line :: rest) = bench.dialogue rest := by
  simp [dialogue, h]

/-- After a line that asks to quit there are no turns. -/
theorem dialogue_of_quits (hblank : isBlankLine line = false)
    (hquits : (bench.turn line).quits = true) :
    bench.dialogue (line :: rest) = [bench.turn line] := by
  simp [dialogue, turns, hblank, List.findIdx_cons, hquits]

theorem dialogue_of_not_quits (hblank : isBlankLine line = false)
    (hquits : (bench.turn line).quits = false) :
    bench.dialogue (line :: rest) =
      bench.turn line :: (bench.eval line).workbench.dialogue rest := by
  simp [dialogue, turns, hblank, List.findIdx_cons, hquits]

end

/-! ## What a batch reports -/

/-- A batch reports a dialogue: it counts the messages, and writes what is shown and the messages in
the order in which they arise. -/
structure BatchRun.Reports (run : BatchRun) (bench : Workbench) (turns : List Turn) : Prop where
  result : run.result = .ok (Turn.messages turns).length
  output : run.output = String.join (turns.map Turn.written)
  workbench : run.workbench = bench.evalAll (turns.map Turn.line)
  events : run.events = turns.flatMap (·.evaluation.events)

section

variable {bench : Workbench} {line : String}

theorem reports_done : (BatchRun.done bench).Reports bench [] := ⟨rfl, rfl, rfl, rfl⟩

/-- A turn before a dialogue that is reported. -/
theorem BatchRun.Reports.after {run : BatchRun} {turns : List Turn}
    (h : run.Reports (bench.eval line).workbench turns) :
    (BatchRun.after (bench.turn line).message?.toList.length (bench.turn line).written
      (bench.eval line).events run).Reports bench (bench.turn line :: turns) where
  result := by
    show run.result.map _ = _
    rw [h.result, Turn.messages_cons, List.length_append]
    rfl
  output := by
    show Turn.written _ ++ run.output = _
    rw [h.output, List.map_cons, String.join_cons]
  workbench := h.workbench
  events := by
    show _ ++ run.events = _
    rw [h.events, List.flatMap_cons, evaluation_turn]

theorem runLines_of_blank (rest : List (List UInt8)) (h : isBlankLine line = true) :
    bench.runLines (encode line :: rest) = bench.runLines rest := by
  rw [runLines, decode?_encode]
  exact if_pos h

/-- A line that is not blank takes one turn, and the batch goes on unless it is to quit. -/
theorem runLines_of_not_blank (rest : List (List UInt8)) (h : isBlankLine line = false) :
    bench.runLines (encode line :: rest) =
      .after (bench.turn line).message?.toList.length (bench.turn line).written
        (bench.eval line).events
        (if (bench.turn line).quits then .done (bench.eval line).workbench
          else (bench.eval line).workbench.runLines rest) := by
  rw [runLines, decode?_encode]
  cases hresult : (bench.eval line).result with
  | error error =>
    simp [h, hresult, Turn.quits, Turn.written, Turn.shown, Turn.message?, Turn.marked]
  | ok response =>
    cases response with
    | output text =>
      simp [h, hresult, Turn.quits, Turn.written, Turn.shown, Turn.message?, ownLine]
    | quit => simp [h, hresult, Turn.quits, Turn.written, Turn.shown, Turn.message?]

end

/-- A batch over encoded lines reports their dialogue. -/
theorem reports_runLines (bench : Workbench) (lines : List String) :
    (bench.runLines (lines.map encode)).Reports bench (bench.dialogue lines) := by
  induction lines generalizing bench with
  | nil => exact reports_done
  | cons line rest ih =>
    rw [List.map_cons]
    cases hblank : isBlankLine line with
    | true =>
      rw [runLines_of_blank _ hblank, dialogue_of_blank _ _ hblank]
      exact ih bench
    | false =>
      rw [runLines_of_not_blank _ hblank]
      cases hquits : (bench.turn line).quits with
      | true =>
        rw [dialogue_of_quits _ _ hblank hquits]
        exact reports_done.after
      | false =>
        rw [dialogue_of_not_quits _ _ hblank hquits]
        exact (ih _).after

/-! ## What a session reports -/

/-- A session reports a dialogue: what is shown goes to its output, the messages go to its errors,
the lines go into its history, and at the end it says goodbye. -/
structure SessionRun.Reports (run : SessionRun) (bench : Workbench) (turns : List Turn) : Prop where
  result : run.result = .ok ()
  output : run.transcript.output = String.join (turns.map Turn.shown) ++ "\nGoodbye!\n"
  errors : run.transcript.errors =
    String.join ((Turn.messages turns).map (Turn.marked "\x1b[31merror:\x1b[0m "))
  history : run.transcript.history = turns.map Turn.line
  workbench : run.workbench = bench.evalAll (turns.map Turn.line)
  events : run.transcript.events = turns.flatMap (·.evaluation.events)

/-- Puts what was said before a run in front of it. -/
def SessionRun.after (first : Transcript) (run : SessionRun) : SessionRun :=
  ⟨run.result, first ++ run.transcript, run.workbench⟩

/-- A session as it goes on from a state between two answers, until the input has ended. -/
def Session.resume (prompts : Prompts) (session : Session) (answers : List Heard) : SessionRun :=
  let (last, transcript) := session.hearAll prompts (answers ++ [.ended, .ended])
  ⟨last.ending.getD (.ok ()), transcript, last.workbench⟩

section

variable {bench : Workbench} {line : String} {run : SessionRun} {turns : List Turn}
variable (asked : List String)

/-- A line that has no turn leaves no trace but its prompt. -/
theorem SessionRun.Reports.after_blank (h : run.Reports bench turns) :
    (run.after { Transcript.empty with prompts := asked }).Reports bench turns where
  result := h.result
  output := by
    show "" ++ run.transcript.output = _
    rw [String.empty_append, h.output]
  errors := by
    show "" ++ run.transcript.errors = _
    rw [String.empty_append, h.errors]
  history := h.history
  workbench := h.workbench
  events := h.events

/-- A turn before a dialogue that is reported. -/
theorem SessionRun.Reports.after (h : run.Reports (bench.eval line).workbench turns) :
    (run.after ((bench.turn line).spoken asked)).Reports bench (bench.turn line :: turns) where
  result := h.result
  output := by
    show Turn.shown _ ++ run.transcript.output = _
    rw [h.output, List.map_cons, String.join_cons, String.append_assoc]
  errors := by
    show Option.elim _ _ _ ++ run.transcript.errors = _
    rw [h.errors, Turn.messages_cons, List.map_append, String.join_append]
    cases (bench.turn line).message? <;> simp
  history := by
    show line :: run.transcript.history = _
    rw [h.history, List.map_cons, line_turn]
  workbench := h.workbench
  events := by
    show _ ++ run.transcript.events = _
    rw [h.events, List.flatMap_cons]
    rfl

end

section

variable (bench : Workbench) (prompts : Prompts)

theorem runSession_eq_resume (answers : List Heard) :
    bench.runSession false prompts answers = (Session.goOn bench).resume prompts answers := by
  show SessionRun.after .empty ((Session.goOn bench).resume prompts answers) = _
  rw [SessionRun.after, Transcript.empty_append]

/-- A session that is over hears nothing more. -/
theorem Session.hearAll_close (answers : List Heard) :
    (close bench).hearAll prompts answers = (close bench, .empty) := by
  cases answers with
  | nil => rw [hearAll]
  | cons heard answers => rw [hearAll, close]

/-- A session that hears nothing says goodbye. -/
theorem reports_resume_nil : ((Session.goOn bench).resume prompts []).Reports bench [] := by
  have hended : (Session.goOn bench).respond .ended = (.close bench, .wrote farewell) :=
    Prod.ext rfl (Transcript.empty_append _)
  rw [Session.resume, List.nil_append, Session.hearAll_cons rfl, hended]
  simp only [Session.hearAll_close]
  exact ⟨rfl, rfl, rfl, rfl, rfl, rfl⟩

theorem Session.resume_close (answers : List Heard) :
    (close bench).resume prompts answers = ⟨.ok (), .empty, bench⟩ := by
  unfold resume
  rw [hearAll_close]
  rfl

variable {bench} {line : String} (answers : List Heard)

/-- A session that is to quit says goodbye, whatever else it could hear. -/
theorem reports_resume_close (asked : List String) (hquits : (bench.turn line).quits = true) :
    (((Session.close (bench.eval line).workbench).resume prompts answers).after
      { (bench.turn line).spoken asked with output := farewell }).Reports bench
        [bench.turn line] := by
  have hresult : (bench.turn line).evaluation.result = .ok .quit := Turn.result_of_quits hquits
  have hshown : (bench.turn line).shown = "" := by rw [Turn.shown, hresult]
  have hmessage : (bench.turn line).message? = none := by rw [Turn.message?, hresult]
  rw [Session.resume_close]
  refine ⟨rfl, ?_, ?_, rfl, rfl, rfl⟩
  · show farewell ++ "" = _
    rw [List.map_singleton, hshown]
    rfl
  · show Option.elim _ _ _ ++ "" = _
    rw [Turn.messages_cons, hmessage]
    rfl

/-- A line that leaves no group open is handed over at once. -/
theorem Session.resume_line {next : Session} {said : Transcript} (hopen : openGroups line = 0)
    (hsubmit : submit bench line = (next, said)) :
    (goOn bench).resume prompts (.line line :: answers) =
      .after (said.prompted [prompts.first]) (next.resume prompts answers) := by
  rw [resume, List.cons_append, hearAll_cons rfl, respond_line hopen, hsubmit]
  rfl

theorem Session.submit_of_blank (h : isBlankLine line = true) :
    submit bench line = (goOn bench, .empty) :=
  if_pos h

/-- A session goes on after an error that is not the editor's. -/
theorem Session.fail_of_ne_editor (bench : Workbench) {error : WorkbenchError}
    (h : ∀ message, error ≠ .editor message) :
    fail bench error = (goOn bench, { Transcript.empty with errors := errorLine error }) := by
  cases error with
  | editor message => exact absurd rfl (h message)
  | language _ | noGrammar | unknownCommand _ | usage _ | unreadable _ => rfl

/-- A session ends with a line that asks to quit. -/
theorem Session.submit_of_quits (hblank : isBlankLine line = false)
    (hquits : (bench.turn line).quits = true) :
    submit bench line = (close (bench.eval line).workbench,
      { (bench.turn line).spoken [] with output := farewell }) := by
  have hresult : (bench.eval line).result = .ok .quit := Turn.result_of_quits hquits
  simp [submit, hblank, hresult, Transcript.empty, Turn.spoken, Turn.message?]

/-- Any other line that is not blank takes one turn, and the session goes on. -/
theorem Session.submit_of_not_quits (hblank : isBlankLine line = false)
    (hquits : (bench.turn line).quits = false) :
    submit bench line = (goOn (bench.eval line).workbench, (bench.turn line).spoken []) := by
  unfold submit
  cases hresult : (bench.eval line).result with
  | error error =>
    have hfail := fail_of_ne_editor (bench.eval line).workbench fun message heq =>
      bench.eval_ne_editor line message (heq ▸ hresult)
    have hreported : errorLine error = Turn.marked "\x1b[31merror:\x1b[0m " error.message := rfl
    simp [hblank, hresult, hfail, hreported, Transcript.append_def, Transcript.empty, Turn.spoken,
      Turn.shown, Turn.message?]
  | ok response =>
    cases response with
    | output text =>
      simp [hblank, hresult, Transcript.empty, Turn.spoken, Turn.shown, Turn.message?, ownLine]
    | quit => simp [Turn.quits, hresult] at hquits

end

/-- A session that hears lines which leave no group open reports their dialogue. -/
theorem reports_resume (bench : Workbench) (prompts : Prompts) {lines : List String}
    (hopen : ∀ line ∈ lines, openGroups line = 0) :
    ((Session.goOn bench).resume prompts (lines.map .line)).Reports bench
      (bench.dialogue lines) := by
  induction lines generalizing bench with
  | nil => exact reports_resume_nil bench prompts
  | cons line rest ih =>
    obtain ⟨hline, hrest⟩ := List.forall_mem_cons.mp hopen
    rw [List.map_cons]
    cases hblank : isBlankLine line with
    | true =>
      rw [Session.resume_line _ _ hline (Session.submit_of_blank hblank),
        dialogue_of_blank _ _ hblank]
      exact (ih bench hrest).after_blank [prompts.first]
    | false =>
      cases hquits : (bench.turn line).quits with
      | true =>
        rw [Session.resume_line _ _ hline (Session.submit_of_quits hblank hquits),
          dialogue_of_quits _ _ hblank hquits]
        exact reports_resume_close prompts _ [prompts.first] hquits
      | false =>
        rw [Session.resume_line _ _ hline (Session.submit_of_not_quits hblank hquits),
          dialogue_of_not_quits _ _ hblank hquits]
        exact (ih _ hrest).after [prompts.first]

/-- **A session and a batch agree.**  Over any lines that have no line feed in them, no carriage
return at their end and no group left open, a session that hears the lines and a batch over their
text report one and the same dialogue, and leave the same workbench behind. -/
theorem session_agrees_batch (bench : Workbench) (prompts : Prompts) (lines : List String)
    (hfeed : ∀ line ∈ lines, '\n' ∉ line.toList)
    (hreturn : ∀ line ∈ lines, line.toList.getLast? ≠ some '\r')
    (hopen : ∀ line ∈ lines, openGroups line = 0) :
    (bench.runBatch (encode (script lines))).Reports bench (bench.dialogue lines) ∧
    (bench.runSession false prompts (lines.map .line)).Reports bench (bench.dialogue lines) ∧
    (bench.runBatch (encode (script lines))).workbench =
      (bench.runSession false prompts (lines.map .line)).workbench := by
  have hbatch : (bench.runBatch (encode (script lines))).Reports bench (bench.dialogue lines) := by
    rw [runBatch, byteLines_encode_script hfeed hreturn]
    exact bench.reports_runLines lines
  have hsession : (bench.runSession false prompts (lines.map .line)).Reports bench
      (bench.dialogue lines) := by
    rw [runSession_eq_resume]
    exact bench.reports_resume prompts hopen
  exact ⟨hbatch, hsession, hbatch.workbench.trans hsession.workbench.symm⟩

/-- The first line comes too soon, the second is blank, and the last comes too late. -/
theorem session_agrees_batch_take :
    let lines := ["take it", " ", ":g take ITEM", ":t 'a b' ça", ":q", ":t d"]
    let batch := (new .standard .lenient).runBatch (encode (script lines))
    let session := (new .standard .lenient).runSession false standardPrompts (lines.map .line)
    batch.result = .ok 1 ∧
      batch.output = "error: no grammar set; use :grammar <grammar> first\n" ++
        "grammar set: take ITEM\n[\"a b\", \"ça\"]\n" ∧
      session.transcript.output = "grammar set: take ITEM\n[\"a b\", \"ça\"]\n\nGoodbye!\n" ∧
      session.transcript.errors =
        "\x1b[31merror:\x1b[0m no grammar set; use :grammar <grammar> first\n" ∧
      session.transcript.history = ["take it", ":g take ITEM", ":t 'a b' ça", ":q"] := by
  obtain ⟨hbatch, hsession, -⟩ := session_agrees_batch (new .standard .lenient) standardPrompts
    ["take it", " ", ":g take ITEM", ":t 'a b' ça", ":q", ":t d"]
    (by decide +kernel) (by decide +kernel) (by decide +kernel)
  refine ⟨hbatch.result.trans ?_, hbatch.output.trans ?_, hsession.output.trans ?_,
    hsession.errors.trans ?_, hsession.history.trans ?_⟩
  all_goals decide +kernel

end Workbench
end CommandGrammar
