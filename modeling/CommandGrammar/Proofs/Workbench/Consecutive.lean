import CommandGrammar.Proofs.Workbench.Dialogue

/-!
# Consecutive batches

A batch may be cut at the end of any line: what comes after the cut is run as a batch of its own, on
the workbench that the first part has left, and nothing changes.  The outputs stand one after the
other and the numbers of failed lines are added.  An end of a line is a line feed, so that the lines
of the whole are those of the two parts (`byteLines_append`).

Two things could end the first part early, and with it the whole: a line that asks to quit, and a
line that is not text.  The first is excluded.  The second cannot happen when the first part is text
as a whole, since no character goes across a line feed, and the carriage return that is dropped
before one is a character by itself (`exists_byteLines_eq_map_encode`).

In the second part a line that is not text ends the run where it is reached, and everything that was
done before it stays done (`runLines_of_not_text`).

Main statement: `batch_cut_at_line_end`.
-/

namespace CommandGrammar
namespace Workbench

/-! ## Cutting bytes into lines -/

/-- Bytes without a line feed are part of the current line. -/
theorem linesFrom_of_not_mem {bytes : List UInt8} (h : 10 ∉ bytes) (line rest : List UInt8) :
    linesFrom line (bytes ++ rest) = linesFrom (bytes.reverse ++ line) rest := by
  induction bytes generalizing line with
  | nil => rfl
  | cons byte bytes ih =>
    obtain ⟨hbyte, hbytes⟩ := List.ne_and_not_mem_of_not_mem_cons h
    rw [List.cons_append, linesFrom, if_neg hbyte.symm, ih hbytes, List.reverse_cons,
      List.append_assoc, List.singleton_append]

/-- After a line feed the lines begin anew. -/
theorem linesFrom_append_feed (line first second : List UInt8) :
    linesFrom line (first ++ 10 :: second) =
      linesFrom line (first ++ [10]) ++ linesFrom [] second := by
  induction first generalizing line with
  | nil => rfl
  | cons byte first ih =>
    rw [List.cons_append, List.cons_append, linesFrom, linesFrom]
    split
    · rw [ih, List.cons_append]
    · exact ih _

/-- Bytes that end in a line feed are cut into lines apart from those that follow. -/
theorem byteLines_append {first : List UInt8} (h : first = [] ∨ first.getLast? = some 10)
    (second : List UInt8) : byteLines (first ++ second) = byteLines first ++ byteLines second := by
  rcases h with rfl | h
  · rfl
  · obtain ⟨front, rfl⟩ := List.getLast?_eq_some_iff.mp h
    rw [List.append_assoc, List.singleton_append]
    exact linesFrom_append_feed [] front second

/-! ## Lines of a text -/

theorem eq_encode_of_decode? {bytes : List UInt8} {text : String} (h : decode? bytes = some text) :
    bytes = encode text := by
  unfold decode? String.fromUTF8? at h
  split at h
  · rw [← Option.some.inj h, ← List.toByteArray_inj, toByteArray_encode]
    rfl
  · cases h

/-- A text without the carriage return at its end is a text. -/
theorem exists_dropReturn_encode (text : String) :
    ∃ kept, dropReturn (encode text) = encode kept := by
  unfold dropReturn
  split
  · next hlast =>
    obtain ⟨front, hfront⟩ := List.getLast?_eq_some_iff.mp
      (getLast?_of_getLast?_encode hlast (by decide) (c := '\r') rfl)
    refine ⟨String.ofList front, ?_⟩
    have hreturn : String.utf8EncodeChar '\r' = [13] := by decide
    simp [encode, hfront, hreturn]
  · exact ⟨text, rfl⟩

/-- The lines of a text are texts; `begun` is what stands on the current line already. -/
theorem exists_linesFrom_eq_map_encode (begun : String) (chars : List Char) :
    ∃ lines : List String, linesFrom (encode begun).reverse
      (chars.flatMap String.utf8EncodeChar) = lines.map encode := by
  induction chars generalizing begun with
  | nil =>
    rw [List.flatMap_nil, linesFrom]
    split
    · exact ⟨[], rfl⟩
    · exact ⟨[begun], by rw [List.reverse_reverse]; rfl⟩
  | cons c rest ih =>
    rw [List.flatMap_cons]
    -- a line feed ends the line, and no other character has its byte
    by_cases hc : c = '\n'
    · obtain ⟨lines, hlines⟩ := ih ""
      obtain ⟨kept, hkept⟩ := exists_dropReturn_encode begun
      have hfeed : String.utf8EncodeChar '\n' = [10] := by decide
      refine ⟨kept :: lines, ?_⟩
      rw [hc, hfeed, List.singleton_append, linesFrom, if_pos rfl, List.reverse_reverse, hkept]
      exact congrArg _ hlines
    · have hfree : 10 ∉ String.utf8EncodeChar c := fun h =>
        hc (Char.toNat_inj.mp (toNat_of_mem_utf8EncodeChar h (by decide)))
      have hbegun : (String.utf8EncodeChar c).reverse ++ (encode begun).reverse =
          (encode (begun.push c)).reverse := by
        simp [encode]
      rw [linesFrom_of_not_mem hfree, hbegun]
      exact ih _

/-- The lines of a text are texts. -/
theorem exists_byteLines_eq_map_encode {bytes : List UInt8} {text : String}
    (h : decode? bytes = some text) :
    ∃ lines : List String, byteLines bytes = lines.map encode := by
  rw [eq_encode_of_decode? h]
  exact exists_linesFrom_eq_map_encode "" text.toList

/-- Those lines of a stream of bytes that are texts. -/
def textLines (bytes : List UInt8) : List String := (byteLines bytes).filterMap decode?

theorem textLines_of_byteLines {bytes : List UInt8} {lines : List String}
    (h : byteLines bytes = lines.map encode) : textLines bytes = lines := by
  have hdecode : decode? ∘ encode = some := by
    funext line
    rw [Function.comp_apply, decode?_encode]
  rw [textLines, h, List.filterMap_map, hdecode, List.filterMap_some]

/-! ## Running lines in two parts -/

namespace BatchRun

/-- Puts what turns have done before the run of the lines after them. -/
def afterTurns (turns : List Turn) (rest : BatchRun) : BatchRun :=
  .after (Turn.messages turns).length (String.join (turns.map Turn.written))
    (turns.flatMap (·.evaluation.events)) rest

theorem afterTurns_nil (rest : BatchRun) : afterTurns [] rest = rest := by
  obtain ⟨result, output, bench, events⟩ := rest
  cases result <;> simp [afterTurns, after, Turn.messages, Except.map]

theorem afterTurns_cons (turn : Turn) (turns : List Turn) (rest : BatchRun) :
    afterTurns (turn :: turns) rest = .after turn.message?.toList.length turn.written
      turn.evaluation.events (afterTurns turns rest) := by
  have hresult : rest.result.map ((Turn.messages (turn :: turns)).length + ·) =
      (rest.result.map ((Turn.messages turns).length + ·)).map
        (turn.message?.toList.length + ·) := by
    rw [Turn.messages_cons, List.length_append]
    cases rest.result with
    | error error => rfl
    | ok failed => simp [Except.map, Nat.add_assoc]
  rw [afterTurns, afterTurns, after, hresult, List.map_cons, String.join_cons, List.flatMap_cons,
    String.append_assoc, List.append_assoc]
  rfl

end BatchRun

section

variable (bench : Workbench) {lines : List String}

/-- **Lines are run in two parts**: if no turn of the first lines asks to quit, the rest is run on
the workbench that they leave. -/
theorem runLines_append (h : ∀ turn ∈ bench.dialogue lines, turn.quits = false)
    (rest : List (List UInt8)) :
    bench.runLines (lines.map encode ++ rest) = .afterTurns (bench.dialogue lines)
      ((bench.evalAll ((bench.dialogue lines).map Turn.line)).runLines rest) := by
  induction lines generalizing bench with
  | nil => exact (BatchRun.afterTurns_nil _).symm
  | cons line lines ih =>
    rw [List.map_cons, List.cons_append]
    cases hblank : isBlankLine line with
    | true =>
      rw [dialogue_of_blank _ _ hblank] at h ⊢
      rw [runLines_of_blank _ hblank]
      exact ih bench h
    | false =>
      rw [runLines_of_not_blank _ hblank]
      cases hquits : (bench.turn line).quits with
      | true =>
        rw [dialogue_of_quits _ _ hblank hquits] at h
        rw [h _ List.mem_cons_self] at hquits
        cases hquits
      | false =>
        rw [dialogue_of_not_quits _ _ hblank hquits] at h ⊢
        rw [BatchRun.afterTurns_cons]
        exact congrArg _ (ih _ fun turn hturn => h turn (List.mem_cons_of_mem _ hturn))

/-- A line that is not text ends the run, and what was done before it stays done. -/
theorem runLines_of_not_text (h : ∀ turn ∈ bench.dialogue lines, turn.quits = false)
    {bytes : List UInt8} (hbytes : decode? bytes = none) (rest : List (List UInt8)) :
    bench.runLines (lines.map encode ++ bytes :: rest) =
      ⟨.error (.unreadable notText), String.join ((bench.dialogue lines).map Turn.written),
        bench.evalAll ((bench.dialogue lines).map Turn.line),
        (bench.dialogue lines).flatMap (·.evaluation.events)⟩ := by
  rw [bench.runLines_append h, runLines, hbytes]
  simp [BatchRun.afterTurns, BatchRun.after, Except.map]

/-- Text that is empty or ends in a line feed is a part of a batch: its turns come first, and the
rest is run on the workbench that they leave. -/
theorem exists_runBatch_append {first : List UInt8} {text : String}
    (htext : decode? first = some text) (hends : first = [] ∨ first.getLast? = some 10)
    (hquits : ∀ turn ∈ bench.dialogue (textLines first), turn.quits = false)
    (second : List UInt8) :
    ∃ turns, (bench.runBatch first).Reports bench turns ∧
      bench.runBatch (first ++ second) =
        .afterTurns turns ((bench.runBatch first).workbench.runBatch second) := by
  obtain ⟨lines, hlines⟩ := exists_byteLines_eq_map_encode htext
  rw [textLines_of_byteLines hlines] at hquits
  have hreports : (bench.runBatch first).Reports bench (bench.dialogue lines) := by
    rw [runBatch, hlines]
    exact bench.reports_runLines lines
  refine ⟨bench.dialogue lines, hreports, ?_⟩
  rw [runBatch, byteLines_append hends, hlines, bench.runLines_append hquits, hreports.workbench,
    runBatch]

end

/-- **A batch can be cut at the end of a line.**  Let the first part be text that is empty or ends
in a line feed, and let none of its lines, evaluated in turn, ask to quit.  Then the whole writes
what the first part writes and then what the second part writes on the workbench that the first has
left; it leaves the workbench that the second part leaves; and if the second part succeeds, the
numbers of failed lines are added, while the second part's error is the error of the whole.  A line
of the second part that is not text is such an error where it is reached, and the lines before it
have been evaluated and have written what they write. -/
theorem batch_cut_at_line_end (bench : Workbench) {first : List UInt8} {text : String}
    (htext : decode? first = some text) (hends : first = [] ∨ first.getLast? = some 10)
    (hquits : ∀ turn ∈ bench.dialogue (textLines first), turn.quits = false)
    (second : List UInt8) :
    let before := bench.runBatch first
    let after := before.workbench.runBatch second
    let whole := bench.runBatch (first ++ second)
    whole.output = before.output ++ after.output ∧
    whole.events = before.events ++ after.events ∧
    whole.workbench = after.workbench ∧
    (∃ failed, before.result = .ok failed ∧
      ∀ more, after.result = .ok more → whole.result = .ok (failed + more)) ∧
    (∀ error, after.result = .error error → whole.result = .error error) ∧
    ∀ lines bytes rest, byteLines second = lines.map encode ++ bytes :: rest →
      (∀ turn ∈ before.workbench.dialogue lines, turn.quits = false) → decode? bytes = none →
      whole.result = .error (.unreadable notText) ∧
      whole.output = before.output ++
        String.join ((before.workbench.dialogue lines).map Turn.written) ∧
      whole.workbench =
        before.workbench.evalAll ((before.workbench.dialogue lines).map Turn.line) := by
  intro before after whole
  obtain ⟨turns, hbefore, hwhole⟩ := bench.exists_runBatch_append htext hends hquits second
  change before.Reports bench turns at hbefore
  change whole = .afterTurns turns after at hwhole
  have hoverall : whole.result = after.result.map ((Turn.messages turns).length + ·) := by
    rw [hwhole]
    rfl
  have houtput : whole.output = before.output ++ after.output := by
    rw [hwhole, hbefore.output]
    rfl
  have hworkbench : whole.workbench = after.workbench := by
    rw [hwhole]
    rfl
  refine ⟨houtput, ?_, hworkbench, ⟨_, hbefore.result, fun more hmore => ?_⟩,
    fun error herror => ?_, fun lines bytes rest hsecond hlines hbytes => ?_⟩
  · rw [hwhole, hbefore.events]
    rfl
  · rw [hoverall, hmore]
    rfl
  · rw [hoverall, herror]
    rfl
  · have hafter := before.workbench.runLines_of_not_text hlines hbytes rest
    rw [← hsecond] at hafter
    change after = _ at hafter
    rw [hoverall, houtput, hworkbench, hafter]
    exact ⟨rfl, rfl, rfl⟩

/-- The first part has a line that fails and one that sets a grammar.  After it one more line fails,
or a line that is not text is reached after one that is. -/
theorem batch_cut_at_line_end_unreadable :
    let bench := new .standard .lenient
    let first := encode "look\n:g take ITEM\r\n"
    let unreadable := bench.runBatch (first ++ (encode ":t a\n" ++ [255, 10]))
    first.getLast? = some 10 ∧
    (∀ turn ∈ bench.dialogue (textLines first), turn.quits = false) ∧
    (bench.runBatch (first ++ encode ":t\n")).result = .ok 2 ∧
    unreadable.result = .error (.unreadable notText) ∧
    unreadable.output = "error: no grammar set; use :grammar <grammar> first\n" ++
      "grammar set: take ITEM\n[\"a\"]\n" := by
  intro bench first unreadable
  have hends : first.getLast? = some 10 := by decide
  have hquits : ∀ turn ∈ bench.dialogue (textLines first), turn.quits = false := by decide +kernel
  have hcut := batch_cut_at_line_end bench (decode?_encode _) (.inr hends) hquits
  obtain ⟨-, -, -, ⟨failed, hfirst, hsum⟩, -, -⟩ := hcut (encode ":t\n")
  have hone : (bench.runBatch first).result = .ok 1 := by decide +kernel
  have hmore : ((bench.runBatch first).workbench.runBatch (encode ":t\n")).result = .ok 1 := by
    decide +kernel
  obtain rfl : failed = 1 := Except.ok.inj (hfirst.symm.trans hone)
  obtain ⟨-, -, -, -, -, hbad⟩ := hcut (encode ":t a\n" ++ [255, 10])
  obtain ⟨hresult, houtput, -⟩ := hbad [":t a"] [255] [] (by decide) (by decide +kernel)
    (by decide +kernel)
  exact ⟨hends, hquits, hsum 1 hmore, hresult, houtput.trans (by decide +kernel)⟩

end Workbench
end CommandGrammar
