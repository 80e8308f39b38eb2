import CommandGrammar.Proofs.Workbench.ActiveGrammar
import CommandGrammar.Proofs.Workbench.Continuation
import Mathlib.Data.List.DropRight

/-!
# Lines that are continued

Two things look at the beginning of a line.  A session asks whether the line leaves groups open, and
reads on if it does; for this it is enough that the line, without the blanks before it, begins with
`:grammar`.  An evaluation cuts off the name of the command, which ends at the first blank.  So a
line that is continued is a command whose name begins with `grammar` (`ofLine_of_trimLeft`), but the
name may go on: `:grammars (` and `:grammar(a` are continued as well, although they are not the
grammar command and will be refused.

Main statements:

* `ofLine_of_trimLeft`: how a line that begins with `:grammar` is understood;
* `continued_lines_are_grammar_commands`: apart from longer names, only the grammar command is
  continued.
-/

namespace CommandGrammar

/-! ## Trimming -/

namespace Text

/-- A character that is not a blank, and what is before it, is kept at the back. -/
theorem trimRight_append_cons {c : Char} (h : isBlank c = false) (front rest : List Char) :
    trimRight (front ++ c :: rest) = front ++ c :: trimRight rest := by
  have hc : (c :: front.reverse).dropWhile isBlank = c :: front.reverse :=
    List.dropWhile_cons_of_neg (by simp [h])
  have hreverse : (front ++ c :: rest).reverse = rest.reverse ++ c :: front.reverse := by simp
  rw [trimRight, trimRight, hreverse, List.dropWhile_append]
  split
  · next hnil =>
    rw [hc, List.isEmpty_iff.mp hnil]
    simp
  · simp

theorem trimRight_append {front : List Char} (h : ∀ c ∈ front, isBlank c = false)
    (rest : List Char) : trimRight (front ++ rest) = front ++ trimRight rest := by
  cases front using List.reverseRecOn with
  | nil => rfl
  | append_singleton front c =>
    have hc : isBlank c = false := h c (by simp)
    rw [List.append_assoc, List.singleton_append, trimRight_append_cons hc, List.append_assoc,
      List.singleton_append]

theorem trimRight_isPrefix (cs : List Char) : trimRight cs <+: cs :=
  List.rdropWhile_prefix isBlank cs

/-- What is cut off at the front does not depend on what comes behind a character that is not a
blank. -/
theorem trimLeft_append {first : List Char} (h : trimLeft first ≠ []) (rest : List Char) :
    trimLeft (first ++ rest) = trimLeft first ++ rest := by
  rw [trimLeft, List.dropWhile_append, if_neg (by simpa [trimLeft] using h), trimLeft]

/-- A text that is not blank is kept from its first character that is not a blank on. -/
theorem trimLeft_eq_nil_or_cons (cs : List Char) :
    trimLeft cs = [] ∨ ∃ c rest, trimLeft cs = c :: rest ∧ isBlank c = false := by
  have hhead := List.head?_dropWhile_not isBlank cs
  cases hcs : trimLeft cs with
  | nil => exact .inl rfl
  | cons c rest =>
    rw [trimLeft] at hcs
    rw [hcs] at hhead
    exact .inr ⟨c, rest, rfl, hhead⟩

theorem trimRight_eq_nil_iff {cs : List Char} : trimRight cs = [] ↔ trimLeft cs = [] := by
  simp [trimRight, trimLeft]

/-- It does not matter which end is trimmed first. -/
theorem trim_trimRight (cs : List Char) : trim (trimRight cs) = trim cs := by
  rcases trimLeft_eq_nil_or_cons cs with hnil | ⟨c, rest, hcons, hc⟩
  · rw [trimRight_eq_nil_iff.mpr hnil, trim, trim, hnil]
    rfl
  · have hblanks : ∀ d ∈ cs.takeWhile isBlank, isBlank d = true :=
      List.all_eq_true.mp List.all_takeWhile
    have hsplit : cs = cs.takeWhile isBlank ++ c :: rest := by
      rw [← hcons, trimLeft, List.takeWhile_append_dropWhile]
    have hright : trimRight cs = cs.takeWhile isBlank ++ c :: trimRight rest := by
      rw [← trimRight_append_cons hc, ← hsplit]
    have hleft : trimLeft (trimRight cs) = c :: trimRight rest := by
      rw [hright, trimLeft, List.dropWhile_append_of_pos hblanks,
        List.dropWhile_cons_of_neg (by simp [hc])]
    have hagain : trimRight (trimRight rest) = trimRight rest :=
      List.rdropWhile_idempotent isBlank rest
    have hkept : ∀ other, trimRight (c :: other) = c :: trimRight other :=
      trimRight_append_cons hc []
    rw [trim, trim, hleft, hcons, hkept, hkept, hagain]

/-- Trimming keeps every character that is not a blank. -/
theorem mem_trim {c : Char} (hc : isBlank c = false) {cs : List Char} (h : c ∈ cs) :
    c ∈ trim cs := by
  have hkept : ∀ l : List Char, c ∈ l → c ∈ l.dropWhile isBlank := by
    intro l hl
    rw [← List.takeWhile_append_dropWhile (p := isBlank) (l := l)] at hl
    rcases List.mem_append.mp hl with hl | hl
    · have hblank : isBlank c = true := List.all_eq_true.mp List.all_takeWhile c hl
      rw [hc] at hblank
      cases hblank
    · exact hl
  exact List.mem_reverse.mpr (hkept _ (List.mem_reverse.mpr (hkept cs h)))

end Text

namespace Workbench

open Text

/-! ## Lines that begin with `:grammar` -/

theorem dropStart_eq_some_iff {start chars rest : List Char} :
    dropStart start chars = some rest ↔ chars = start ++ rest := by
  refine ⟨fun h => ?_, fun h => h ▸ dropStart_append start rest⟩
  fun_induction dropStart start chars with
  | case1 chars => exact Option.some.inj h
  | case2 => cases h
  | case3 start c chars ih => rw [ih h, List.cons_append]
  | case4 => cases h

theorem depthAfter_le {chars : List Char} (h : '(' ∉ chars) (depth : Nat) :
    depthAfter depth chars ≤ depth := by
  fun_induction depthAfter depth chars with
  | case1 depth => exact Nat.le_refl depth
  | case2 depth rest ih => exact absurd List.mem_cons_self h
  | case3 depth rest ih =>
    exact (ih fun hmem => h (List.mem_cons_of_mem _ hmem)).trans (Nat.sub_le depth 1)
  | case4 depth c rest _ _ ih => exact ih fun hmem => h (List.mem_cons_of_mem _ hmem)

/-- A parenthesis is open only where one was opened. -/
theorem mem_of_depthAfter_pos {chars : List Char} (h : 0 < depthAfter 0 chars) : '(' ∈ chars := by
  by_contra hnone
  exact Nat.not_lt.mpr (depthAfter_le hnone 0) h

/-- Groups are left open by what comes after `:grammar`. -/
theorem exists_body_of_openGroups_pos {line : String} (h : 0 < openGroups line) :
    ∃ body, trimLeft line.toList = ":grammar".toList ++ body ∧ 0 < depthAfter 0 body := by
  rw [openGroups] at h
  split at h
  · next body hbody => exact ⟨body, dropStart_eq_some_iff.mp hbody, h⟩
  · cases h

/-- What comes after the name of a command is empty or begins with a blank, also when it is trimmed. -/
theorem takeWhile_isInk_trimRight_dropWhile (body : List Char) :
    (trimRight (body.dropWhile isInk)).takeWhile isInk = [] := by
  obtain ⟨cut, hcut⟩ := trimRight_isPrefix (body.dropWhile isInk)
  have hhead := List.head?_dropWhile_not isInk body
  cases hkept : trimRight (body.dropWhile isInk) with
  | nil => rfl
  | cons blank rest =>
    rw [← hcut, hkept] at hhead
    have hblank : isInk blank = false := hhead
    exact List.takeWhile_cons_of_neg (by simp [hblank])

/-- **A line that begins with `:grammar` is a command** whose name goes on up to the first blank. -/
theorem ofLine_of_trimLeft {line : String} {body : List Char}
    (h : trimLeft line.toList = ":grammar".toList ++ body) :
    Input.ofLine line = .command ("grammar" ++ String.ofList (body.takeWhile isInk))
      (String.ofList (trim (body.dropWhile isInk))) := by
  have hgrammar : ∀ c ∈ "grammar".toList, isInk c = true := List.all_eq_true.mp (by decide)
  have hword : ∀ c ∈ body.takeWhile isInk, isInk c = true :=
    List.all_eq_true.mp List.all_takeWhile
  have hink : ∀ c, isInk c = true → isBlank c = false := fun c hc => by simpa [isInk] using hc
  have htrim : trim line.toList = ':' :: ("grammar".toList ++
      (body.takeWhile isInk ++ trimRight (body.dropWhile isInk))) := by
    have hcolon : ∀ c ∈ ":grammar".toList, isInk c = true := List.all_eq_true.mp (by decide)
    rw [trim, h, trimRight_append fun c hc => hink c (hcolon c hc),
      ← trimRight_append fun c hc => hink c (hword c hc), List.takeWhile_append_dropWhile]
    rfl
  have hstop := takeWhile_isInk_trimRight_dropWhile body
  have hrest : (trimRight (body.dropWhile isInk)).dropWhile isInk =
      trimRight (body.dropWhile isInk) := by
    have hsplit := List.takeWhile_append_dropWhile (p := isInk)
      (l := trimRight (body.dropWhile isInk))
    rw [hstop, List.nil_append] at hsplit
    exact hsplit
  unfold Input.ofLine
  rw [htrim]
  simp only [List.takeWhile_append_of_pos hgrammar, List.takeWhile_append_of_pos hword, hstop,
    List.dropWhile_append_of_pos hgrammar, List.dropWhile_append_of_pos hword, hrest,
    List.append_nil, trim_trimRight, String.ofList_append, String.ofList_toList]

/-! ## What becomes of such a line -/

/-- A command is done as its name says, and entering it is reported first. -/
theorem eval_of_command {line name argument : String}
    (h : Input.ofLine line = .command name argument) (bench : Workbench) :
    bench.eval line = { bench.perform (.ofName name argument) with
      events := .commandEntered name :: (bench.perform (.ofName name argument)).events } := by
  rw [eval, h]

/-- A name that goes on after `grammar` is not the name of a command. -/
theorem ofName_of_longer {more : String} (h : more ≠ "") (argument : String) :
    Command.ofName ("grammar" ++ more) argument = .unknown ("grammar" ++ more) := by
  generalize hname : "grammar" ++ more = name
  have hchars : "grammar".toList ++ more.toList = name.toList := by
    rw [← hname, String.toList_append]
  unfold Command.ofName
  split
  · exact absurd (String.toList_eq_nil_iff.mp (List.append_right_eq_self.mp hchars)) h
  all_goals simp at hchars
  rfl

/-- The line is the grammar command, under its full name. -/
def IsGrammarCommand (line : String) : Prop :=
  ∃ argument, Input.ofLine line = .command "grammar" argument

/-- The line is a command with a name that begins with `grammar` and goes on. -/
def HasLongerName (line : String) : Prop :=
  ∃ more argument, more ≠ "" ∧ Input.ofLine line = .command ("grammar" ++ more) argument

/-- A line that is continued is the grammar command, and sets a grammar, or has a longer name. -/
theorem grammar_or_longer_of_openGroups_pos {line : String} (h : 0 < openGroups line) :
    (∃ source, Input.ofLine line = .command "grammar" source ∧
      Command.ofName "grammar" source = .setGrammar source) ∨ HasLongerName line := by
  obtain ⟨body, hbody, hpos⟩ := exists_body_of_openGroups_pos h
  have hline := ofLine_of_trimLeft hbody
  by_cases hmore : body.takeWhile isInk = []
  · have hdrop : body.dropWhile isInk = body := by
      have hsplit := List.takeWhile_append_dropWhile (p := isInk) (l := body)
      rw [hmore, List.nil_append] at hsplit
      exact hsplit
    have hopen : '(' ∈ trim body := mem_trim (by decide) (mem_of_depthAfter_pos hpos)
    have hsource : String.ofList (trim body) ≠ "" := fun hempty => by
      rw [String.ofList_eq_empty_iff.mp hempty] at hopen
      cases hopen
    rw [hmore, hdrop] at hline
    exact .inl ⟨_, hline, ofName_eq_setGrammar_iff.mpr ⟨.inl rfl, hsource, rfl⟩⟩
  · exact .inr ⟨_, _, fun hempty => hmore (String.ofList_eq_empty_iff.mp hempty), hline⟩

/-- **Apart from longer names, only the grammar command is continued.**  Let the line not be a
command whose name begins with `grammar` and goes on.  If it leaves groups open, it is evaluated as
the command that sets a grammar; and if it is not the grammar command, it leaves no group open, and
a session hands it over at once.  A line with such a longer name may be continued, but an evaluation
refuses it and leaves the workbench as it is. -/
theorem continued_lines_are_grammar_commands (line : String) :
    (¬ HasLongerName line →
      (0 < openGroups line → ∃ source, Input.ofLine line = .command "grammar" source ∧
        ∀ bench : Workbench, bench.eval line = { bench.perform (.setGrammar source) with
          events := .commandEntered "grammar" :: (bench.perform (.setGrammar source)).events }) ∧
      (¬ IsGrammarCommand line → openGroups line = 0 ∧ ∀ bench : Workbench,
        (Session.goOn bench).respond (.line line) = Session.submit bench line)) ∧
    (HasLongerName line → ∀ bench : Workbench, (bench.eval line).workbench = bench ∧
      ∃ name, (bench.eval line).result = .error (.unknownCommand name)) := by
  refine ⟨fun hname => ⟨fun hpos => ?_, fun hcommand => ?_⟩, ?_⟩
  · obtain ⟨source, hline, hsets⟩ :=
      (grammar_or_longer_of_openGroups_pos hpos).resolve_right hname
    refine ⟨source, hline, fun bench => ?_⟩
    rw [eval_of_command hline, hsets]
  · have hclosed : openGroups line = 0 := by
      by_contra hne
      obtain ⟨source, hline, -⟩ :=
        (grammar_or_longer_of_openGroups_pos (Nat.pos_of_ne_zero hne)).resolve_right hname
      exact hcommand ⟨source, hline⟩
    exact ⟨hclosed, Session.respond_line hclosed⟩
  · rintro ⟨more, argument, hmore, hline⟩ bench
    rw [eval_of_command hline, ofName_of_longer hmore]
    exact ⟨rfl, _, rfl⟩

/-- A grammar command that leaves a group open, and a command of another name that has an open
parenthesis in it. -/
theorem continued_lines_are_grammar_commands_give :
    openGroups " :grammar give (ITEM" = 1 ∧ ¬ HasLongerName " :grammar give (ITEM" ∧
    (∃ source, Input.ofLine " :grammar give (ITEM" = .command "grammar" source) ∧
    ¬ HasLongerName ":match (" ∧ ¬ IsGrammarCommand ":match (" ∧ openGroups ":match (" = 0 := by
  have hgive : Input.ofLine " :grammar give (ITEM" = .command "grammar" "give (ITEM" := by
    decide +kernel
  have hmatch : Input.ofLine ":match (" = .command "match" "(" := by decide +kernel
  have hopen : openGroups " :grammar give (ITEM" = 1 := by decide +kernel
  have hgiveName : ¬ HasLongerName " :grammar give (ITEM" := by
    rintro ⟨more, argument, hmore, hline⟩
    rw [hgive] at hline
    have hchars := congrArg String.toList (Input.command.inj hline).1
    rw [String.toList_append, List.self_eq_append_right, String.toList_eq_nil_iff] at hchars
    exact hmore hchars
  have hmatchName : ¬ HasLongerName ":match (" := by
    rintro ⟨more, argument, -, hline⟩
    rw [hmatch] at hline
    have hchars := congrArg String.toList (Input.command.inj hline).1
    simp at hchars
  have hmatchCommand : ¬ IsGrammarCommand ":match (" := by
    rintro ⟨argument, hline⟩
    rw [hmatch] at hline
    exact absurd (Input.command.inj hline).1 (by decide)
  obtain ⟨source, hline, -⟩ :=
    ((continued_lines_are_grammar_commands _).1 hgiveName).1 (hopen ▸ Nat.one_pos)
  exact ⟨hopen, hgiveName, ⟨source, hline⟩, hmatchName, hmatchCommand,
    (((continued_lines_are_grammar_commands _).1 hmatchName).2 hmatchCommand).1⟩

/-- A line is continued although it is not the grammar command: its name only begins in the same
way. -/
theorem longer_name_is_continued :
    openGroups ":grammars (" = 1 ∧ Input.ofLine ":grammars (" = .command "grammars" "(" ∧
    ((Session.goOn (new .standard .lenient)).respond (.line ":grammars (")).1.unfinished =
      some ":grammars (" ∧
    ¬ ∀ line, 0 < openGroups line → IsGrammarCommand line := by
  have hopen : openGroups ":grammars (" = 1 := by decide +kernel
  have hline : Input.ofLine ":grammars (" = .command "grammars" "(" := by decide +kernel
  refine ⟨hopen, hline, by decide +kernel, fun h => ?_⟩
  obtain ⟨argument, hgrammar⟩ := h ":grammars (" (hopen ▸ Nat.one_pos)
  rw [hline] at hgrammar
  exact absurd (Input.command.inj hgrammar).1 (by decide)

end Workbench
end CommandGrammar
