import CommandGrammar.Proofs.Grammar.FirstOffence
import CommandGrammar.Proofs.Workbench.Inputs

/-!
# Grammars over several lines

A session that is given a `:grammar` command reads on as long as there are open groups in it.  What
decides this is a count over the characters (`openGroups`), which knows nothing of words, bars and
quantifiers and drops a closing parenthesis without a partner.  The parser has a stack of drafts.
The two agree on every source in which the parser finds nothing wrong before the end: a lexeme
changes the height of the stack by what its characters add to the count
(`Reading.Advances.depth_eq`, `depthAfter_eq_foldl`), and the count never has to drop anything,
since the parser would have refused that parenthesis.

What a session has read of an entry of several lines is one text with spaces between the lines
(`Session.holding`), so that what is counted, and what is handed over in the end, is all of it.

Main statements:

* `parse_eq_unclosedGroups_iff`: the parser reports the groups that are counted;
* `Session.hearAll_lines`: the lines of an entry, as far as it has been entered;
* `openGroups_agrees_parse`: the count, the parser and the session.
-/

namespace CommandGrammar

namespace Grammar

/-! ## The height of the stack -/

/-- The number of open groups after a lexeme, given the number before it. -/
def Lexeme.depthAfter (depth : Nat) : Lexeme → Nat
  | .openGroup => depth + 1
  | .closeGroup => depth - 1
  | .word _ | .bar | .quantifier _ => depth

namespace Reading

theorem Advances.depth_eq {folding : Bool} {reading next : Reading} {lexeme : Lexeme}
    (h : Advances folding reading lexeme next) : next.depth = lexeme.depthAfter reading.depth := by
  cases h <;> rfl

theorem Reads.depth_eq {folding : Bool} {reading next : Reading} {lexemes : List Lexeme}
    (h : Reads folding reading lexemes next) :
    next.depth = lexemes.foldl Lexeme.depthAfter reading.depth := by
  induction h with
  | nil => rfl
  | cons hstep _ ih => rw [ih, List.foldl_cons, hstep.depth_eq]

/-! ## Where open groups are reported -/

/-- No lexeme is refused for groups that are open. -/
theorem read_ne_unclosedGroups (folding : Bool) (reading : Reading) (lexeme : Lexeme)
    (count : Nat) : reading.read folding lexeme ≠ .error (.unclosedGroups count) := by
  intro h
  obtain ⟨⟨branches, elements⟩, around⟩ := reading
  cases lexeme with
  | word text =>
    rw [read, classify] at h
    split at h <;> cases h
  | openGroup =>
    rw [read] at h
    split at h <;> cases h
  | closeGroup =>
    cases around with
    | nil => cases h
    | cons outside around => cases elements <;> cases branches <;> cases h
  | bar => cases elements <;> cases h
  | quantifier quantifier =>
    rw [read, Draft.quantify] at h
    split at h
    · cases h
    · split at h <;> cases h

/-- At the end of the source, open groups are reported if there are any. -/
theorem finish_eq_unclosedGroups_iff {reading : Reading} {count : Nat} :
    reading.finish = .error (.unclosedGroups count) ↔
      0 < reading.depth ∧ count = reading.depth := by
  obtain ⟨⟨branches, elements⟩, around⟩ := reading
  cases around with
  | nil => cases elements <;> cases branches <;> simp [finish, Draft.finish, depth]
  | cons outside around => simp [finish, depth, eq_comm]

end Reading

/-- A lexeme that is refused is before the end of the source. -/
theorem offset_lt_of_readAll {source : String} {error : SourceError}
    (h : Reading.start.readAll true (lexemes source) = .error error) :
    error.offset < source.length := by
  obtain ⟨earlier, offence, later, -, hcut, -, -, hoffset⟩ := Reading.readAll_eq_error_iff.mp h
  obtain ⟨before, after, hsource, -, hstands⟩ := exists_stands hcut
  rw [← hoffset, ← String.length_toList, hsource]
  exact hstands.offset_lt_length

/-- Open groups are reported at the end of the source. -/
theorem offset_of_unclosedGroups {source : String} {count offset : Nat}
    (h : parse source = .error ⟨.unclosedGroups count, offset⟩) : offset = source.length := by
  rcases parse_eq_error h with hread | ⟨-, -, -, hoffset⟩
  · obtain ⟨-, offence, -, next, -, -, hrefused, -⟩ := Reading.readAll_eq_error_iff.mp hread
    exact absurd hrefused (next.read_ne_unclosedGroups true offence.lexeme count)
  · exact hoffset

/-- Nothing is wrong with a source before its end. -/
def SoundSoFar (source : String) : Prop :=
  ∀ error, parse source = .error error → error.offset = source.length

theorem soundSoFar_of_error {source : String} {fault : SourceFault}
    (h : parse source = .error ⟨fault, source.length⟩) : SoundSoFar source := by
  intro error herror
  rw [h] at herror
  rw [← Except.error.inj herror]

theorem soundSoFar_of_ok {source : String} {tree : Grammar} (h : parse source = .ok tree) :
    SoundSoFar source := by
  intro error herror
  rw [h] at herror
  cases herror

/-- All lexemes of a source are read if nothing is wrong with it before its end. -/
theorem SoundSoFar.exists_readAll {source : String} (h : SoundSoFar source) :
    ∃ reading, Reading.start.readAll true (lexemes source) = .ok reading := by
  cases hread : Reading.start.readAll true (lexemes source) with
  | ok reading => exact ⟨reading, rfl⟩
  | error error =>
    have hparse : parse source = .error error := by
      rw [parse, parseWith, hread]
    exact absurd (h error hparse) (Nat.ne_of_lt (offset_lt_of_readAll hread))

theorem parse_eq_unclosedGroups_iff_of_readAll {source : String} {reading : Reading} {count : Nat}
    (h : Reading.start.readAll true (lexemes source) = .ok reading) :
    parse source = .error ⟨.unclosedGroups count, source.length⟩ ↔
      0 < reading.depth ∧ count = reading.depth := by
  rw [← Reading.finish_eq_unclosedGroups_iff, parse, parseWith, h]
  cases hfinish : reading.finish <;> simp [hfinish]

end Grammar

namespace Workbench

open Grammar

/-! ## The count -/

/-- A character that is no mark does not count. -/
theorem depthAfter_of_markOf_eq_none {c : Char} (h : markOf c = none) (depth : Nat)
    (rest : List Char) : depthAfter depth (c :: rest) = depthAfter depth rest := by
  rw [depthAfter]
  · rintro rfl
    cases h
  · rintro rfl
    cases h

/-- A mark is counted by its character. -/
theorem depthAfter_mark {c : Char} {mark : Lexeme} (h : markOf c = some mark) (depth : Nat)
    (rest : List Char) :
    depthAfter depth (c :: rest) = depthAfter (mark.depthAfter depth) rest := by
  unfold markOf at h
  split at h <;> cases h <;> rfl

/-- The characters of a word do not count. -/
theorem depthAfter_word {word : List Char} (h : ∀ c ∈ word, isWordChar c = true) (depth : Nat)
    (rest : List Char) : depthAfter depth (word ++ rest) = depthAfter depth rest := by
  induction word with
  | nil => rfl
  | cons c word ih =>
    obtain ⟨hc, hword⟩ := List.forall_mem_cons.mp h
    simp only [isWordChar, isDelimiter, Bool.not_eq_true', Bool.or_eq_false_iff,
      Option.isSome_eq_false_iff, Option.isNone_iff_eq_none] at hc
    rw [List.cons_append, depthAfter_of_markOf_eq_none hc.2, ih hword]

theorem markOf_of_isSeparator {c : Char} (h : Text.isSeparator c = true) : markOf c = none := by
  simp only [Text.isSeparator, Bool.or_eq_true, beq_iff_eq] at h
  rcases h with ((rfl | rfl) | rfl) | rfl <;> rfl

/-- The count over the characters is a count over the lexemes. -/
theorem depthAfter_eq_foldl (depth offset : Nat) (chars : List Char) :
    depthAfter depth chars =
      ((lexemesFrom offset chars).map Placed.lexeme).foldl Lexeme.depthAfter depth := by
  fun_induction lexemesFrom offset chars generalizing depth with
  | case1 => rfl
  | case2 offset c rest hseparator ih =>
    rw [depthAfter_of_markOf_eq_none (markOf_of_isSeparator hseparator), ih]
  | case3 offset c rest hseparator mark hmark ih =>
    rw [depthAfter_mark hmark, ih]
    rfl
  | case4 offset c rest hseparator hmark tail ih =>
    have hc := isWordChar_of_markOf hseparator hmark
    have htail : ∀ d ∈ tail, isWordChar d = true := List.all_eq_true.mp List.all_takeWhile
    rw [cons_eq_word_append, depthAfter_word (List.forall_mem_cons.mpr ⟨hc, htail⟩), ih]
    rfl

theorem dropStart_append (start rest : List Char) :
    dropStart start (start ++ rest) = some rest := by
  induction start with
  | nil => rfl
  | cons c start ih => rw [List.cons_append, dropStart, if_pos rfl, ih]

theorem trimLeft_grammar (source : String) : Text.trimLeft (":grammar " ++ source).toList =
    ":grammar".toList ++ ' ' :: source.toList := by
  rw [String.toList_append]
  exact List.dropWhile_cons_of_neg (by decide)

/-- In a grammar command the parentheses of its source are counted. -/
theorem openGroups_grammar (source : String) :
    openGroups (":grammar " ++ source) = depthAfter 0 source.toList := by
  rw [openGroups, trimLeft_grammar, dropStart_append]
  exact depthAfter_of_markOf_eq_none rfl 0 source.toList

/-- **The count is the height of the stack.** -/
theorem openGroups_of_readAll {source : String} {reading : Reading}
    (h : Reading.start.readAll true (lexemes source) = .ok reading) :
    openGroups (":grammar " ++ source) = reading.depth := by
  rw [openGroups_grammar, depthAfter_eq_foldl 0 0, (Reading.readAll_eq_ok_iff.mp h).depth_eq]
  rfl

/-- The parser reports the groups that are counted, if nothing else is wrong. -/
theorem parse_eq_unclosedGroups_iff {source : String} (h : SoundSoFar source) {count : Nat} :
    parse source = .error ⟨.unclosedGroups count, source.length⟩ ↔
      0 < openGroups (":grammar " ++ source) ∧ count = openGroups (":grammar " ++ source) := by
  obtain ⟨reading, hread⟩ := h.exists_readAll
  rw [openGroups_of_readAll hread, parse_eq_unclosedGroups_iff_of_readAll hread]

theorem openGroups_ne_zero {source : String} {count : Nat}
    (h : parse source = .error ⟨.unclosedGroups count, source.length⟩) :
    openGroups (":grammar " ++ source) ≠ 0 :=
  Nat.ne_of_gt ((parse_eq_unclosedGroups_iff (soundSoFar_of_error h)).mp h).1

/-- Nothing is counted if the parser does not report open groups, nor anything before the end. -/
theorem openGroups_eq_zero {source : String} (h : SoundSoFar source)
    (hclosed : ∀ count, parse source ≠ .error ⟨.unclosedGroups count, source.length⟩) :
    openGroups (":grammar " ++ source) = 0 := by
  by_contra hne
  exact hclosed _ ((parse_eq_unclosedGroups_iff h).mpr ⟨Nat.pos_of_ne_zero hne, rfl⟩)

/-! ## Entries of several lines -/

namespace Session

/-- A session that has heard the lines of an entry and reads on. -/
def holding (bench : Workbench) (lines : List String) : Session := ⟨bench, soFar lines, none⟩

/-- One more line of an entry whose earlier lines have left groups open: the session reads on as long
as there are open groups, and then hands over the whole. -/
theorem hearAll_lines (bench : Workbench) (prompts : Prompts) {lines : List String}
    (h : ∀ part, part ≠ [] → part <+: lines → openGroups (entry part) ≠ 0) (line : String) :
    ((goOn bench).hearAll prompts ((lines ++ [line]).map .line)).1 =
      if openGroups (entry (lines ++ [line])) = 0 then (submit bench (entry (lines ++ [line]))).1
      else holding bench (lines ++ [line]) := by
  rw [hearAll_eq rfl, List.map_append, List.map_singleton, goOn, readInput_append prompts h,
    readInput_singleton]
  -- all lines are read as one input, and no answers are left
  show (hearAll prompts ((goOn bench).proceed (takeIn (soFar lines) (.line line))).1 []).1 = _
  rw [hearAll, takeIn_line]
  split
  · rw [proceed_input]
    rfl
  · rfl

end Session

/-- **The count of open groups agrees with the parser.**  If the parser reports open groups in a
source, as many are counted in the grammar command with it, and at least one.  If it reads the
source, or finds at its very end that the source is empty or ends in an empty alternative, none is
counted.  So, as long as nothing else is wrong, an entry of several lines for which the parser has
reported open groups so far goes on after the next line if the parser reports them again, and is
handed over otherwise. -/
theorem openGroups_agrees_parse (source : String) :
    (∀ count offset, parse source = .error ⟨.unclosedGroups count, offset⟩ →
      openGroups (":grammar " ++ source) = count ∧ 1 ≤ count) ∧
    (∀ tree, parse source = .ok tree → openGroups (":grammar " ++ source) = 0) ∧
    (∀ fault, parse source = .error ⟨fault, source.length⟩ →
      fault = .emptyGroup ∨ fault = .emptyAlternative → openGroups (":grammar " ++ source) = 0) ∧
    ∀ (bench : Workbench) (prompts : Prompts) (earlier : List String) (line : String),
      (∀ begun, begun ≠ [] → begun <+: earlier → ∃ before count,
        entry begun = ":grammar " ++ before ∧
        parse before = .error ⟨.unclosedGroups count, before.length⟩) →
      entry (earlier ++ [line]) = ":grammar " ++ source → SoundSoFar source →
      let session := ((Session.goOn bench).hearAll prompts ((earlier ++ [line]).map .line)).1
      ((∃ count, parse source = .error ⟨.unclosedGroups count, source.length⟩) →
        session = Session.holding bench (earlier ++ [line])) ∧
      ((∀ count, parse source ≠ .error ⟨.unclosedGroups count, source.length⟩) →
        session = (Session.submit bench (":grammar " ++ source)).1) := by
  refine ⟨fun count offset h => ?_, fun tree h => ?_, fun fault h hempty => ?_,
    fun bench prompts earlier line hearlier hentry hsound => ?_⟩
  · obtain rfl := offset_of_unclosedGroups h
    obtain ⟨hpos, rfl⟩ := (parse_eq_unclosedGroups_iff (soundSoFar_of_error h)).mp h
    exact ⟨rfl, hpos⟩
  · refine openGroups_eq_zero (soundSoFar_of_ok h) fun count hunclosed => ?_
    rw [h] at hunclosed
    cases hunclosed
  · refine openGroups_eq_zero (soundSoFar_of_error h) fun count hunclosed => ?_
    rw [h] at hunclosed
    rcases hempty with rfl | rfl <;> cases hunclosed
  · -- groups are open after all earlier lines, so it depends on the last one what is held
    have hopen : ∀ begun, begun ≠ [] → begun <+: earlier → openGroups (entry begun) ≠ 0 := by
      intro begun hne hbegun
      obtain ⟨before, count, hbefore, hunclosed⟩ := hearlier begun hne hbegun
      rw [hbefore]
      exact openGroups_ne_zero hunclosed
    have hnext := Session.hearAll_lines bench prompts hopen line
    rw [hentry] at hnext
    refine ⟨fun ⟨count, hunclosed⟩ => ?_, fun hclosed => ?_⟩
    · rw [hnext, if_neg (openGroups_ne_zero hunclosed)]
    · rw [hnext, if_pos (openGroups_eq_zero hsound hclosed)]

/-- A command in two lines, the first of which leaves a group open; and two sources in which no
group is open, although they cannot be read. -/
theorem openGroups_agrees_parse_give :
    parse "give (ITEM" = .error ⟨.unclosedGroups 1, 10⟩ ∧
    openGroups (":grammar " ++ "give (ITEM") = 1 ∧
    (∃ tree, parse "give (ITEM to)" = .ok tree) ∧
    openGroups (":grammar " ++ "give (ITEM to)") = 0 ∧
    parse "" = .error ⟨.emptyGroup, 0⟩ ∧ openGroups (":grammar " ++ "") = 0 ∧
    parse "give|" = .error ⟨.emptyAlternative, 5⟩ ∧ openGroups (":grammar " ++ "give|") = 0 ∧
    ((Session.goOn (new .standard .lenient)).hearAll standardPrompts
      [.line ":grammar give (ITEM", .line "to)"]).1 =
        (Session.submit (new .standard .lenient) (":grammar " ++ "give (ITEM to)")).1 := by
  have hopen : parse "give (ITEM" = .error ⟨.unclosedGroups 1, 10⟩ := by decide +kernel
  have hclosed : parse "give (ITEM to)" = .ok (.sequence [Grammar.keyword "give",
      .sequence [Grammar.capture ["ITEM"], Grammar.keyword "to"]]) := by
    decide +kernel
  have hnothing : parse "" = .error ⟨.emptyGroup, 0⟩ := by decide +kernel
  have hbar : parse "give|" = .error ⟨.emptyAlternative, 5⟩ := by decide +kernel
  have hbegun : ∀ begun, begun ≠ [] → begun <+: [":grammar give (ITEM"] → ∃ before count,
      entry begun = ":grammar " ++ before ∧
      parse before = .error ⟨.unclosedGroups count, before.length⟩ := by
    intro begun hne hbegun
    rcases (@List.prefix_concat_iff _ _ [] _).mp hbegun with rfl | hnil
    · exact ⟨"give (ITEM", 1, by decide +kernel, hopen⟩
    · exact absurd (List.prefix_nil.mp hnil) hne
  refine ⟨hopen, ((openGroups_agrees_parse _).1 1 10 hopen).1, ⟨_, hclosed⟩,
    (openGroups_agrees_parse _).2.1 _ hclosed, hnothing,
    (openGroups_agrees_parse _).2.2.1 _ hnothing (.inl rfl), hbar,
    (openGroups_agrees_parse _).2.2.1 _ hbar (.inr rfl), ?_⟩
  refine ((openGroups_agrees_parse "give (ITEM to)").2.2.2 (new .standard .lenient) standardPrompts
    [":grammar give (ITEM"] "to)" hbegun (by decide +kernel) (soundSoFar_of_ok hclosed)).2 ?_
  intro count hunclosed
  rw [hclosed] at hunclosed
  cases hunclosed

end Workbench
end CommandGrammar
