import CommandGrammar.Proofs.Grammar.Cutting

/-!
# Source errors are at the first offence

A source that cannot be read is refused at the first lexeme that goes wrong, or at its end.  Two
things make that place the right one.  What comes before it is the beginning of a source that can be
read: whatever groups are open, an element and as many closing parentheses complete it
(`exists_parse_completion`).  And with the offending lexeme it is not: whatever follows the lexeme,
the error is the same (`parse_eq_error_of_stands`).

At the end of a source nothing is wrong that more text could not mend, and the faults found there
say so: groups are open, or a group or an alternative is empty (`finish_eq_error`).
-/

namespace CommandGrammar
namespace Grammar

/-! ## Reading up to the first fault -/

namespace Reading

variable {folding : Bool}

theorem readAll_append {reading next : Reading} {earlier : List Placed}
    (h : reading.readAll folding earlier = .ok next) (later : List Placed) :
    reading.readAll folding (earlier ++ later) = next.readAll folding later := by
  induction earlier generalizing reading with
  | nil =>
    cases h
    rfl
  | cons first rest ih =>
    rw [readAll] at h
    split at h
    · next between hread =>
      rw [List.cons_append, readAll, hread]
      exact ih h
    · cases h

/-- Reading goes wrong at the first lexeme that is refused, and all lexemes before it are read. -/
theorem readAll_eq_error_iff {reading : Reading} {placed : List Placed} {error : SourceError} :
    reading.readAll folding placed = .error error ↔ ∃ earlier offence later next,
      placed = earlier ++ offence :: later ∧ reading.readAll folding earlier = .ok next ∧
      next.read folding offence.lexeme = .error error.fault ∧ offence.offset = error.offset := by
  constructor
  · intro h
    induction placed generalizing reading with
    | nil => cases h
    | cons first rest ih =>
      rw [readAll] at h
      split at h
      · next between hread =>
        obtain ⟨earlier, offence, later, next, rfl, hearlier, hfault⟩ := ih h
        refine ⟨first :: earlier, offence, later, next, rfl, ?_, hfault⟩
        rw [readAll, hread]
        exact hearlier
      · next fault hread =>
        cases h
        exact ⟨[], first, rest, reading, rfl, rfl, hread, rfl⟩
  · rintro ⟨earlier, offence, later, next, rfl, hearlier, hread, hoffset⟩
    rw [readAll_append hearlier, readAll, hread, hoffset]

/-- What can be missing at the end of a source. -/
theorem finish_eq_error {reading : Reading} {fault : SourceFault}
    (h : reading.finish = .error fault) :
    fault = .unclosedGroups reading.depth ∨ fault = .emptyGroup ∨ fault = .emptyAlternative := by
  obtain ⟨⟨branches, elements⟩, around⟩ := reading
  cases around with
  | cons outside around =>
    cases h
    exact .inl rfl
  | nil =>
    cases elements with
    | nil =>
      cases branches with
      | nil =>
        cases h
        exact .inr (.inl rfl)
      | cons branch rest =>
        cases h
        exact .inr (.inr rfl)
    | cons last before => cases branches <;> cases h

/-! ## What has been read can be completed -/

/-- All open groups can be closed once there is an element in the current branch of the innermost
one: a group that is closed is an element of the one around it. -/
theorem exists_reads_closing {draft : Draft} (h : draft.elements ≠ []) (around : List Draft) :
    ∃ last : Draft, last.elements ≠ [] ∧
      Reads folding ⟨draft, around⟩ (List.replicate around.length .closeGroup) ⟨last, []⟩ := by
  induction around generalizing draft with
  | nil => exact ⟨draft, h, .nil⟩
  | cons outside around ih =>
    have hpushed : (outside.push (gathered folding draft.content)).elements ≠ [] :=
      List.cons_ne_nil _ _
    obtain ⟨last, hlast, hreads⟩ := ih hpushed
    refine ⟨last, hlast, ?_⟩
    rw [List.length_cons, List.replicate_succ]
    exact .cons (.closeGroup h) hreads

/-- A keyword is an element wherever it stands, and the open groups can be closed after it. -/
theorem exists_reads_completion (reading : Reading) :
    ∃ last : Draft, last.elements ≠ [] ∧ Reads folding reading
      (.word "a" :: List.replicate reading.depth .closeGroup) ⟨last, []⟩ := by
  have hleaf : classify "a" = .ok (keyword "a") := by decide +kernel
  obtain ⟨draft, around⟩ := reading
  obtain ⟨last, hlast, hreads⟩ := @exists_reads_closing folding (draft.push (keyword "a"))
    (List.cons_ne_nil _ _) around
  exact ⟨last, hlast, .cons (.word hleaf) hreads⟩

end Reading

theorem kinds_closing (groups : Nat) :
    kinds (List.replicate groups ')') = List.replicate groups .closeGroup := by
  induction groups with
  | zero => exact kinds_nil
  | succ groups ih =>
    rw [List.replicate_succ, @kinds_mark _ .closeGroup rfl rfl, ih, List.replicate_succ]

theorem ended_closing (groups : Nat) : Ended (List.replicate groups ')') := by
  cases groups with
  | zero => exact ended_nil
  | succ groups => exact ended_cons rfl _

/-- A keyword and closing parentheses after it are cut one by one. -/
theorem kinds_completion (groups : Nat) :
    kinds (' ' :: 'a' :: List.replicate groups ')') =
      .word "a" :: List.replicate groups .closeGroup := by
  have hplain : ∀ c ∈ "a".toList, isDelimiter c = false := by
    intro c hc
    rw [List.mem_singleton.mp hc]
    rfl
  have hword := @kinds_word "a" (List.cons_ne_nil 'a' []) hplain _ (ended_closing groups)
  rw [kinds_closing] at hword
  rw [kinds_separator rfl]
  exact hword

/-- **What has been read is the beginning of a source**: an element and a closing parenthesis for
every open group complete it. -/
theorem exists_parse_completion {before : List Char} {reading : Reading}
    (h : Reading.start.readAll true (lexemesFrom 0 before) = .ok reading) :
    ∃ tree, parse (String.ofList before ++ " a" ++
      String.ofList (List.replicate reading.depth ')')) = .ok tree := by
  have hcut : (lexemes (String.ofList before ++ " a" ++
      String.ofList (List.replicate reading.depth ')'))).map Placed.lexeme =
        kinds before ++ .word "a" :: List.replicate reading.depth .closeGroup := by
    have hapart : Apart before (' ' :: 'a' :: List.replicate reading.depth ')') :=
      .inr (ended_cons rfl _)
    rw [← kinds_completion, ← kinds_append hapart, kinds, lexemes]
    simp
  obtain ⟨last, hlast, hreads⟩ := @Reading.exists_reads_completion true reading
  refine ⟨_, parseWith_eq_ok_iff.mpr ⟨last, ?_, hlast, rfl⟩⟩
  rw [hcut]
  exact (Reading.readAll_eq_ok_iff.mp h).trans hreads

/-! ## What is wrong stays wrong -/

/-- A source is refused by one of its lexemes or at its end. -/
theorem parse_eq_error {source : String} {error : SourceError} (h : parse source = .error error) :
    Reading.start.readAll true (lexemes source) = .error error ∨
    ∃ reading, Reading.start.readAll true (lexemes source) = .ok reading ∧
      reading.finish = .error error.fault ∧ error.offset = source.length := by
  rw [parse, parseWith] at h
  split at h
  · next other hread =>
    cases h
    exact .inl hread
  · next reading hread =>
    split at h
    · cases h
    · next fault hfinish =>
      cases h
      exact .inr ⟨reading, hread, hfinish, rfl⟩

/-- **The first offence decides**: a lexeme that is refused where it stands is refused there
whatever follows it. -/
theorem parse_eq_error_of_stands {before after : List Char} {placed : Placed} {reading : Reading}
    {fault : SourceFault} (hstands : Stands 0 before placed after)
    (hbefore : Reading.start.readAll true (lexemesFrom 0 before) = .ok reading)
    (hread : reading.read true placed.lexeme = .error fault) {more : List Char}
    (hmore : ∀ text, placed.lexeme = .word text → Ended more) :
    parse (String.ofList (before ++ (placed.lexeme.characters ++ more))) =
      .error ⟨fault, placed.offset⟩ := by
  have herror : Reading.start.readAll true
      (lexemesFrom 0 (before ++ (placed.lexeme.characters ++ more))) =
        .error ⟨fault, placed.offset⟩ :=
    Reading.readAll_eq_error_iff.mpr
      ⟨_, placed, _, reading, hstands.lexemesFrom_eq hmore, hbefore, hread, rfl⟩
  rw [parse, parseWith, lexemes, String.toList_ofList, herror]

/-- **A source error is at the first offence.**  It is not past the end of the source, and what
comes before it can be completed to a source that is read.  If it is not at the end, a lexeme begins
at it, and every source that agrees with this one up to the end of that lexeme is refused with the
same error; at the end of the source only what is missing is reported. -/
theorem parse_error_at_first_offence {source : String} {error : SourceError}
    (h : parse source = .error error) :
    error.offset ≤ source.length ∧
    (∃ groups tree, parse (String.ofList (source.toList.take error.offset) ++ " a" ++
      String.ofList (List.replicate groups ')')) = .ok tree) ∧
    (error.offset < source.length → ∃ lexeme after, ⟨lexeme, error.offset⟩ ∈ lexemes source ∧
      source.toList = source.toList.take error.offset ++ (lexeme.characters ++ after) ∧
      ∀ more, (∀ text, lexeme = .word text → Ended more) →
        parse (String.ofList (source.toList.take error.offset ++ (lexeme.characters ++ more))) =
          .error error) ∧
    (error.offset = source.length → (∃ count, error.fault = .unclosedGroups count) ∨
      error.fault = .emptyGroup ∨ error.fault = .emptyAlternative) := by
  rcases parse_eq_error h with hread | ⟨reading, hread, hfinish, hoffset⟩
  · obtain ⟨earlier, ⟨lexeme, offset⟩, later, reading, hcut, hearlier, hfault, rfl⟩ :=
      Reading.readAll_eq_error_iff.mp hread
    have hmem : ⟨lexeme, error.offset⟩ ∈ lexemes source := by
      rw [hcut]
      exact List.mem_append_right _ List.mem_cons_self
    obtain ⟨before, after, hsource, rfl, hstands⟩ := exists_stands hcut
    have htake : source.toList.take error.offset = before := by
      rw [hsource]
      exact hstands.take_offset
    have hlt : error.offset < source.length := by
      rw [← String.length_toList, hsource]
      exact hstands.offset_lt_length
    rw [htake]
    refine ⟨Nat.le_of_lt hlt, ⟨_, exists_parse_completion hearlier⟩, fun _ => ?_, fun hend => ?_⟩
    · exact ⟨lexeme, after, hmem, hsource, fun more hmore =>
        parse_eq_error_of_stands hstands hearlier hfault hmore⟩
    · exact absurd hend (Nat.ne_of_lt hlt)
  · have htake : source.toList.take error.offset = source.toList := by
      rw [hoffset, ← String.length_toList, List.take_length]
    rw [htake]
    refine ⟨Nat.le_of_eq hoffset, ⟨_, exists_parse_completion hread⟩,
      fun hlt => absurd hoffset (Nat.ne_of_lt hlt), fun _ => ?_⟩
    rcases Reading.finish_eq_error hfinish with hopen | hempty
    · exact .inl ⟨_, hopen⟩
    · exact .inr hempty

/-- In `open (the Box|CHEST)` the word with letters of both cases is the offence: what comes before
it can be completed, and nothing after it makes the source one that is read. -/
theorem parse_error_at_first_offence_box :
    parse "open (the Box|CHEST)" = .error ⟨.unrecognizedWord "Box", 10⟩ ∧
    (∃ groups tree, parse ("open (the " ++ " a" ++ String.ofList (List.replicate groups ')')) =
      .ok tree) ∧
    ∀ more, Ended more → parse (String.ofList ("open (the Box".toList ++ more)) =
      .error ⟨.unrecognizedWord "Box", 10⟩ := by
  have h : parse "open (the Box|CHEST)" = .error ⟨.unrecognizedWord "Box", 10⟩ := by
    decide +kernel
  have hcut : lexemes "open (the Box|CHEST)" = [⟨.word "open", 0⟩, ⟨.openGroup, 5⟩,
      ⟨.word "the", 6⟩, ⟨.word "Box", 10⟩, ⟨.bar, 13⟩, ⟨.word "CHEST", 14⟩, ⟨.closeGroup, 19⟩] := by
    decide +kernel
  obtain ⟨-, hcomplete, hoffence, -⟩ := parse_error_at_first_offence h
  obtain ⟨lexeme, after, hmem, -, hstays⟩ := hoffence (by decide +kernel)
  have hlexeme : lexeme = .word "Box" := by
    rw [hcut] at hmem
    simpa using hmem
  refine ⟨h, hcomplete, fun more hmore => ?_⟩
  rw [hlexeme] at hstays
  exact hstays more fun _ _ => hmore

end Grammar
end CommandGrammar
