import CommandGrammar.Proofs.Grammar.Folding
import CommandGrammar.Proofs.Matching.Readings

/-!
# Folding changes no meaning

A source can be read with its alternations of bare captures folded into single captures, or as it is
written.  The two trees accept the same lines, because the lines of a capture do not depend on its
tags.  Their readings are not the same, because a claim names all tags of its capture.  They are the
same when every claim is narrowed to one of its tags (`Entry.Narrows`): then a capture with several
tags is read as several captures are, so that folding is not noticed
(`Rule.joinsTags_narrowedReadings`), and in the tree that is not folded there is nothing to narrow,
since its captures come from words and have one tag each.

Main statements:

* `Grammar.readings_of_parse`: the readings without folding are the narrowed readings with it;
* `Grammar.parse_folding_agrees`: the same for what is accepted and for what a match finds.
-/

namespace CommandGrammar

/-! ## Narrowing -/

/-- A claim of a capture is narrowed to one of its tags; everything else stays as it is. -/
inductive Entry.Narrows : Entry → Entry → Prop where
  | capture {tags : List String} {tag : String} {tokens : List String} : tag ∈ tags →
      Narrows (.claim ⟨.capture tags, tokens⟩) (.claim ⟨.capture [tag], tokens⟩)
  | keyword {word : String} {tokens : List String} :
      Narrows (.claim ⟨.keyword word, tokens⟩) (.claim ⟨.keyword word, tokens⟩)
  | token {text : String} : Narrows (.token text) (.token text)

/-- Narrowing leaves the tokens alone. -/
theorem Entry.Narrows.tokens_eq {wide narrow : Entry} (h : wide.Narrows narrow) :
    narrow.tokens = wide.tokens := by
  cases h <;> rfl

theorem Entry.Narrows.flatMap_tokens_eq {wide narrow : List Entry}
    (h : List.Forall₂ Entry.Narrows wide narrow) :
    narrow.flatMap Entry.tokens = wide.flatMap Entry.tokens := by
  induction h with
  | nil => rfl
  | cons hfirst _ ih => rw [List.flatMap_cons, List.flatMap_cons, hfirst.tokens_eq, ih]

namespace Rule

/-- The readings of a leaf with every claim narrowed. -/
def narrowedReadings (rule : Rule) : Language Entry := relabel Entry.Narrows rule.readings

theorem mem_narrowedReadings_capture_iff {tags : List String} {entries : List Entry} :
    entries ∈ (capture tags).narrowedReadings ↔
      ∃ tag ∈ tags, ∃ tokens ≠ [], entries = [.claim ⟨.capture [tag], tokens⟩] := by
  constructor
  · rintro ⟨_, ⟨tokens, hne, rfl⟩, hnarrow⟩
    obtain ⟨entry, rest, hentry, hrest, rfl⟩ := List.forall₂_cons_left_iff.mp hnarrow
    rw [List.forall₂_nil_left_iff.mp hrest]
    cases hentry with
    | capture htag => exact ⟨_, htag, tokens, hne, rfl⟩
  · rintro ⟨tag, htag, tokens, hne, rfl⟩
    exact ⟨_, ⟨tokens, hne, rfl⟩, .cons (.capture htag) .nil⟩

theorem narrowedReadings_keyword (word : String) :
    (keyword word).narrowedReadings = (keyword word).readings := by
  ext entries
  constructor
  · rintro ⟨_, rfl, hnarrow⟩
    obtain ⟨entry, rest, hentry, hrest, rfl⟩ := List.forall₂_cons_left_iff.mp hnarrow
    rw [List.forall₂_nil_left_iff.mp hrest]
    cases hentry
    rfl
  · rintro rfl
    exact ⟨_, rfl, .cons .keyword .nil⟩

/-- The readings of a word's leaf cannot be narrowed. -/
theorem narrowedReadings_of_isWordRule {rule : Rule} (h : Grammar.IsWordRule rule) :
    rule.narrowedReadings = rule.readings := by
  cases rule with
  | keyword word => exact narrowedReadings_keyword word
  | capture tags =>
    obtain ⟨tag, rfl⟩ := h
    ext entries
    rw [mem_narrowedReadings_capture_iff]
    constructor
    · rintro ⟨other, hother, tokens, hne, rfl⟩
      rw [List.mem_singleton.mp hother]
      exact ⟨tokens, hne, rfl⟩
    · rintro ⟨tokens, hne, rfl⟩
      exact ⟨tag, List.mem_singleton_self tag, tokens, hne, rfl⟩

theorem joinsTags_narrowedReadings : Grammar.JoinsTags narrowedReadings := by
  intro tags _
  ext entries
  rw [mem_narrowedReadings_capture_iff, mem_sum_iff]
  simp only [List.mem_eraseDups, List.mem_flatten, List.mem_map, exists_exists_and_eq_and,
    mem_narrowedReadings_capture_iff]
  constructor
  · rintro ⟨tag, ⟨own, hown, htag⟩, htokens⟩
    exact ⟨own, hown, tag, htag, htokens⟩
  · rintro ⟨own, hown, tag, htag, htokens⟩
    exact ⟨tag, ⟨own, hown, htag⟩, htokens⟩

theorem joinsTags_language : Grammar.JoinsTags language := by
  intro tags hne
  ext tokens
  rw [mem_sum_iff]
  constructor
  · intro htokens
    obtain ⟨own, hown⟩ := List.exists_mem_of_ne_nil tags hne
    exact ⟨_, List.mem_map_of_mem hown, htokens⟩
  · rintro ⟨_, hlanguage, htokens⟩
    obtain ⟨own, _, rfl⟩ := List.mem_map.mp hlanguage
    exact htokens

end Rule

/-! ## What a match finds -/

namespace Automaton

/-- The readings that a match has found; a match that has failed has found none. -/
def readingsFound (result : Except MatchError (List Interpretation)) : Set (List Entry) :=
  {entries | ∃ found, result = .ok found ∧ ⟨entries⟩ ∈ found}

/-- Unless the limit is passed, a match succeeds exactly when the line is accepted. -/
theorem exists_interpret_eq_ok_iff {a : Automaton} {options : MatchOptions} {tokens : List String}
    (h : ¬ Flooded (a.interpret options tokens)) :
    (∃ found, a.interpret options tokens = .ok found) ↔ a.accepts tokens = true := by
  constructor
  · rintro ⟨found, hfound⟩
    exact accepts_of_interpret_eq_ok hfound
  · intro haccepts
    cases hresult : a.interpret options tokens with
    | ok found => exact ⟨found, rfl⟩
    | error failure =>
      cases failure with
      | tooManyPaths limit position => exact absurd ⟨limit, position, hresult⟩ h
      | noMatch failures =>
        rw [not_accepts_of_interpret_eq_noMatch hresult] at haccepts
        cases haccepts

end Automaton

/-- Unless the limit is passed, a match finds the readings of the line. -/
theorem Grammar.readingsFound_interpret {grammar : Grammar} {options : MatchOptions}
    {tokens : List String} (h : ¬ Automaton.Flooded (grammar.automaton.interpret options tokens)) :
    Automaton.readingsFound (grammar.automaton.interpret options tokens) =
      grammar.readingsOf tokens := by
  ext entries
  rw [← exists_mem_pathsAlong_iff]
  constructor
  · rintro ⟨found, hfound, hmem⟩
    exact ((Automaton.interpret_eq_ok hfound).2 ⟨entries⟩).mp hmem
  · rintro ⟨final, hfinal, hreading⟩
    have haccepts : grammar.automaton.accepts tokens = true :=
      (Automaton.accepts_iff_exists_path []).mpr ⟨final, hfinal⟩
    obtain ⟨found, hfound⟩ := (Automaton.exists_interpret_eq_ok_iff h).mpr haccepts
    exact ⟨found, hfound,
      ((Automaton.interpret_eq_ok hfound).2 ⟨entries⟩).mpr ⟨final, hfinal, hreading⟩⟩

/-! ## The two readings of a source -/

namespace Grammar

section

variable {source : String} {plain tree : Grammar}

theorem eq_foldedBelow_of_parse (hplain : parseWith false source = .ok plain)
    (htree : parse source = .ok tree) : tree = plain.foldedBelow := by
  rw [parse_eq_map_foldedBelow, hplain] at htree
  exact (Except.ok.inj htree).symm

/-- The readings without folding are the narrowed readings with it. -/
theorem readings_of_parse (hplain : parseWith false source = .ok plain)
    (htree : parse source = .ok tree) : plain.readings = relabel Entry.Narrows tree.readings := by
  have hword := isWordRule_of_parseWith hplain
  calc plain.readings
      = plain.denote Rule.narrowedReadings :=
        denote_congr plain fun rule hrule =>
          (Rule.narrowedReadings_of_isWordRule (hword rule hrule)).symm
    _ = tree.denote Rule.narrowedReadings := by
        rw [eq_foldedBelow_of_parse hplain htree,
          denote_foldedBelow Rule.joinsTags_narrowedReadings]
    _ = relabel Entry.Narrows tree.readings := (relabel_denote Rule.readings tree).symm

/-- The lines are the same with and without folding. -/
theorem language_of_parse (hplain : parseWith false source = .ok plain)
    (htree : parse source = .ok tree) : plain.language = tree.language := by
  rw [eq_foldedBelow_of_parse hplain htree]
  exact (denote_foldedBelow Rule.joinsTags_language plain).symm

/-- The readings of a line without folding are its narrowed readings with it. -/
theorem readingsOf_of_parse (hplain : parseWith false source = .ok plain)
    (htree : parse source = .ok tree) (tokens : List String) :
    plain.readingsOf tokens =
      {entries | ∃ wide ∈ tree.readingsOf tokens, List.Forall₂ Entry.Narrows wide entries} := by
  ext entries
  rw [readingsOf, readings_of_parse hplain htree]
  constructor
  · rintro ⟨⟨wide, hwide, hnarrow⟩, htokens⟩
    rw [Entry.Narrows.flatMap_tokens_eq hnarrow] at htokens
    exact ⟨wide, ⟨hwide, htokens⟩, hnarrow⟩
  · rintro ⟨wide, ⟨hwide, htokens⟩, hnarrow⟩
    rw [← Entry.Narrows.flatMap_tokens_eq hnarrow] at htokens
    exact ⟨⟨wide, hwide, hnarrow⟩, htokens⟩

theorem accepts_of_parse (hplain : parseWith false source = .ok plain)
    (htree : parse source = .ok tree) (tokens : List String) :
    plain.automaton.accepts tokens = tree.automaton.accepts tokens := by
  have hlanguage : plain.automaton.language = tree.automaton.language := by
    rw [language_automaton, language_automaton, language_of_parse hplain htree]
  exact Bool.eq_iff_iff.mpr (Set.ext_iff.mp hlanguage tokens)

end

/-- **Folding preserves meaning.**  A source is refused without folding exactly when it is refused
with it, and then for the same error.  If it is read, both trees accept the same lines, and what a
match finds with the tree that is not folded is what it finds with the other one, every capture
narrowed to one of its tags.  The readings are compared under limits that neither match passes,
which all limits are that are large enough. -/
theorem parse_folding_agrees :
    (∀ source error, parseWith false source = .error error ↔ parse source = .error error) ∧
    ∀ source plain tree, parseWith false source = .ok plain → parse source = .ok tree →
      ∀ tokens,
        plain.automaton.accepts tokens = tree.automaton.accepts tokens ∧
        (∃ bound, ∀ options : MatchOptions, bound ≤ options.maxLivePaths →
          ¬ Automaton.Flooded (plain.automaton.interpret options tokens) ∧
          ¬ Automaton.Flooded (tree.automaton.interpret options tokens)) ∧
        ∀ options others,
          ¬ Automaton.Flooded (plain.automaton.interpret options tokens) →
          ¬ Automaton.Flooded (tree.automaton.interpret others tokens) →
          ((∃ found, plain.automaton.interpret options tokens = .ok found) ↔
            ∃ found, tree.automaton.interpret others tokens = .ok found) ∧
          Automaton.readingsFound (plain.automaton.interpret options tokens) =
            {entries | ∃ wide ∈ Automaton.readingsFound (tree.automaton.interpret others tokens),
              List.Forall₂ Entry.Narrows wide entries} := by
  refine ⟨fun source error => ?_, fun source plain tree hplain htree tokens => ⟨?_, ?_, ?_⟩⟩
  · rw [parse_eq_map_foldedBelow]
    cases parseWith false source <;> simp [Except.map]
  · exact accepts_of_parse hplain htree tokens
  · obtain ⟨first, hfirst⟩ := plain.automaton.exists_limit_interpret tokens
    obtain ⟨second, hsecond⟩ := tree.automaton.exists_limit_interpret tokens
    refine ⟨max first second, fun options hle => ⟨hfirst options ?_, hsecond options ?_⟩⟩
    · omega
    · omega
  · intro options others hoptions hothers
    rw [Automaton.exists_interpret_eq_ok_iff hoptions, Automaton.exists_interpret_eq_ok_iff hothers,
      accepts_of_parse hplain htree, readingsFound_interpret hoptions,
      readingsFound_interpret hothers]
    exact ⟨Iff.rfl, readingsOf_of_parse hplain htree tokens⟩

/-- A group inside a group is folded with it, and a tag that occurs twice is kept once; the readings
are those of the tree as it is written. -/
theorem parse_folding_agrees_nested :
    parseWith false "(HERO|(NPC|HERO)) waits" = .ok (sequence [alternatives [[capture ["HERO"]],
      [alternatives [[capture ["NPC"]], [capture ["HERO"]]]]], keyword "waits"]) ∧
    parse "(HERO|(NPC|HERO)) waits" = .ok (sequence [capture ["HERO", "NPC"], keyword "waits"]) ∧
    ∃ options, Automaton.readingsFound ((sequence [alternatives [[capture ["HERO"]],
        [alternatives [[capture ["NPC"]], [capture ["HERO"]]]]], keyword "waits"]).automaton.interpret
          options ["bob", "waits"]) =
      {entries | ∃ wide ∈ Automaton.readingsFound
          ((sequence [capture ["HERO", "NPC"], keyword "waits"]).automaton.interpret options
            ["bob", "waits"]),
        List.Forall₂ Entry.Narrows wide entries} := by
  have hplain : parseWith false "(HERO|(NPC|HERO)) waits" = .ok (sequence [alternatives
      [[capture ["HERO"]], [alternatives [[capture ["NPC"]], [capture ["HERO"]]]]],
      keyword "waits"]) := by
    decide +kernel
  have htree : parse "(HERO|(NPC|HERO)) waits" =
      .ok (sequence [capture ["HERO", "NPC"], keyword "waits"]) := by
    decide +kernel
  obtain ⟨_, ⟨bound, hbound⟩, hfound⟩ :=
    parse_folding_agrees.2 _ _ _ hplain htree ["bob", "waits"]
  obtain ⟨hfirst, hsecond⟩ := hbound ⟨bound, true⟩ (Nat.le_refl bound)
  exact ⟨hplain, htree, ⟨bound, true⟩, (hfound _ _ hfirst hsecond).2⟩

end Grammar

end CommandGrammar
