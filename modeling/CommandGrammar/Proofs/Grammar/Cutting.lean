import CommandGrammar.Proofs.Grammar.RoundTrip
import Mathlib.Data.List.Basic

/-!
# Cutting a source in two

A source may be cut into lexemes in two parts, first what comes before some place and then what
comes after it, as long as the place is not inside a word: there is a delimiter right before it or
right after it (`Apart`).  The lexemes of the whole are then those of the two parts
(`lexemesFrom_append`).

The place at which a lexeme begins is one of these.  `exists_stands` takes a source apart there: the
characters before the lexeme are cut into the earlier lexemes, and the characters of the lexeme into
the lexeme itself.  So what comes after a lexeme may be exchanged without a change to the lexeme or
to those before it (`Stands.lexemesFrom_eq`), unless it is a word that would be prolonged.
-/

namespace CommandGrammar
namespace Grammar

/-- The characters of a lexeme. -/
def Lexeme.characters : Lexeme → List Char
  | .word text => text.toList
  | .openGroup => ['(']
  | .closeGroup => [')']
  | .bar => ['|']
  | .quantifier q => [q.symbol]

/-- A mark is made of the character that forms it. -/
theorem characters_of_markOf {c : Char} {mark : Lexeme} (h : markOf c = some mark) :
    mark.characters = [c] := by
  unfold markOf at h
  split at h <;> cases h <;> rfl

theorem isDelimiter_of_isSeparator {c : Char} (h : Text.isSeparator c = true) :
    isDelimiter c = true := by
  rw [isDelimiter, h]
  rfl

theorem isDelimiter_of_markOf {c : Char} {mark : Lexeme} (h : markOf c = some mark) :
    isDelimiter c = true := by
  rw [isDelimiter, h, Option.isSome_some, Bool.or_true]

/-! ## Places between lexemes -/

/-- The place between two texts is not inside a word. -/
def Apart (before rest : List Char) : Prop :=
  (∀ c ∈ before.getLast?, isDelimiter c = true) ∨ Ended rest

theorem apart_nil (rest : List Char) : Apart [] rest :=
  .inl fun _ h => absurd h (Option.not_mem_none _)

theorem apart_singleton {c : Char} (h : isDelimiter c = true) (rest : List Char) :
    Apart [c] rest := by
  refine .inl fun d hd => ?_
  rw [← Option.some.inj hd]
  exact h

/-- What stands before a place may be shortened from the left. -/
theorem Apart.of_append {first second rest : List Char} (h : Apart (first ++ second) rest) :
    Apart second rest := by
  by_cases hsecond : second = []
  · rw [hsecond]
    exact apart_nil rest
  · rw [Apart, List.getLast?_append_of_ne_nil _ hsecond] at h
    exact h

/-- Two texts that stand one after the other are apart from the rest if both are apart from what
follows them. -/
theorem Apart.append {first second rest : List Char} (h : Apart first (second ++ rest))
    (hsecond : Apart second rest) : Apart (first ++ second) rest := by
  by_cases hnil : second = []
  · rw [hnil, List.append_nil]
    rw [hnil, List.nil_append] at h
    exact h
  · rw [Apart, List.getLast?_append_of_ne_nil _ hnil]
    exact hsecond

/-- Whether a place is inside a word is decided by the first character after it. -/
theorem Apart.congr {before first rest more : List Char} (hne : first ≠ [])
    (h : Apart before (first ++ rest)) : Apart before (first ++ more) := by
  cases first with
  | nil => exact absurd rfl hne
  | cons c others => exact h

/-- A lexeme is apart from whatever follows it, and a word from whatever does not prolong it. -/
theorem apart_characters {lexeme : Lexeme} {rest : List Char}
    (h : ∀ text, lexeme = .word text → Ended rest) : Apart lexeme.characters rest := by
  cases lexeme with
  | word text => exact .inr (h text rfl)
  | openGroup => exact apart_singleton rfl rest
  | closeGroup => exact apart_singleton rfl rest
  | bar => exact apart_singleton rfl rest
  | quantifier quantifier => cases quantifier <;> exact apart_singleton rfl rest

/-! ## Words -/

theorem ended_dropWhile (cs : List Char) : Ended (cs.dropWhile isWordChar) := by
  intro c hc
  have hstop := List.head?_dropWhile_not isWordChar cs
  rw [Option.mem_def.mp hc] at hstop
  simpa [isWordChar] using hstop

/-- A text ends a word if its first part does; an empty first part leaves that to the second. -/
theorem Ended.append {first rest : List Char} (h : Ended first) (hrest : first = [] → Ended rest) :
    Ended (first ++ rest) := by
  cases first with
  | nil => exact hrest rfl
  | cons c more => exact h

theorem Ended.of_append {first rest : List Char} (h : Ended (first ++ rest)) : Ended first := by
  cases first with
  | nil => exact ended_nil
  | cons c more => exact h

/-- What is apart from a word does not prolong it. -/
theorem Apart.ended {word rest : List Char} (h : Apart word rest) (hne : word ≠ [])
    (hword : ∀ c ∈ word, isWordChar c = true) : Ended rest := by
  rcases h with h | h
  · have hlast := hword _ (List.getLast_mem hne)
    rw [isWordChar, h _ (List.getLast?_eq_some_getLast hne)] at hlast
    cases hlast
  · exact h

/-- The word at the beginning of a text, and what comes after it. -/
theorem cons_eq_word_append (c : Char) (others : List Char) :
    c :: others = c :: others.takeWhile isWordChar ++ others.dropWhile isWordChar := by
  rw [List.cons_append, List.takeWhile_append_dropWhile]

/-! ## Two parts of a source -/

/-- **A source is cut in two parts** wherever the place between them is not inside a word. -/
theorem lexemesFrom_append {before rest : List Char} (h : Apart before rest) (offset : Nat) :
    lexemesFrom offset (before ++ rest) =
      lexemesFrom offset before ++ lexemesFrom (offset + before.length) rest := by
  fun_induction lexemesFrom offset before with
  | case1 => rfl
  | case2 offset c others hseparator ih =>
    have hothers : Apart others rest := @Apart.of_append [c] others rest h
    rw [List.cons_append, lexemesFrom_separator hseparator, ih hothers, List.length_cons,
      Nat.add_assoc, Nat.add_comm 1]
  | case3 offset c others hseparator mark hmark ih =>
    have hothers : Apart others rest := @Apart.of_append [c] others rest h
    rw [List.cons_append, lexemesFrom_mark (Bool.eq_false_iff.mpr hseparator) hmark, ih hothers,
      List.length_cons, Nat.add_assoc, Nat.add_comm 1, List.cons_append]
  | case4 offset c others hseparator hmark tail ih =>
    have hc := isWordChar_of_markOf hseparator hmark
    have htail : ∀ d ∈ tail, isWordChar d = true := List.all_eq_true.mp List.all_takeWhile
    rw [cons_eq_word_append] at h ⊢
    -- The word ends with its own part, unless that part is all of the word: then the rest ends it.
    have hended : Ended (others.dropWhile isWordChar ++ rest) := by
      refine (ended_dropWhile others).append fun hnil => ?_
      rw [hnil, List.append_nil] at h
      exact h.ended (List.cons_ne_nil c tail) (List.forall_mem_cons.mpr ⟨hc, htail⟩)
    have hplace : offset + (c :: tail ++ others.dropWhile isWordChar).length =
        offset + 1 + tail.length + (others.dropWhile isWordChar).length := by
      rw [List.length_append, List.length_cons]
      omega
    rw [List.append_assoc, lexemesFrom_word_append hc htail hended, ih h.of_append, hplace,
      List.cons_append]

theorem kinds_append {before rest : List Char} (h : Apart before rest) :
    kinds (before ++ rest) = kinds before ++ kinds rest := by
  rw [kinds, lexemesFrom_append h, List.map_append, map_lexeme_lexemesFrom (0 + before.length) 0,
    kinds, kinds]

/-! ## The place of a lexeme -/

/-- A lexeme stands in a source between two texts: its offset counts the characters before it, its
own characters are cut into it and nothing else, and it does not go on a word before it. -/
structure Stands (offset : Nat) (before : List Char) (placed : Placed) (after : List Char) :
    Prop where
  place : placed.offset = offset + before.length
  cut : lexemesFrom placed.offset placed.lexeme.characters = [placed]
  apart : Apart before (placed.lexeme.characters ++ after)

/-- A lexeme at the very beginning stands there. -/
theorem stands_nil {offset : Nat} {lexeme : Lexeme}
    (h : lexemesFrom offset lexeme.characters = [⟨lexeme, offset⟩]) (after : List Char) :
    Stands offset [] ⟨lexeme, offset⟩ after :=
  ⟨rfl, h, apart_nil _⟩

/-- What stands in the second of two parts stands in the whole. -/
theorem Stands.append {offset : Nat} {first before : List Char} {placed : Placed}
    {after : List Char} (h : Stands (offset + first.length) before placed after)
    (hfirst : Apart first (before ++ (placed.lexeme.characters ++ after))) :
    Stands offset (first ++ before) placed after where
  place := by
    rw [h.place, List.length_append, Nat.add_assoc]
  cut := h.cut
  apart := hfirst.append h.apart

/-- **A lexeme is found where it stands.**  The characters before it are cut into the lexemes that
come earlier. -/
theorem exists_stands {offset : Nat} {cs : List Char} {earlier : List Placed} {placed : Placed}
    {later : List Placed} (h : lexemesFrom offset cs = earlier ++ placed :: later) :
    ∃ before after, cs = before ++ (placed.lexeme.characters ++ after) ∧
      lexemesFrom offset before = earlier ∧ Stands offset before placed after := by
  fun_induction lexemesFrom offset cs generalizing earlier with
  | case1 => exact absurd h.symm (List.append_ne_nil_of_right_ne_nil _ (List.cons_ne_nil _ _))
  | case2 offset c others hseparator ih =>
    obtain ⟨before, after, rfl, rfl, hstands⟩ := ih h
    have hc := apart_singleton (isDelimiter_of_isSeparator hseparator)
    exact ⟨c :: before, after, rfl, lexemesFrom_separator hseparator offset before,
      @Stands.append offset [c] before placed after hstands (hc _)⟩
  | case3 offset c others hseparator mark hmark ih =>
    have hfree : Text.isSeparator c = false := Bool.eq_false_iff.mpr hseparator
    cases earlier with
    | nil =>
      obtain ⟨rfl, -⟩ := List.cons.inj h
      refine ⟨[], others, ?_, lexemesFrom_nil offset, stands_nil ?_ others⟩
      · rw [characters_of_markOf hmark]
        rfl
      · rw [characters_of_markOf hmark, lexemesFrom_mark hfree hmark, lexemesFrom_nil]
    | cons first earlier =>
      obtain ⟨rfl, hrest⟩ := List.cons.inj h
      obtain ⟨before, after, rfl, rfl, hstands⟩ := ih hrest
      have hc := apart_singleton (isDelimiter_of_markOf hmark)
      exact ⟨c :: before, after, rfl, lexemesFrom_mark hfree hmark offset before,
        @Stands.append offset [c] before placed after hstands (hc _)⟩
  | case4 offset c others hseparator hmark =>
    rename_i tail ih
    have hc := isWordChar_of_markOf hseparator hmark
    have htail : ∀ d ∈ tail, isWordChar d = true := List.all_eq_true.mp List.all_takeWhile
    have hended := ended_dropWhile others
    rw [cons_eq_word_append]
    cases earlier with
    | nil =>
      obtain ⟨rfl, -⟩ := List.cons.inj h
      refine ⟨[], others.dropWhile isWordChar, ?_, lexemesFrom_nil offset, stands_nil ?_ _⟩
      · rw [Lexeme.characters, String.toList_ofList]
        rfl
      · have hword := lexemesFrom_word_append hc htail ended_nil offset
        rw [List.append_nil, lexemesFrom_nil] at hword
        rw [Lexeme.characters, String.toList_ofList, hword]
    | cons first earlier =>
      obtain ⟨rfl, hrest⟩ := List.cons.inj h
      obtain ⟨before, after, hdrop, rfl, hstands⟩ := ih hrest
      rw [hdrop] at hended ⊢
      refine ⟨c :: tail ++ before, after, (List.append_assoc _ _ _).symm,
        lexemesFrom_word_append hc htail hended.of_append offset, ?_⟩
      rw [Nat.add_assoc, Nat.add_comm 1, ← List.length_cons] at hstands
      exact hstands.append (.inr hended)

namespace Stands

variable {offset : Nat} {before : List Char} {placed : Placed} {after : List Char}

theorem characters_ne_nil (h : Stands offset before placed after) :
    placed.lexeme.characters ≠ [] := by
  intro hnil
  have hcut := h.cut
  rw [hnil, lexemesFrom_nil] at hcut
  cases hcut

/-- The offset of a lexeme leads to the characters before it. -/
theorem take_offset (h : Stands 0 before placed after) :
    (before ++ (placed.lexeme.characters ++ after)).take placed.offset = before := by
  rw [h.place, Nat.zero_add, List.take_left]

/-- No lexeme is at the end of the source. -/
theorem offset_lt_length (h : Stands 0 before placed after) :
    placed.offset < (before ++ (placed.lexeme.characters ++ after)).length := by
  have hpos := List.length_pos_iff.mpr h.characters_ne_nil
  rw [h.place, List.length_append, List.length_append]
  omega

/-- What comes after a lexeme may be exchanged: the lexeme stays, and so do those before it. -/
theorem lexemesFrom_eq (h : Stands offset before placed after) {more : List Char}
    (hmore : ∀ text, placed.lexeme = .word text → Ended more) :
    lexemesFrom offset (before ++ (placed.lexeme.characters ++ more)) =
      lexemesFrom offset before ++
        placed :: lexemesFrom (placed.offset + placed.lexeme.characters.length) more := by
  rw [lexemesFrom_append (h.apart.congr h.characters_ne_nil), ← h.place,
    lexemesFrom_append (apart_characters hmore), h.cut, List.singleton_append]

end Stands

end Grammar
end CommandGrammar
