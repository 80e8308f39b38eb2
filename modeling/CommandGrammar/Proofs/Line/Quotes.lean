import CommandGrammar.Proofs.Line.Scanning
import Mathlib.Data.List.Induction

/-!
# Quotes in a line

A quote that stands where a token could begin takes everything up to its partner, so a text can be
typed as a token whatever it holds, as long as one of the two quotes is missing from it.
`Quotation` is a text with such a quote, and `quotedLine` is a line of them with gaps in between;
the reader is back in a gap after each of them (`readAll_characters`), even if there is nothing
between it and the next.

A quote without a partner is the only thing on which the two modes disagree.  Where the reader is
inside quotes, it has come there from a gap, across the quote, and has not met the quote since
(`exists_opening`).  So what stands before the quote is a line by itself, and one more quote at the
end closes the token that was open.

Main statements:

* `tokenize_gives_back_quoted`: quoted texts are cut into the same texts;
* `strict_differs_on_open_quote`: the strict mode and the lenient mode on one line.
-/

namespace CommandGrammar
namespace Line

/-! ## Stretches of a line -/

namespace Reader

/-- A line may be read in two stretches. -/
theorem readAll_append (r : Reader) (offset : Nat) (first second : List Char) :
    r.readAll offset (first ++ second) =
      (r.readAll offset first).readAll (offset + first.length) second := by
  induction first generalizing r offset with
  | nil => rfl
  | cons c rest ih =>
    have hoffset : offset + 1 + rest.length = offset + (c :: rest).length := by
      rw [List.length_cons]
      omega
    rw [List.cons_append, readAll, readAll, ih, hoffset]

theorem readAll_snoc (r : Reader) (offset : Nat) (chars : List Char) (c : Char) :
    r.readAll offset (chars ++ [c]) = (r.readAll offset chars).read (offset + chars.length) c := by
  rw [readAll_append]
  rfl

end Reader

/-! ## Texts between quotes -/

/-- A text, and a quote to be put around it, which does not occur in it. -/
structure Quotation where
  text : String
  quote : Char
  isQuote_quote : isQuote quote = true
  quote_not_mem : quote ∉ text.toList

/-- The text between its quotes. -/
def Quotation.characters (quotation : Quotation) : List Char :=
  quotation.quote :: (quotation.text.toList ++ [quotation.quote])

/-- A text can be quoted exactly when one of the two quotes does not occur in it. -/
theorem exists_quotation_iff {text : String} :
    (∃ quotation : Quotation, quotation.text = text) ↔
      '"' ∉ text.toList ∨ '\'' ∉ text.toList := by
  constructor
  · rintro ⟨⟨text, quote, hquote, hfree⟩, rfl⟩
    simp only [isQuote, Bool.or_eq_true, beq_iff_eq] at hquote
    rcases hquote with rfl | rfl
    · exact .inl hfree
    · exact .inr hfree
  · rintro (hfree | hfree)
    · exact ⟨⟨text, '"', rfl, hfree⟩, rfl⟩
    · exact ⟨⟨text, '\'', rfl, hfree⟩, rfl⟩

theorem exists_quotations_iff {texts : List String} :
    (∃ quotations : List Quotation, quotations.map Quotation.text = texts) ↔
      ∀ text ∈ texts, '"' ∉ text.toList ∨ '\'' ∉ text.toList := by
  constructor
  · rintro ⟨quotations, rfl⟩ text htext
    obtain ⟨quotation, -, rfl⟩ := List.mem_map.mp htext
    exact exists_quotation_iff.mp ⟨quotation, rfl⟩
  · intro h
    induction texts with
    | nil => exact ⟨[], rfl⟩
    | cons text rest ih =>
      obtain ⟨htext, hrest⟩ := List.forall_mem_cons.mp h
      obtain ⟨quotation, rfl⟩ := exists_quotation_iff.mpr htext
      obtain ⟨quotations, rfl⟩ := ih hrest
      exact ⟨quotation :: quotations, rfl⟩

/-- Any number of separators, which may be none at all. -/
abbrev Gap : Type := { chars : List Char // ∀ c ∈ chars, Text.isSeparator c = true }

/-- The gap without separators. -/
def Gap.none : Gap := ⟨[], nofun⟩

/-- Quoted texts with a gap before each of them. -/
def quotedChars (items : List (Gap × Quotation)) : List Char :=
  items.flatMap fun item => item.1.val ++ item.2.characters

/-- A line of quoted texts, with a gap before each of them and one at the end. -/
def quotedLine (items : List (Gap × Quotation)) (last : Gap) : String :=
  String.ofList (quotedChars items ++ last.val)

section

variable (finished : List String) (offset : Nat)

/-- A reader in a gap stays there as long as there are separators. -/
theorem readAll_gap (gap : Gap) :
    Reader.readAll ⟨finished, .gap⟩ offset gap.val = ⟨finished, .gap⟩ := by
  obtain ⟨chars, hchars⟩ := gap
  induction chars generalizing offset with
  | nil => rfl
  | cons c rest ih =>
    obtain ⟨hc, hrest⟩ := List.forall_mem_cons.mp hchars
    show Reader.readAll (Reader.read ⟨finished, .gap⟩ offset c) (offset + 1) rest = _
    rw [read_gap_separator _ hc]
    exact ih (offset + 1) hrest

/-- Inside quotes every character but the quote is a part of the token. -/
theorem readAll_inside {quote : Char} {chars : List Char} (h : quote ∉ chars) (start : Nat)
    (before : List Char) :
    Reader.readAll ⟨finished, .quoted quote start before⟩ offset chars =
      ⟨finished, .quoted quote start (chars.reverse ++ before)⟩ := by
  induction chars generalizing offset before with
  | nil => rfl
  | cons c rest ih =>
    obtain ⟨hc, hrest⟩ := List.ne_and_not_mem_of_not_mem_cons h
    have hread : Reader.read ⟨finished, .quoted quote start before⟩ offset c =
        ⟨finished, .quoted quote start (c :: before)⟩ := by
      simp [Reader.read, hc.symm]
    rw [Reader.readAll, hread, ih _ hrest, List.reverse_cons, List.append_assoc,
      List.singleton_append]

/-- A quoted text is one token, and the reader is back in a gap after it. -/
theorem readAll_characters (quotation : Quotation) :
    Reader.readAll ⟨finished, .gap⟩ offset quotation.characters =
      ⟨quotation.text :: finished, .gap⟩ := by
  obtain ⟨text, quote, hquote, hfree⟩ := quotation
  have hopens : Reader.read ⟨finished, .gap⟩ offset quote =
      ⟨finished, .quoted quote offset []⟩ := by
    simp [Reader.read, hquote]
  show Reader.readAll (Reader.read ⟨finished, .gap⟩ offset quote) (offset + 1)
    (text.toList ++ [quote]) = _
  rw [hopens, Reader.readAll_snoc, readAll_inside finished (offset + 1) hfree]
  simp [Reader.read, Reader.finish]

theorem readAll_quotedChars (items : List (Gap × Quotation)) :
    Reader.readAll ⟨finished, .gap⟩ offset (quotedChars items) =
      ⟨(items.map (·.2.text)).reverse ++ finished, .gap⟩ := by
  induction items generalizing finished offset with
  | nil => rfl
  | cons item rest ih =>
    rw [quotedChars, List.flatMap_cons, Reader.readAll_append, Reader.readAll_append, readAll_gap,
      readAll_characters, ← quotedChars, ih, List.map_cons, List.reverse_cons, List.append_assoc]
    rfl

end

/-- A line that ends in a gap has no open quote. -/
theorem cut_of_readAll_gap {line : String} {finished : List String}
    (h : Reader.start.readAll 0 line.toList = ⟨finished, .gap⟩) :
    cut line = ⟨finished.reverse, none⟩ := by
  rw [cut, h]
  rfl

/-- A line of quoted texts is cut into these texts, and no quote is open at its end. -/
theorem cut_quotedLine (items : List (Gap × Quotation)) (last : Gap) :
    cut (quotedLine items last) = ⟨items.map (·.2.text), none⟩ := by
  have hread : Reader.start.readAll 0 (quotedLine items last).toList =
      ⟨(items.map (·.2.text)).reverse, .gap⟩ := by
    rw [quotedLine, String.toList_ofList, Reader.start, Reader.readAll_append,
      readAll_quotedChars, readAll_gap, List.append_nil]
  rw [cut_of_readAll_gap hread, List.reverse_reverse]

/-- In both modes a line without an open quote has the tokens into which it is cut. -/
theorem tokenize_of_closed {line : String} {texts : List String} (h : cut line = ⟨texts, none⟩)
    (mode : QuoteMode) : tokenize mode line = .ok texts := by
  cases mode <;> simp [tokenize, h]

/-- **Quoted texts are given back.**  Any texts, each between quotes of a kind that does not occur
in it, with any separators or none between them, are the tokens of that line in both modes.  A text
can be put between quotes exactly when one of the two kinds does not occur in it, so any sequence of
such texts can be typed as a line. -/
theorem tokenize_gives_back_quoted :
    (∀ (items : List (Gap × Quotation)) (last : Gap),
      tokens (quotedLine items last) = items.map (·.2.text) ∧
      ∀ mode, tokenize mode (quotedLine items last) = .ok (items.map (·.2.text))) ∧
    (∀ texts : List String,
      (∃ quotations : List Quotation, quotations.map Quotation.text = texts) ↔
        ∀ text ∈ texts, '"' ∉ text.toList ∨ '\'' ∉ text.toList) ∧
    ∀ texts : List String, (∀ text ∈ texts, '"' ∉ text.toList ∨ '\'' ∉ text.toList) →
      ∃ line, tokens line = texts ∧ ∀ mode, tokenize mode line = .ok texts := by
  have hgives : ∀ (items : List (Gap × Quotation)) (last : Gap),
      tokens (quotedLine items last) = items.map (·.2.text) ∧
      ∀ mode, tokenize mode (quotedLine items last) = .ok (items.map (·.2.text)) := by
    intro items last
    have hcut := cut_quotedLine items last
    exact ⟨congrArg Cut.tokens hcut, tokenize_of_closed hcut⟩
  refine ⟨hgives, fun texts => exists_quotations_iff, fun texts h => ?_⟩
  obtain ⟨quotations, rfl⟩ := exists_quotations_iff.mpr h
  refine ⟨quotedLine (quotations.map (Gap.none, ·)) Gap.none, ?_⟩
  have hline := hgives (quotations.map (Gap.none, ·)) Gap.none
  rw [List.map_map] at hline
  exact hline

/-- An empty text, texts that hold one kind of quote, and a text that holds a line feed: the first
two have nothing between them. -/
theorem tokenize_gives_back_quoted_mixed :
    (∀ text ∈ ["", "it's", "a \"b\"\n"], '"' ∉ text.toList ∨ '\'' ∉ text.toList) ∧
    (∃ line, tokens line = ["", "it's", "a \"b\"\n"] ∧
      ∀ mode, tokenize mode line = .ok ["", "it's", "a \"b\"\n"]) ∧
    ∀ mode, tokenize mode "''\"it's\" \t'a \"b\"\n'" = .ok ["", "it's", "a \"b\"\n"] := by
  have hquotes : ∀ text ∈ ["", "it's", "a \"b\"\n"], '"' ∉ text.toList ∨ '\'' ∉ text.toList := by
    decide
  let items : List (Gap × Quotation) :=
    [(Gap.none, ⟨"", '\'', by decide, by decide⟩), (Gap.none, ⟨"it's", '"', by decide, by decide⟩),
      (⟨[' ', '\t'], List.all_eq_true.mp rfl⟩, ⟨"a \"b\"\n", '\'', by decide, by decide⟩)]
  have hline : quotedLine items Gap.none = "''\"it's\" \t'a \"b\"\n'" := by decide +kernel
  refine ⟨hquotes, tokenize_gives_back_quoted.2.2 _ hquotes, ?_⟩
  rw [← hline]
  exact (tokenize_gives_back_quoted.1 items Gap.none).2

/-! ## A quote without a partner -/

/-- A reader comes to stand inside quotes in two ways: it was in a gap and has read the quote, or it
was inside them already and has read a character of the token. -/
theorem eq_or_of_read_eq_quoted {r : Reader} {offset : Nat} {c quote : Char}
    {finished : List String} {start : Nat} {inside : List Char}
    (h : r.read offset c = ⟨finished, .quoted quote start inside⟩) :
    (r = ⟨finished, .gap⟩ ∧ isQuote c = true ∧ quote = c ∧ start = offset ∧ inside = []) ∨
      ∃ before, r = ⟨finished, .quoted quote start before⟩ ∧ c ≠ quote ∧ inside = c :: before := by
  obtain ⟨done, place⟩ := r
  unfold Reader.read at h
  cases place with
  | gap =>
    by_cases hquote : isQuote c = true
    · simp only [hquote, if_true, Reader.mk.injEq, Place.quoted.injEq] at h
      obtain ⟨rfl, rfl, rfl, rfl⟩ := h
      exact .inl ⟨rfl, hquote, rfl, rfl, rfl⟩
    · by_cases hseparator : Text.isSeparator c = true <;> simp [hquote, hseparator] at h
  | word chars =>
    by_cases hseparator : Text.isSeparator c = true <;> simp [hseparator, Reader.finish] at h
  | quoted opened begun chars =>
    by_cases hc : c = opened
    · simp [hc, Reader.finish] at h
    · simp only [beq_eq_false_iff_ne.mpr hc, Bool.false_eq_true, if_false, Reader.mk.injEq,
        Place.quoted.injEq] at h
      obtain ⟨rfl, rfl, rfl, rfl⟩ := h
      exact .inr ⟨chars, rfl, hc, rfl⟩

/-- **A reader inside quotes has come there from a gap**, across the quote, and the quote has not
occurred since. -/
theorem exists_opening {chars inside : List Char} {finished : List String} {quote : Char}
    {start : Nat}
    (h : Reader.start.readAll 0 chars = ⟨finished, .quoted quote start inside⟩) :
    ∃ before, chars = before ++ quote :: inside.reverse ∧ start = before.length ∧
      isQuote quote = true ∧ quote ∉ inside ∧
      Reader.start.readAll 0 before = ⟨finished, .gap⟩ := by
  -- the last character is either the quote itself or one more character of the token
  induction chars using List.reverseRecOn generalizing inside with
  | nil => cases h
  | append_singleton chars c ih =>
    rw [Reader.readAll_snoc, Nat.zero_add] at h
    rcases eq_or_of_read_eq_quoted h with
      ⟨hgap, hquote, rfl, rfl, rfl⟩ | ⟨earlier, hinside, hc, rfl⟩
    · exact ⟨chars, rfl, rfl, hquote, List.not_mem_nil, hgap⟩
    · obtain ⟨before, rfl, hstart, hquote, hfree, hbefore⟩ := ih hinside
      refine ⟨before, ?_, hstart, hquote, List.not_mem_cons_of_ne_of_not_mem hc.symm hfree, hbefore⟩
      simp

/-- The strict mode takes a line unless the reader is inside quotes at its end. -/
theorem tokenize_strict_or_quoted (line : String) :
    tokenize .strict line = .ok (tokens line) ∨ ∃ finished quote start inside,
      Reader.start.readAll 0 line.toList = ⟨finished, .quoted quote start inside⟩ := by
  rcases hread : Reader.start.readAll 0 line.toList with ⟨finished, place⟩
  cases place with
  | gap | word chars => exact .inl (by simp [tokenize, tokens, cut, hread, Reader.cut])
  | quoted quote start inside => exact .inr ⟨finished, quote, start, inside, rfl⟩

theorem cut_of_readAll_quoted {line : String} {finished : List String} {quote : Char} {start : Nat}
    {inside : List Char}
    (h : Reader.start.readAll 0 line.toList = ⟨finished, .quoted quote start inside⟩) :
    cut line = ⟨finished.reverse ++ [String.ofList inside.reverse], some ⟨quote, start⟩⟩ := by
  rw [cut, h]
  simp [Reader.cut, Reader.finish]

/-- The quote that is open at the end of a line closes the last token if it is typed once more. -/
theorem cut_push_of_readAll_quoted {line : String} {finished : List String} {quote : Char}
    {start : Nat} {inside : List Char}
    (h : Reader.start.readAll 0 line.toList = ⟨finished, .quoted quote start inside⟩) :
    cut (line.push quote) = ⟨finished.reverse ++ [String.ofList inside.reverse], none⟩ := by
  have hread : Reader.start.readAll 0 (line.push quote).toList =
      ⟨String.ofList inside.reverse :: finished, .gap⟩ := by
    rw [String.toList_push, Reader.readAll_snoc, h]
    simp [Reader.read, Reader.finish]
  rw [cut_of_readAll_gap hread, List.reverse_cons]

/-- **The two modes differ only on an open quote.**  The lenient mode gives every line its tokens.
The strict mode gives it the same tokens, or refuses it and points at a quote that does not occur
again after it.  Such a line is mended by the quote at its end: it then has, in the strict mode, the
tokens that the lenient mode gave it.  What stands before the quote is also a line that the strict
mode takes, and its tokens are those without the last one, which is what stands after the quote. -/
theorem strict_differs_on_open_quote (line : String) :
    tokenize .lenient line = .ok (tokens line) ∧
    (tokenize .strict line = .ok (tokens line) ∨
      ∃ quote offset, tokenize .strict line = .error ⟨quote, offset⟩ ∧ isQuote quote = true ∧
        line.toList[offset]? = some quote ∧ quote ∉ line.toList.drop (offset + 1) ∧
        tokenize .strict (line.push quote) = .ok (tokens line) ∧
        tokenize .strict (String.ofList (line.toList.take offset)) = .ok (tokens line).dropLast ∧
        (tokens line).getLast? = some (String.ofList (line.toList.drop (offset + 1)))) := by
  refine ⟨tokenize_lenient line, (tokenize_strict_or_quoted line).imp_right ?_⟩
  rintro ⟨finished, quote, start, inside, hread⟩
  have hcut := cut_of_readAll_quoted hread
  have htokens : tokens line = finished.reverse ++ [String.ofList inside.reverse] := by
    rw [tokens, hcut]
  obtain ⟨before, hline, rfl, hquote, hfree, hbefore⟩ := exists_opening hread
  have hdrop : line.toList.drop (before.length + 1) = inside.reverse := by
    simp [hline]
  refine ⟨quote, before.length, ?_, hquote, ?_, ?_, ?_, ?_, ?_⟩
  · simp [tokenize, hcut]
  · simp [hline]
  · rwa [hdrop, List.mem_reverse]
  · rw [htokens]
    exact tokenize_of_closed (cut_push_of_readAll_quoted hread) .strict
  · rw [htokens, List.dropLast_concat, hline, List.take_left]
    refine tokenize_of_closed (cut_of_readAll_gap ?_) .strict
    rw [String.toList_ofList, hbefore]
  · rw [htokens, List.getLast?_concat, hdrop]

example : tokenize .strict "equip \"bill's sword" = .error ⟨'"', 6⟩ := by decide

end Line
end CommandGrammar
