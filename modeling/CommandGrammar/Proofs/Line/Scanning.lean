import CommandGrammar.Line

/-!
# Lines, read token by token

A line is cut by a machine that looks at one character at a time.  `Line.scanFrom` says the same in
the terms in which one would explain it: pass over the separators, look at the character that begins
a token, and take the token as a whole, up to the quote that closes it or up to the next separator.
What it takes is a piece of the line, which remembers whether it was quoted (`Line.Piece`).

The machine keeps the unfinished token in its place, so each kind of token has a lemma that runs the
machine across all of it (`cut_readAll_word`, `cut_readAll_quoted`, `cut_readAll_unclosed`).  A token
ends in a gap, which is where the recursion goes on.

Main statements:

* `cut_readAll_gap`: from a gap on, the machine finds what the recursion finds;
* `wellFormed_of_mem_scanFrom`: what the pieces of a line look like;
* `cut_agrees_scan`: the machine and the recursion cut every line alike.
-/

namespace CommandGrammar
namespace Line

/-! ## Pieces of a line -/

/-- A token as it stands in a line. -/
inductive Piece where
  /-- A run of characters without quotes around it. -/
  | word (chars : List Char)
  /-- What stands after a quote, up to its partner or up to the end of the line. -/
  | quoted (quote : Char) (chars : List Char)
  deriving DecidableEq, Repr

/-- The token that a piece is. -/
def Piece.text : Piece → String
  | .word chars | .quoted _ chars => String.ofList chars

/-- The pieces of a line, and the quote without a partner, if there is one. -/
structure Scan where
  pieces : List Piece
  unclosed : Option OpenQuote
  deriving DecidableEq, Repr

namespace Scan

/-- A piece before the others. -/
def cons (piece : Piece) (rest : Scan) : Scan := ⟨piece :: rest.pieces, rest.unclosed⟩

/-- The pieces as plain tokens. -/
def cut (scan : Scan) : Cut := ⟨scan.pieces.map Piece.text, scan.unclosed⟩

end Scan

/-- Whether a character can stand in a word. -/
def isInside (c : Char) : Bool := !Text.isSeparator c

/-- The pieces of the characters from `offset` on. -/
def scanFrom (offset : Nat) : List Char → Scan
  | [] => ⟨[], none⟩
  | c :: rest =>
    if Text.isSeparator c then scanFrom (offset + 1) rest
    else if isQuote c then
      if c ∈ rest then
        .cons (.quoted c (rest.takeWhile (· != c)))
          (scanFrom (offset + 1 + (rest.takeWhile (· != c)).length + 1)
            ((rest.dropWhile (· != c)).drop 1))
      else ⟨[.quoted c rest], some ⟨c, offset⟩⟩
    else
      .cons (.word (c :: rest.takeWhile isInside))
        (scanFrom (offset + 1 + (rest.takeWhile isInside).length) (rest.dropWhile isInside))
termination_by chars => chars.length
decreasing_by
  · simp
  · have := (List.dropWhile_sublist (· != c) (l := rest)).length_le
    simp only [List.length_drop, List.length_cons]
    omega
  · have := (List.dropWhile_sublist isInside (l := rest)).length_le
    simp only [List.length_cons]
    omega

/-- The pieces of a line. -/
def scan (line : String) : Scan := scanFrom 0 line.toList

/-! ## The machine inside a token -/

theorem isQuote_of_isSeparator {c : Char} (h : Text.isSeparator c = true) : isQuote c = false := by
  simp only [Text.isSeparator, Bool.or_eq_true, beq_iff_eq] at h
  rcases h with ((rfl | rfl) | rfl) | rfl <;> decide

section

variable (finished : List String)

theorem read_gap_separator {c : Char} (h : Text.isSeparator c = true) (offset : Nat) :
    Reader.read ⟨finished, .gap⟩ offset c = ⟨finished, .gap⟩ := by
  simp [Reader.read, isQuote_of_isSeparator h, h]

/-- A word goes on up to the next separator. -/
theorem cut_readAll_word (offset : Nat) (before chars : List Char) :
    (Reader.readAll ⟨finished, .word before⟩ offset chars).cut =
      (Reader.readAll
        ⟨String.ofList (before.reverse ++ chars.takeWhile isInside) :: finished, .gap⟩
        (offset + (chars.takeWhile isInside).length) (chars.dropWhile isInside)).cut := by
  induction chars generalizing offset before with
  | nil => simp [Reader.readAll, Reader.cut, Reader.finish]
  | cons c rest ih =>
    by_cases hc : Text.isSeparator c = true
    · -- the separator is read in the word on one side and in the gap after it on the other
      have hinside : isInside c = false := by simp [isInside, hc]
      rw [List.takeWhile_cons_of_neg (by simp [hinside]),
        List.dropWhile_cons_of_neg (by simp [hinside]), Reader.readAll, Reader.readAll,
        read_gap_separator _ hc]
      simp [Reader.read, hc, Reader.finish]
    · have hinside : isInside c = true := by simpa [isInside] using hc
      have hread : Reader.read ⟨finished, .word before⟩ offset c =
          ⟨finished, .word (c :: before)⟩ := by
        simp [Reader.read, hc]
      have hoffset : offset + 1 + (rest.takeWhile isInside).length =
          offset + (c :: rest.takeWhile isInside).length := by
        rw [List.length_cons]
        omega
      rw [Reader.readAll, hread, ih, List.takeWhile_cons_of_pos hinside,
        List.dropWhile_cons_of_pos hinside, hoffset, List.reverse_cons, List.append_assoc]
      rfl

variable {quote : Char}

/-- A quoted token goes on up to the next quote of its kind. -/
theorem cut_readAll_quoted {chars : List Char} (h : quote ∈ chars) (offset start : Nat)
    (before : List Char) :
    (Reader.readAll ⟨finished, .quoted quote start before⟩ offset chars).cut =
      (Reader.readAll
        ⟨String.ofList (before.reverse ++ chars.takeWhile (· != quote)) :: finished, .gap⟩
        (offset + (chars.takeWhile (· != quote)).length + 1)
        ((chars.dropWhile (· != quote)).drop 1)).cut := by
  induction chars generalizing offset before with
  | nil => exact absurd h List.not_mem_nil
  | cons c rest ih =>
    by_cases hc : c = quote
    · subst hc
      simp [Reader.readAll, Reader.read, Reader.finish]
    · have htake : (c :: rest).takeWhile (· != quote) = c :: rest.takeWhile (· != quote) :=
        List.takeWhile_cons_of_pos (by simpa using hc)
      have hdrop : (c :: rest).dropWhile (· != quote) = rest.dropWhile (· != quote) :=
        List.dropWhile_cons_of_pos (by simpa using hc)
      have hread : Reader.read ⟨finished, .quoted quote start before⟩ offset c =
          ⟨finished, .quoted quote start (c :: before)⟩ := by
        simp [Reader.read, hc]
      have hrest : quote ∈ rest := (List.mem_cons.mp h).resolve_left (Ne.symm hc)
      have hoffset : offset + 1 + (rest.takeWhile (· != quote)).length + 1 =
          offset + (c :: rest.takeWhile (· != quote)).length + 1 := by
        rw [List.length_cons]
        omega
      rw [Reader.readAll, hread, ih hrest, htake, hdrop, hoffset, List.reverse_cons,
        List.append_assoc]
      rfl

/-- A quoted token whose quote does not occur again is the rest of the line. -/
theorem cut_readAll_unclosed {chars : List Char} (h : quote ∉ chars) (offset start : Nat)
    (before : List Char) :
    (Reader.readAll ⟨finished, .quoted quote start before⟩ offset chars).cut =
      ⟨finished.reverse ++ [String.ofList (before.reverse ++ chars)], some ⟨quote, start⟩⟩ := by
  induction chars generalizing offset before with
  | nil => simp [Reader.readAll, Reader.cut, Reader.finish]
  | cons c rest ih =>
    rw [List.mem_cons, not_or] at h
    obtain ⟨hc, hrest⟩ := h
    have hread : Reader.read ⟨finished, .quoted quote start before⟩ offset c =
        ⟨finished, .quoted quote start (c :: before)⟩ := by
      simp [Reader.read, Ne.symm hc]
    rw [Reader.readAll, hread, ih hrest, List.reverse_cons, List.append_assoc]
    rfl

end

/-! ## The machine and the recursion -/

/-- From a gap on, the machine finds what the recursion finds. -/
theorem cut_readAll_gap (finished : List String) (offset : Nat) (chars : List Char) :
    (Reader.readAll ⟨finished, .gap⟩ offset chars).cut =
      ⟨finished.reverse ++ (scanFrom offset chars).cut.tokens, (scanFrom offset chars).unclosed⟩ := by
  fun_induction scanFrom offset chars generalizing finished with
  | case1 => simp [Reader.readAll, Reader.cut, Scan.cut]
  | case2 offset c rest hseparator ih =>
    rw [Reader.readAll, read_gap_separator _ hseparator, ih]
  | case3 offset c rest hseparator hquote hmem ih =>
    have hread : Reader.read ⟨finished, .gap⟩ offset c = ⟨finished, .quoted c offset []⟩ := by
      simp [Reader.read, hquote]
    rw [Reader.readAll, hread, cut_readAll_quoted _ hmem, ih]
    simp [Scan.cut, Scan.cons, Piece.text]
  | case4 offset c rest hseparator hquote hmem =>
    have hread : Reader.read ⟨finished, .gap⟩ offset c = ⟨finished, .quoted c offset []⟩ := by
      simp [Reader.read, hquote]
    rw [Reader.readAll, hread, cut_readAll_unclosed _ hmem]
    simp [Scan.cut, Piece.text]
  | case5 offset c rest hseparator hquote ih =>
    have hread : Reader.read ⟨finished, .gap⟩ offset c = ⟨finished, .word [c]⟩ := by
      simp [Reader.read, hquote, hseparator]
    rw [Reader.readAll, hread, cut_readAll_word, ih]
    simp [Scan.cut, Scan.cons, Piece.text]

theorem cut_eq_scan (line : String) : cut line = (scan line).cut := by
  rw [cut, Reader.start, cut_readAll_gap]
  rfl

/-! ## What the pieces look like -/

/-- A word is not empty, holds no separator and does not begin with a quote; what is quoted holds
anything but its own quote. -/
def Piece.WellFormed : Piece → Prop
  | .word chars => (∀ c ∈ chars, Text.isSeparator c = false) ∧
      ∃ first rest, chars = first :: rest ∧ isQuote first = false
  | .quoted quote chars => isQuote quote = true ∧ quote ∉ chars

theorem wellFormed_of_mem_scanFrom {offset : Nat} {chars : List Char} :
    ∀ piece ∈ (scanFrom offset chars).pieces, piece.WellFormed := by
  fun_induction scanFrom offset chars with
  | case1 => exact nofun
  | case2 offset c rest hseparator ih => exact ih
  | case3 offset c rest hseparator hquote hmem ih =>
    refine List.forall_mem_cons.mpr ⟨⟨hquote, fun hinside => ?_⟩, ih⟩
    have hne := List.all_eq_true.mp List.all_takeWhile c hinside
    simp at hne
  | case4 offset c rest hseparator hquote hmem =>
    exact List.forall_mem_singleton.mpr ⟨hquote, hmem⟩
  | case5 offset c rest hseparator hquote ih =>
    refine List.forall_mem_cons.mpr ⟨⟨?_, c, _, rfl, by simpa using hquote⟩, ih⟩
    intro x hx
    rcases List.mem_cons.mp hx with rfl | hx
    · simpa using hseparator
    · simpa [isInside] using List.all_eq_true.mp List.all_takeWhile x hx

/-- A text between quotes that it does not hold is a token, whatever else it holds. -/
theorem cut_quoted {quote : Char} (hquote : isQuote quote = true) {text : String}
    (h : quote ∉ text.toList) :
    cut (String.ofList (quote :: (text.toList ++ [quote]))) = ⟨[text], none⟩ := by
  have hne : ∀ c ∈ text.toList, (c != quote) = true := by
    intro c hc
    simp only [bne_iff_ne, ne_eq]
    rintro rfl
    exact h hc
  have hread : Reader.read ⟨[], .gap⟩ 0 quote = ⟨[], .quoted quote 0 []⟩ := by
    simp [Reader.read, hquote]
  rw [cut, String.toList_ofList, Reader.start, Reader.readAll, hread,
    cut_readAll_quoted _ (by simp), List.takeWhile_append_of_pos hne,
    List.dropWhile_append_of_pos hne]
  simp [Reader.readAll, Reader.cut]

/-- **The machine cuts a line as the recursion does.**  For every line they find the same tokens and
the same open quote.  A token without quotes is not empty, holds no separator and does not begin with
a quote; between quotes any text can stand that does not hold the quote itself, the empty one and one
with separators among them. -/
theorem cut_agrees_scan :
    (∀ line, cut line = (scan line).cut) ∧
    (∀ line chars, .word chars ∈ (scan line).pieces →
      chars ≠ [] ∧ (∀ c ∈ chars, Text.isSeparator c = false) ∧
      ∀ c ∈ chars.head?, isQuote c = false) ∧
    (∀ line quote chars, .quoted quote chars ∈ (scan line).pieces →
      isQuote quote = true ∧ quote ∉ chars) ∧
    ∀ quote, isQuote quote = true → ∀ text : String, quote ∉ text.toList →
      cut (String.ofList (quote :: (text.toList ++ [quote]))) = ⟨[text], none⟩ := by
  refine ⟨cut_eq_scan, fun line chars hword => ?_, fun line quote chars hquoted => ?_,
    fun quote hquote text h => cut_quoted hquote h⟩
  · obtain ⟨hinside, first, rest, rfl, hfirst⟩ := wellFormed_of_mem_scanFrom _ hword
    refine ⟨List.cons_ne_nil _ _, hinside, fun c hc => ?_⟩
    rw [← Option.some.inj hc]
    exact hfirst
  · exact wellFormed_of_mem_scanFrom _ hquoted

/-- A line with a word right after a closing quote, a quote inside a word, an empty token and a quote
that is not closed. -/
def mixedLine : String := "say \"oh  no\"what's '' 'end"

theorem cut_agrees_scan_mixed :
    cut mixedLine = ⟨["say", "oh  no", "what's", "", "end"], some ⟨'\'', 22⟩⟩ ∧
    .word "what's".toList ∈ (scan mixedLine).pieces ∧
    (∀ c ∈ "what's".toList, Text.isSeparator c = false) ∧
    .quoted '"' "oh  no".toList ∈ (scan mixedLine).pieces ∧ '"' ∉ "oh  no".toList ∧
    cut "' \" '" = ⟨[" \" "], none⟩ := by
  have hword : .word "what's".toList ∈ (scan mixedLine).pieces := by decide +kernel
  have hquoted : .quoted '"' "oh  no".toList ∈ (scan mixedLine).pieces := by decide +kernel
  refine ⟨?_, hword, (cut_agrees_scan.2.1 _ _ hword).2.1, hquoted,
    (cut_agrees_scan.2.2.1 _ _ _ hquoted).2, ?_⟩
  · rw [cut_agrees_scan.1]
    decide +kernel
  · exact cut_agrees_scan.2.2.2 '\'' (by decide) " \" " (by decide)

end Line
end CommandGrammar
