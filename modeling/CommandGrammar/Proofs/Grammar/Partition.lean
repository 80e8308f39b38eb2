import CommandGrammar.Proofs.Grammar.Cutting

/-!
# The lexemes of a source are its parts

A syntax error points into the source by the offset of a lexeme, so the offsets have to be right.
They are: written down again, each at its offset, the lexemes give back the source except for its
separators, no character is written twice, and none outside of the source
(`lexemes_partition_source`).

* `bounds_of_mem_lexemesFrom` and `pairwise_lexemesFrom` say between which places a lexeme stands,
  and that one lexeme ends before the next one begins.
* `writtenAt_lexemesFrom` says what is written at each place.  It is proved one lexeme at a time:
  `writtenAt_lexeme` is the step, for marks and words alike.
* `exists_whole_word` takes a source apart at a word.  That no character of the word stands before
  it is known of every lexeme (`exists_stands`); that none stands after it has to be seen from how
  far the word was read (`ended_of_lexemesFrom_word`).
-/

namespace CommandGrammar
namespace Grammar

/-- The place right after a lexeme. -/
def Placed.stop (placed : Placed) : Nat := placed.offset + placed.lexeme.characters.length

/-- The character that a lexeme has at a place of the source, if it reaches there. -/
def Placed.characterAt (placed : Placed) (place : Nat) : Option Char :=
  if place < placed.offset then none else placed.lexeme.characters[place - placed.offset]?

/-- All characters that lexemes have at a place of the source. -/
def writtenAt (lexemes : List Placed) (place : Nat) : List Char :=
  lexemes.flatMap fun placed => (placed.characterAt place).toList

theorem writtenAt_cons (placed : Placed) (rest : List Placed) (place : Nat) :
    writtenAt (placed :: rest) place = (placed.characterAt place).toList ++ writtenAt rest place :=
  List.flatMap_cons

theorem Placed.characterAt_of_lt {placed : Placed} {place : Nat} (h : place < placed.offset) :
    placed.characterAt place = none := if_pos h

theorem Placed.characterAt_add (placed : Placed) (i : Nat) :
    placed.characterAt (placed.offset + i) = placed.lexeme.characters[i]? := by
  rw [characterAt, if_neg (by omega), Nat.add_sub_cancel_left]

/-! ## Where lexemes stand -/

/-- A lexeme takes up places, and these are inside of the text that it is cut from. -/
theorem bounds_of_mem_lexemesFrom {offset : Nat} {cs : List Char} {placed : Placed}
    (h : placed ∈ lexemesFrom offset cs) :
    offset ≤ placed.offset ∧ placed.offset < placed.stop ∧ placed.stop ≤ offset + cs.length := by
  obtain ⟨earlier, later, hsplit⟩ := List.append_of_mem h
  obtain ⟨before, after, rfl, -, hstands⟩ := exists_stands hsplit
  have hpos := List.length_pos_iff.mpr hstands.characters_ne_nil
  rw [Placed.stop, hstands.place, List.length_append, List.length_append]
  omega

/-- A lexeme ends before the next one begins. -/
theorem pairwise_lexemesFrom (offset : Nat) (cs : List Char) :
    (lexemesFrom offset cs).Pairwise fun a b => a.stop ≤ b.offset := by
  fun_induction lexemesFrom offset cs with
  | case1 => exact .nil
  | case2 offset c rest hseparator ih => exact ih
  | case3 offset c rest hseparator mark hmark ih =>
    refine .cons (fun next hnext => ?_) ih
    rw [Placed.stop, characters_of_markOf hmark]
    exact (bounds_of_mem_lexemesFrom hnext).1
  | case4 offset c rest hseparator hmark tail ih =>
    refine .cons (fun next hnext => ?_) ih
    have hbegin := (bounds_of_mem_lexemesFrom hnext).1
    show offset + (String.ofList (c :: tail)).toList.length ≤ next.offset
    rw [String.toList_ofList, List.length_cons]
    omega

/-! ## What lexemes write -/

theorem not_isSeparator_of_isWordChar {c : Char} (h : isWordChar c = true) :
    Text.isSeparator c = false := by
  by_contra hne
  rw [isWordChar, isDelimiter_of_isSeparator (Bool.not_eq_false _ ▸ hne)] at h
  cases h

/-- Nothing is written before the text that is cut. -/
theorem writtenAt_of_lt {offset place : Nat} (h : place < offset) (cs : List Char) :
    writtenAt (lexemesFrom offset cs) place = [] := by
  refine List.flatMap_eq_nil_iff.mpr fun placed hplaced => ?_
  have hbegin := (bounds_of_mem_lexemesFrom hplaced).1
  rw [Placed.characterAt_of_lt (by omega), Option.toList_none]

/-- A lexeme without separators writes its own characters, and leaves what comes after it as it
is. -/
theorem writtenAt_lexeme {lexeme : Lexeme} {offset : Nat} {rest : List Char}
    (hplain : ∀ c ∈ lexeme.characters, Text.isSeparator c = false)
    (hrest : ∀ i, writtenAt (lexemesFrom (offset + lexeme.characters.length) rest)
      (offset + lexeme.characters.length + i) =
        (rest[i]?.filter fun c => !Text.isSeparator c).toList) (i : Nat) :
    writtenAt (⟨lexeme, offset⟩ :: lexemesFrom (offset + lexeme.characters.length) rest)
      (offset + i) =
        ((lexeme.characters ++ rest)[i]?.filter fun c => !Text.isSeparator c).toList := by
  have hown : Placed.characterAt ⟨lexeme, offset⟩ (offset + i) = lexeme.characters[i]? :=
    Placed.characterAt_add ⟨lexeme, offset⟩ i
  rw [writtenAt_cons, hown]
  by_cases hi : i < lexeme.characters.length
  · have hc : Text.isSeparator lexeme.characters[i] = false := hplain _ (List.getElem_mem hi)
    rw [writtenAt_of_lt (by omega), List.append_nil, List.getElem?_append_left hi,
      List.getElem?_eq_getElem hi, Option.filter_some, hc]
    rfl
  · have hlater := hrest (i - lexeme.characters.length)
    rw [Nat.add_assoc, Nat.add_sub_cancel' (by omega)] at hlater
    rw [hlater, List.getElem?_append_right (by omega), List.getElem?_eq_none (by omega)]
    rfl

/-- At every place the lexemes write the character that stands there, once, unless it is a
separator. -/
theorem writtenAt_lexemesFrom (offset : Nat) (cs : List Char) (i : Nat) :
    writtenAt (lexemesFrom offset cs) (offset + i) =
      (cs[i]?.filter fun c => !Text.isSeparator c).toList := by
  fun_induction lexemesFrom offset cs generalizing i with
  | case1 => rfl
  | case2 offset c rest hseparator ih =>
    cases i with
    | zero =>
      rw [writtenAt_of_lt (by omega)]
      simp [hseparator]
    | succ j =>
      rw [List.getElem?_cons_succ, ← ih j, Nat.add_assoc, Nat.add_comm 1 j]
  | case3 offset c rest hseparator mark hmark ih =>
    have hwritten := @writtenAt_lexeme mark offset rest
    rw [characters_of_markOf hmark] at hwritten
    exact hwritten (by simpa using hseparator) ih i
  | case4 offset c rest hseparator hmark tail ih =>
    have hc := isWordChar_of_markOf hseparator hmark
    have htail : ∀ d ∈ tail, isWordChar d = true := List.all_eq_true.mp List.all_takeWhile
    have hword : ∀ d ∈ c :: tail, isWordChar d = true := List.forall_mem_cons.mpr ⟨hc, htail⟩
    have hwritten := @writtenAt_lexeme (.word (String.ofList (c :: tail))) offset
      (rest.dropWhile isWordChar)
    rw [Lexeme.characters, String.toList_ofList, ← cons_eq_word_append, List.length_cons,
      Nat.add_comm tail.length 1, ← Nat.add_assoc] at hwritten
    exact hwritten (fun d hd => not_isSeparator_of_isWordChar (hword d hd)) ih i

/-! ## Words -/

/-- A text from which a word is cut goes on after it with a delimiter, if it goes on. -/
theorem ended_of_lexemesFrom_word {offset : Nat} {text : String} {after : List Char}
    (hne : text.toList ≠ []) (hplain : ∀ c ∈ text.toList, isDelimiter c = false)
    {later : List Placed}
    (h : lexemesFrom offset (text.toList ++ after) = ⟨.word text, offset⟩ :: later) :
    Ended after := by
  obtain ⟨c, more, hchars⟩ := List.exists_cons_of_ne_nil hne
  have hword : ∀ d ∈ c :: more, isWordChar d = true := by
    intro d hd
    rw [isWordChar, hplain d (hchars ▸ hd)]
    rfl
  obtain ⟨hc, hmore⟩ := List.forall_mem_cons.mp hword
  rw [hchars, List.cons_append, lexemesFrom_word hc, List.takeWhile_append_of_pos hmore] at h
  obtain ⟨hfirst, -⟩ := List.cons.inj h
  have htext : String.ofList (c :: (more ++ after.takeWhile isWordChar)) = text :=
    Lexeme.word.inj (Placed.mk.inj hfirst).1
  rw [← htext, String.toList_ofList] at hchars
  have hnone : after.takeWhile isWordChar = [] := by
    simpa using hchars
  have hafter : after.dropWhile isWordChar = after := by
    rw [← List.nil_append (after.dropWhile isWordChar), ← hnone, List.takeWhile_append_dropWhile]
  rw [← hafter]
  exact ended_dropWhile after

/-- A word of a source is not empty and holds no delimiter, and there are delimiters around it. -/
theorem exists_whole_word {offset place : Nat} {cs : List Char} {text : String}
    (h : ⟨.word text, place⟩ ∈ lexemesFrom offset cs) :
    ∃ before after, cs = before ++ (text.toList ++ after) ∧ place = offset + before.length ∧
      text.toList ≠ [] ∧ (∀ c ∈ text.toList, isDelimiter c = false) ∧
      (∀ c ∈ before.getLast?, isDelimiter c = true) ∧ Ended after := by
  have hplain := isPlain_of_mem_lexemesFrom h text rfl
  obtain ⟨earlier, later, hsplit⟩ := List.append_of_mem h
  obtain ⟨before, after, rfl, hearlier, hstands⟩ := exists_stands hsplit
  have hne : text.toList ≠ [] := hstands.characters_ne_nil
  have hplace : place = offset + before.length := hstands.place
  refine ⟨before, after, rfl, hplace, hne, hplain, ?_, ?_⟩
  · rcases hstands.apart with hbefore | hended
    · exact hbefore
    · -- the word itself does not begin with a delimiter
      obtain ⟨c, more, hchars⟩ := List.exists_cons_of_ne_nil hne
      have hdelimiter : isDelimiter c = true := hended c (by rw [Lexeme.characters, hchars]; rfl)
      rw [hplain c (by rw [hchars]; exact List.mem_cons_self)] at hdelimiter
      cases hdelimiter
  · rw [lexemesFrom_append hstands.apart, hearlier, List.append_cancel_left_eq, ← hplace] at hsplit
    exact ended_of_lexemesFrom_word hne hplain hsplit

/-! ## The source as a whole -/

/-- **The lexemes partition the source.**  Their offsets ascend.  What they write at the place of a
character of the source, each at its offset, is this one character, or nothing if it is a separator.
No lexeme reaches into the next one or past the end of the source.  Each word is not empty and holds
no delimiter, and the characters before and after it, where there are any, are delimiters. -/
theorem lexemes_partition_source (source : String) :
    ((lexemes source).map Placed.offset).Pairwise (· < ·) ∧
    (∀ i c, source.toList[i]? = some c →
      writtenAt (lexemes source) i = if Text.isSeparator c then [] else [c]) ∧
    (lexemes source).Pairwise (fun a b => a.stop ≤ b.offset) ∧
    (∀ placed ∈ lexemes source, placed.stop ≤ source.length) ∧
    ∀ text offset, ⟨.word text, offset⟩ ∈ lexemes source →
      text ≠ "" ∧ (∀ c ∈ text.toList, isDelimiter c = false) ∧
      (∀ c, 0 < offset → source.toList[offset - 1]? = some c → isDelimiter c = true) ∧
      ∀ c, source.toList[offset + text.length]? = some c → isDelimiter c = true := by
  have hapart : (lexemes source).Pairwise (fun a b => a.stop ≤ b.offset) :=
    pairwise_lexemesFrom 0 source.toList
  refine ⟨?_, fun i c hc => ?_, hapart, fun placed hplaced => ?_, fun text offset hword => ?_⟩
  · refine List.pairwise_map.mpr (hapart.imp_of_mem fun {a b} ha _ hstop => ?_)
    have hbegin := (bounds_of_mem_lexemesFrom ha).2.1
    omega
  · have hwritten := writtenAt_lexemesFrom 0 source.toList i
    rw [Nat.zero_add, hc, Option.filter_some] at hwritten
    rw [lexemes, hwritten]
    cases Text.isSeparator c <;> rfl
  · have hbounds := (bounds_of_mem_lexemesFrom hplaced).2.2
    rwa [Nat.zero_add, String.length_toList] at hbounds
  · obtain ⟨before, after, hsource, rfl, hne, hplain, hbefore, hafter⟩ := exists_whole_word hword
    rw [Nat.zero_add, hsource]
    refine ⟨fun hempty => hne (by rw [hempty]; rfl), hplain, fun c hpos hc => ?_, fun c hc => ?_⟩
    · rw [List.getElem?_append_left (by omega), ← List.getLast?_eq_getElem?] at hc
      exact hbefore c hc
    · rw [List.getElem?_append_right (by omega), Nat.add_sub_cancel_left, ← String.length_toList,
        List.getElem?_append_right (by omega), Nat.sub_self, ← List.head?_eq_getElem?] at hc
      exact hafter c hc

/-- In `take (ITEM)?` the word `ITEM` stands right between two marks. -/
theorem lexemes_partition_source_item :
    lexemes "take (ITEM)?" = [⟨.word "take", 0⟩, ⟨.openGroup, 5⟩, ⟨.word "ITEM", 6⟩,
      ⟨.closeGroup, 10⟩, ⟨.quantifier .optional, 11⟩] ∧
    writtenAt (lexemes "take (ITEM)?") 4 = [] ∧ writtenAt (lexemes "take (ITEM)?") 9 = ['M'] ∧
    isDelimiter '(' = true ∧ isDelimiter ')' = true := by
  have hcut : lexemes "take (ITEM)?" = [⟨.word "take", 0⟩, ⟨.openGroup, 5⟩, ⟨.word "ITEM", 6⟩,
      ⟨.closeGroup, 10⟩, ⟨.quantifier .optional, 11⟩] := by
    decide +kernel
  obtain ⟨-, hwritten, -, -, hword⟩ := lexemes_partition_source "take (ITEM)?"
  obtain ⟨-, -, hbefore, hafter⟩ := hword "ITEM" 6 (by simp [hcut])
  exact ⟨hcut, hwritten 4 ' ' rfl, hwritten 9 'M' rfl, hbefore '(' (by decide) rfl,
    hafter ')' rfl⟩

end Grammar
end CommandGrammar
