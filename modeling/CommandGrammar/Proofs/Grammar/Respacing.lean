import CommandGrammar.Proofs.Grammar.RoundTrip

/-!
# One separator for another

Which separators stand in the source of a grammar does not matter: a separator ends a word and takes
up one place, and all four of them do so in the same way.  `Text.respaced` puts a space in the place
of every separator.  The lexemes of a source, their offsets and the length of the source stay as they
are, so the tree that is read is the same, and so is any error (`parse_respaced`).  Two texts that
differ in their separators only become equal, which is how they are compared.
-/

namespace CommandGrammar

namespace Text

/-- A space in the place of a separator; any other character stays. -/
def spaced (c : Char) : Char := if isSeparator c then ' ' else c

theorem spaced_of_isSeparator {c : Char} (h : isSeparator c = true) : spaced c = ' ' := if_pos h

theorem spaced_of_not_isSeparator {c : Char} (h : isSeparator c = false) : spaced c = c :=
  if_neg (by simp [h])

/-- What all separators have in common with the space does not tell them apart. -/
theorem apply_spaced {α : Type} {f : Char → α} (h : ∀ c, isSeparator c = true → f c = f ' ')
    (c : Char) : f (spaced c) = f c := by
  cases hc : isSeparator c with
  | true => rw [spaced_of_isSeparator hc, h c hc]
  | false => rw [spaced_of_not_isSeparator hc]

theorem isSeparator_spaced (c : Char) : isSeparator (spaced c) = isSeparator c :=
  apply_spaced (fun _ hc => hc) c

theorem isBlank_spaced (c : Char) : isBlank (spaced c) = isBlank c :=
  apply_spaced (fun _ hc => isBlank_of_isSeparator hc) c

/-- Characters that are no separators stay. -/
theorem map_spaced_of_not_isSeparator {cs : List Char} (h : ∀ c ∈ cs, isSeparator c = false) :
    cs.map spaced = cs := by
  conv_rhs => rw [← List.map_id cs]
  exact List.map_congr_left fun c hc => spaced_of_not_isSeparator (h c hc)

section

variable {p : Char → Bool}

theorem takeWhile_map_spaced (h : ∀ c, p (spaced c) = p c) (cs : List Char) :
    (cs.map spaced).takeWhile p = (cs.takeWhile p).map spaced := by
  rw [List.takeWhile_map, show p ∘ spaced = p from funext h]

theorem dropWhile_map_spaced (h : ∀ c, p (spaced c) = p c) (cs : List Char) :
    (cs.map spaced).dropWhile p = (cs.dropWhile p).map spaced := by
  rw [List.dropWhile_map, show p ∘ spaced = p from funext h]

/-- A run of characters that excludes separators is the same in both texts. -/
theorem takeWhile_map_spaced_of_not_isSeparator (h : ∀ c, isSeparator c = true → p c = false)
    (cs : List Char) : (cs.map spaced).takeWhile p = cs.takeWhile p := by
  have hsame : ∀ c, p (spaced c) = p c :=
    apply_spaced fun c hc => by rw [h c hc, h ' ' rfl]
  have hrun : ∀ c ∈ cs.takeWhile p, isSeparator c = false := by
    intro c hc
    have hp : p c = true := List.all_eq_true.mp List.all_takeWhile c hc
    by_contra hne
    rw [h c (Bool.not_eq_false _ ▸ hne)] at hp
    cases hp
  rw [takeWhile_map_spaced hsame, map_spaced_of_not_isSeparator hrun]

end

/-- The text with a space in the place of every separator. -/
def respaced (text : String) : String := String.ofList (text.toList.map spaced)

@[simp] theorem toList_respaced (text : String) : (respaced text).toList = text.toList.map spaced :=
  String.toList_ofList

theorem length_respaced (text : String) : (respaced text).length = text.length := by
  rw [← String.length_toList, toList_respaced, List.length_map, String.length_toList]

theorem respaced_append (first second : String) :
    respaced (first ++ second) = respaced first ++ respaced second := by
  simp [respaced, String.ofList_append]

/-- With any separator between them texts are joined to the same text, but for the separators. -/
theorem respaced_intercalate {c : Char} (h : isSeparator c = true) (texts : List String) :
    respaced (c.toString.intercalate texts) = " ".intercalate (texts.map respaced) := by
  have hbetween : respaced c.toString = " " := by
    rw [respaced, Grammar.toList_toString, List.map_singleton, spaced_of_isSeparator h]
  induction texts with
  | nil => rfl
  | cons first rest ih =>
    cases rest with
    | nil => simp
    | cons second more =>
      simp only [String.intercalate_cons_cons, respaced_append, ih, hbetween, List.map_cons]

end Text

namespace Grammar

open Text

theorem markOf_spaced (c : Char) : markOf (spaced c) = markOf c := by
  refine apply_spaced (fun c hc => ?_) c
  simp only [isSeparator, Bool.or_eq_true, beq_iff_eq] at hc
  rcases hc with ((rfl | rfl) | rfl) | rfl <;> rfl

theorem isWordChar_of_isSeparator {c : Char} (h : isSeparator c = true) : isWordChar c = false := by
  rw [isWordChar, isDelimiter, h]
  rfl

theorem isWordChar_spaced (c : Char) : isWordChar (spaced c) = isWordChar c :=
  apply_spaced (fun _ hc => isWordChar_of_isSeparator hc) c

/-- A text is cut into the same lexemes at the same places. -/
theorem lexemesFrom_map_spaced (offset : Nat) (cs : List Char) :
    lexemesFrom offset (cs.map spaced) = lexemesFrom offset cs := by
  fun_induction lexemesFrom offset cs with
  | case1 => rw [List.map_nil, lexemesFrom_nil]
  | case2 offset c rest hseparator ih =>
    rw [List.map_cons, lexemesFrom_separator (isSeparator_spaced c ▸ hseparator), ih]
  | case3 offset c rest hseparator mark hmark ih =>
    have hfree : isSeparator (spaced c) = false := by
      rw [isSeparator_spaced, Bool.eq_false_iff.mpr hseparator]
    rw [List.map_cons, lexemesFrom_mark hfree (markOf_spaced c ▸ hmark), ih]
  | case4 offset c rest hseparator hmark tail ih =>
    have hc : isWordChar c = true := isWordChar_of_markOf hseparator hmark
    rw [List.map_cons, spaced_of_not_isSeparator (Bool.eq_false_iff.mpr hseparator),
      lexemesFrom_word hc, dropWhile_map_spaced isWordChar_spaced,
      takeWhile_map_spaced_of_not_isSeparator fun _ hc => isWordChar_of_isSeparator hc, ih]

/-- **Separators are interchangeable**: the same tree is read, or the same error is found in the
same place. -/
theorem parse_respaced (source : String) : parse (respaced source) = parse source := by
  have hlexemes : lexemes (respaced source) = lexemes source := by
    rw [lexemes, toList_respaced, lexemesFrom_map_spaced, lexemes]
  rw [parse, parse, parseWith, parseWith, hlexemes, length_respaced]

end Grammar
end CommandGrammar
