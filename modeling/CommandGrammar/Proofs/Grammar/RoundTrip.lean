import CommandGrammar.Proofs.Grammar.Spelling

/-!
# Reading what was written

The text of a canonical tree is cut into the spelling of the tree (`IsElement.lexes`), and the
spelling is read as the tree.  Together with the fact that only canonical trees are read this makes
reading and writing inverse to each other (`parse_inverts_toSource`): the canonical trees are exactly
those that have a source, and writing one of them down gives a source of it.

A text is cut the same way whatever follows it only if what follows does not prolong its last word.
After an element there is a space, a bar, a parenthesis, a quantifier or the end of the source, and
all of these end a word (`Ended`).
-/

namespace CommandGrammar
namespace Grammar

/-! ## Lexemes without their places -/

theorem isWordChar_of_markOf {c : Char} (hseparator : ¬ Text.isSeparator c = true)
    (hmark : markOf c = none) : isWordChar c = true := by
  simp [isWordChar, isDelimiter, hseparator, hmark]

theorem map_lexeme_lexemesFrom (offset other : Nat) (cs : List Char) :
    (lexemesFrom offset cs).map Placed.lexeme = (lexemesFrom other cs).map Placed.lexeme := by
  fun_induction lexemesFrom offset cs generalizing other with
  | case1 => rw [lexemesFrom_nil]
  | case2 offset c rest hseparator ih => rw [lexemesFrom_separator hseparator, ih (other + 1)]
  | case3 offset c rest hseparator mark hmark ih =>
    rw [lexemesFrom_mark (Bool.eq_false_iff.mpr hseparator) hmark, List.map_cons, List.map_cons,
      ih (other + 1)]
  | case4 offset c rest hseparator hmark tail ih =>
    rw [lexemesFrom_word (isWordChar_of_markOf hseparator hmark), List.map_cons, List.map_cons, ih]

/-- What characters are cut into. -/
def kinds (cs : List Char) : List Lexeme := (lexemesFrom 0 cs).map Placed.lexeme

@[simp] theorem kinds_nil : kinds [] = [] := by
  rw [kinds, lexemesFrom_nil, List.map_nil]

theorem kinds_separator {c : Char} (h : Text.isSeparator c = true) (rest : List Char) :
    kinds (c :: rest) = kinds rest := by
  rw [kinds, lexemesFrom_separator h, map_lexeme_lexemesFrom _ 0, kinds]

theorem kinds_mark {c : Char} {mark : Lexeme} (hseparator : Text.isSeparator c = false)
    (h : markOf c = some mark) (rest : List Char) : kinds (c :: rest) = mark :: kinds rest := by
  rw [kinds, lexemesFrom_mark hseparator h, List.map_cons, map_lexeme_lexemesFrom _ 0, kinds]

/-! ## Cutting a text -/

/-- No word goes on here: there is nothing more, or a delimiter. -/
def Ended (rest : List Char) : Prop := ∀ c ∈ rest.head?, isDelimiter c = true

theorem ended_nil : Ended [] := fun _ h => absurd h (Option.not_mem_none _)

theorem ended_cons {c : Char} (h : isDelimiter c = true) (rest : List Char) : Ended (c :: rest) := by
  intro d hd
  rw [← Option.some.inj hd]
  exact h

/-- Where a word has ended, no character of it is left. -/
theorem Ended.takeWhile_eq_nil {rest : List Char} (h : Ended rest) :
    rest.takeWhile isWordChar = [] ∧ rest.dropWhile isWordChar = rest := by
  cases rest with
  | nil => exact ⟨rfl, rfl⟩
  | cons c more =>
    have hc : isDelimiter c = true := h c rfl
    simp [isWordChar, hc]

/-- A word is cut off whole, and what comes after it is cut by itself. -/
theorem lexemesFrom_word_append {c : Char} {others rest : List Char}
    (hc : isWordChar c = true) (hothers : ∀ d ∈ others, isWordChar d = true) (hrest : Ended rest)
    (offset : Nat) :
    lexemesFrom offset (c :: others ++ rest) = ⟨.word (String.ofList (c :: others)), offset⟩ ::
      lexemesFrom (offset + 1 + others.length) rest := by
  obtain ⟨htake, hdrop⟩ := hrest.takeWhile_eq_nil
  rw [List.cons_append, lexemesFrom_word hc, List.takeWhile_append_of_pos hothers, htake,
    List.append_nil, List.dropWhile_append_of_pos hothers, hdrop]

/-- A word without delimiters is cut off whole. -/
theorem kinds_word {text : String} (hne : text.toList ≠ [])
    (hplain : ∀ c ∈ text.toList, isDelimiter c = false) {rest : List Char} (hrest : Ended rest) :
    kinds (text.toList ++ rest) = .word text :: kinds rest := by
  have hword : ∀ c ∈ text.toList, isWordChar c = true := by
    intro c hc
    rw [isWordChar, hplain c hc]
    rfl
  cases hchars : text.toList with
  | nil => exact absurd hchars hne
  | cons c more =>
    rw [hchars] at hword
    obtain ⟨hc, hmore⟩ := List.forall_mem_cons.mp hword
    have htext : String.ofList (c :: more) = text := by
      rw [← hchars, String.ofList_toList]
    rw [kinds, lexemesFrom_word_append hc hmore hrest, htext, List.map_cons,
      map_lexeme_lexemesFrom _ 0, kinds]

/-- A text is cut into the given lexemes wherever no word goes on after it. -/
def Lexes (text : String) (lexemes : List Lexeme) : Prop :=
  ∀ rest, Ended rest → kinds (text.toList ++ rest) = lexemes ++ kinds rest

theorem lexes_word {case other : Char → Bool} {text : String} (h : IsWord case other text) :
    Lexes text [.word text] := by
  intro rest hrest
  obtain ⟨c, hc, _⟩ := h.exists_case
  exact kinds_word (List.ne_nil_of_mem hc) h.plain hrest

theorem toList_toString (c : Char) : c.toString.toList = [c] := String.toList_singleton c

/-- Texts with a delimiter between them are cut one after the other. -/
theorem lexes_intercalate {α : Type} {text : α → String} {lexemes : α → List Lexeme}
    {parts : List α} (h : ∀ part ∈ parts, Lexes (text part) (lexemes part)) {c : Char}
    {between : List Lexeme} (hdelimiter : isDelimiter c = true)
    (hbetween : ∀ rest, kinds (c :: rest) = between ++ kinds rest) :
    Lexes (c.toString.intercalate (parts.map text)) (between.intercalate (parts.map lexemes)) := by
  intro rest hrest
  induction parts with
  | nil => simp
  | cons first others ih =>
    have hfirst := h first List.mem_cons_self
    cases others with
    | nil =>
      rw [List.map_singleton, List.map_singleton, String.intercalate_singleton,
        List.intercalate_singleton]
      exact hfirst rest hrest
    | cons second more =>
      have hmore := ih fun part hpart => h part (List.mem_cons_of_mem _ hpart)
      rw [List.map_cons, List.map_cons] at hmore
      simp only [List.map_cons, String.intercalate_cons_cons, List.intercalate_cons_cons,
        String.toList_append, List.append_assoc]
      rw [toList_toString, List.singleton_append, hfirst _ (ended_cons hdelimiter _), hbetween,
        hmore]

/-- A text in parentheses is cut into the lexemes of a group. -/
theorem Lexes.group {text : String} {branches : List (List Lexeme)}
    (h : Lexes text ([.bar].intercalate branches)) :
    Lexes ("(" ++ text ++ ")") (groupSpelling branches) := by
  intro rest _
  have hclose : Ended (')' :: rest) := ended_cons rfl rest
  rw [String.toList_append, String.toList_append, List.append_assoc, List.append_assoc]
  show kinds ('(' :: (text.toList ++ ')' :: rest)) = _
  rw [@kinds_mark _ .openGroup rfl rfl, h _ hclose, @kinds_mark _ .closeGroup rfl rfl]
  simp [groupSpelling]

/-- An element with a quantifier is cut into its lexemes and the quantifier. -/
theorem Lexes.quantified {text : String} {lexemes : List Lexeme} (h : Lexes text lexemes)
    (quantifier : Quantifier) :
    Lexes (text ++ quantifier.symbol.toString) (lexemes ++ [.quantifier quantifier]) := by
  intro rest _
  have hmark : Text.isSeparator quantifier.symbol = false ∧
      markOf quantifier.symbol = some (.quantifier quantifier) := by
    cases quantifier <;> exact ⟨rfl, rfl⟩
  have hended : isDelimiter quantifier.symbol = true := by
    rw [isDelimiter, hmark.1, hmark.2]
    rfl
  rw [String.toList_append, toList_toString, List.append_assoc, List.singleton_append,
    h _ (ended_cons hended rest), kinds_mark hmark.1 hmark.2, List.append_assoc,
    List.singleton_append]

/-! ## The text of a tree -/

theorem elements_eq_map (children : List Grammar) : elements children = children.map element := by
  induction children with
  | nil => rfl
  | cons child rest ih => rw [elements, ih, List.map_cons]

theorem branchTexts_eq_map (branches : List (List Grammar)) :
    branchTexts branches = branches.map fun branch => " ".intercalate (elements branch) := by
  induction branches with
  | nil => rfl
  | cons branch rest ih => rw [branchTexts, ih, List.map_cons]

theorem spellingAll_eq_flatten (children : List Grammar) :
    spellingAll children = (children.map spelling).flatten := by
  induction children with
  | nil => rfl
  | cons child rest ih => rw [spellingAll, ih, List.map_cons, List.flatten_cons]

theorem spellingBranches_eq_map (branches : List (List Grammar)) :
    spellingBranches branches = branches.map spellingAll := by
  induction branches with
  | nil => rfl
  | cons branch rest ih => rw [spellingBranches, ih, List.map_cons]

theorem intercalate_nil_eq_flatten {α : Type} (parts : List (List α)) :
    [].intercalate parts = parts.flatten := by
  induction parts with
  | nil => rfl
  | cons first rest ih =>
    cases rest with
    | nil => simp
    | cons second more =>
      rw [List.intercalate_cons_cons, ih, List.append_nil, ← List.flatten_cons]

/-- The children of a sequence are written with spaces between them. -/
theorem lexes_elements {children : List Grammar}
    (h : ∀ child ∈ children, Lexes child.element child.spelling) :
    Lexes (" ".intercalate (elements children)) (spellingAll children) := by
  rw [elements_eq_map, spellingAll_eq_flatten, ← intercalate_nil_eq_flatten]
  exact lexes_intercalate (c := ' ') h rfl fun rest => kinds_separator rfl rest

/-- The branches of a group are written with bars between them. -/
theorem lexes_branchTexts {branches : List (List Grammar)}
    (h : ∀ branch ∈ branches, ∀ child ∈ branch, Lexes child.element child.spelling) :
    Lexes ("|".intercalate (branchTexts branches)) ([.bar].intercalate (spellingBranches branches)) := by
  rw [branchTexts_eq_map, spellingBranches_eq_map]
  exact lexes_intercalate (c := '|') (fun branch hbranch => lexes_elements (h branch hbranch)) rfl
    fun rest => kinds_mark rfl rfl rest

/-- The text of an element is cut into its spelling. -/
theorem IsElement.lexes {room : Nat} {tree : Grammar} (h : tree.IsElement room) :
    Lexes tree.element tree.spelling := by
  induction h with
  | keyword hword => exact lexes_word hword
  | tag htag => exact lexes_word htag
  | @tags room tags hlength _ htags =>
    have hinside : Lexes ("|".intercalate (tags.map id))
        ([.bar].intercalate (tags.map fun tag => [.word tag])) :=
      lexes_intercalate (c := '|') (fun tag htag => lexes_word (htags tag htag)) rfl
        fun rest => kinds_mark rfl rfl rest
    rw [List.map_id] at hinside
    match tags, hlength with
    | first :: second :: rest, _ => exact hinside.group
  | sequence _ _ ih =>
    refine Lexes.group ?_
    rw [List.intercalate_singleton]
    exact lexes_elements ih
  | alternatives _ _ _ _ ih => exact (lexes_branchTexts ih).group
  | quantified _ _ ih => exact ih.quantified _

/-! ## Reading and writing -/

/-- A canonical tree is made of branches that are not empty, and its text is theirs. -/
theorem Canonical.exists_branches {tree : Grammar} (h : tree.Canonical) :
    ∃ branches, branches ≠ [] ∧ (∀ branch ∈ branches, IsBranch maxNesting branch) ∧
      gathered false branches = tree ∧ tree.toSource = "|".intercalate (branchTexts branches) := by
  cases h with
  | @sequence children hchildren =>
    refine ⟨[children], List.cons_ne_nil _ _, fun branch hbranch => ?_, rfl, ?_⟩
    · rw [List.mem_singleton.mp hbranch]
      exact hchildren
    · rw [branchTexts, branchTexts, String.intercalate_singleton, toSource]
  | @alternatives branches hlength hbranches =>
    refine ⟨branches, ?_, hbranches, gathered_of_two_le false hlength, rfl⟩
    rintro rfl
    cases hlength

/-- The text of branches is cut into their spelling. -/
theorem kinds_branchTexts {room : Nat} {branches : List (List Grammar)}
    (h : ∀ branch ∈ branches, IsBranch room branch) :
    kinds ("|".intercalate (branchTexts branches)).toList =
      [.bar].intercalate (spellingBranches branches) := by
  have hlexes := lexes_branchTexts (fun branch hbranch child hchild =>
    ((h branch hbranch).2 child hchild).lexes) [] ended_nil
  rw [List.append_nil, kinds_nil, List.append_nil] at hlexes
  exact hlexes

/-- What is written for a canonical tree is read as the tree. -/
theorem parse_toSource {tree : Grammar} (h : tree.Canonical) : parse tree.toSource = .ok tree := by
  obtain ⟨branches, hne, hbranches, rfl, hsource⟩ := h.exists_branches
  have hkinds : (lexemes (gathered false branches).toSource).map Placed.lexeme =
      [.bar].intercalate (spellingBranches branches) := by
    rw [hsource]
    exact kinds_branchTexts hbranches
  have hdepth : ([] : List Draft).length + maxNesting ≤ maxNesting := by simp
  obtain ⟨draft, hreads, hlast, hcontent⟩ := reads_spellingBranches hne
    (fun branch hbranch => ⟨(hbranches branch hbranch).1, fun child hchild =>
      ((hbranches branch hbranch).2 child hchild).legible⟩) hdepth []
  refine parseWith_eq_ok_iff.mpr ⟨draft, ?_, hlast, ?_⟩
  · rw [hkinds]
    exact hreads
  · rw [hcontent]
    rfl

/-- **Reading and writing are inverse on canonical trees.**  Every tree that is read is canonical,
and a canonical tree is read from what is written for it.  So what was read once is read again from
its own text, and trees that were read and are written alike are equal. -/
theorem parse_inverts_toSource :
    (∀ source tree, parse source = .ok tree → tree.Canonical) ∧
    (∀ tree, tree.Canonical → parse tree.toSource = .ok tree) ∧
    (∀ source tree, parse source = .ok tree → parse tree.toSource = .ok tree) ∧
    (∀ source other tree second, parse source = .ok tree → parse other = .ok second →
      tree.toSource = second.toSource → tree = second) := by
  refine ⟨fun source tree h => canonical_of_parse h, fun tree h => parse_toSource h,
    fun source tree h => parse_toSource (canonical_of_parse h), ?_⟩
  intro source other tree second htree hsecond hsame
  have hreparse := parse_toSource (canonical_of_parse htree)
  rw [hsame, parse_toSource (canonical_of_parse hsecond)] at hreparse
  exact (Except.ok.inj hreparse).symm

/-- A tree with a folded capture and a quantified group is canonical, and is read from its text. -/
theorem parse_inverts_toSource_put :
    ∃ tree : Grammar, tree.Canonical ∧ tree.toSource = "put (ITEM|NPC) (in BOX)?" ∧
      parse "put (ITEM|NPC) (in BOX)?" = .ok tree := by
  have hput : IsElement maxNesting (keyword "put") := .keyword (by decide +kernel)
  have hitem : IsElement maxNesting (capture ["ITEM", "NPC"]) := by
    refine .tags (by decide) (by decide) fun tag htag => ?_
    rcases List.mem_pair.mp htag with rfl | rfl <;> decide +kernel
  have hbox : IsElement maxNesting
      (quantified .optional (sequence [keyword "in", capture ["BOX"]])) := by
    refine .quantified rfl (.sequence (List.cons_ne_nil _ _) fun child hchild => ?_)
    rcases List.mem_pair.mp hchild with rfl | rfl
    · exact .keyword (by decide +kernel)
    · exact .tag (by decide +kernel)
  have hcanonical : Canonical (sequence [keyword "put", capture ["ITEM", "NPC"],
      quantified .optional (sequence [keyword "in", capture ["BOX"]])]) := by
    refine .sequence ⟨List.cons_ne_nil _ _, fun child hchild => ?_⟩
    rcases List.mem_cons.mp hchild with rfl | hchild
    · exact hput
    · rcases List.mem_pair.mp hchild with rfl | rfl
      · exact hitem
      · exact hbox
  have hsource : toSource (sequence [keyword "put", capture ["ITEM", "NPC"],
      quantified .optional (sequence [keyword "in", capture ["BOX"]])]) =
        "put (ITEM|NPC) (in BOX)?" := by decide
  refine ⟨_, hcanonical, hsource, ?_⟩
  rw [← hsource]
  exact parse_inverts_toSource.2.1 _ hcanonical

end Grammar
end CommandGrammar
