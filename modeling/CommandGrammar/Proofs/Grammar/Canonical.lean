import CommandGrammar.Proofs.FirstOccurrences
import CommandGrammar.Proofs.Grammar.Drafting

/-!
# Canonical grammars

Not every tree has a source.  `Canonical` says which ones do: the root is a group, no group or
branch is empty, an alternation has at least two branches, no quantifier stands on a quantifier,
words are words of a source, in the letter case of what they stand for, a capture has at least one
tag and none twice, and an alternation below the root is not one that would have been folded into a
capture.

Groups may be nested to `maxNesting` levels only.  What stands below the root is therefore described
together with the number of levels that are left for it (`IsElement`): a group takes one of them,
and so does a capture with several tags, which is written as a group.

A draft that is being read fits into the levels left by the groups around it (`Reading.Fits`).  Every
lexeme preserves this (`Reading.Fits.advances`), so every tree that is read is canonical
(`canonical_of_parse`).
-/

namespace CommandGrammar
namespace Grammar

/-! ## Canonical trees -/

/-- A word of a source that has characters of one letter case and none of the other. -/
structure IsWord (case other : Char → Bool) (text : String) : Prop where
  plain : ∀ c ∈ text.toList, isDelimiter c = false
  exists_case : ∃ c ∈ text.toList, case c = true
  not_other : ∀ c ∈ text.toList, other c = false

/-- A word that stands for a keyword. -/
abbrev IsKeyword : String → Prop := IsWord Text.isLower Text.isUpper

/-- A word that stands for a capture. -/
abbrev IsTag : String → Prop := IsWord Text.isUpper Text.isLower

/-- Every branch is a single bare capture. -/
def OnlyCaptures (branches : List (List Grammar)) : Prop :=
  ∀ branch ∈ branches, ∃ tags, branch = [capture tags]

/-- A tree that can stand below the root of a canonical one, with groups nested to at most the given
number of levels.  Alternatives that are all bare captures are excluded: they are one capture. -/
inductive IsElement : Nat → Grammar → Prop where
  | keyword {room : Nat} {word : String} : IsKeyword word → IsElement room (keyword word)
  | tag {room : Nat} {tag : String} : IsTag tag → IsElement room (capture [tag])
  | tags {room : Nat} {tags : List String} : 2 ≤ tags.length → tags.Nodup →
      (∀ tag ∈ tags, IsTag tag) → IsElement (room + 1) (capture tags)
  | sequence {room : Nat} {children : List Grammar} : children ≠ [] →
      (∀ child ∈ children, IsElement room child) → IsElement (room + 1) (sequence children)
  | alternatives {room : Nat} {branches : List (List Grammar)} : 2 ≤ branches.length →
      (∀ branch ∈ branches, branch ≠ []) →
      (∀ branch ∈ branches, ∀ child ∈ branch, IsElement room child) → ¬ OnlyCaptures branches →
      IsElement (room + 1) (alternatives branches)
  | quantified {room : Nat} {quantifier : Quantifier} {inner : Grammar} :
      inner.isQuantified = false → IsElement room inner →
      IsElement room (quantified quantifier inner)

/-- A branch that is not empty, of elements with groups nested to at most the given number of
levels. -/
def IsBranch (room : Nat) (branch : List Grammar) : Prop :=
  branch ≠ [] ∧ ∀ child ∈ branch, child.IsElement room

/-- A tree that has a source.  The group at the root takes none of the levels, and alternatives that
are all bare captures may stand there. -/
inductive Canonical : Grammar → Prop where
  | sequence {children : List Grammar} : IsBranch maxNesting children →
      Canonical (sequence children)
  | alternatives {branches : List (List Grammar)} : 2 ≤ branches.length →
      (∀ branch ∈ branches, IsBranch maxNesting branch) → Canonical (alternatives branches)

/-! ## Words -/

theorem isWord_iff {case other : Char → Bool} {text : String} :
    IsWord case other text ↔ text.toList.any isDelimiter = false ∧
      text.toList.any case = true ∧ text.toList.any other = false := by
  rw [List.any_eq_false, List.any_eq_true, List.any_eq_false]
  simp only [Bool.not_eq_true]
  exact ⟨fun h => ⟨h.plain, h.exists_case, h.not_other⟩, fun h => ⟨h.1, h.2.1, h.2.2⟩⟩

instance (case other : Char → Bool) (text : String) : Decidable (IsWord case other text) :=
  decidable_of_iff _ isWord_iff.symm

/-- A word of a source is a keyword, or a capture with one tag, or refused. -/
theorem classify_eq_ok_iff {text : String} (hplain : ∀ c ∈ text.toList, isDelimiter c = false)
    {leaf : Grammar} : classify text = .ok leaf ↔
      IsKeyword text ∧ leaf = keyword text ∨ IsTag text ∧ leaf = capture [text] := by
  have hdelimiter : text.toList.any isDelimiter = false := by
    rw [List.any_eq_false]
    exact fun c hc => Bool.eq_false_iff.mp (hplain c hc)
  rw [IsKeyword, IsTag, isWord_iff, isWord_iff, hdelimiter, classify]
  cases text.toList.any Text.isLower <;> cases text.toList.any Text.isUpper <;>
    simp [@eq_comm _ leaf]

/-- The word of a lexeme, if it is one, holds no delimiter. -/
def Lexeme.IsPlain (lexeme : Lexeme) : Prop :=
  ∀ text, lexeme = .word text → ∀ c ∈ text.toList, isDelimiter c = false

theorem markOf_ne_word (c : Char) (text : String) : markOf c ≠ some (.word text) := by
  unfold markOf
  split <;> simp

/-- The words of a source hold no delimiters. -/
theorem isPlain_of_mem_lexemesFrom {offset : Nat} {cs : List Char} {placed : Placed}
    (h : placed ∈ lexemesFrom offset cs) : placed.lexeme.IsPlain := by
  fun_induction lexemesFrom offset cs with
  | case1 => cases h
  | case2 offset c rest hseparator ih => exact ih h
  | case3 offset c rest hseparator mark hmark ih =>
    rcases List.mem_cons.mp h with rfl | h
    · intro text htext
      obtain rfl : mark = .word text := htext
      exact absurd hmark (markOf_ne_word c text)
    · exact ih h
  | case4 offset c rest hseparator hmark tail ih =>
    rcases List.mem_cons.mp h with rfl | h
    · intro text htext x hx
      rw [← Lexeme.word.inj htext, String.toList_ofList] at hx
      rcases List.mem_cons.mp hx with rfl | hx
      · simp [isDelimiter, hseparator, hmark]
      · have hword : isWordChar x = true := List.all_eq_true.mp List.all_takeWhile x hx
        simpa [isWordChar] using hword
    · exact ih h

/-! ## Captures -/

/-- Branches share their tags exactly when they are all single bare captures. -/
theorem exists_sharedTags_iff {branches : List (List Grammar)} :
    (∃ tags, sharedTags branches = some tags) ↔ OnlyCaptures branches := by
  fun_induction sharedTags branches with
  | case1 => simp [OnlyCaptures]
  | case2 tags rest ih =>
    simp only [OnlyCaptures, List.forall_mem_cons] at ih ⊢
    rw [← ih]
    simp
  | case3 branches hnil hcapture =>
    constructor
    · rintro ⟨_, h⟩
      cases h
    · intro honly
      cases branches with
      | nil => exact absurd rfl hnil
      | cons branch rest =>
        obtain ⟨tags, rfl⟩ := honly branch List.mem_cons_self
        exact absurd rfl (hcapture tags rest)

/-- The shared tags are those of the branches. -/
theorem mem_sharedTags_iff {branches : List (List Grammar)} {tags : List String}
    (h : sharedTags branches = some tags) {tag : String} :
    tag ∈ tags ↔ ∃ own, [capture own] ∈ branches ∧ tag ∈ own := by
  fun_induction sharedTags branches generalizing tags with
  | case1 =>
    cases h
    simp
  | case2 own rest ih =>
    obtain ⟨others, hothers, rfl⟩ := Option.map_eq_some_iff.mp h
    rw [List.mem_append, ih hothers]
    constructor
    · rintro (hown | ⟨other, hother, hmem⟩)
      · exact ⟨own, List.mem_cons_self, hown⟩
      · exact ⟨other, List.mem_cons_of_mem _ hother, hmem⟩
    · rintro ⟨other, hother, hmem⟩
      rcases List.mem_cons.mp hother with heq | hother
      · cases heq
        exact Or.inl hmem
      · exact Or.inr ⟨other, hother, hmem⟩
  | case3 => cases h

theorem IsElement.tags_of_capture {room : Nat} {tags : List String}
    (h : IsElement room (capture tags)) : tags ≠ [] ∧ ∀ tag ∈ tags, IsTag tag := by
  cases h with
  | tag htag =>
    refine ⟨List.cons_ne_nil _ _, fun tag hmem => ?_⟩
    rw [List.mem_singleton.mp hmem]
    exact htag
  | tags hlength _ htags =>
    refine ⟨?_, htags⟩
    rintro rfl
    cases hlength

/-- A capture takes at most one level. -/
theorem isElement_capture {room : Nat} {tags : List String} (hne : tags ≠ []) (hnodup : tags.Nodup)
    (htags : ∀ tag ∈ tags, IsTag tag) : IsElement (room + 1) (capture tags) := by
  match tags, hne with
  | [tag], _ => exact .tag (htags tag List.mem_cons_self)
  | first :: second :: rest, _ =>
    have hlength : 2 ≤ (first :: second :: rest).length := by simp
    exact .tags hlength hnodup htags

/-! ## Groups -/

/-- The tree of a group is an element, and takes one level more than its branches do. -/
theorem isElement_gathered {room : Nat} {branches : List (List Grammar)} (hne : branches ≠ [])
    (h : ∀ branch ∈ branches, IsBranch room branch) :
    IsElement (room + 1) (gathered true branches) := by
  match branches, hne with
  | [children], _ =>
    obtain ⟨hchildren, helements⟩ := h children List.mem_cons_self
    exact .sequence hchildren helements
  | first :: second :: rest, _ =>
    have hlength : 2 ≤ (first :: second :: rest).length := by simp
    rw [gathered_of_two_le true hlength]
    cases hshared : sharedTags (first :: second :: rest) with
    | none =>
      rw [alternation_of_not_shared hshared]
      refine .alternatives hlength (fun branch hbranch => (h branch hbranch).1)
        (fun branch hbranch => (h branch hbranch).2) fun honly => ?_
      obtain ⟨tags, htags⟩ := exists_sharedTags_iff.mpr honly
      rw [hshared] at htags
      cases htags
    | some tags =>
      have hcapture : ∀ own, [capture own] ∈ first :: second :: rest →
          own ≠ [] ∧ ∀ tag ∈ own, IsTag tag := by
        intro own hown
        exact ((h _ hown).2 _ List.mem_cons_self).tags_of_capture
      rw [alternation_of_shared hshared]
      refine isElement_capture ?_ (nodup_eraseDups tags) fun tag htag => ?_
      · -- the first branch is a capture, and it has a tag
        obtain ⟨own, hown⟩ := exists_sharedTags_iff.mp ⟨tags, hshared⟩ first List.mem_cons_self
        have hmem : [capture own] ∈ first :: second :: rest := hown ▸ List.mem_cons_self
        obtain ⟨tag, htag⟩ := List.exists_mem_of_ne_nil own (hcapture own hmem).1
        have hshare := (mem_sharedTags_iff hshared).mpr ⟨own, hmem, htag⟩
        exact List.ne_nil_of_mem (List.mem_eraseDups.mpr hshare)
      · obtain ⟨own, hown, hmem⟩ :=
          (mem_sharedTags_iff hshared).mp (List.mem_eraseDups.mp htag)
        exact (hcapture own hown).2 tag hmem

/-- The tree of the source as a whole is canonical. -/
theorem canonical_gathered {branches : List (List Grammar)} (hne : branches ≠ [])
    (h : ∀ branch ∈ branches, IsBranch maxNesting branch) :
    Canonical (gathered false branches) := by
  match branches, hne with
  | [children], _ => exact .sequence (h children List.mem_cons_self)
  | first :: second :: rest, _ =>
    have hlength : 2 ≤ (first :: second :: rest).length := by simp
    rw [gathered_of_two_le false hlength]
    exact .alternatives hlength h

/-! ## Drafts -/

/-- What has been read of a group is made of elements that fit into the levels left for it. -/
structure Draft.Fits (room : Nat) (draft : Draft) : Prop where
  elements : ∀ element ∈ draft.elements, element.IsElement room
  branches : ∀ branch ∈ draft.branches, IsBranch room branch

namespace Draft.Fits

variable {room : Nat} {draft : Draft}

theorem start : Draft.start.Fits room :=
  ⟨fun _ h => absurd h List.not_mem_nil, fun _ h => absurd h List.not_mem_nil⟩

theorem push (h : draft.Fits room) {element : Grammar} (helement : element.IsElement room) :
    (draft.push element).Fits room := by
  refine ⟨fun other hother => ?_, h.branches⟩
  rcases List.mem_cons.mp hother with rfl | hother
  · exact helement
  · exact h.elements other hother

theorem isBranch (h : draft.Fits room) (hne : draft.elements ≠ []) :
    IsBranch room draft.elements.reverse := by
  refine ⟨fun hnil => hne (List.reverse_eq_nil_iff.mp hnil), fun child hchild => ?_⟩
  exact h.elements child (List.mem_reverse.mp hchild)

theorem content (h : draft.Fits room) (hne : draft.elements ≠ []) :
    ∀ branch ∈ draft.content, IsBranch room branch := by
  intro branch hbranch
  rcases List.mem_append.mp hbranch with hbranch | hbranch
  · exact h.branches branch (List.mem_reverse.mp hbranch)
  · rw [List.mem_singleton.mp hbranch]
    exact h.isBranch hne

end Draft.Fits

/-! ## The pass over the lexemes -/

/-- Every draft of a stack, innermost first, fits into the levels that the groups around it leave. -/
def DraftsFit : List Draft → Prop
  | [] => True
  | draft :: around =>
    around.length ≤ maxNesting ∧ draft.Fits (maxNesting - around.length) ∧ DraftsFit around

namespace Reading

/-- Every draft of a reading fits into the levels that are left for it. -/
def Fits (reading : Reading) : Prop := DraftsFit (reading.inner :: reading.outer)

theorem fits_start : Reading.start.Fits := ⟨Nat.zero_le _, .start, trivial⟩

/-- Reading a lexeme keeps the drafts within their levels. -/
theorem Fits.advances {reading next : Reading} {lexeme : Lexeme} (h : reading.Fits)
    (hlexeme : lexeme.IsPlain) (hstep : Advances true reading lexeme next) : next.Fits := by
  cases hstep with
  | @word draft around text leaf hleaf =>
    obtain ⟨hdepth, hdraft, haround⟩ := h
    refine ⟨hdepth, hdraft.push ?_, haround⟩
    rcases (classify_eq_ok_iff (hlexeme text rfl)).mp hleaf with ⟨hword, rfl⟩ | ⟨hword, rfl⟩
    · exact .keyword hword
    · exact .tag hword
  | @openGroup draft around hdepth =>
    have hle : around.length ≤ maxNesting := h.1
    refine ⟨?_, .start, h⟩
    show around.length + 1 ≤ maxNesting
    omega
  | @closeGroup draft outside around hne =>
    obtain ⟨hdepth, hdraft, hbelow, houtside, haround⟩ := h
    refine ⟨hbelow, houtside.push ?_, haround⟩
    have hroom : maxNesting - around.length = maxNesting - (outside :: around).length + 1 := by
      rw [List.length_cons] at hdepth ⊢
      omega
    rw [hroom]
    exact isElement_gathered draft.content_ne_nil (hdraft.content hne)
  | @bar draft around hne =>
    obtain ⟨hdepth, hdraft, haround⟩ := h
    refine ⟨hdepth, ⟨fun _ hmem => absurd hmem List.not_mem_nil, fun branch hbranch => ?_⟩, haround⟩
    rcases List.mem_cons.mp hbranch with rfl | hbranch
    · exact hdraft.isBranch hne
    · exact hdraft.branches branch hbranch
  | @quantifier branches last before around quantifier hlast =>
    obtain ⟨hdepth, hdraft, haround⟩ := h
    refine ⟨hdepth, ⟨fun element helement => ?_, hdraft.branches⟩, haround⟩
    rcases List.mem_cons.mp helement with rfl | helement
    · exact .quantified hlast (hdraft.elements last List.mem_cons_self)
    · exact hdraft.elements element (List.mem_cons_of_mem _ helement)

/-- Reading lexemes keeps the drafts within their levels. -/
theorem Fits.reads {reading next : Reading} {lexemes : List Lexeme} (h : reading.Fits)
    (hlexemes : ∀ lexeme ∈ lexemes, lexeme.IsPlain) (hreads : Reads true reading lexemes next) :
    next.Fits := by
  induction hreads with
  | nil => exact h
  | cons hstep _ ih =>
    have hbetween := h.advances (hlexemes _ List.mem_cons_self) hstep
    exact ih hbetween fun lexeme hlexeme => hlexemes lexeme (List.mem_cons_of_mem _ hlexeme)

end Reading

/-- Every tree that is read from a source is canonical. -/
theorem canonical_of_parse {source : String} {tree : Grammar} (h : parse source = .ok tree) :
    tree.Canonical := by
  obtain ⟨draft, hreads, hne, rfl⟩ := parseWith_eq_ok_iff.mp h
  have hplain : ∀ lexeme ∈ (lexemes source).map Placed.lexeme, lexeme.IsPlain := by
    intro lexeme hlexeme
    obtain ⟨placed, hplaced, rfl⟩ := List.mem_map.mp hlexeme
    exact isPlain_of_mem_lexemesFrom hplaced
  obtain ⟨_, hdraft, _⟩ := Reading.fits_start.reads hplain hreads
  exact canonical_gathered draft.content_ne_nil (hdraft.content hne)

end Grammar
end CommandGrammar
