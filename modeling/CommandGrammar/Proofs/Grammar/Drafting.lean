import CommandGrammar.Grammar.Parser

/-!
# Reading lexemes, as a relation

A grammar is read by a machine whose state is a stack of drafts.  `Reading.Advances` says once what
one lexeme can do to the stack, with all conditions under which it does, and `Reading.Reads` is any
number of lexemes one after the other.  Proofs about what is read, and proofs that something can be
read, go by these two relations and do not look into the machine.

Offsets play no part in what is read, only in errors, so the relations are about lexemes without
their places.

Main statements:

* `Reading.read_eq_ok_iff`: a lexeme is read exactly when the machine can advance across it;
* `parseWith_eq_ok_iff`: a source is read exactly when its lexemes lead to a draft that can be
  finished with no group open;
* `Inherited.of_parseWith`: what words have, and groups and quantifiers hand on, holds of what is
  read.
-/

namespace CommandGrammar
namespace Grammar

/-- What is done in two parts that may fail gives a result exactly when both parts do. -/
theorem bind_eq_ok_iff {ε α β : Type} {first : Except ε α} {second : α → Except ε β} {result : β} :
    (first >>= second) = .ok result ↔
      ∃ between, first = .ok between ∧ second between = .ok result := by
  cases first with
  | error fault => simp [bind, Except.bind]
  | ok between => simp [bind, Except.bind]

/-! ## Drafts -/

theorem alternation_of_shared {branches : List (List Grammar)} {tags : List String}
    (h : sharedTags branches = some tags) : alternation true branches = capture tags.eraseDups := by
  simp [alternation, h]

theorem alternation_of_not_shared {branches : List (List Grammar)}
    (h : sharedTags branches = none) (folding : Bool) :
    alternation folding branches = alternatives branches := by
  simp [alternation, h]

/-- The tree of a group with the given branches: a group with one branch is a sequence. -/
def gathered (folding : Bool) : List (List Grammar) → Grammar
  | [children] => sequence children
  | branches => alternation folding branches

theorem gathered_of_two_le (folding : Bool) {branches : List (List Grammar)}
    (h : 2 ≤ branches.length) : gathered folding branches = alternation folding branches := by
  match branches, h with
  | first :: second :: rest, _ => rfl

namespace Draft

/-- The branches of a draft in order, the current one last. -/
def content (draft : Draft) : List (List Grammar) :=
  draft.branches.reverse ++ [draft.elements.reverse]

theorem content_ne_nil (draft : Draft) : draft.content ≠ [] :=
  List.append_ne_nil_of_right_ne_nil _ (List.cons_ne_nil _ _)

/-- A group ends where its current branch is not empty, and its tree is that of its branches. -/
theorem finish_eq_ok_iff {draft : Draft} {folding : Bool} {tree : Grammar} :
    draft.finish folding = .ok tree ↔
      draft.elements ≠ [] ∧ gathered folding draft.content = tree := by
  obtain ⟨branches, elements⟩ := draft
  cases elements with
  | nil => cases branches <;> simp [finish]
  | cons last before =>
    cases branches with
    | nil => simp [finish, content, gathered]
    | cons branch rest =>
      have hlength : 2 ≤ (content ⟨branch :: rest, last :: before⟩).length := by
        simp [content]
      rw [gathered_of_two_le folding hlength]
      simp [finish, content]

theorem quantify_eq_ok_iff {draft next : Draft} {quantifier : Quantifier} :
    draft.quantify quantifier = .ok next ↔ ∃ last before, draft.elements = last :: before ∧
      last.isQuantified = false ∧ next = ⟨draft.branches, .quantified quantifier last :: before⟩ := by
  obtain ⟨branches, elements⟩ := draft
  cases elements with
  | nil => simp [quantify]
  | cons last before =>
    by_cases hlast : last.isQuantified = true
    · simp [quantify, hlast]
    · rw [Bool.not_eq_true] at hlast
      have hquantify : quantify ⟨branches, last :: before⟩ quantifier =
          .ok ⟨branches, .quantified quantifier last :: before⟩ := by
        simp [quantify, hlast]
      rw [hquantify]
      constructor
      · intro h
        cases h
        exact ⟨last, before, rfl, hlast, rfl⟩
      · rintro ⟨_, _, h, _, rfl⟩
        cases h
        rfl

theorem nextBranch_eq_ok_iff {draft next : Draft} :
    draft.nextBranch = .ok next ↔
      draft.elements ≠ [] ∧ next = ⟨draft.elements.reverse :: draft.branches, []⟩ := by
  obtain ⟨branches, elements⟩ := draft
  cases elements <;> simp [nextBranch, @eq_comm _ next]

end Draft

/-! ## One lexeme -/

namespace Reading

/-- What reading one lexeme does to the stack of drafts. -/
inductive Advances (folding : Bool) : Reading → Lexeme → Reading → Prop where
  /-- A word is a leaf of the current branch. -/
  | word {draft : Draft} {around : List Draft} {text : String} {leaf : Grammar} :
      classify text = .ok leaf →
      Advances folding ⟨draft, around⟩ (.word text) ⟨draft.push leaf, around⟩
  | openGroup {draft : Draft} {around : List Draft} : around.length ≠ maxNesting →
      Advances folding ⟨draft, around⟩ .openGroup ⟨.start, draft :: around⟩
  /-- A group that ends becomes an element of the group around it. -/
  | closeGroup {draft outside : Draft} {around : List Draft} : draft.elements ≠ [] →
      Advances folding ⟨draft, outside :: around⟩ .closeGroup
        ⟨outside.push (gathered folding draft.content), around⟩
  | bar {draft : Draft} {around : List Draft} : draft.elements ≠ [] →
      Advances folding ⟨draft, around⟩ .bar
        ⟨⟨draft.elements.reverse :: draft.branches, []⟩, around⟩
  | quantifier {branches : List (List Grammar)} {last : Grammar} {before : List Grammar}
      {around : List Draft} {quantifier : Quantifier} : last.isQuantified = false →
      Advances folding ⟨⟨branches, last :: before⟩, around⟩ (.quantifier quantifier)
        ⟨⟨branches, .quantified quantifier last :: before⟩, around⟩

variable {folding : Bool}

/-- A lexeme is read exactly when the machine can advance across it. -/
theorem read_eq_ok_iff {reading next : Reading} {lexeme : Lexeme} :
    reading.read folding lexeme = .ok next ↔ Advances folding reading lexeme next := by
  constructor
  · intro h
    obtain ⟨draft, around⟩ := reading
    cases lexeme with
    | word text =>
      obtain ⟨leaf, hleaf, hnext⟩ := bind_eq_ok_iff.mp h
      cases hnext
      exact .word hleaf
    | openGroup =>
      rw [read, depth] at h
      by_cases hdepth : around.length = maxNesting
      · rw [if_pos hdepth] at h
        cases h
      · rw [if_neg hdepth] at h
        cases h
        exact .openGroup hdepth
    | closeGroup =>
      cases around with
      | nil => cases h
      | cons outside around =>
        obtain ⟨group, hgroup, hnext⟩ := bind_eq_ok_iff.mp h
        obtain ⟨hne, rfl⟩ := Draft.finish_eq_ok_iff.mp hgroup
        cases hnext
        exact .closeGroup hne
    | bar =>
      obtain ⟨inner, hinner, hnext⟩ := bind_eq_ok_iff.mp h
      obtain ⟨hne, rfl⟩ := Draft.nextBranch_eq_ok_iff.mp hinner
      cases hnext
      exact .bar hne
    | quantifier quantifier =>
      obtain ⟨inner, hinner, hnext⟩ := bind_eq_ok_iff.mp h
      obtain ⟨last, before, helements, hlast, rfl⟩ := Draft.quantify_eq_ok_iff.mp hinner
      obtain ⟨branches, _⟩ := draft
      obtain rfl := helements
      cases hnext
      exact .quantifier hlast
  · intro h
    cases h with
    | word hleaf => exact bind_eq_ok_iff.mpr ⟨_, hleaf, rfl⟩
    | openGroup hdepth => exact if_neg hdepth
    | closeGroup hne =>
      exact bind_eq_ok_iff.mpr ⟨_, Draft.finish_eq_ok_iff.mpr ⟨hne, rfl⟩, rfl⟩
    | bar hne => exact bind_eq_ok_iff.mpr ⟨_, Draft.nextBranch_eq_ok_iff.mpr ⟨hne, rfl⟩, rfl⟩
    | quantifier hlast =>
      exact bind_eq_ok_iff.mpr
        ⟨_, Draft.quantify_eq_ok_iff.mpr ⟨_, _, rfl, hlast, rfl⟩, rfl⟩

/-! ## Many lexemes -/

/-- What reading lexemes one after the other does to the stack of drafts. -/
inductive Reads (folding : Bool) : Reading → List Lexeme → Reading → Prop where
  | nil {reading : Reading} : Reads folding reading [] reading
  | cons {reading between next : Reading} {lexeme : Lexeme} {rest : List Lexeme} :
      Advances folding reading lexeme between → Reads folding between rest next →
      Reads folding reading (lexeme :: rest) next

theorem Advances.reads {reading next : Reading} {lexeme : Lexeme}
    (h : Advances folding reading lexeme next) : Reads folding reading [lexeme] next :=
  .cons h .nil

theorem Reads.trans {reading between next : Reading} {first second : List Lexeme}
    (h₁ : Reads folding reading first between) (h₂ : Reads folding between second next) :
    Reads folding reading (first ++ second) next := by
  induction h₁ with
  | nil => exact h₂
  | cons hstep _ ih => exact .cons hstep (ih h₂)

/-- A bar ends a branch that is not empty. -/
theorem Reads.bar {reading : Reading} {lexemes : List Lexeme} {done : List (List Grammar)}
    {branch : List Grammar} {around : List Draft}
    (h : Reads folding reading lexemes ⟨⟨done, branch.reverse⟩, around⟩) (hne : branch ≠ []) :
    Reads folding reading (lexemes ++ [.bar]) ⟨⟨branch :: done, []⟩, around⟩ := by
  have hbar := (@Advances.bar folding ⟨done, branch.reverse⟩ around
    (List.reverse_ne_nil_iff.mpr hne)).reads
  rw [List.reverse_reverse] at hbar
  exact h.trans hbar

/-- What is read inside a new group, up to its end, becomes an element of the draft around it. -/
theorem Reads.group {draft outside : Draft} {around : List Draft} {lexemes : List Lexeme}
    (hdepth : around.length ≠ maxNesting)
    (h : Reads folding ⟨.start, outside :: around⟩ lexemes ⟨draft, outside :: around⟩)
    (hne : draft.elements ≠ []) :
    Reads folding ⟨outside, around⟩ (.openGroup :: (lexemes ++ [.closeGroup]))
      ⟨outside.push (gathered folding draft.content), around⟩ :=
  .cons (.openGroup hdepth) (h.trans (Advances.closeGroup hne).reads)

/-- Lexemes are read exactly when the machine can advance across all of them. -/
theorem readAll_eq_ok_iff {reading next : Reading} {placed : List Placed} :
    reading.readAll folding placed = .ok next ↔
      Reads folding reading (placed.map Placed.lexeme) next := by
  induction placed generalizing reading with
  | nil =>
    constructor
    · intro h
      cases h
      exact .nil
    · intro h
      cases h
      rfl
  | cons first rest ih =>
    constructor
    · intro h
      rw [readAll] at h
      split at h
      · next between hread => exact .cons (read_eq_ok_iff.mp hread) (ih.mp h)
      · cases h
    · intro h
      cases h with
      | cons hstep hrest =>
        rw [readAll, read_eq_ok_iff.mpr hstep]
        exact ih.mpr hrest

theorem finish_eq_ok_iff {reading : Reading} {tree : Grammar} :
    reading.finish = .ok tree ↔ reading.outer = [] ∧ reading.inner.elements ≠ [] ∧
      gathered false reading.inner.content = tree := by
  obtain ⟨draft, around⟩ := reading
  cases around with
  | nil => simp [finish, Draft.finish_eq_ok_iff]
  | cons outside around => simp [finish]

end Reading

/-- A source is read exactly when its lexemes lead to a draft that can be finished with no group
open, and its tree is that of the draft. -/
theorem parseWith_eq_ok_iff {folding : Bool} {source : String} {tree : Grammar} :
    parseWith folding source = .ok tree ↔ ∃ draft : Draft,
      Reading.Reads folding .start ((lexemes source).map Placed.lexeme) ⟨draft, []⟩ ∧
      draft.elements ≠ [] ∧ gathered false draft.content = tree := by
  constructor
  · intro h
    rw [parseWith] at h
    split at h
    · cases h
    · next reading hreads =>
      split at h
      · next other hfinish =>
        cases h
        obtain ⟨houter, hne, htree⟩ := Reading.finish_eq_ok_iff.mp hfinish
        obtain ⟨draft, around⟩ := reading
        obtain rfl := houter
        exact ⟨draft, Reading.readAll_eq_ok_iff.mp hreads, hne, htree⟩
      · cases h
  · rintro ⟨draft, hreads, hne, htree⟩
    have hfinish : Reading.finish ⟨draft, []⟩ = .ok tree :=
      Reading.finish_eq_ok_iff.mpr ⟨rfl, hne, htree⟩
    simp only [parseWith, Reading.readAll_eq_ok_iff.mpr hreads, hfinish]

/-! ## What holds of every element -/

/-- Every element that stands in a draft has the property. -/
structure Draft.All (p : Grammar → Prop) (draft : Draft) : Prop where
  branches : ∀ branch ∈ draft.branches, ∀ element ∈ branch, p element
  elements : ∀ element ∈ draft.elements, p element

namespace Draft.All

variable {p : Grammar → Prop} {draft : Draft}

theorem push (h : draft.All p) {element : Grammar} (helement : p element) :
    (draft.push element).All p :=
  ⟨h.branches, List.forall_mem_cons.mpr ⟨helement, h.elements⟩⟩

theorem content (h : draft.All p) : ∀ branch ∈ draft.content, ∀ element ∈ branch, p element := by
  intro branch hbranch element helement
  rcases List.mem_append.mp hbranch with hbranch | hbranch
  · exact h.branches branch (List.mem_reverse.mp hbranch) element helement
  · rw [List.mem_singleton.mp hbranch] at helement
    exact h.elements element (List.mem_reverse.mp helement)

end Draft.All

/-- A property of trees that words have and that groups and quantifiers hand on. -/
structure Inherited (folding : Bool) (p : Grammar → Prop) : Prop where
  word : ∀ text leaf, classify text = .ok leaf → p leaf
  group : ∀ branches, (∀ branch ∈ branches, ∀ element ∈ branch, p element) →
    p (gathered folding branches)
  quantified : ∀ quantifier inner, p inner → p (.quantified quantifier inner)

namespace Reading

variable {folding : Bool} {p : Grammar → Prop}

/-- Every element that stands in one of the drafts has the property. -/
def All (p : Grammar → Prop) (reading : Reading) : Prop :=
  ∀ draft ∈ reading.inner :: reading.outer, draft.All p

theorem All.advances (hp : Inherited folding p) {reading next : Reading} {lexeme : Lexeme}
    (h : reading.All p) (hstep : Advances folding reading lexeme next) : next.All p := by
  have hinner := h _ List.mem_cons_self
  have houter := fun draft hdraft => h draft (List.mem_cons_of_mem _ hdraft)
  cases hstep with
  | word hleaf => exact List.forall_mem_cons.mpr ⟨hinner.push (hp.word _ _ hleaf), houter⟩
  | openGroup => exact List.forall_mem_cons.mpr ⟨⟨nofun, nofun⟩, h⟩
  | closeGroup =>
    obtain ⟨houtside, houter⟩ := List.forall_mem_cons.mp houter
    exact List.forall_mem_cons.mpr ⟨houtside.push (hp.group _ hinner.content), houter⟩
  | bar =>
    refine List.forall_mem_cons.mpr ⟨⟨List.forall_mem_cons.mpr ⟨?_, hinner.branches⟩, nofun⟩, houter⟩
    exact fun element helement => hinner.elements element (List.mem_reverse.mp helement)
  | quantifier =>
    obtain ⟨hlast, hbefore⟩ := List.forall_mem_cons.mp hinner.elements
    refine List.forall_mem_cons.mpr ⟨⟨hinner.branches, ?_⟩, houter⟩
    exact List.forall_mem_cons.mpr ⟨hp.quantified _ _ hlast, hbefore⟩

theorem All.reads (hp : Inherited folding p) {reading next : Reading} {lexemes : List Lexeme}
    (h : reading.All p) (hreads : Reads folding reading lexemes next) : next.All p := by
  induction hreads with
  | nil => exact h
  | cons hstep _ ih => exact ih (h.advances hp hstep)

end Reading

/-- What words have, and groups and quantifiers hand on, holds of every tree that is read without
folding. -/
theorem Inherited.of_parseWith {p : Grammar → Prop} (hp : Inherited false p) {source : String}
    {tree : Grammar} (h : parseWith false source = .ok tree) : p tree := by
  obtain ⟨draft, hreads, -, rfl⟩ := parseWith_eq_ok_iff.mp h
  have hstart : Reading.start.All p := List.forall_mem_cons.mpr ⟨⟨nofun, nofun⟩, nofun⟩
  exact hp.group _ (hstart.reads hp hreads _ List.mem_cons_self).content

end Grammar
end CommandGrammar
