import Mathlib.Algebra.BigOperators.Group.List.Basic
import Mathlib.Computability.Language
import Mathlib.Data.List.Forall2
import Mathlib.Order.CompletePartialOrder
import CommandGrammar.Grammar.Basic

/-!
# What a grammar denotes

The shape of a grammar is that of a regular expression, whatever its leaves stand for: a sequence
denotes the concatenations, an alternation the union, the quantifiers the repetitions.
`Grammar.denote` says this once, for leaves that denote languages over any alphabet.  The alphabet
is that of the tokens when the question is which lines are accepted, that of the entries of a
reading when the question is how they are read, and that of the actions of an automaton in between.

The three are tied together by spelling: an entry is spelled by the actions that make it, an action
by the tokens that it reads.  `respell` replaces every letter of every word by its spelling, and
`relabel` replaces every letter by any letter to which it is related.  Both go word by word and
respect all operations on languages, so they pass from a grammar to its leaves
(`Grammar.map_denote`).  What holds of all letters in the words of the leaves holds of those in the
words of the grammar (`Grammar.denote_le_lettersIn`), and a grammar depends on no other leaves than
its own (`Grammar.denote_congr`).
-/

namespace CommandGrammar

open scoped Computability

variable {α β : Type}

/-! ## A choice among languages -/

/-- The words of any one of the languages; with nothing to choose from, the empty word. -/
def oneOf : List (Language α) → Language α
  | [] => 1
  | languages => languages.sum

theorem oneOf_cons (first : Language α) (rest : List (Language α)) :
    oneOf (first :: rest) = (first :: rest).sum := rfl

theorem mem_sum_iff {languages : List (Language α)} {w : List α} :
    w ∈ languages.sum ↔ ∃ language ∈ languages, w ∈ language := by
  induction languages with
  | nil => simp
  | cons first rest ih => rw [List.sum_cons, Language.mem_add, ih]; simp

/-! ## Homomorphisms of languages -/

section

variable {φ : Language α →+* Language β}

/-- A homomorphism that goes word by word respects repetition. -/
theorem map_kstar_of_words {rel : List α → List β → Prop}
    (h : ∀ {l : Language α} {w : List β}, w ∈ φ l ↔ ∃ v ∈ l, rel v w) (l : Language α) :
    φ l∗ = (φ l)∗ := by
  ext w
  rw [Language.kstar_eq_iSup_pow, Language.kstar_eq_iSup_pow, Language.mem_iSup]
  simp only [← map_pow, h, Language.mem_iSup]
  constructor
  · rintro ⟨v, ⟨n, hv⟩, hw⟩
    exact ⟨n, v, hv, hw⟩
  · rintro ⟨n, v, hv, hw⟩
    exact ⟨v, ⟨n, hv⟩, hw⟩

theorem map_oneOf (languages : List (Language α)) :
    φ (oneOf languages) = oneOf (languages.map φ) := by
  cases languages with
  | nil => exact map_one φ
  | cons first rest => rw [oneOf_cons, map_list_sum, List.map_cons, oneOf_cons]

end

/-! ## Spelling -/

/-- The words of a language with every letter replaced by its spelling. -/
def respell (spelling : α → List β) : Language α →+* Language β where
  toFun l := {w | ∃ v ∈ l, v.flatMap spelling = w}
  map_zero' := by
    ext w
    exact ⟨fun ⟨_, hv, _⟩ => hv, fun h => absurd h (Language.notMem_zero w)⟩
  map_one' := by
    ext w
    constructor
    · rintro ⟨v, rfl, rfl⟩
      rfl
    · rintro rfl
      exact ⟨[], rfl, rfl⟩
  map_add' l m := by
    ext w
    constructor
    · rintro ⟨v, hv | hv, hw⟩
      · exact .inl ⟨v, hv, hw⟩
      · exact .inr ⟨v, hv, hw⟩
    · rintro (⟨v, hv, hw⟩ | ⟨v, hv, hw⟩)
      · exact ⟨v, .inl hv, hw⟩
      · exact ⟨v, .inr hv, hw⟩
  map_mul' l m := by
    ext w
    constructor
    · rintro ⟨_, ⟨u, hu, v, hv, rfl⟩, rfl⟩
      exact ⟨_, ⟨u, hu, rfl⟩, _, ⟨v, hv, rfl⟩, List.flatMap_append.symm⟩
    · rintro ⟨_, ⟨u, hu, rfl⟩, _, ⟨v, hv, rfl⟩, rfl⟩
      exact ⟨u ++ v, Language.append_mem_mul hu hv, List.flatMap_append⟩

variable {spelling : α → List β}

theorem mem_respell_iff {l : Language α} {w : List β} :
    w ∈ respell spelling l ↔ ∃ v ∈ l, v.flatMap spelling = w := Iff.rfl

theorem respell_kstar (l : Language α) : respell spelling l∗ = (respell spelling l)∗ :=
  map_kstar_of_words mem_respell_iff l

/-- Spelling the letters of a spelling. -/
theorem respell_respell {γ : Type} (outer : β → List γ) (l : Language α) :
    respell outer (respell spelling l) = respell (fun letter => (spelling letter).flatMap outer) l := by
  ext w
  constructor
  · rintro ⟨_, ⟨v, hv, rfl⟩, rfl⟩
    exact ⟨v, hv, List.flatMap_assoc.symm⟩
  · rintro ⟨v, hv, rfl⟩
    exact ⟨_, ⟨v, hv, rfl⟩, List.flatMap_assoc⟩

/-! ## Relabelling -/

/-- The words of a language with every letter replaced by one to which it is related. -/
def relabel (rel : α → β → Prop) : Language α →+* Language β where
  toFun l := {w | ∃ v ∈ l, List.Forall₂ rel v w}
  map_zero' := by
    ext w
    exact ⟨fun ⟨_, hv, _⟩ => hv, fun h => absurd h (Language.notMem_zero w)⟩
  map_one' := by
    ext w
    constructor
    · rintro ⟨v, rfl, hw⟩
      rw [List.forall₂_nil_left_iff.mp hw]
      rfl
    · rintro rfl
      exact ⟨[], rfl, .nil⟩
  map_add' l m := by
    ext w
    constructor
    · rintro ⟨v, hv | hv, hw⟩
      · exact .inl ⟨v, hv, hw⟩
      · exact .inr ⟨v, hv, hw⟩
    · rintro (⟨v, hv, hw⟩ | ⟨v, hv, hw⟩)
      · exact ⟨v, .inl hv, hw⟩
      · exact ⟨v, .inr hv, hw⟩
  map_mul' l m := by
    ext w
    constructor
    · rintro ⟨_, ⟨u, hu, v, hv, rfl⟩, hw⟩
      -- the word is cut where the first of the two words ends
      refine ⟨w.take u.length, ⟨u, hu, ?_⟩, w.drop u.length, ⟨v, hv, ?_⟩, List.take_append_drop ..⟩
      · exact (List.forall₂_take_append w u v hw.flip).flip
      · exact (List.forall₂_drop_append w u v hw.flip).flip
    · rintro ⟨_, ⟨u, hu, hx⟩, _, ⟨v, hv, hy⟩, rfl⟩
      exact ⟨u ++ v, Language.append_mem_mul hu hv, List.rel_append hx hy⟩

section

variable {rel : α → β → Prop}

theorem mem_relabel_iff {l : Language α} {w : List β} :
    w ∈ relabel rel l ↔ ∃ v ∈ l, List.Forall₂ rel v w := Iff.rfl

theorem relabel_kstar (l : Language α) : relabel rel l∗ = (relabel rel l)∗ :=
  map_kstar_of_words mem_relabel_iff l

end

/-! ## The denotation of a grammar -/

/-- How often words of a language follow each other under a quantifier. -/
def Quantifier.denote : Quantifier → Language α → Language α
  | .star, l => l∗
  | .plus, l => l * l∗
  | .optional, l => 1 + l

namespace Grammar

mutual

/-- The language of a grammar whose leaves denote languages. -/
def denote (leaf : Rule → Language α) : Grammar → Language α
  | .leaf rule => leaf rule
  | .sequence children => denoteAll leaf children
  | .alternatives branches => oneOf (denoteBranches leaf branches)
  | .quantified quantifier inner => quantifier.denote (denote leaf inner)

/-- The concatenations of words of the children, one of each. -/
def denoteAll (leaf : Rule → Language α) : List Grammar → Language α
  | [] => 1
  | child :: rest => denote leaf child * denoteAll leaf rest

/-- The languages of the branches. -/
def denoteBranches (leaf : Rule → Language α) : List (List Grammar) → List (Language α)
  | [] => []
  | branch :: rest => denoteAll leaf branch :: denoteBranches leaf rest

end

section

variable {φ : Language α →+* Language β}

theorem map_denote_quantifier (hstar : ∀ l, φ l∗ = (φ l)∗) (quantifier : Quantifier)
    (l : Language α) : φ (quantifier.denote l) = quantifier.denote (φ l) := by
  cases quantifier with
  | star => exact hstar l
  | plus => rw [Quantifier.denote, map_mul, hstar, Quantifier.denote]
  | optional => rw [Quantifier.denote, map_add, map_one, Quantifier.denote]

variable (leaf : Rule → Language α)

mutual

/-- A homomorphism that respects repetition passes from a grammar to its leaves. -/
theorem map_denote (hstar : ∀ l, φ l∗ = (φ l)∗) : (grammar : Grammar) →
    φ (grammar.denote leaf) = grammar.denote fun rule => φ (leaf rule)
  | .leaf rule => by rw [denote, denote]
  | .sequence children => by rw [denote, denote, map_denoteAll hstar children]
  | .alternatives branches => by
    rw [denote, denote, map_oneOf, map_denoteBranches hstar branches]
  | .quantified quantifier inner => by
    rw [denote, denote, map_denote_quantifier hstar, map_denote hstar inner]

/-- A homomorphism that respects repetition passes from a sequence to its leaves. -/
theorem map_denoteAll (hstar : ∀ l, φ l∗ = (φ l)∗) : (children : List Grammar) →
    φ (denoteAll leaf children) = denoteAll (fun rule => φ (leaf rule)) children
  | [] => by rw [denoteAll, denoteAll, map_one]
  | child :: rest => by
    rw [denoteAll, denoteAll, map_mul, map_denote hstar child, map_denoteAll hstar rest]

/-- A homomorphism that respects repetition passes from branches to their leaves. -/
theorem map_denoteBranches (hstar : ∀ l, φ l∗ = (φ l)∗) : (branches : List (List Grammar)) →
    (denoteBranches leaf branches).map φ = denoteBranches (fun rule => φ (leaf rule)) branches
  | [] => by rw [denoteBranches, denoteBranches, List.map_nil]
  | branch :: rest => by
    rw [denoteBranches, denoteBranches, List.map_cons, map_denoteAll hstar branch,
      map_denoteBranches hstar rest]

end

end

variable (leaf : Rule → Language α)

/-- Spelling passes from a grammar to its leaves. -/
theorem respell_denote (grammar : Grammar) :
    respell spelling (grammar.denote leaf) =
      grammar.denote fun rule => respell spelling (leaf rule) :=
  map_denote leaf respell_kstar grammar

/-- Relabelling passes from a grammar to its leaves. -/
theorem relabel_denote {rel : α → β → Prop} (grammar : Grammar) :
    relabel rel (grammar.denote leaf) = grammar.denote fun rule => relabel rel (leaf rule) :=
  map_denote leaf relabel_kstar grammar

section

variable {leaf other : Rule → Language α}

mutual

/-- A grammar depends on its leaves only. -/
theorem denote_congr : (grammar : Grammar) → (∀ rule ∈ grammar.leaves, leaf rule = other rule) →
    grammar.denote leaf = grammar.denote other
  | .leaf rule, h => by
    rw [denote, denote]
    exact h rule (List.mem_singleton_self rule)
  | .sequence children, h => by rw [denote, denote, denoteAll_congr children h]
  | .alternatives branches, h => by rw [denote, denote, denoteBranches_congr branches h]
  | .quantified quantifier inner, h => by rw [denote, denote, denote_congr inner h]

theorem denoteAll_congr : (children : List Grammar) →
    (∀ rule ∈ leavesAll children, leaf rule = other rule) →
    denoteAll leaf children = denoteAll other children
  | [], _ => by rw [denoteAll, denoteAll]
  | child :: rest, h => by
    rw [leavesAll] at h
    rw [denoteAll, denoteAll, denote_congr child fun rule hrule => h rule (List.mem_append_left _ hrule),
      denoteAll_congr rest fun rule hrule => h rule (List.mem_append_right _ hrule)]

theorem denoteBranches_congr : (branches : List (List Grammar)) →
    (∀ rule ∈ leavesBranches branches, leaf rule = other rule) →
    denoteBranches leaf branches = denoteBranches other branches
  | [], _ => by rw [denoteBranches, denoteBranches]
  | branch :: rest, h => by
    rw [leavesBranches] at h
    rw [denoteBranches, denoteBranches,
      denoteAll_congr branch fun rule hrule => h rule (List.mem_append_left _ hrule),
      denoteBranches_congr rest fun rule hrule => h rule (List.mem_append_right _ hrule)]

end

end

end Grammar

/-! ## The letters of the words -/

/-- The words whose letters all have a property. -/
def lettersIn (p : α → Prop) : Language α := {w | ∀ x ∈ w, p x}

section

variable {p : α → Prop}

theorem one_le_lettersIn : (1 : Language α) ≤ lettersIn p := by
  rintro w rfl x hx
  cases hx

theorem mul_le_lettersIn {l m : Language α} (hl : l ≤ lettersIn p) (hm : m ≤ lettersIn p) :
    l * m ≤ lettersIn p := by
  rintro _ ⟨v, hv, w, hw, rfl⟩ x hx
  rcases List.mem_append.mp hx with hx | hx
  · exact hl hv x hx
  · exact hm hw x hx

theorem kstar_le_lettersIn {l : Language α} (hl : l ≤ lettersIn p) : l∗ ≤ lettersIn p := by
  rintro _ ⟨words, rfl, hwords⟩
  intro x hx
  obtain ⟨w, hw, hx⟩ := List.mem_flatten.mp hx
  exact hl (hwords w hw) x hx

theorem oneOf_le_lettersIn {languages : List (Language α)}
    (h : ∀ l ∈ languages, l ≤ lettersIn p) : oneOf languages ≤ lettersIn p := by
  cases languages with
  | nil => exact one_le_lettersIn
  | cons first rest =>
    intro w hw
    obtain ⟨l, hl, hw⟩ := mem_sum_iff.mp hw
    exact h l hl hw

theorem Quantifier.denote_le_lettersIn (quantifier : Quantifier) {l : Language α}
    (hl : l ≤ lettersIn p) : quantifier.denote l ≤ lettersIn p := by
  cases quantifier with
  | star => exact kstar_le_lettersIn hl
  | plus => exact mul_le_lettersIn hl (kstar_le_lettersIn hl)
  | optional => exact sup_le one_le_lettersIn hl

end

namespace Grammar

section

variable {p : α → Prop} {leaf : Rule → Language α}

mutual

/-- What holds of the letters of every leaf holds of the letters of a grammar. -/
theorem denote_le_lettersIn (h : ∀ rule, leaf rule ≤ lettersIn p) :
    (grammar : Grammar) → grammar.denote leaf ≤ lettersIn p
  | .leaf rule => by
    rw [denote]
    exact h rule
  | .sequence children => by
    rw [denote]
    exact denoteAll_le_lettersIn h children
  | .alternatives branches => by
    rw [denote]
    exact oneOf_le_lettersIn (denoteBranches_le_lettersIn h branches)
  | .quantified quantifier inner => by
    rw [denote]
    exact quantifier.denote_le_lettersIn (denote_le_lettersIn h inner)

theorem denoteAll_le_lettersIn (h : ∀ rule, leaf rule ≤ lettersIn p) :
    (children : List Grammar) → denoteAll leaf children ≤ lettersIn p
  | [] => by
    rw [denoteAll]
    exact one_le_lettersIn
  | child :: rest => by
    rw [denoteAll]
    exact mul_le_lettersIn (denote_le_lettersIn h child) (denoteAll_le_lettersIn h rest)

theorem denoteBranches_le_lettersIn (h : ∀ rule, leaf rule ≤ lettersIn p) :
    (branches : List (List Grammar)) → ∀ l ∈ denoteBranches leaf branches, l ≤ lettersIn p
  | [], l, hl => by
    rw [denoteBranches] at hl
    cases hl
  | branch :: rest, l, hl => by
    rw [denoteBranches] at hl
    rcases List.mem_cons.mp hl with rfl | hl
    · exact denoteAll_le_lettersIn h branch
    · exact denoteBranches_le_lettersIn h rest l hl

end

end

end Grammar

end CommandGrammar
