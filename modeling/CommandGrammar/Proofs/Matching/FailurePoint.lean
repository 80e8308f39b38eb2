import CommandGrammar.Proofs.Automaton.Coaccessible
import CommandGrammar.Proofs.Matching.Limit
import CommandGrammar.Proofs.Matching.Recognition

/-!
# Where a match fails

A match fails at the first symbol that the frontier does not cross, and every failure that it reports
has received this symbol (`exists_dead_of_interpret`).  The tokens before the symbol have been
crossed, so there are paths that have read them.  In the automaton of a grammar every path can be
completed (`Grammar.coaccessible_automaton`), so these tokens are the beginning of some line of the
grammar.  With the symbol they are not: a line that begins so would have a path across it.

Hence the symbol that is reported is the one after the longest beginning of the line with which some
line of the grammar begins (`Grammar.received_after_longest_viable`).
-/

namespace CommandGrammar

/-! ## The symbols of a line -/

theorem ofTokens_append (tokens more : List String) :
    Symbol.ofTokens (tokens ++ more) = tokens.map .token ++ Symbol.ofTokens more := by
  rw [Symbol.ofTokens, Symbol.ofTokens, List.map_append, List.append_assoc]

theorem take_ofTokens {tokens : List String} {p : Nat} (hp : p ≤ tokens.length) :
    (Symbol.ofTokens tokens).take p = (tokens.take p).map .token := by
  have hlength : p ≤ (tokens.map Symbol.token).length := by
    rw [List.length_map]
    exact hp
  rw [Symbol.ofTokens, List.take_append_of_le_length hlength, List.map_take]

/-- A symbol of a line is a token of it, or the end mark after all tokens. -/
theorem getElem?_ofTokens {tokens : List String} {p : Nat} {symbol : Symbol}
    (h : (Symbol.ofTokens tokens)[p]? = some symbol) :
    p = tokens.length ∧ symbol = .finish ∨
      ∃ token, tokens[p]? = some token ∧ symbol = .token token := by
  rw [Symbol.ofTokens] at h
  by_cases hp : p < tokens.length
  · rw [List.getElem?_append_left (by rw [List.length_map]; exact hp), List.getElem?_map,
      List.getElem?_eq_getElem hp] at h
    exact .inr ⟨tokens[p], List.getElem?_eq_getElem hp, (Option.some.inj h).symm⟩
  · rw [List.getElem?_append_right (by rw [List.length_map]; omega), List.length_map,
      List.getElem?_singleton] at h
    split at h
    · exact .inl ⟨by omega, (Option.some.inj h).symm⟩
    · cases h

namespace Automaton

variable {a : Automaton} {options : MatchOptions} {frontier : List Path}

/-! ## The symbol that is not crossed -/

/-- A match that fails for want of a way comes to a symbol that its frontier does not cross, and the
last that is heard of it is that it died there. -/
theorem exists_died_of_interpretFrom {symbols : List Symbol} {position : Nat}
    {failures : OrderedSet Failure} (hfrontier : frontier ≠ [])
    (h : (a.interpretFrom options position frontier symbols).result = .error (.noMatch failures)) :
    ∃ n symbol, symbols[n]? = some symbol ∧
      a.crossings options frontier (symbols.take n) ≠ [] ∧
      a.crossings options frontier (symbols.take (n + 1)) = [] ∧
      failures = a.failuresAt (a.crossings options frontier (symbols.take n)) symbol ∧
      (a.interpretFrom options position frontier symbols).events.getLast? =
        some (.died (position + n) (a.crossings options frontier (symbols.take n)).length
          failures.size) := by
  induction symbols generalizing frontier position with
  | nil => cases h
  | cons symbol rest ih =>
    rw [interpretFrom, advance_eq] at h ⊢
    by_cases hlimit : options.limit < (a.crossing options frontier symbol).length
    · rw [if_pos hlimit] at h
      cases h
    · rw [if_neg hlimit] at h ⊢
      cases hnext : a.crossing options frontier symbol with
      | nil =>
        rw [hnext] at h
        cases h
        exact ⟨0, symbol, rfl, hfrontier, hnext, rfl, rfl⟩
      | cons path others =>
        rw [hnext] at h
        obtain ⟨n, received, hreceived, halive, hdead, hfailures, hlast⟩ :=
          ih (List.cons_ne_nil path others) h
        have hposition : position + (n + 1) = position + 1 + n := by omega
        refine ⟨n + 1, received, hreceived, ?_⟩
        simp only [List.take_succ_cons, crossings_cons, hnext, hposition]
        refine ⟨halive, hdead, hfailures, ?_⟩
        rw [List.getLast?_cons, hlast]
        rfl

/-- A match that fails for want of a way dies at a symbol of the line that its frontier does not
cross. -/
theorem exists_died_of_interpret {tokens : List String} {failures : OrderedSet Failure}
    (h : a.interpret options tokens = .error (.noMatch failures)) :
    ∃ p symbol, (Symbol.ofTokens tokens)[p]? = some symbol ∧
      a.frontierAt options tokens p ≠ [] ∧ a.frontierAt options tokens (p + 1) = [] ∧
      failures = a.failuresAt (a.frontierAt options tokens p) symbol ∧
      (a.interpretWithEvents options tokens).events.getLast? =
        some (.died p (a.frontierAt options tokens p).length failures.size) := by
  obtain ⟨p, symbol, hsymbol, halive, hdead, hfailures, hlast⟩ :=
    exists_died_of_interpretFrom (List.cons_ne_nil _ _) h
  rw [Nat.zero_add] at hlast
  exact ⟨p, symbol, hsymbol, halive, hdead, hfailures, hlast⟩

theorem exists_dead_of_interpret {tokens : List String} {failures : OrderedSet Failure}
    (h : a.interpret options tokens = .error (.noMatch failures)) :
    ∃ p symbol, (Symbol.ofTokens tokens)[p]? = some symbol ∧
      a.frontierAt options tokens p ≠ [] ∧ a.frontierAt options tokens (p + 1) = [] ∧
      failures = a.failuresAt (a.frontierAt options tokens p) symbol := by
  obtain ⟨p, symbol, hsymbol, halive, hdead, hfailures, _⟩ := exists_died_of_interpret h
  exact ⟨p, symbol, hsymbol, halive, hdead, hfailures⟩

/-- The failures at a symbol have received it, and there is one if a path was alive. -/
theorem received_of_mem_failuresAt {symbol : Symbol} {failure : Failure}
    (h : failure ∈ a.failuresAt frontier symbol) : failure.received = symbol := by
  rw [failuresAt, OrderedSet.mem_ofList] at h
  obtain ⟨path, _, rfl⟩ := List.mem_map.mp h
  rfl

theorem exists_mem_failuresAt {symbol : Symbol} (h : frontier ≠ []) :
    ∃ failure, failure ∈ a.failuresAt frontier symbol := by
  obtain ⟨path, hpath⟩ := List.exists_mem_of_ne_nil frontier h
  refine ⟨⟨a.expected path.state symbol, symbol⟩, ?_⟩
  rw [failuresAt, OrderedSet.mem_ofList]
  exact List.mem_map_of_mem hpath

/-! ## Viable beginnings -/

/-- Some line that is accepted begins with the tokens. -/
def Viable (a : Automaton) (tokens : List String) : Prop :=
  ∃ more, a.accepts (tokens ++ more) = true

theorem Viable.take_of_le {tokens : List String} {p q : Nat} (h : a.Viable (tokens.take q))
    (hle : p ≤ q) : a.Viable (tokens.take p) := by
  obtain ⟨more, haccepts⟩ := h
  refine ⟨(tokens.take q).drop p ++ more, ?_⟩
  have htake : tokens.take p = (tokens.take q).take p := by
    rw [List.take_take, Nat.min_eq_left hle]
  rw [htake, ← List.append_assoc, List.take_append_drop]
  exact haccepts

theorem mem_pathsAlong_append {first second : List Symbol} {path final : Path} :
    final ∈ a.pathsAlong (first ++ second) path ↔
      ∃ between ∈ a.pathsAlong first path, final ∈ a.pathsAlong second between := by
  induction first generalizing path with
  | nil => simp only [List.nil_append, pathsAlong, List.mem_singleton, exists_eq_left]
  | cons symbol rest ih =>
    rw [List.cons_append, mem_pathsAlong_cons]
    simp only [ih, mem_pathsAlong_cons]
    constructor
    · rintro ⟨next, hnext, between, hbetween, hfinal⟩
      exact ⟨between, ⟨next, hnext, hbetween⟩, hfinal⟩
    · rintro ⟨between, ⟨next, hnext, hbetween⟩, hfinal⟩
      exact ⟨next, hnext, between, hbetween, hfinal⟩

theorem Ends.lt_size {symbol : Symbol} {r s : Nat} {extra : List Nat}
    (h : a.Ends symbol r extra s) : s < a.size := by
  cases h with
  | consume hstate hmem _ => exact successor_lt_size hstate (List.mem_map.mpr ⟨_, hmem, rfl⟩)
  | halt => exact a.accept_lt_size
  | emit => exact a.accept_lt_size

/-- A path does not leave the table. -/
theorem state_lt_size_of_mem_pathsAlong {symbols : List Symbol} {path final : Path}
    (hpath : path.state < a.size) (h : final ∈ a.pathsAlong symbols path) :
    final.state < a.size := by
  induction symbols generalizing path with
  | nil =>
    rw [List.mem_singleton.mp h]
    exact hpath
  | cons symbol rest ih =>
    obtain ⟨next, hnext, hfinal⟩ := mem_pathsAlong_cons.mp h
    obtain ⟨step, hstep, rfl⟩ := List.mem_map.mp hnext
    obtain ⟨_, _, _, _, _, hends, _⟩ := mem_steps_iff.mp hstep
    exact ih hends.lt_size hfinal

/-- The frontier after some tokens holds the paths along them. -/
theorem mem_frontierAt_iff {tokens : List String} {p : Nat} (hp : p ≤ tokens.length) {path : Path} :
    path ∈ a.frontierAt options tokens p ↔
      path ∈ a.pathsAlong ((tokens.take p).map .token) ⟨a.start, []⟩ := by
  rw [frontierAt, take_ofTokens hp, mem_crossings_iff]
  simp only [List.mem_singleton, exists_eq_left]

/-- Where some accepted line begins with the tokens, paths are alive after them. -/
theorem frontierAt_ne_nil_of_viable {tokens : List String} {p : Nat} (hp : p ≤ tokens.length)
    (h : a.Viable (tokens.take p)) : a.frontierAt options tokens p ≠ [] := by
  obtain ⟨more, haccepts⟩ := h
  obtain ⟨final, hfinal⟩ := (accepts_iff_exists_path []).mp haccepts
  rw [ofTokens_append, mem_pathsAlong_append] at hfinal
  obtain ⟨between, hbetween, _⟩ := hfinal
  exact List.ne_nil_of_mem ((mem_frontierAt_iff hp).mpr hbetween)

/-- Where there are no dead ends, tokens after which a path is alive begin an accepted line. -/
theorem viable_of_frontierAt_ne_nil (hends : Coaccessible a.states) {tokens : List String} {p : Nat}
    (hp : p ≤ tokens.length) (h : a.frontierAt options tokens p ≠ []) :
    a.Viable (tokens.take p) := by
  obtain ⟨path, hpath⟩ := List.exists_mem_of_ne_nil _ h
  have hbefore := (mem_frontierAt_iff hp).mp hpath
  have hstart : a.start < a.size := a.nonempty
  obtain ⟨w, hw⟩ := hends path.state (state_lt_size_of_mem_pathsAlong hstart hbefore)
  obtain ⟨final, hfinal⟩ := exists_mem_pathsAlong_of_completes hw rfl path.stack
  refine ⟨w.flatMap Action.tokens, (accepts_iff_exists_path []).mpr ⟨final, ?_⟩⟩
  rw [ofTokens_append, mem_pathsAlong_append]
  exact ⟨path, hbefore, hfinal⟩

end Automaton

namespace Grammar

/-- **A failed match reports the symbol after the longest viable beginning.**  If a line does not
match for want of a way, there is a longest part of it, from its beginning on, with which some line
of the grammar begins.  At least one failure is reported, and every failure that is reported has
received the token after this part, or the end mark if the part is the whole line. -/
theorem received_after_longest_viable (grammar : Grammar) (options : MatchOptions)
    (tokens : List String) (failures : OrderedSet Failure)
    (h : grammar.automaton.interpret options tokens = .error (.noMatch failures)) :
    (∃ failure, failure ∈ failures) ∧
    ∃ p, IsGreatest {p | p ≤ tokens.length ∧
        ∃ more, grammar.automaton.accepts (tokens.take p ++ more) = true} p ∧
      (p = tokens.length ∧ (∀ failure ∈ failures, failure.received = .finish) ∨
        ∃ token, tokens[p]? = some token ∧
          ∀ failure ∈ failures, failure.received = .token token) := by
  obtain ⟨p, symbol, hsymbol, halive, hdead, rfl⟩ := Automaton.exists_dead_of_interpret h
  have hp : p ≤ tokens.length := by
    rcases getElem?_ofTokens hsymbol with ⟨rfl, _⟩ | ⟨token, htoken, _⟩
    · exact Nat.le_refl _
    · exact Nat.le_of_lt (List.getElem?_eq_some_iff.mp htoken).1
  have hviable := Automaton.viable_of_frontierAt_ne_nil grammar.coaccessible_automaton hp halive
  refine ⟨Automaton.exists_mem_failuresAt halive, p, ⟨⟨hp, hviable⟩, ?_⟩, ?_⟩
  · rintro q ⟨hq, hlonger⟩
    by_contra hlt
    have hnext : grammar.automaton.Viable (tokens.take (p + 1)) :=
      Automaton.Viable.take_of_le hlonger (by omega)
    exact Automaton.frontierAt_ne_nil_of_viable (by omega) hnext hdead
  · rcases getElem?_ofTokens hsymbol with ⟨hlength, rfl⟩ | ⟨token, htoken, rfl⟩
    · exact .inl ⟨hlength, fun failure hfailure => Automaton.received_of_mem_failuresAt hfailure⟩
    · exact .inr ⟨token, htoken, fun failure hfailure =>
        Automaton.received_of_mem_failuresAt hfailure⟩

/-- A line that goes on after a keyword matches up to there, and every failure has received the token
with which it goes on. -/
theorem received_after_longest_viable_keyword :
    ∃ options failures, (keyword "look").automaton.interpret options ["look", "around"] =
        .error (.noMatch failures) ∧
      (∃ failure, failure ∈ failures) ∧
      ∀ failure ∈ failures, failure.received = .token "around" := by
  have haccepts : ∀ tokens, (keyword "look").automaton.accepts tokens = true ↔
      tokens = ["look"] := by
    intro tokens
    rw [← Automaton.mem_language_iff, language_automaton]
    exact Iff.rfl
  obtain ⟨bound, hbound⟩ :=
    (keyword "look").automaton.exists_limit_interpret ["look", "around"]
  have hlimit := hbound ⟨bound, true⟩ (Nat.le_refl bound)
  cases hresult : (keyword "look").automaton.interpret ⟨bound, true⟩ ["look", "around"] with
  | ok found =>
    exact absurd ((haccepts _).mp (Automaton.accepts_of_interpret_eq_ok hresult)) (by decide)
  | error failure =>
    cases failure with
    | tooManyPaths limit position => exact absurd ⟨limit, position, hresult⟩ hlimit
    | noMatch failures =>
      obtain ⟨hsome, p, ⟨⟨hp, more, hmore⟩, hgreatest⟩, hreceived⟩ :=
        received_after_longest_viable (keyword "look") ⟨bound, true⟩ _ failures hresult
      have hone : 1 ≤ p := hgreatest ⟨by decide, [], (haccepts _).mpr rfl⟩
      have hnotAll : p ≠ 2 := by
        rintro rfl
        cases (haccepts _).mp hmore
      have hp : p ≤ 2 := hp
      obtain rfl : p = 1 := by omega
      rcases hreceived with ⟨hlength, _⟩ | ⟨token, htoken, hall⟩
      · cases hlength
      · cases htoken
        exact ⟨⟨bound, true⟩, failures, hresult, hsome, hall⟩

end Grammar
end CommandGrammar
