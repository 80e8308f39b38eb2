import CommandGrammar.Proofs.Automaton.Trace

/-!
# The traces of composed automata

Each operation on automata lays the tables of its parts into a larger one and links their exits.
`IsBlock` describes a table that has been linked, and `IsBlock.hosts` says that a table around it
hosts the part.  What stands where in the result of an operation is said once for each of them
(`hosts_of_followedBy`, `exists_beside_of_union`, `hosts_of_star` and so on), and the theory of
blocks then gives the traces of the result by calculation:

* `traces_concat`: the concatenations of traces of the parts;
* `traces_union`: the traces of all parts, or the empty trace if there are none;
* `traces_quantify`: the repetitions that the quantifier admits;
* `traces_emitting`: the traces of the part, each followed by the rule.

The parts have to be sound, that is, to end in a final state.  This is also what makes the
operations succeed.
-/

namespace CommandGrammar

open scoped Computability

namespace State

theorem shift_zero (state : State) : state.shift 0 = state := by
  cases state with
  | halt => rfl
  | consume transitions =>
    have h : transitions.shift 0 = transitions := by
      apply Transitions.ext
      simp [Transitions.shift]
    rw [shift, h]
  | free next => simp [shift]
  | emit rule next => simp [shift]

theorem leadingTo_shift {state : State} (hfinal : state.isFinal = true) (offset : Nat)
    (exits : List Nat) : (state.shift offset).leadingTo exits = state.leadingTo exits := by
  rcases isFinal_iff.mp hfinal with rfl | ⟨rule, rfl⟩
  · rfl
  · rfl

theorem link_of_isFinal {state : State} (hfinal : state.isFinal = true) (x : Nat) :
    state.link x = .ok (state.leadingTo [x]) := by
  rcases isFinal_iff.mp hfinal with rfl | ⟨rule, rfl⟩
  · rfl
  · rfl

theorem link_leadingTo {state : State} (hfinal : state.isFinal = true) (exits : List Nat) (x : Nat) :
    (state.leadingTo exits).link x = .ok (state.leadingTo (exits ++ [x])) := by
  rcases isFinal_iff.mp hfinal with rfl | ⟨rule, rfl⟩
  · rfl
  · rfl

end State

/-- The traces in which one token is read, which the label accepts. -/
def Label.reads (label : Label) : Language Action :=
  {w | ∃ text, label.accepts (.token text) = true ∧ w = [.read text]}

namespace Automaton

/-! ## Linked tables -/

theorem linkLast_push {before : Array State} {last linked : State} {x : Nat}
    (h : last.link x = .ok linked) :
    linkLast (before.push last) x = .ok (before.push linked) := by
  simp [linkLast, h, bind, Except.bind, pure, Except.pure]

/-- The table of a part as it stands from `offset` on, its exit linked to `exits`. -/
structure IsBlock (block : Array State) (offset : Nat) (part : Array State) (exits : List Nat) :
    Prop where
  size_eq : block.size = part.size
  inner : ∀ i, i + 1 < part.size → block[i]? = part[i]?.map (State.shift offset)
  exit : ∃ last, part.back? = some last ∧ last.isFinal = true ∧
    block.back? = some (last.leadingTo exits)

/-- Linking the exit of a part makes a block of it. -/
theorem exists_linkLast_map_shift {part : Array State} (h : Sound part) (offset x : Nat) :
    ∃ block, linkLast (part.map (State.shift offset)) x = .ok block ∧
      IsBlock block offset part [x] := by
  obtain ⟨last, hback, hfinal⟩ := h.final
  obtain ⟨before, rfl⟩ := Array.back?_eq_some_iff.mp hback
  have hlink : (last.shift offset).link x = .ok (last.leadingTo [x]) := by
    rw [State.link_of_isFinal (by rw [State.isFinal_shift]; exact hfinal),
      State.leadingTo_shift hfinal]
  refine ⟨(before.map (State.shift offset)).push (last.leadingTo [x]), ?_, ?_, ?_, last, ?_⟩
  · rw [Array.map_push, linkLast_push hlink]
  · simp
  · intro i hi
    rw [Array.size_push] at hi
    rw [Array.getElem?_push, Array.getElem?_push, Array.size_map, if_neg (by omega),
      if_neg (by omega), Array.getElem?_map]
  · exact ⟨hback, hfinal, Array.back?_push ..⟩

theorem exists_linkLast_of_sound {part : Array State} (h : Sound part) (x : Nat) :
    ∃ block, linkLast part x = .ok block ∧ IsBlock block 0 part [x] := by
  have hmap : part.map (State.shift 0) = part := by
    rw [funext State.shift_zero, Array.map_id']
  have := exists_linkLast_map_shift h 0 x
  rwa [hmap] at this

/-- Linking the exit of a block once more gives it one more way on. -/
theorem IsBlock.exists_linkLast {block part : Array State} {offset : Nat} {exits : List Nat}
    (h : IsBlock block offset part exits) (x : Nat) :
    ∃ linked, linkLast block x = .ok linked ∧ IsBlock linked offset part (exits ++ [x]) := by
  obtain ⟨last, hback, hfinal, hexit⟩ := h.exit
  obtain ⟨before, rfl⟩ := Array.back?_eq_some_iff.mp hexit
  have hsize : before.size + 1 = part.size := by
    rw [← h.size_eq, Array.size_push]
  refine ⟨before.push (last.leadingTo (exits ++ [x])), ?_, ?_, ?_, last, hback, hfinal, ?_⟩
  · exact linkLast_push (State.link_leadingTo hfinal exits x)
  · rw [Array.size_push, hsize]
  · intro i hi
    have hinner := h.inner i hi
    rw [Array.getElem?_push, if_neg (by omega)] at hinner ⊢
    exact hinner
  · exact Array.back?_push ..

/-- A table that holds a block from its offset on hosts the part. -/
theorem IsBlock.hosts {block part whole : Array State} {offset : Nat} {exits : List Nat}
    (h : IsBlock block offset part exits)
    (hwhole : ∀ i < block.size, whole[offset + i]? = block[i]?) :
    Hosts whole offset part exits := by
  obtain ⟨last, hback, hfinal, hexit⟩ := h.exit
  have hpos := (Array.getElem?_eq_some_iff.mp (back?_eq_some_getElem hexit)).1
  refine ⟨fun i hi => ?_, last, hback, hfinal, ?_⟩
  · rw [hwhole i (by rw [h.size_eq]; omega), h.inner i hi]
  · rw [← h.size_eq, hwhole _ hpos, back?_eq_some_getElem hexit]

/-- A block that stands at the beginning of a longer table. -/
theorem IsBlock.hosts_append {block part after : Array State} {exits : List Nat}
    (h : IsBlock block 0 part exits) : Hosts (block ++ after) 0 part exits := by
  apply h.hosts
  intro i hi
  rw [Nat.zero_add, Array.getElem?_append_left hi]

theorem IsBlock.hosts_push {block part : Array State} {exits : List Nat} {state : State}
    (h : IsBlock block 0 part exits) : Hosts (block.push state) 0 part exits := by
  rw [← Array.append_singleton]
  exact h.hosts_append

theorem completions_push {states : Array State} {last : State} (hfinal : last.isFinal = true) :
    completions (states.push last) states.size = {last.closing} := by
  have hback : (states.push last).back? = some last := Array.back?_push ..
  have h := completions_of_back? hback hfinal
  rwa [Array.size_push, Nat.add_sub_cancel] at h

/-! ## Tables with a new entry and a new exit -/

section

variable {entries : List Nat} {states : Array State}

theorem getElem?_zero_enclosed : (enclosed entries states)[0]? = some (.free entries) := by
  have hsize : 0 < (#[State.free entries] ++ states).size := by
    rw [Array.size_append]
    exact Nat.lt_of_lt_of_le Nat.zero_lt_one (Nat.le_add_right 1 _)
  rw [enclosed, Array.getElem?_push_lt hsize]
  simp

theorem getElem?_succ_enclosed {i : Nat} (hi : i < states.size) :
    (enclosed entries states)[1 + i]? = states[i]? := by
  rw [enclosed, Array.getElem?_push, if_neg (by simp; omega),
    Array.getElem?_append_right (by simp)]
  congr 1
  simp

theorem completions_enclosed_exit : completions (enclosed entries states) (states.size + 1) = 1 := by
  have hsize : (#[State.free entries] ++ states).size = states.size + 1 := by
    rw [Array.size_append, Nat.add_comm]
    rfl
  rw [← hsize]
  exact completions_push rfl

/-- The runs of an enclosed table begin at one of its entries. -/
theorem traces_enclosed :
    traces (enclosed entries states) =
      (entries.map (completions (enclosed entries states))).sum :=
  completions_of_free getElem?_zero_enclosed

/-- A table that can be entered at its first state or passed by. -/
theorem traces_enclosed_or_passed {exit : Nat} (hexit : exit = states.size + 1) :
    traces (enclosed [1, exit] states) = 1 + completions (enclosed [1, exit] states) 1 := by
  rw [traces_enclosed, List.map_cons, List.map_cons, List.map_nil, List.sum_cons,
    List.sum_singleton, add_comm, hexit, completions_enclosed_exit]

end

/-! ## Parts without parts -/

theorem traces_trivial : traces trivial.states = 1 :=
  @completions_of_back? trivial.states .halt rfl rfl

theorem traces_consuming (label : Label) : traces (consuming label).states = label.reads := by
  have hend : completions (consuming label).states 1 = 1 :=
    @completions_of_back? (consuming label).states .halt rfl rfl
  have hentry : (consuming label).states[0]? = some (.consume (.single label 1)) := rfl
  ext w
  constructor
  · intro hw
    cases hw with
    | move hstate hmove hrest =>
      rw [hentry] at hstate
      cases hstate
      cases hmove with
      | read hmem haccepts =>
        obtain ⟨rfl, rfl⟩ := Prod.mk.inj (List.mem_singleton.mp hmem)
        have hnil := (Language.mem_one _).mp (hend ▸ mem_completions_iff.mpr hrest)
        exact ⟨_, haccepts, by rw [hnil]; rfl⟩
  · rintro ⟨text, haccepts, rfl⟩
    have hrest : Completes (consuming label).states 1 [] :=
      mem_completions_iff.mp (hend ▸ Language.nil_mem_one)
    exact .move hentry (.read List.mem_cons_self haccepts) hrest

/-! ## Parts one after the other -/

/-- A table that goes on to a part hosts the first table, and the part stands at its end. -/
theorem hosts_of_followedBy {states whole : Array State} {part : Automaton} (h : Sound states)
    (hrun : followedBy states part = .ok whole) :
    whole.size = states.size + part.size ∧ Hosts whole 0 states [states.size] ∧
      ∀ i < part.size, whole[states.size + i]? = part.states[i]?.map (State.shift states.size) := by
  obtain ⟨block, hlink, hblock⟩ := exists_linkLast_of_sound h states.size
  have hwhole : whole = block ++ part.shifted states.size := by
    simpa [followedBy, hlink, bind, Except.bind, pure, Except.pure] using hrun.symm
  rw [hwhole]
  refine ⟨?_, hblock.hosts_append, fun i hi => ?_⟩
  · rw [Array.size_append, hblock.size_eq, size_shifted]
  · rw [Array.getElem?_append_right (by rw [hblock.size_eq]; omega), hblock.size_eq,
      Nat.add_sub_cancel_left, shifted, Array.getElem?_map]

/-- Going on from one table to the next concatenates their traces. -/
theorem traces_followedBy {states whole : Array State} {part : Automaton} (h : Sound states)
    (hrun : followedBy states part = .ok whole) :
    traces whole = traces states * traces part.states := by
  obtain ⟨hsize, hhosts, hsame⟩ := hosts_of_followedBy h hrun
  have hpart : 0 < part.size := part.nonempty
  have hfirst : completions whole (0 + 0) = traces states * completions whole states.size :=
    hhosts.completions_eq_mul h.closed (by omega) (Nat.ne_of_gt h.size_pos) h.size_pos
  have hsecond : completions whole (states.size + 0) = traces part.states :=
    completions_of_extends hsize hsame part.closed part.nonempty
  rw [Nat.add_zero] at hfirst hsecond
  rw [traces, hfirst, hsecond]

theorem traces_foldlM_followedBy {parts : List Automaton} {states whole : Array State}
    (h : Sound states) (hparts : ∀ part ∈ parts, Sound part.states)
    (hrun : parts.foldlM followedBy states = .ok whole) :
    traces whole = traces states * (parts.map fun part => traces part.states).prod := by
  induction parts generalizing states with
  | nil =>
    cases hrun
    rw [List.map_nil, List.prod_nil, mul_one]
  | cons part rest ih =>
    obtain ⟨next, hnext, hsound⟩ := exists_followedBy h (hparts part List.mem_cons_self)
    have hrest : rest.foldlM followedBy next = .ok whole := by
      simpa [List.foldlM_cons, hnext, bind, Except.bind] using hrun
    rw [ih hsound (fun p hp => hparts p (List.mem_cons_of_mem _ hp)) hrest,
      traces_followedBy h hnext, List.map_cons, List.prod_cons, mul_assoc]

/-- Parts that run one after the other concatenate their traces. -/
theorem traces_concat {parts : List Automaton} {whole : Automaton}
    (h : ∀ part ∈ parts, Sound part.states) (hrun : concat parts = .ok whole) :
    traces whole.states = (parts.map fun part => traces part.states).prod := by
  cases parts with
  | nil =>
    cases hrun
    exact traces_trivial
  | cons first rest =>
    have hfirst := h first List.mem_cons_self
    have hrest : ∀ part ∈ rest, Sound part.states := fun p hp => h p (List.mem_cons_of_mem _ hp)
    obtain ⟨states, hfold, _⟩ := exists_foldlM_followedBy hfirst hrest
    have hmake : ofStates states = .ok whole := by
      simpa [concat, hfold, bind, Except.bind] using hrun
    rw [states_of_ofStates_eq_ok hmake, traces_foldlM_followedBy hfirst hrest hfold,
      List.map_cons, List.prod_cons]

/-! ## Parts side by side -/

/-- A table that holds parts side by side hosts the first one and holds the others after it. -/
theorem hosts_of_beside_cons {part : Automaton} {rest : List Automaton} (h : Sound part.states)
    {whole states : Array State} {entries : List Nat} {exit offset : Nat}
    (hrun : beside exit offset (part :: rest) = .ok (entries, states))
    (hwhole : ∀ i < states.size, whole[offset + i]? = states[i]?) :
    Hosts whole offset part.states [exit] ∧ ∃ others after, entries = offset :: others ∧
      beside exit (offset + part.size) rest = .ok (others, after) ∧
      states.size = part.size + after.size ∧
      ∀ i < after.size, whole[offset + part.size + i]? = after[i]? := by
  obtain ⟨block, hlink, hblock⟩ := exists_linkLast_map_shift h offset exit
  have hlink : linkLast (part.shifted offset) exit = .ok block := hlink
  have hsize : block.size = part.size := hblock.size_eq
  rw [beside, hlink] at hrun
  cases hbeside : beside exit (offset + part.size) rest with
  | error fault =>
    rw [hbeside] at hrun
    cases hrun
  | ok result =>
    obtain ⟨others, after⟩ := result
    rw [hbeside] at hrun
    cases hrun
    refine ⟨hblock.hosts fun i hi => ?_, others, after, rfl, rfl, ?_, fun i hi => ?_⟩
    · rw [hwhole i (by rw [Array.size_append]; omega), Array.getElem?_append_left hi]
    · rw [Array.size_append, hsize]
    · have hlater := hwhole (part.size + i) (by rw [Array.size_append, hsize]; omega)
      rwa [Array.getElem?_append_right (by omega), hsize, Nat.add_sub_cancel_left,
        ← Nat.add_assoc] at hlater

/-- A table that holds parts side by side hosts every one of them at its entry. -/
theorem hosts_of_beside {parts : List Automaton} (h : ∀ part ∈ parts, Sound part.states)
    {whole states : Array State} {entries : List Nat} {exit offset : Nat}
    (hrun : beside exit offset parts = .ok (entries, states))
    (hwhole : ∀ i < states.size, whole[offset + i]? = states[i]?) :
    List.Forall₂ (fun entry part => Hosts whole entry part.states [exit] ∧
      entry + part.size ≤ offset + states.size) entries parts := by
  induction parts generalizing offset entries states with
  | nil =>
    cases hrun
    exact .nil
  | cons part rest ih =>
    have hrest : ∀ p ∈ rest, Sound p.states := fun p hp => h p (List.mem_cons_of_mem _ hp)
    obtain ⟨hhosts, others, after, rfl, hbeside, hsize, hafter⟩ :=
      hosts_of_beside_cons (h part List.mem_cons_self) hrun hwhole
    refine .cons ⟨hhosts, by omega⟩ ((ih hrest hbeside hafter).imp ?_)
    intro entry p hentry
    have hfits := hentry.2
    exact ⟨hentry.1, by omega⟩

/-- Where the way out of every part leads to the end, the parts have their own traces. -/
theorem map_completions_of_hosts {whole : Array State} {exit bound : Nat} {entries : List Nat}
    {parts : List Automaton}
    (h : List.Forall₂ (fun entry part => Hosts whole entry part.states [exit] ∧
      entry + part.size ≤ bound) entries parts)
    (hbound : bound ≤ exit) (hexit : exit < whole.size) (hend : completions whole exit = 1) :
    entries.map (completions whole) = parts.map fun part => traces part.states := by
  induction h with
  | nil => rfl
  | @cons entry part entries parts hfirst _ ih =>
    obtain ⟨hhosts, hfits⟩ := hfirst
    have hpos : 0 < part.size := part.nonempty
    have hpart : completions whole (entry + 0) = traces part.states * completions whole exit :=
      hhosts.completions_eq_mul part.closed (Nat.lt_of_le_of_lt (hfits.trans hbound) hexit)
        (by omega) part.nonempty
    rw [Nat.add_zero, hend, mul_one] at hpart
    rw [List.map_cons, List.map_cons, ih, hpart]

/-- At least two parts of which any one runs stand side by side between a new entry and a new
exit. -/
theorem exists_beside_of_union {parts : List Automaton} {whole : Automaton}
    (h : ∀ part ∈ parts, Sound part.states) (hlength : 2 ≤ parts.length)
    (hrun : union parts = .ok whole) :
    ∃ entries states, beside (states.size + 1) 1 parts = .ok (entries, states) ∧
      whole.states = enclosed entries states := by
  obtain ⟨entries, states, hbeside, hsize, _, _⟩ :=
    exists_beside (fun part hpart => (h part hpart).linkable) 1 (Nat.le_refl (1 + totalSize parts))
  have hmake : ofStates (enclosed entries states) = .ok whole := by
    match parts, hlength with
    | first :: second :: rest, _ => simpa only [union, hbeside, bind, Except.bind] using hrun
  have hexit : 1 + totalSize parts = states.size + 1 := by omega
  rw [hexit] at hbeside
  exact ⟨entries, states, hbeside, states_of_ofStates_eq_ok hmake⟩

/-- Parts of which any one runs have the traces of all of them. -/
theorem traces_union {parts : List Automaton} {whole : Automaton}
    (h : ∀ part ∈ parts, Sound part.states) (hrun : union parts = .ok whole) :
    traces whole.states = oneOf (parts.map fun part => traces part.states) := by
  match parts with
  | [] =>
    cases hrun
    exact traces_trivial
  | [part] =>
    cases hrun
    rw [List.map_cons, List.map_nil, oneOf_cons, List.sum_singleton]
  | first :: second :: rest =>
    have hlength : 2 ≤ (first :: second :: rest).length := by simp
    obtain ⟨entries, states, hbeside, hwhole⟩ := exists_beside_of_union h hlength hrun
    have hinside : ∀ i < states.size, (enclosed entries states)[1 + i]? = states[i]? :=
      fun i hi => getElem?_succ_enclosed hi
    have hentries := map_completions_of_hosts (hosts_of_beside h hbeside hinside) (by omega)
      (by rw [size_enclosed]; omega) completions_enclosed_exit
    rw [hwhole, traces_enclosed, hentries, List.map_cons, oneOf_cons]

/-! ## One part, repeated or left out -/

/-- A part that is repeated stands between a new entry and a new exit, and from its own exit a way
leads back. -/
theorem hosts_of_star {part whole : Automaton} (h : Sound part.states)
    (hrun : part.star = .ok whole) :
    ∃ block : Array State, block.size = part.size ∧
      whole.states = enclosed [1, part.size + 1] block ∧
      Hosts whole.states 1 part.states [1, part.size + 1] := by
  obtain ⟨once, hlink₁, hblock₁⟩ := exists_linkLast_map_shift h 1 1
  obtain ⟨block, hlink₂, hblock⟩ := hblock₁.exists_linkLast (part.size + 1)
  have hlink₁ : linkLast (part.shifted 1) 1 = .ok once := hlink₁
  have hmake : ofStates (enclosed [1, part.size + 1] block) = .ok whole := by
    simpa [star, hlink₁, hlink₂, bind, Except.bind] using hrun
  rw [states_of_ofStates_eq_ok hmake]
  exact ⟨block, hblock.size_eq, rfl, hblock.hosts fun i hi => getElem?_succ_enclosed hi⟩

/-- A part that may be left out stands between a new entry and a new exit. -/
theorem hosts_of_optional {part whole : Automaton} (h : Sound part.states)
    (hrun : part.optional = .ok whole) :
    ∃ block : Array State, block.size = part.size ∧
      whole.states = enclosed [1, part.size + 1] block ∧
      Hosts whole.states 1 part.states [part.size + 1] := by
  obtain ⟨block, hlink, hblock⟩ := exists_linkLast_map_shift h 1 (part.size + 1)
  have hlink : linkLast (part.shifted 1) (part.size + 1) = .ok block := hlink
  have hmake : ofStates (enclosed [1, part.size + 1] block) = .ok whole := by
    simpa [optional, hlink, bind, Except.bind] using hrun
  rw [states_of_ofStates_eq_ok hmake]
  exact ⟨block, hblock.size_eq, rfl, hblock.hosts fun i hi => getElem?_succ_enclosed hi⟩

/-- A part that runs at least once gets a new exit, and from its own exit a way leads back. -/
theorem hosts_of_plus {part whole : Automaton} (h : Sound part.states)
    (hrun : part.plus = .ok whole) :
    ∃ block : Array State, block.size = part.size ∧ whole.states = block.push .halt ∧
      Hosts whole.states 0 part.states [0, part.size] := by
  obtain ⟨once, hlink₁, hblock₁⟩ := exists_linkLast_of_sound h 0
  obtain ⟨block, hlink₂, hblock⟩ := hblock₁.exists_linkLast part.size
  have hmake : ofStates (block.push .halt) = .ok whole := by
    simpa [plus, hlink₁, hlink₂, bind, Except.bind] using hrun
  rw [states_of_ofStates_eq_ok hmake]
  exact ⟨block, hblock.size_eq, rfl, hblock.hosts_push⟩

/-- A part that reports a rule gets a new exit that does so. -/
theorem hosts_of_emitting {part whole : Automaton} {rule : Rule} (h : Sound part.states)
    (hrun : part.emitting rule = .ok whole) :
    ∃ block : Array State, block.size = part.size ∧ whole.states = block.push (.emit rule []) ∧
      Hosts whole.states 0 part.states [part.size] := by
  obtain ⟨block, hlink, hblock⟩ := exists_linkLast_of_sound h part.size
  have hmake : ofStates (block.push (.emit rule [])) = .ok whole := by
    simpa [emitting, hlink, bind, Except.bind] using hrun
  rw [states_of_ofStates_eq_ok hmake]
  exact ⟨block, hblock.size_eq, rfl, hblock.hosts_push⟩

theorem traces_star {part whole : Automaton} (h : Sound part.states)
    (hrun : part.star = .ok whole) : traces whole.states = (traces part.states)∗ := by
  obtain ⟨block, hsize, hwhole, hhosts⟩ := hosts_of_star h hrun
  rw [hwhole] at hhosts ⊢
  have hentry := hhosts.completions_eq_mul_kstar part.closed
    (by rw [size_enclosed, hsize, Automaton.size]; omega) part.nonempty
  have hend : completions (enclosed [1, part.size + 1] block) (part.size + 1) = 1 := by
    rw [← hsize]
    exact completions_enclosed_exit
  rw [Nat.add_zero, hend, mul_one] at hentry
  rw [traces_enclosed_or_passed (by rw [hsize]), hentry]
  exact one_add_mul_kstar

theorem traces_plus {part whole : Automaton} (h : Sound part.states)
    (hrun : part.plus = .ok whole) :
    traces whole.states = traces part.states * (traces part.states)∗ := by
  obtain ⟨block, hsize, hwhole, hhosts⟩ := hosts_of_plus h hrun
  rw [hwhole] at hhosts ⊢
  have hentry := hhosts.completions_eq_mul_kstar part.closed
    (by rw [Array.size_push, hsize, Automaton.size]; omega) part.nonempty
  have hend : completions (block.push .halt) part.size = 1 := by
    rw [← hsize]
    exact completions_push rfl
  rw [Nat.add_zero, hend, mul_one] at hentry
  exact hentry

theorem traces_optional {part whole : Automaton} (h : Sound part.states)
    (hrun : part.optional = .ok whole) : traces whole.states = 1 + traces part.states := by
  obtain ⟨block, hsize, hwhole, hhosts⟩ := hosts_of_optional h hrun
  have hpos : 0 < part.size := part.nonempty
  rw [hwhole] at hhosts ⊢
  have hentry := hhosts.completions_eq_mul part.closed
    (by rw [size_enclosed, hsize, Automaton.size]; omega) (by omega) part.nonempty
  have hend : completions (enclosed [1, part.size + 1] block) (part.size + 1) = 1 := by
    rw [← hsize]
    exact completions_enclosed_exit
  rw [Nat.add_zero, hend, mul_one] at hentry
  rw [traces_enclosed_or_passed (by rw [hsize]), hentry]
  rfl

/-- A part that runs as often as a quantifier says repeats its traces. -/
theorem traces_quantify {quantifier : Quantifier} {part whole : Automaton} (h : Sound part.states)
    (hrun : quantify quantifier part = .ok whole) :
    traces whole.states = quantifier.denote (traces part.states) := by
  cases quantifier with
  | star => exact traces_star h hrun
  | plus => exact traces_plus h hrun
  | optional => exact traces_optional h hrun

/-- Reporting a rule adds it at the end of every trace. -/
theorem traces_emitting {part whole : Automaton} {rule : Rule} (h : Sound part.states)
    (hrun : part.emitting rule = .ok whole) :
    traces whole.states = traces part.states * {[.emit rule]} := by
  obtain ⟨block, hsize, hwhole, hhosts⟩ := hosts_of_emitting h hrun
  have hpos : 0 < part.size := part.nonempty
  rw [hwhole] at hhosts ⊢
  have hentry := hhosts.completions_eq_mul part.closed
    (by rw [Array.size_push, hsize, Automaton.size]; omega) (by omega) part.nonempty
  have hend : completions (block.push (.emit rule [])) part.size = {[.emit rule]} := by
    rw [← hsize]
    exact completions_push rfl
  rw [Nat.add_zero, hend] at hentry
  exact hentry

end Automaton

end CommandGrammar
