/-!
# Finite sets in ascending order

Failure reports list what was expected, and list themselves, in ascending order and without
repeats.  `OrderedSet α` is a finite set that is its own ascending list: two such sets are equal
exactly when their lists are, and comparing two sets means comparing their lists.
-/

namespace CommandGrammar

/-- A finite set, as the ascending list of its members. -/
@[ext] structure OrderedSet (α : Type) [Ord α] where
  toList : List α
  ascending : toList.Pairwise fun a b => compare a b = .lt

namespace OrderedSet

variable {α : Type} [Ord α]

instance [DecidableEq α] : DecidableEq (OrderedSet α) := fun s t =>
  decidable_of_iff (s.toList = t.toList) OrderedSet.ext_iff.symm

instance : Membership α (OrderedSet α) := ⟨fun s a => a ∈ s.toList⟩

/-- Sets compare as their ascending lists do, member by member, and a beginning comes first. -/
instance : Ord (OrderedSet α) := ⟨fun s t => compare s.toList t.toList⟩

theorem compare_def (s t : OrderedSet α) : compare s t = compare s.toList t.toList := rfl

instance [Std.TransOrd α] : Std.TransOrd (OrderedSet α) where
  eq_swap {s t} := by
    simp only [compare_def]; exact Std.OrientedCmp.eq_swap
  isLE_trans {s t u} h₁ h₂ := by
    simp only [compare_def] at h₁ h₂ ⊢; exact Std.TransCmp.isLE_trans h₁ h₂

instance [Std.TransOrd α] [Std.LawfulEqOrd α] : Std.LawfulEqOrd (OrderedSet α) where
  eq_of_compare {s t} h := by
    simp only [compare_def] at h
    exact OrderedSet.ext (Std.LawfulEqCmp.eq_of_compare h)

/-- The set without members. -/
def empty : OrderedSet α := ⟨[], List.Pairwise.nil⟩

instance : EmptyCollection (OrderedSet α) := ⟨empty⟩

@[simp] theorem not_mem_empty {x : α} : x ∉ (∅ : OrderedSet α) := List.not_mem_nil

/-- The number of members. -/
def size (s : OrderedSet α) : Nat := s.toList.length

/-- Puts an element in its place in an ascending list that does not hold it yet. -/
def place (a : α) : List α → List α
  | [] => [a]
  | b :: rest =>
    match compare a b with
    | .lt => a :: b :: rest
    | .eq => b :: rest
    | .gt => b :: place a rest

theorem mem_place [Std.LawfulEqOrd α] {a x : α} {l : List α} :
    x ∈ place a l ↔ x = a ∨ x ∈ l := by
  induction l with
  | nil => simp [place]
  | cons b rest ih =>
    unfold place
    split
    · simp
    · next h =>
      obtain rfl := Std.LawfulEqCmp.eq_of_compare h
      simp
    · simp [ih, or_left_comm]

theorem ascending_place [Std.TransOrd α] [Std.LawfulEqOrd α] {a : α} {l : List α}
    (h : l.Pairwise fun a b => compare a b = .lt) :
    (place a l).Pairwise fun a b => compare a b = .lt := by
  induction l with
  | nil => simp [place]
  | cons b rest ih =>
    obtain ⟨hb, hrest⟩ := List.pairwise_cons.mp h
    unfold place
    split
    · next hlt =>
      refine List.pairwise_cons.mpr ⟨fun x mem => ?_, h⟩
      rcases List.mem_cons.mp mem with rfl | mem
      · exact hlt
      · exact Std.TransCmp.lt_trans hlt (hb x mem)
    · exact h
    · next hgt =>
      refine List.pairwise_cons.mpr ⟨fun x mem => ?_, ih hrest⟩
      rcases mem_place.mp mem with rfl | mem
      · exact Std.OrientedCmp.lt_of_gt hgt
      · exact hb x mem

variable [Std.TransOrd α] [Std.LawfulEqOrd α]

/-- The set with one more member. -/
def insert (a : α) (s : OrderedSet α) : OrderedSet α :=
  ⟨place a s.toList, ascending_place s.ascending⟩

@[simp] theorem mem_insert {a x : α} {s : OrderedSet α} : x ∈ s.insert a ↔ x = a ∨ x ∈ s :=
  mem_place

/-- The set of the members of a list. -/
def ofList (l : List α) : OrderedSet α := l.foldr insert ∅

@[simp] theorem mem_ofList {x : α} {l : List α} : x ∈ ofList l ↔ x ∈ l := by
  induction l with
  | nil => simp [ofList]
  | cons a l ih => simpa [ofList] using or_congr_right ih

end OrderedSet

end CommandGrammar
