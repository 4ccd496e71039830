import DriveClient.Proofs.Json.Members
import DriveClient.Usage.Direct

/-!
# Collecting members

A usage that is read directly collects its members one by one, and stops at a second one with the
same name. On the members of an object, as they stand in its tree, this is a fold (`Found.add?`). It
ends well exactly when each name has one member of the right kind, which is how a usage is taken
from the tree (`bind_addAll?_usage?`).
-/

namespace DriveClient.Usage

open Json

/-! ## One member after the other -/

/-- What is found after one more member of an object. -/
def Found.add? (found : Found) (name : String) (tree : Tree) : Option Found :=
  if name = "used" then
    if found.used.isSome then none
    else tree.double?.map fun v => { found with used := some v }
  else if name = "total" then
    if found.total.isSome then none
    else tree.double?.map fun v => { found with total := some v }
  else if name = "unit" then
    if found.unit.isSome then none
    else tree.text?.map fun s => { found with unit := some s }
  else some found

/-- What is found after some more members. -/
def Found.addAll? (found : Found) : List (String × Tree) → Option Found
  | [] => some found
  | (name, tree) :: members => (found.add? name tree).bind fun next => next.addAll? members

/-- The values of the members with a name, in their order. -/
def named (name : String) (members : List (String × Tree)) : List Tree :=
  (members.filter (·.1 = name)).map (·.2)

theorem named_cons_self (name : String) (tree : Tree) (members : List (String × Tree)) :
    named name ((name, tree) :: members) = tree :: named name members := by
  simp [named]

theorem named_cons_of_ne {name other : String} (h : other ≠ name) (tree : Tree)
    (members : List (String × Tree)) :
    named name ((other, tree) :: members) = named name members := by
  simp [named, h]

/-- A name has a single value when it has a single member. -/
theorem named_eq_singleton_iff {name : String} {tree : Tree} {members : List (String × Tree)} :
    named name members = [tree] ↔ only? name members = some tree := by
  rw [only?_eq_some_iff_filter, named, List.map_eq_singleton_iff]
  constructor
  · rintro ⟨⟨key, value⟩, hfilter, rfl⟩
    exact ⟨key, hfilter⟩
  · rintro ⟨key, hfilter⟩
    exact ⟨(key, tree), hfilter, rfl⟩

/-! ## What becomes of a field -/

section Collected

variable {α : Type} {value? : Tree → Option α} {before after : Option α}

/-- How a field comes out of some values: as it was when there are none, and filled by a single one
if it was empty. -/
inductive Collected (value? : Tree → Option α) : Option α → List Tree → Option α → Prop where
  | none (field : Option α) : Collected value? field [] field
  | one {tree : Tree} {v : α} (h : value? tree = some v) : Collected value? none [tree] (some v)

theorem collected_nil_iff : Collected value? before [] after ↔ before = after := by
  constructor
  · intro h
    cases h
    rfl
  · rintro rfl
    exact .none before

theorem collected_cons_iff {tree : Tree} {trees : List Tree} :
    Collected value? before (tree :: trees) after ↔
      before = none ∧ ∃ v, value? tree = some v ∧ Collected value? (some v) trees after := by
  constructor
  · intro h
    cases h with
    | one h => exact ⟨rfl, _, h, .none _⟩
  · rintro ⟨rfl, v, hv, h⟩
    cases h
    exact .one hv

/-- An empty field is filled by the only member with a name, if this is of the right kind. -/
theorem collected_named_iff {name : String} {members : List (String × Tree)} {v : α} :
    Collected value? none (named name members) (some v) ↔
      ∃ tree, only? name members = some tree ∧ value? tree = some v := by
  simp only [← named_eq_singleton_iff]
  constructor
  · intro h
    generalize named name members = trees at h
    cases h with
    | one h => exact ⟨_, rfl, h⟩
  · rintro ⟨tree, htrees, h⟩
    rw [htrees]
    exact .one h

/-- Filling a field with a value: the field must be empty, and the value of the right kind. -/
theorem exists_fill_iff {tree : Tree} {set : α → Found} {P : Found → Prop} :
    (∃ next, (if before.isSome then none else (value? tree).map set) = some next ∧ P next) ↔
      before = none ∧ ∃ v, value? tree = some v ∧ P (set v) := by
  cases before with
  | some old => simp
  | none =>
    simp only [Option.isSome_none, Bool.false_eq_true, if_false, Option.map_eq_some_iff, true_and]
    constructor
    · rintro ⟨-, ⟨v, hv, rfl⟩, h⟩
      exact ⟨v, hv, h⟩
    · rintro ⟨v, hv, h⟩
      exact ⟨set v, ⟨v, hv, rfl⟩, h⟩

end Collected

/-- Each field of what is found comes out of the members with its name. -/
theorem Found.addAll?_eq_some_iff {members : List (String × Tree)} {found result : Found} :
    found.addAll? members = some result ↔
      Collected Tree.double? found.used (named "used" members) result.used ∧
      Collected Tree.double? found.total (named "total" members) result.total ∧
      Collected Tree.text? found.unit (named "unit" members) result.unit := by
  induction members generalizing found with
  | nil =>
    have hnil (name : String) : named name [] = [] := rfl
    rw [addAll?, hnil, hnil, hnil, collected_nil_iff, collected_nil_iff, collected_nil_iff,
      Option.some_inj]
    cases found
    cases result
    simp
  | cons m members ih =>
    obtain ⟨name, tree⟩ := m
    rw [addAll?, Option.bind_eq_some_iff]
    simp only [ih, add?]
    -- a member of a known name fills its own field and leaves the others
    by_cases hused : name = "used"
    · subst hused
      rw [named_cons_self, collected_cons_iff, named_cons_of_ne (by decide),
        named_cons_of_ne (by decide)]
      simp only [if_pos, exists_fill_iff]
      grind
    by_cases htotal : name = "total"
    · subst htotal
      rw [named_cons_self, collected_cons_iff, named_cons_of_ne (by decide),
        named_cons_of_ne (by decide)]
      simp only [if_neg hused, if_pos, exists_fill_iff]
      grind
    by_cases hunit : name = "unit"
    · subst hunit
      rw [named_cons_self, collected_cons_iff, named_cons_of_ne (by decide),
        named_cons_of_ne (by decide)]
      simp only [if_neg hused, if_neg htotal, if_pos, exists_fill_iff]
      grind
    · rw [named_cons_of_ne hused, named_cons_of_ne htotal, named_cons_of_ne hunit]
      simp [hused, htotal, hunit]

theorem Found.usage?_eq_some_iff {found : Found} {usage : Usage} :
    found.usage? = some usage ↔
      found.used = some usage.used ∧ found.total = some usage.total ∧
        found.unit = some usage.unit := by
  obtain ⟨used, total, unit⟩ := found
  obtain ⟨used', total', unit'⟩ := usage
  cases used <;> cases total <;> cases unit <;> simp [usage?]

/-- Collecting the members of an object gives the usage that the object is. -/
theorem bind_addAll?_usage? (members : List (String × Tree)) :
    ((Found.mk none none none).addAll? members).bind Found.usage? = ofTree? (.object members) := by
  refine Option.ext fun usage => ?_
  rw [Option.bind_eq_some_iff, ofTree?]
  simp only [Option.bind_eq_bind, Option.bind_eq_some_iff, Option.pure_def,
    Found.addAll?_eq_some_iff, Found.usage?_eq_some_iff]
  constructor
  · rintro ⟨result, ⟨hused, htotal, hunit⟩, hu, ht, hn⟩
    rw [hu, collected_named_iff] at hused
    rw [ht, collected_named_iff] at htotal
    rw [hn, collected_named_iff] at hunit
    obtain ⟨u, hu, hused⟩ := hused
    obtain ⟨t, ht, htotal⟩ := htotal
    obtain ⟨n, hn, hunit⟩ := hunit
    exact ⟨u, hu, _, hused, t, ht, _, htotal, n, hn, _, hunit, rfl⟩
  · rintro ⟨u, hu, used, hused, t, ht, total, htotal, n, hn, unit, hunit, h⟩
    obtain rfl := Option.some.inj h
    exact ⟨⟨used, total, unit⟩, ⟨collected_named_iff.2 ⟨u, hu, hused⟩,
      collected_named_iff.2 ⟨t, ht, htotal⟩, collected_named_iff.2 ⟨n, hn, hunit⟩⟩, rfl, rfl, rfl⟩

end DriveClient.Usage
