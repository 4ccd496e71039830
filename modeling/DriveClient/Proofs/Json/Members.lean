import DriveClient.Json.Shape

/-!
# Members and values of the wanted kind

An object gives the value of a name exactly when it has one member with that name
(`only?_eq_some_iff`). Which one that is depends neither on the order of the members nor on those
with other names (`only?_eq_of_perm`).
-/

namespace DriveClient.Json

/-- Whether exactly one member has a name, with this value. -/
def OnlyMember (name : String) (value : Tree) (members : List (String × Tree)) : Prop :=
  ∃ before after, members = before ++ (name, value) :: after ∧
    (∀ m ∈ before, m.1 ≠ name) ∧ ∀ m ∈ after, m.1 ≠ name

/-! ## The only member with a name -/

theorem only?_eq_some_iff_filter {name : String} {value : Tree} {members : List (String × Tree)} :
    only? name members = some value ↔ ∃ key, members.filter (·.1 = name) = [(key, value)] := by
  rw [only?]
  constructor
  · intro h
    split at h
    · next key found hfilter =>
      obtain rfl : found = value := Option.some.inj h
      exact ⟨key, hfilter⟩
    · exact absurd h (by simp)
  · rintro ⟨key, hfilter⟩
    rw [hfilter]

theorem only?_eq_some_iff {name : String} {value : Tree} {members : List (String × Tree)} :
    only? name members = some value ↔ OnlyMember name value members := by
  rw [only?_eq_some_iff_filter]
  constructor
  · rintro ⟨key, hfilter⟩
    obtain ⟨before, after, rfl, hbefore, hkey, hafter⟩ := List.filter_eq_cons_iff.1 hfilter
    obtain rfl : key = name := of_decide_eq_true hkey
    refine ⟨before, after, rfl, fun m hm => ?_, fun m hm => ?_⟩
    · simpa using hbefore m hm
    · simpa using List.filter_eq_nil_iff.1 hafter m hm
  · rintro ⟨before, after, rfl, hbefore, hafter⟩
    refine ⟨name, List.filter_eq_cons_iff.2
      ⟨before, after, rfl, fun m hm => ?_, decide_eq_true rfl, ?_⟩⟩
    · simpa using hbefore m hm
    · refine List.filter_eq_nil_iff.2 fun m hm => ?_
      simpa using hafter m hm

/-- Whether two objects have the same members with some names, in any order and each as often. -/
def SameMembers (names : List String) (a b : List (String × Tree)) : Prop :=
  (a.filter (·.1 ∈ names)).Perm (b.filter (·.1 ∈ names))

theorem only?_eq_of_perm {names : List String} {name : String} {a b : List (String × Tree)}
    (hname : name ∈ names) (h : SameMembers names a b) : only? name a = only? name b := by
  have hperm : (a.filter (·.1 = name)).Perm (b.filter (·.1 = name)) := by
    have hsub (members : List (String × Tree)) :
        (members.filter (·.1 ∈ names)).filter (·.1 = name) = members.filter (·.1 = name) := by
      rw [List.filter_filter]
      refine List.filter_congr fun m _ => ?_
      rw [Bool.and_eq_left_iff_imp]
      intro hm
      exact decide_eq_true (of_decide_eq_true hm ▸ hname)
    rw [← hsub a, ← hsub b]
    exact h.filter _
  refine Option.ext fun value => ?_
  rw [only?_eq_some_iff_filter, only?_eq_some_iff_filter]
  constructor
  · rintro ⟨key, ha⟩
    exact ⟨key, List.perm_singleton.1 (ha ▸ hperm.symm)⟩
  · rintro ⟨key, hb⟩
    exact ⟨key, List.perm_singleton.1 (hb ▸ hperm)⟩

/-! ## Values of a kind -/

namespace Tree

theorem double?_eq_some_iff {tree : Tree} {v : Double} :
    tree.double? = some v ↔ ∃ n, tree = .number n ∧ n.toDouble = v := by
  cases tree <;> simp [double?]

theorem uint64?_eq_some_iff {tree : Tree} {w : UInt64} :
    tree.uint64? = some w ↔ ∃ n, tree = .number n ∧ n.toUInt64? = some w := by
  cases tree <;> simp [uint64?]

theorem text?_eq_some_iff {tree : Tree} {s : String} : tree.text? = some s ↔ tree = .string s := by
  cases tree <;> simp [text?]

end Tree

/-- Whether a number is written as a count: digits alone, for a word of 64 bits. -/
structure Literal.IsCount (n : Literal) (count : UInt64) : Prop where
  unsigned : n.negative = false
  noFraction : n.fraction = []
  noExponent : n.exponent = none
  value : Decimal.natOfDigits n.whole = count.toNat

theorem Literal.toUInt64?_eq_some_iff {n : Literal} {count : UInt64} :
    n.toUInt64? = some count ↔ n.IsCount count := by
  rw [toUInt64?]
  constructor
  · intro h
    split at h
    · next hshape =>
      obtain ⟨hneg, hfraction, hexponent, hsmall⟩ := hshape
      obtain rfl : UInt64.ofNat (Decimal.natOfDigits n.whole) = count := Option.some.inj h
      exact ⟨hneg, hfraction, hexponent, (UInt64.toNat_ofNat_of_lt hsmall).symm⟩
    · exact absurd h (by simp)
  · intro h
    have hsmall : Decimal.natOfDigits n.whole < UInt64.size := h.value ▸ count.toNat_lt
    rw [if_pos ⟨h.unsigned, h.noFraction, h.noExponent, hsmall⟩, h.value, UInt64.ofNat_toNat]

end DriveClient.Json
