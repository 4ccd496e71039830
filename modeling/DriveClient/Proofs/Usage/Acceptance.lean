import DriveClient.Proofs.Json.Completeness
import DriveClient.Proofs.Json.Members
import DriveClient.Proofs.Json.Numerals
import DriveClient.Proofs.Json.WellFormed
import DriveClient.Usage.Report

/-!
# Which documents are reports

A document is a report of a usage, a report of two counts of bytes, or neither, and its tree alone
says which (`read_document`). The main statement (`read_iff_form`) gives the trees of each form by
their members: other members and the order of members never matter.
-/

namespace DriveClient

open Json

namespace Report

/-! ## The two forms -/

/-- Trees that give a usage: an object with one member for each part of it, or a list of just the
three values. -/
inductive UnitsForm : Tree → Usage → Prop where
  | object {members : List (String × Tree)} {used total : Literal} {unit : String}
      (hu : OnlyMember "used" (.number used) members)
      (ht : OnlyMember "total" (.number total) members)
      (hn : OnlyMember "unit" (.string unit) members) :
      UnitsForm (.object members) ⟨used.toDouble, total.toDouble, unit⟩
  | array (used total : Literal) (unit : String) :
      UnitsForm (.array [.number used, .number total, .string unit])
        ⟨used.toDouble, total.toDouble, unit⟩

/-- Trees that give two counts of bytes: an object with one member for each. -/
inductive BytesForm : Tree → UInt64 → UInt64 → Prop where
  | object {members : List (String × Tree)} {n m : Literal} {used total : UInt64}
      (hu : OnlyMember "used_bytes" (.number n) members) (hn : n.IsCount used)
      (ht : OnlyMember "total_bytes" (.number m) members) (hm : m.IsCount total) :
      BytesForm (.object members) used total

/-- The names of members that are looked at. -/
def memberNames : List String := ["used", "total", "unit", "used_bytes", "total_bytes"]

/-! ## Forms and readers of trees -/

theorem ofTree?_units_iff {tree : Tree} {usage : Usage} :
    Usage.ofTree? tree = some usage ↔ UnitsForm tree usage := by
  constructor
  · intro h
    unfold Usage.ofTree? at h
    split at h
    · simp only [Option.bind_eq_bind, Option.bind_eq_some_iff, Option.pure_def] at h
      obtain ⟨u, hu, used, hused, t, ht, total, htotal, s, hs, unit, hunit, h⟩ := h
      obtain ⟨n, rfl, rfl⟩ := Tree.double?_eq_some_iff.1 hused
      obtain ⟨m, rfl, rfl⟩ := Tree.double?_eq_some_iff.1 htotal
      obtain rfl := Tree.text?_eq_some_iff.1 hunit
      obtain rfl := Option.some.inj h
      exact .object (only?_eq_some_iff.1 hu) (only?_eq_some_iff.1 ht) (only?_eq_some_iff.1 hs)
    · simp only [Option.bind_eq_bind, Option.bind_eq_some_iff, Option.pure_def] at h
      obtain ⟨used, hused, total, htotal, unit, hunit, h⟩ := h
      obtain ⟨n, rfl, rfl⟩ := Tree.double?_eq_some_iff.1 hused
      obtain ⟨m, rfl, rfl⟩ := Tree.double?_eq_some_iff.1 htotal
      obtain rfl := Tree.text?_eq_some_iff.1 hunit
      obtain rfl := Option.some.inj h
      exact .array n m unit
    · exact absurd h (by simp)
  · intro h
    cases h with
    | object hu ht hn =>
      rw [← only?_eq_some_iff] at hu ht hn
      simp [Usage.ofTree?, hu, ht, hn, Tree.double?, Tree.text?]
    | array used total unit => rfl

theorem bytesOfTree?_iff {tree : Tree} {report : Report} :
    bytesOfTree? tree = some report ↔
      ∃ used total, report = .bytes used total ∧ BytesForm tree used total := by
  constructor
  · intro h
    unfold bytesOfTree? at h
    split at h
    · simp only [Option.bind_eq_bind, Option.bind_eq_some_iff, Option.pure_def] at h
      obtain ⟨u, hu, used, hused, t, ht, total, htotal, h⟩ := h
      obtain ⟨n, rfl, hn⟩ := Tree.uint64?_eq_some_iff.1 hused
      obtain ⟨m, rfl, hm⟩ := Tree.uint64?_eq_some_iff.1 htotal
      refine ⟨used, total, (Option.some.inj h).symm, ?_⟩
      exact .object (only?_eq_some_iff.1 hu) (Literal.toUInt64?_eq_some_iff.1 hn)
        (only?_eq_some_iff.1 ht) (Literal.toUInt64?_eq_some_iff.1 hm)
    · exact absurd h (by simp)
  · rintro ⟨used, total, rfl, h⟩
    cases h with
    | object hu hn ht hm =>
      rw [← only?_eq_some_iff] at hu ht
      rw [← Literal.toUInt64?_eq_some_iff] at hn hm
      simp [bytesOfTree?, hu, ht, Tree.uint64?, hn, hm]

theorem ofTree?_eq_units_iff {tree : Tree} {usage : Usage} :
    ofTree? tree = some (.units usage) ↔ UnitsForm tree usage := by
  rw [← ofTree?_units_iff, ofTree?]
  cases hunits : Usage.ofTree? tree with
  | some found => simp
  | none =>
    -- the other form gives no usage
    simp only [reduceCtorEq, iff_false]
    intro h
    obtain ⟨used, total, hne, -⟩ := bytesOfTree?_iff.1 h
    exact absurd hne (by simp)

theorem ofTree?_eq_bytes_iff {tree : Tree} {used total : UInt64} :
    ofTree? tree = some (.bytes used total) ↔
      (∀ usage, ¬UnitsForm tree usage) ∧ BytesForm tree used total := by
  simp only [← ofTree?_units_iff]
  rw [ofTree?]
  cases hunits : Usage.ofTree? tree with
  | some found => simp
  | none =>
    simp only [reduceCtorEq, not_false_eq_true, implies_true, true_and]
    rw [bytesOfTree?_iff]
    constructor
    · rintro ⟨u, t, h, hform⟩
      injection h with hu ht
      subst hu ht
      exact hform
    · exact fun hform => ⟨used, total, rfl, hform⟩

theorem ofTree?_eq_none_iff {tree : Tree} :
    ofTree? tree = none ↔
      (∀ usage, ¬UnitsForm tree usage) ∧ ∀ used total, ¬BytesForm tree used total := by
  constructor
  · intro h
    have hunits : ∀ usage, ¬UnitsForm tree usage := fun usage hform => by
      rw [ofTree?_eq_units_iff.2 hform] at h
      exact absurd h (by simp)
    refine ⟨hunits, fun used total hform => ?_⟩
    rw [ofTree?_eq_bytes_iff.2 ⟨hunits, hform⟩] at h
    exact absurd h (by simp)
  · rintro ⟨hunits, hbytes⟩
    cases h : ofTree? tree with
    | none => rfl
    | some report =>
      cases report with
      | units usage => exact absurd (ofTree?_eq_units_iff.1 h) (hunits usage)
      | bytes used total => exact absurd (ofTree?_eq_bytes_iff.1 h).2 (hbytes used total)

/-- Of the members of an object only those with the known names matter, in any order. -/
theorem ofTree?_eq_of_sameMembers {a b : List (String × Tree)} (h : SameMembers memberNames a b) :
    ofTree? (.object a) = ofTree? (.object b) := by
  have hused : only? "used" a = only? "used" b := only?_eq_of_perm (by decide) h
  have htotal : only? "total" a = only? "total" b := only?_eq_of_perm (by decide) h
  have hunit : only? "unit" a = only? "unit" b := only?_eq_of_perm (by decide) h
  have husedBytes : only? "used_bytes" a = only? "used_bytes" b := only?_eq_of_perm (by decide) h
  have htotalBytes : only? "total_bytes" a = only? "total_bytes" b :=
    only?_eq_of_perm (by decide) h
  simp only [ofTree?, Usage.ofTree?, bytesOfTree?, hused, htotal, hunit, husedBytes, htotalBytes]

/-! ## Texts -/

/-- A document is read as the report its tree is, if it is one. -/
theorem read_document {text : String} {tree : Tree} (h : Document text tree) :
    read text = (ofTree? tree).elim (.error .otherForm) .ok := by
  obtain ⟨after, hblank, htree⟩ := h.readTree
  rw [read, htree]
  cases hreport : ofTree? tree with
  | none => simp [hreport]
  | some report => simp [hreport, readEnd_blank hblank]

/-- A document is read as a usage exactly when its tree gives one; otherwise as two counts of bytes
exactly when its tree gives these; otherwise it is refused for its form. Objects with the same
members of the known names are read alike, whatever their order and their other members. -/
theorem read_iff_form {text : String} {tree : Tree} (h : Document text tree) :
    (∀ usage, read text = .ok (.units usage) ↔ UnitsForm tree usage) ∧
    (∀ used total, read text = .ok (.bytes used total) ↔
      (∀ usage, ¬UnitsForm tree usage) ∧ BytesForm tree used total) ∧
    (read text = .error .otherForm ↔
      (∀ usage, ¬UnitsForm tree usage) ∧ ∀ used total, ¬BytesForm tree used total) ∧
    ∀ (text' : String) (members members' : List (String × Tree)), tree = .object members →
      Document text' (.object members') → SameMembers memberNames members members' →
      read text' = read text := by
  have hread := read_document h
  have hok (report : Report) : read text = .ok report ↔ ofTree? tree = some report := by
    rw [hread]
    cases ofTree? tree <;> simp
  have herror : read text = .error .otherForm ↔ ofTree? tree = none := by
    rw [hread]
    cases ofTree? tree <;> simp
  refine ⟨fun usage => ?_, fun used total => ?_, ?_, ?_⟩
  · rw [hok, ofTree?_eq_units_iff]
  · rw [hok, ofTree?_eq_bytes_iff]
  · rw [herror, ofTree?_eq_none_iff]
  · intro text' members members' htree h' hsame
    rw [read_document h', hread, htree, ofTree?_eq_of_sameMembers hsame]

/-- A text with the members of both forms in a mixed order gives a usage. -/
theorem read_iff_form_both_forms :
    ∃ text tree,
      text = "\x7b\"used_bytes\":3,\"unit\":\"GB\",\"total\":2,\"total_bytes\":4,\"used\":1\x7d" ∧
      Document text tree ∧ (∃ used total, BytesForm tree used total) ∧
      read text = .ok (.units ⟨.ofNat 1, .ofNat 2, "GB"⟩) := by
  let entries : List Entry := [.ofCount "used_bytes" 3, .ofString "unit" "GB", .ofCount "total" 2,
    .ofCount "total_bytes" 4, .ofCount "used" 1]
  have hdoc := document_writeObject entries
  have hunits : UnitsForm (.object (entries.map Entry.target))
      ⟨(Literal.ofNat 1).toDouble, (Literal.ofNat 2).toDouble, "GB"⟩ :=
    .object (only?_eq_some_iff.1 rfl) (only?_eq_some_iff.1 rfl) (only?_eq_some_iff.1 rfl)
  have hbytes : BytesForm (.object (entries.map Entry.target)) 3 4 :=
    .object (only?_eq_some_iff.1 rfl) (Literal.isCount_ofNat 3) (only?_eq_some_iff.1 rfl)
      (Literal.isCount_ofNat 4)
  refine ⟨_, _, ?_, hdoc, ⟨3, 4, hbytes⟩, ?_⟩
  · decide +kernel
  · rw [← Literal.toDouble_ofNat, ← Literal.toDouble_ofNat]
    exact ((read_iff_form hdoc).1 _).2 hunits

/-- A text with the members of a usage, and before them one of another name in which a surrogate stands
alone. -/
def loneSurrogate : String :=
  "\x7b\"note\":\"\\ud800\",\"used\":1,\"total\":2,\"unit\":\"GB\"\x7d"

/-- By the rules for escapes alone the text is well-formed. -/
theorem wellFormedText_loneSurrogate : WellFormedText Quoted loneSurrogate := by
  -- all members but the first are written as any text and any number would be
  have hname (name : String) : Quoted (quote name).toList := (paired_quote name).quoted
  have hnumber (n : Nat) (hn : (Literal.ofNat n).toDouble.isFinite) :
      WellFormed Quoted (maxDepth - 1) (Nat.toDigits 10 n) := .number (spells_toDigits n) hn
  have hdigits : FourDigits ['d', '8', '0', '0'] 0xD800 := ⟨rfl, rfl⟩
  have hnote : Quoted ['"', '\\', 'u', 'd', '8', '0', '0', '"'] :=
    ⟨[_], List.forall_mem_singleton.2 (.numbered hdigits), rfl⟩
  let note := Padded.bareMember "note" ['"', '\\', 'u', 'd', '8', '0', '0', '"']
  let more := [Padded.bareMember "used" (Nat.toDigits 10 1),
    Padded.bareMember "total" (Nat.toDigits 10 2), Padded.bareMember "unit" (quote "GB").toList]
  have hnames : ∀ m ∈ note :: more, Quoted m.1.body := by
    simp only [more, List.forall_mem_cons]
    exact ⟨hname "note", hname "used", hname "total", hname "unit", by simp⟩
  have hvalues : ∀ m ∈ note :: more, WellFormed Quoted (maxDepth - 1) m.2.body := by
    simp only [more, List.forall_mem_cons]
    exact ⟨.string hnote, hnumber 1 (by decide +kernel), hnumber 2 (by decide +kernel),
      .string (hname "GB"), by simp⟩
  have hobject := WellFormed.object hnames hvalues
  have htext : loneSurrogate.toList =
      '\x7b' :: commas ((note :: more).map Padded.member) ++ ['\x7d'] := by
    decide +kernel
  rw [← htext] at hobject
  exact ⟨.bare loneSurrogate.toList, (List.append_nil _).symm, hobject⟩

theorem read_loneSurrogate :
    read loneSurrogate = .error (.faulty ⟨.cutSurrogatePair, 1, 16⟩) := by
  decide +kernel

/-- A well-formed text need not be a document: this one is refused as faulty, so it is neither a report
nor a document of another form. -/
theorem read_refuses_loneSurrogate :
    WellFormedText Quoted loneSurrogate ∧
      read loneSurrogate = .error (.faulty ⟨.cutSurrogatePair, 1, 16⟩) ∧
      ¬∀ text, WellFormedText Quoted text →
        (∃ report, read text = .ok report) ∨ read text = .error .otherForm := by
  refine ⟨wellFormedText_loneSurrogate, read_loneSurrogate, fun hall => ?_⟩
  rcases hall loneSurrogate wellFormedText_loneSurrogate with ⟨report, hreport⟩ | hother
  · exact absurd (read_loneSurrogate.symm.trans hreport) (by simp)
  · exact absurd (read_loneSurrogate.symm.trans hother) (by simp)

end Report

end DriveClient
