import DriveClient.Proofs.Usage.Acceptance

/-!
# Reading a written report back

A written report is a document. With finite numbers only it is read as the report it was written
from, the form included; an infinity or not-a-number leaves a word where a number is due, and then
the document has neither form (`read_toJson`).
-/

namespace DriveClient

open Json

/-! ## Written numbers -/

theorem toList_signed (negative : Bool) (text : List Char) :
    (Double.signed negative text).toList = signText negative ++ text := by
  cases negative <;> simp [Double.signed, signText]

/-- A number is written as a number when it is finite, and as another value when it is not. -/
theorem exists_tree_writeNumber (v : Double) :
    ∃ tree, Spells (.value tree) (Usage.writeNumber v).toList ∧ Fits (maxDepth - 1) tree ∧
      tree.double? = if v.isFinite then some v else none := by
  have hnull : Spells (.value .null) "null".toList := .nullWord
  cases v with
  | finite negative quanta hq =>
    obtain ⟨n, hspells, hvalue⟩ := spellsDouble_documented negative hq
    rw [← toList_signed] at hspells
    have hfinite : n.toDouble.isFinite := by
      rw [hvalue]
      rfl
    have hdouble : (Tree.number n).double? = some (.finite negative quanta hq) := by
      rw [Tree.double?, hvalue]
    exact ⟨.number n, .number hspells, .number hfinite, hdouble⟩
  | infinite negative => exact ⟨.null, hnull, .null, rfl⟩
  | nan => exact ⟨.null, hnull, .null, rfl⟩

namespace Report

/-- Whether a report has neither an infinity nor not-a-number in it. -/
def IsFinite : Report → Prop
  | .units usage => usage.used.isFinite ∧ usage.total.isFinite
  | .bytes _ _ => True

/-! ## The two forms -/

theorem ofTree?_units (used total : Tree) (unit : String) :
    ofTree? (.object [("used", used), ("total", total), ("unit", .string unit)]) =
      used.double?.bind fun u => total.double?.map fun t => .units ⟨u, t, unit⟩ := by
  have hunits : Usage.ofTree? (.object [("used", used), ("total", total), ("unit", .string unit)]) =
      used.double?.bind fun u => total.double?.map fun t => ⟨u, t, unit⟩ := by
    cases hu : used.double? <;> cases ht : total.double? <;>
      simp [Usage.ofTree?, only?, Tree.text?, hu, ht]
  have hbytes : bytesOfTree? (.object [("used", used), ("total", total), ("unit", .string unit)]) =
      none := rfl
  rw [ofTree?, hunits, hbytes]
  cases used.double? <;> cases total.double? <;> rfl

theorem read_toJson_units (usage : Usage) :
    read (toJson (.units usage)) =
      if usage.used.isFinite ∧ usage.total.isFinite then .ok (.units usage)
      else .error .otherForm := by
  obtain ⟨used, hspellsUsed, hfitsUsed, hused⟩ := exists_tree_writeNumber usage.used
  obtain ⟨total, hspellsTotal, hfitsTotal, htotal⟩ := exists_tree_writeNumber usage.total
  have hdoc := document_writeObject [⟨"used", _, used, hspellsUsed, hfitsUsed⟩,
    ⟨"total", _, total, hspellsTotal, hfitsTotal⟩, .ofString "unit" usage.unit]
  simp only [List.map_cons, List.map_nil, Entry.source, Entry.target, Entry.ofString] at hdoc
  rw [toJson, Usage.toJson, read_document hdoc, ofTree?_units, hused, htotal]
  cases usage.used.isFinite <;> cases usage.total.isFinite <;> rfl

theorem ofTree?_bytes (used total : UInt64) :
    ofTree? (.object [("used_bytes", .number (.ofNat used.toNat)),
      ("total_bytes", .number (.ofNat total.toNat))]) = some (.bytes used total) := by
  apply ofTree?_eq_bytes_iff.2
  constructor
  · -- none of the members of a usage is there
    intro usage hform
    exact absurd (ofTree?_units_iff.2 hform) (Option.some_ne_none usage).symm
  · exact .object (only?_eq_some_iff.1 rfl) (Literal.isCount_ofNat used) (only?_eq_some_iff.1 rfl)
      (Literal.isCount_ofNat total)

theorem read_toJson_bytes (used total : UInt64) :
    read (toJson (.bytes used total)) = .ok (.bytes used total) := by
  have hdoc := document_writeObject [.ofCount "used_bytes" used, .ofCount "total_bytes" total]
  simp only [List.map_cons, List.map_nil, Entry.source, Entry.target, Entry.ofCount] at hdoc
  rw [toJson, read_document hdoc, ofTree?_bytes]
  rfl

/-- A written report is read back as itself exactly when its numbers are finite, and is refused for
its form when they are not. -/
theorem read_toJson (report : Report) :
    (read report.toJson = .ok report ↔ report.IsFinite) ∧
    (read report.toJson = .error .otherForm ↔ ¬report.IsFinite) := by
  cases report with
  | units usage =>
    rw [read_toJson_units, IsFinite]
    split
    · next h => simp [h]
    · next h => simp [h]
  | bytes used total =>
    rw [read_toJson_bytes, IsFinite]
    simp

end Report

end DriveClient
