import DriveClient.Json.Shape
import DriveClient.Usage.Basic

/-!
# Usage reports

What the service answers: a usage in display units, or two counts of bytes. A report carries no
mark of its form. The document is read as a tree first, and the first form that fits the tree is
taken.
-/

namespace DriveClient

/-- A report of the service. -/
inductive Report where
  | units (usage : Usage)
  | bytes (used total : UInt64)
deriving DecidableEq

/-- Why a text is not accepted: it is no document, or a document of another form. -/
inductive Report.Refusal where
  | faulty (fault : Json.Fault)
  | otherForm
deriving DecidableEq

/-- The refusal in words. -/
def Report.Refusal.message : Report.Refusal → String
  | .faulty fault => fault.message
  | .otherForm => "data did not match any variant of untagged enum StorageUsageResponse"

/-! ## Trees of the right form -/

/-- A usage as an object with its three members, or as a list of just their values. -/
def Usage.ofTree? : Json.Tree → Option Usage
  | .object members => do
    let used ← (← Json.only? "used" members).double?
    let total ← (← Json.only? "total" members).double?
    let unit ← (← Json.only? "unit" members).text?
    return ⟨used, total, unit⟩
  | .array [used, total, unit] => do
    return ⟨← used.double?, ← total.double?, ← unit.text?⟩
  | _ => none

namespace Report

/-- Two counts of bytes, as an object with two members. -/
def bytesOfTree? : Json.Tree → Option Report
  | .object members => do
    let used ← (← Json.only? "used_bytes" members).uint64?
    let total ← (← Json.only? "total_bytes" members).uint64?
    return .bytes used total
  | _ => none

/-- The report that a tree is: of the two forms, the first that fits. -/
def ofTree? (tree : Json.Tree) : Option Report :=
  match Usage.ofTree? tree with
  | some usage => some (.units usage)
  | none => bytesOfTree? tree

/-! ## Reading and writing -/

/-- Reads a report. What follows the document is looked at only when the document fits. -/
def read (text : String) : Except Refusal Report :=
  match Json.readTree text.toList with
  | .error stop => .error (.faulty (stop.locate text.toList))
  | .ok (tree, rest) =>
    match ofTree? tree with
    | none => .error .otherForm
    | some report =>
      match Json.readEnd rest with
      | .error stop => .error (.faulty (stop.locate text.toList))
      | .ok () => .ok report

/-- The usage that a report gives. -/
def usage : Report → Usage
  | .units usage => usage
  | .bytes used total => .ofBytes used.toNat total.toNat

/-- The written form of a report. -/
def toJson : Report → String
  | .units usage => usage.toJson
  | .bytes used total =>
    Json.writeObject [("used_bytes", toString used.toNat), ("total_bytes", toString total.toNat)]

end Report

end DriveClient
