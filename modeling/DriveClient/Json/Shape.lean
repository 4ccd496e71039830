import DriveClient.Json.Tree

/-!
# Looking into documents

The value of a tree when it is of the wanted kind, and the member of an object when there is
exactly one with the wanted name.
-/

namespace DriveClient.Json

namespace Tree

/-- The value of a number. -/
def double? : Tree → Option Double
  | .number n => some n.toDouble
  | _ => none

/-- The value of a number that is a word of 64 bits. -/
def uint64? : Tree → Option UInt64
  | .number n => n.toUInt64?
  | _ => none

/-- The text of a string. -/
def text? : Tree → Option String
  | .string s => some s
  | _ => none

end Tree

/-- The value of the only member with a name. -/
def only? (name : String) (members : List (String × Tree)) : Option Tree :=
  match members.filter (·.1 = name) with
  | [(_, value)] => some value
  | _ => none

end DriveClient.Json
