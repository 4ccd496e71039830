import DriveClient.Path

/-!
# Path patterns

A pattern is written like a path. Its segments must be met literally, except that a last segment
with a leading star takes all segments that are left, of which there must be one. A starred
segment anywhere else matches nothing.
-/

namespace DriveClient

/-- What a pattern took from a path: the text under its star, if it has one. -/
structure Capture where
  rest : Option String
deriving DecidableEq

/-- The captured text as an absolute path, the root when there is none. -/
def Capture.path (capture : Capture) : String :=
  match capture.rest with
  | some rest => "/" ++ rest
  | none => "/"

namespace Pattern

/-- Whether a segment of a pattern stands for the rest of a path. -/
def isStar (segment : String) : Bool := segment.toList.head? = some '*'

/-- Matches segments of a path against segments of a pattern. -/
def matchSegments : List String → List String → Option Capture
  | [], [] => some ⟨none⟩
  | [], _ :: _ => none
  | expected :: later, path =>
    if isStar expected then
      if later = [] ∧ path ≠ [] then some ⟨some (Path.join path)⟩ else none
    else match path with
      | [] => none
      | segment :: rest => if segment = expected then matchSegments later rest else none

/-- Matches a path against a pattern. -/
def match? (pattern path : String) : Option Capture :=
  matchSegments (Path.segments pattern) (Path.segments path)

end Pattern

end DriveClient
