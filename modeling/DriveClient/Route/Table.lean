import DriveClient.Route.Basic
import DriveClient.Route.Pattern

/-!
# The route table

Rows of a pattern and the page it leads to, tried in order. A path that no row accepts leads to
the page for unknown places, which names the path in normal form.
-/

namespace DriveClient.Route

/-- A row of the table. -/
structure Entry where
  pattern : String
  page : Capture → Route

/-- The page of a row, when its pattern accepts the path. -/
def Entry.resolve? (entry : Entry) (path : String) : Option Route :=
  (Pattern.match? entry.pattern path).map entry.page

/-- The rows, in the order in which they are tried. -/
def table : List Entry :=
  [⟨"/", fun _ => home⟩,
   ⟨"/files", fun _ => home⟩,
   ⟨"/files/*path", fun capture => folder capture.path⟩,
   ⟨"/recent", fun _ => recentFiles⟩,
   ⟨"/uploads", fun _ => .uploads⟩,
   ⟨"/trash", fun _ => .trash⟩,
   ⟨"/settings", fun _ => .settings⟩]

/-- The page that some rows give for a path. -/
def resolveIn (rows : List Entry) (path : String) : Route :=
  (rows.findSome? (·.resolve? (Path.normalize path))).getD (.notFound (Path.normalize path))

/-- The page at a location path. -/
def ofPath (path : String) : Route := resolveIn table path

end DriveClient.Route
