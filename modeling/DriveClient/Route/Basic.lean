import DriveClient.Path

/-!
# Routes

The pages of the client, each with a title and with the location path that leads to it.
-/

namespace DriveClient

/-- A page. Paths of folders and of unknown places are kept as they were given. -/
inductive Route where
  | files (path : String) (favourites recent : Bool)
  | uploads
  | trash
  | settings
  | notFound (path : String)
deriving DecidableEq

namespace Route

/-- The folder at a path, without a filter. -/
def folder (path : String) : Route := .files path false false

/-- The recently used files, shown from the root. -/
def recentFiles : Route := .files "/" false true

/-- The page shown when nothing else is asked for: the root folder. -/
def home : Route := folder "/"

/-- The location path of a page. The favourites filter has no path of its own and is lost. -/
def toPath : Route → String
  | .files _ _ true => "/recent"
  | .files path _ false =>
    if Path.normalize path = "/" then "/" else "/files" ++ Path.normalize path
  | .uploads => "/uploads"
  | .trash => "/trash"
  | .settings => "/settings"
  | .notFound path => path

/-- The title of a page. The recent filter goes before the favourites filter. -/
def title : Route → String
  | .files _ _ true => "Recent"
  | .files _ true false => "Favourites"
  | .files _ false false => "Files"
  | .uploads => "Uploads"
  | .trash => "Trash"
  | .settings => "Settings"
  | .notFound _ => "Not Found"

end Route

end DriveClient
