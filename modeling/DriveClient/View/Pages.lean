import DriveClient.Route.Basic
import DriveClient.View.Node

/-!
# Pages

The content of each page, and which one a route shows.
-/

namespace DriveClient.View

/-- The frame of a page: its heading and what stands below it. -/
def frame (title : String) (children : List Node) : Node :=
  plain "section" [("class", "view")] (plain "h2" [("class", "title")] [.text title] :: children)

/-- A page that says that there is nothing on it. -/
def emptyPage (title notice : String) : Node :=
  frame title [plain "p" [("class", "empty")] [.text notice]]

/-- The heading of a page of files. -/
def filesHeading (favourites recent : Bool) : String :=
  if recent then "Recent" else if favourites then "Favourites" else "Files"

/-- The files of a folder. -/
def filesPage (path : String) (favourites recent : Bool) : Node :=
  frame (filesHeading favourites recent)
    [plain "p" [("class", "location")] [.text path],
     plain "p" [("class", "empty")] [.text "No files here yet."]]

/-- The uploads under way. -/
def uploadsPage : Node := emptyPage "Uploads" "No uploads in progress."

/-- What was thrown away. -/
def trashPage : Node := emptyPage "Trash" "Trash is empty."

/-- The settings of the client. -/
def settingsPage : Node := emptyPage "Settings" "There are no settings to change yet."

/-- The page for an unknown place, with a way back. -/
def notFoundPage (path : String) : Node :=
  frame "Not Found"
    [plain "p" [("class", "empty")]
      [.text "Nothing lives at ", plain "code" [] [.text path], .text "."],
     active "button" [("class", "action")] (.press (.navigate Route.home.toPath))
      [.text "Back to files"]]

/-- The page that a route shows. -/
def outlet : Route → Node
  | .files path favourites recent => filesPage path favourites recent
  | .uploads => uploadsPage
  | .trash => trashPage
  | .settings => settingsPage
  | .notFound path => notFoundPage path

end DriveClient.View
