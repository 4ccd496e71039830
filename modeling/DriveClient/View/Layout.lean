import DriveClient.Route.Table
import DriveClient.View.Header
import DriveClient.View.Pages
import DriveClient.View.Sidebar

/-!
# Layout

Header, sidebar and page put together, and the screen that takes their place after an error.
-/

namespace DriveClient.View

/-- Everything that is shown at a location. -/
def layout (location : String) (usage : Usage) : Logged Node := do
  let side ← sidebar location usage
  return plain "div" [("class", "app")]
    [header,
     plain "div" [("class", "body")]
      [side, plain "main" [("class", "content")] [outlet (Route.ofPath location)]]]

/-- The screen for errors, which names them and offers to reload. -/
def errorScreen (errors : List String) : Node :=
  plain "div" [("class", "errorScreen")]
    [plain "div" [("class", "errorCard")]
      [plain "h1" [("class", "errorTitle")] [.text "Something went wrong"],
       plain "p" [("class", "errorText")]
        [.text "An unexpected error occurred. Please try reloading the page."],
       plain "details" [("class", "errorDetails")]
        [plain "summary" [] [.text "Error details"],
         plain "ul" [] (errors.map fun message => plain "li" [] [.text message])],
       active "button" [("class", "reloadButton")] (.press .reload) [.text "Reload Page"]]]

/-- What is shown: the layout, or the error screen when an error was thrown while it was built.
What the layout logs is logged either way. -/
def screen (location : String) (usage : Usage) (thrown : Option String) : Logged Node := do
  let node ← layout location usage
  match thrown with
  | some message => return errorScreen [message]
  | none => return node

end DriveClient.View
