import DriveClient.Route.Basic
import DriveClient.View.Controls

/-!
# The header

Logo, search box, and the buttons for help and settings.
-/

namespace DriveClient.View

/-- The name of the product. -/
def productName : String := "PrivaStore"

/-- The logo with the name of the product. -/
def logo : Node :=
  plain "div" [("class", "logo")]
    [plain "img" [("src", Icon.logo), ("alt", "")] [], plain "h1" [] [.text productName]]

/-- What the header does with a query: it is only put on record. -/
def recordSearch (query : String) : Action := .log .info s!"search requested: {query}"

/-- The header of every page. -/
def header : Node :=
  plain "header" [("class", "header")]
    [logo,
     plain "div" [("class", "headerSearch")]
      [searchBox defaultPlaceholder recordSearch (.log .debug "Search settings clicked")],
     plain "div" [("class", "headerControls")]
      [roundButton Icon.help "Help" (.press (.log .debug "Help clicked")),
       roundButton Icon.settings "Settings" (.press (.navigate Route.settings.toPath))]]

end DriveClient.View
