import DriveClient.View.Icon
import DriveClient.View.Node

/-!
# Controls

The small parts that header and sidebar are made of. What a control does is given to it as an
action.
-/

namespace DriveClient.View

/-- The tooltip of a round button that is given none. -/
def defaultTooltip : String := "Tooltip"

/-- The hint in a search box that is given none. -/
def defaultPlaceholder : String := "Search"

/-- A round button with a picture. The tooltip also describes the picture. -/
def roundButton (image tooltip : String) (listener : Listener) : Node :=
  plain "div" [("class", "roundButton")]
    [active "button" [("title", tooltip)] listener
      [plain "img" [("src", image), ("alt", tooltip)] []],
     plain "p" [("class", "tooltip")] [plain "span" [] [.text tooltip]]]

/-- The button that starts an upload. -/
def uploadButton (action : Action) : Node :=
  active "button" [("class", "uploadButton")] (.press action)
    [plain "img" [("src", Icon.topArrow), ("alt", "")] [], plain "span" [] [.text "Upload"]]

/-- The search input between a button that submits it and one for its settings. -/
def searchBox (placeholder : String) (search : String → Action) (settings : Action) : Node :=
  plain "div" [("class", "searchBox")]
    [roundButton Icon.search "Search" (.submit search),
     active "input" [("type", "text"), ("name", "search"), ("placeholder", placeholder)]
      (.enter search) [],
     roundButton Icon.switches "Search Settings" (.press settings)]

end DriveClient.View
