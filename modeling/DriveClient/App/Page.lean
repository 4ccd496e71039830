import DriveClient.App.Run

/-!
# Pages in the browser

A page that was built once and takes events: its elements stay the ones first shown while the
client behind it moves on, and the search input keeps its text from one event to the next.
-/

namespace DriveClient

/-- A page: the client behind it, what is shown, and the text of the search input. -/
structure Page where
  app : App
  root : View.Node
  searchText : String

namespace Page

/-- Shows what a client has built, taking over what was logged meanwhile. -/
def present (app : App) (built : Logged View.Node) : Page :=
  ⟨{ app with log := app.log ++ built.log }, built.value, ""⟩

/-- A part of the screen as it looks now, shown by itself. -/
def ofPart (app : App) (part : App.Part) : Page := present app (app.part part)

/-- The elements that listen, in document order. -/
def targets (page : Page) : List View.Target := page.root.targets

/-- Sends an event to an element. A text given with it is put into the search input first. -/
def send (page : Page) (target : View.Target) (text : Option String) (event : View.Event) :
    Page × View.Response :=
  let query := text.getD page.searchText
  (⟨page.app.step (.event target.listener query event), page.root, query⟩,
    target.listener.respond query event)

/-! ## Loading -/

/-- The version of the client. -/
def version : String := "0.1.0"

/-- The identifier of the element that the page is mounted into. -/
def mountId : String := "root"

/-- What keeps a page from being mounted. -/
inductive MountFailure where
  | noRoot
deriving DecidableEq

/-- The failure in words. -/
def MountFailure.message : MountFailure → String
  | .noRoot => s!"Failed to find #{mountId} element"

/-- Starts a client, loads the usage to its end and shows the screen. An error thrown while the
screen is built shows on it. -/
def loadWith (app : App) (script : Fetch.Script) (thrown : Option String) : Page :=
  let app := (app.loadUsage script).showTitle
  present app (View.screen app.location app.usage thrown)

/-- A page loaded in a browser. -/
def load (browser : Browser) (script : Fetch.Script) (thrown : Option String) : Page :=
  loadWith (.start browser) script thrown

/-- A page mounted in a document, which must have the element for it. The version is logged
first. -/
def mount (hasRoot : Bool) (browser : Browser) (script : Fetch.Script) (thrown : Option String) :
    Except MountFailure Page :=
  if hasRoot then
    let app := (App.start browser).record .info s!"{View.productName} v{version}"
    .ok (loadWith app script thrown)
  else .error .noRoot

end Page

end DriveClient
