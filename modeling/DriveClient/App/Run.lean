import DriveClient.App.State
import DriveClient.View.Layout

/-!
# Runs of the client

What can happen to a running client, one occurrence at a time, and the client after any sequence
of them. The title of the document follows the active page after each occurrence.
-/

namespace DriveClient

namespace App

/-- Something that happens to a running client: a navigation by path or by page, an event at a
listener with a text in the search input, the end of the request for a report, or a new title set
from outside. -/
inductive Occurrence where
  | visit (path : String)
  | goTo (route : Route)
  | event (listener : View.Listener) (query : String) (event : View.Event)
  | usage (outcome : Except Fetch.Failure Report)
  | retitle (title : String)

/-- What an occurrence does, before the title follows. -/
def apply (app : App) : Occurrence → App
  | .visit path => app.navigateTo path
  | .goTo route => app.navigate route
  | .event listener query event => app.perform (listener.respond query event).action
  | .usage outcome => app.settleUsage outcome
  | .retitle title => { app with browser := app.browser.setTitle title }

/-- The client after an occurrence. -/
def step (app : App) (occurrence : Occurrence) : App :=
  (app.apply occurrence).followTitle app.route

/-- The client after a sequence of occurrences. -/
def run (app : App) (occurrences : List Occurrence) : App := occurrences.foldl step app

/-! ## Parts of the screen -/

/-- The parts of the screen that change by themselves. -/
inductive Part where
  | outlet
  | header
  | sidebar
deriving DecidableEq

/-- A part of the screen as it looks now. -/
def part (app : App) : Part → Logged View.Node
  | .outlet => pure (View.outlet app.route)
  | .header => pure View.header
  | .sidebar => View.sidebar app.location app.usage

end App

end DriveClient
