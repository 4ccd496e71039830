import DriveClient.App.Run

/-!
# Back and forward

A tab keeps the URLs of its session history on both sides of the one that is shown. Going back or
forward shows a neighbour in the address bar. The client listens for this and takes its location from
there; it adds nothing to the history. URLs are shown as they were added.
-/

namespace DriveClient

namespace App

/-- What the listener does: the location is the path in the address bar. -/
def popState (app : App) : App := { app with location := Path.normalize app.browser.locationPath }

/-- The client after another URL has come into the address bar. -/
def showEntry (app : App) (url : String) : App :=
  { app with browser := { app.browser with pathname := url } }.popState.followTitle app.route

end App

/-- A client in its tab, with the URLs before and behind the one that is shown, the nearest first. -/
structure Tab where
  app : App
  back : List String
  forward : List String

namespace Tab

/-- Something that happens in a tab: something to the client, or a step through the history. -/
inductive Occurrence where
  | client (occurrence : App.Occurrence)
  | back
  | forward

/-- A new tab. -/
def start (browser : Browser) : Tab := ⟨.start browser, [], []⟩

/-- The tab after an occurrence. A URL that the client adds takes the place of all that were behind the
one shown before. At either end of the history there is nowhere to go. -/
def step (tab : Tab) : Occurrence → Tab
  | .client occurrence =>
    let app := tab.app.step occurrence
    if app.browser.pushed.length = tab.app.browser.pushed.length then { tab with app := app }
    else ⟨app, tab.app.browser.pathname :: tab.back, []⟩
  | .back =>
    match tab.back with
    | [] => tab
    | url :: rest => ⟨tab.app.showEntry url, rest, tab.app.browser.pathname :: tab.forward⟩
  | .forward =>
    match tab.forward with
    | [] => tab
    | url :: rest => ⟨tab.app.showEntry url, tab.app.browser.pathname :: tab.back, rest⟩

/-- The tab after a sequence of occurrences. -/
def run (tab : Tab) (occurrences : List Occurrence) : Tab := occurrences.foldl step tab

end Tab

end DriveClient
