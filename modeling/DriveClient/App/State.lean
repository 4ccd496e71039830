import DriveClient.Fetch
import DriveClient.Route.Table
import DriveClient.View.Header

/-!
# The running client

The location the client shows, the usage it knows, the browser it runs in and what it has logged.
The active page is derived from the location. Navigation to the current location does nothing; any
other changes the location and adds one entry to the history.
-/

namespace DriveClient

/-- A running client. The location is a path in normal form. -/
structure App where
  location : String
  usage : Usage
  browser : Browser
  log : List Log.Entry

namespace App

/-- The client as it starts at a path, with the initial usage. -/
def startAt (browser : Browser) (path : String) : App :=
  ⟨Path.normalize path, .initial, browser, []⟩

/-- The client as it starts in a browser, at the path in the address bar. -/
def start (browser : Browser) : App := startAt browser browser.locationPath

/-- The active page. -/
def route (app : App) : Route := .ofPath app.location

/-- Logs a message. -/
def record (app : App) (level : Log.Level) (message : String) : App :=
  { app with log := app.log ++ Log.entries level message }

/-- What was logged, and the client with an empty log. -/
def takeLog (app : App) : List Log.Entry × App := (app.log, { app with log := [] })

/-! ## Navigation -/

/-- Goes to a path, unless the client is there already. -/
def navigateTo (app : App) (path : String) : App :=
  if app.location = Path.normalize path then app
  else
    { app.record .debug s!"navigate {Path.normalize path}" with
      location := Path.normalize path
      browser := app.browser.push (Path.normalize path) }

/-- Goes to a page. -/
def navigate (app : App) (route : Route) : App := app.navigateTo route.toPath

/-! ## The title -/

/-- The title of the document while a page is active. -/
def titleOf (route : Route) : String := s!"{route.title} - {View.productName}"

/-- Shows the title of the active page. -/
def showTitle (app : App) : App := { app with browser := app.browser.setTitle (titleOf app.route) }

/-- Shows the title of the active page, if that is not the one which was active before. -/
def followTitle (app : App) (before : Route) : App :=
  if app.route = before then app else app.showTitle

/-! ## The usage of the storage -/

/-- Where the service reports the usage. -/
def usageUrl : String := "/api/storage/usage"

/-- How many milliseconds a report may take. -/
def fetchTimeout : Int := 10000

/-- Takes up a report. After a failure the usage stays as it is, with a warning in the log. -/
def settleUsage (app : App) : Except Fetch.Failure Report → App
  | .ok report => { app with usage := report.usage }
  | .error failure => app.record .warn s!"storage usage unavailable: {failure.message}"

/-- Requests a report and takes it up, if the request ends. -/
def loadUsage (app : App) (script : Fetch.Script) : App :=
  let result := Fetch.run app.browser script usageUrl fetchTimeout
  let asked := { app with browser := result.browser }
  result.outcome.elim asked asked.settleUsage

/-! ## Actions -/

/-- Does what a listener asks for. Notices are for the embedding code and change nothing here. -/
def perform (app : App) : View.Action → App
  | .nothing => app
  | .navigate path => app.navigateTo path
  | .log level message => app.record level message
  | .reload => { app with browser := app.browser.reload }
  | .notify _ => app

end App

end DriveClient
