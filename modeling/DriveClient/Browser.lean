import DriveClient.Text.Percent

/-!
# The browser

What the client needs of a browser: the path in the address bar, the session history, the document
title, reloading, and a record of the requests made. Parts of it may be missing, and then what
needs them does nothing.
-/

namespace DriveClient

/-- A browser, as far as the client can see and change it. `pathname` is the path in the address
bar in percent code; `pushed` are the URLs added to the history, the oldest first. -/
structure Browser where
  hasWindow : Bool
  hasDocument : Bool
  hasHistory : Bool
  hasPathname : Bool
  pathname : String
  pushed : List String
  title : Option String
  reloads : Nat
  requests : List String
deriving DecidableEq

namespace Browser

/-- A complete browser at an address, with nothing done in it yet. -/
def fresh (pathname : String) : Browser where
  hasWindow := true
  hasDocument := true
  hasHistory := true
  hasPathname := true
  pathname := pathname
  pushed := []
  title := none
  reloads := 0
  requests := []

/-- The path in the address bar as text. A path that is no percent code is taken as it stands, and
without an address bar it is the root. -/
def locationPath (browser : Browser) : String :=
  let raw := if browser.hasWindow && browser.hasPathname then browser.pathname else "/"
  (Percent.decode? raw).getD raw

/-- Adds a path to the history, in percent code, and shows it in the address bar. -/
def push (browser : Browser) (path : String) : Browser :=
  if browser.hasWindow && browser.hasHistory then
    { browser with
      pathname := Percent.encodePath path
      pushed := browser.pushed ++ [Percent.encodePath path] }
  else browser

/-- Sets the title of the document. -/
def setTitle (browser : Browser) (title : String) : Browser :=
  if browser.hasWindow && browser.hasDocument then { browser with title := some title } else browser

/-- Reloads the page. -/
def reload (browser : Browser) : Browser :=
  if browser.hasWindow then { browser with reloads := browser.reloads + 1 } else browser

/-! ## What each of these leaves as it is -/

theorem exists_push (browser : Browser) (path : String) :
    ∃ pathname pushed,
      browser.push path = { browser with pathname := pathname, pushed := pushed } := by
  unfold push
  split
  · exact ⟨_, _, rfl⟩
  · exact ⟨browser.pathname, browser.pushed, rfl⟩

theorem exists_setTitle (browser : Browser) (title : String) :
    ∃ shown, browser.setTitle title = { browser with title := shown } := by
  unfold setTitle
  split
  · exact ⟨some title, rfl⟩
  · exact ⟨browser.title, rfl⟩

theorem exists_reload (browser : Browser) :
    ∃ reloads, browser.reload = { browser with reloads := reloads } := by
  unfold reload
  split
  · exact ⟨browser.reloads + 1, rfl⟩
  · exact ⟨browser.reloads, rfl⟩

end Browser

end DriveClient
