import DriveClient.Proofs.App.Navigation
import DriveClient.Proofs.Browser.Location
import DriveClient.Proofs.Route.Codec

/-!
# Reloading the page

The address bar shows the last URL that was added to the history. A client that starts afresh from
there decodes the URL, takes the normal form and looks up the page, and stands where the old one
stood (`reload_restores`).
-/

namespace DriveClient

/-- If URLs were added, then the last one is the code of the location. -/
theorem Tracks.getLast?_pushed {start now : Whereabouts} {moves : List String}
    (h : Tracks start moves now) (hmore : start.pushed.length < now.pushed.length) :
    now.pushed.getLast? = some (Percent.encodePath now.location) := by
  have hpushed := h.pushed
  by_cases hkept : start.kept = true
  · rw [if_pos hkept] at hpushed
    rcases h.last_url with ⟨hmoves, -⟩ | hlast
    · rw [hpushed, hmoves, List.map_nil, List.append_nil] at hmore
      exact absurd hmore (Nat.lt_irrefl _)
    · rw [hpushed, List.getLast?_append, hlast, Option.some_or]
  · rw [if_neg hkept, List.append_nil] at hpushed
    rw [hpushed] at hmore
    exact absurd hmore (Nat.lt_irrefl _)

namespace App

theorem location_navigateTo (app : App) (path : String) :
    (app.navigateTo path).location = Path.normalize path := by
  rw [← location_whereabouts, whereabouts_navigateTo, Whereabouts.location_goTo]

/-- Going to a page shows the page that is read back from its path. -/
theorem route_navigate (app : App) (route : Route) :
    (app.navigate route).route = Route.ofPath route.toPath := by
  rw [App.route, navigate, location_navigateTo, Route.ofPath_normalize]

/-- A client that starts in a browser showing the code of a normal form starts there. -/
theorem location_start {browser : Browser} {path : String} (hnormal : Path.normalize path = path)
    (hwindow : browser.hasWindow = true) (hpathname : browser.hasPathname = true)
    (h : browser.pathname = Percent.encodePath path) : (start browser).location = path := by
  rw [start, startAt, Browser.locationPath_of_pathname hwindow hpathname h, hnormal]

/-- **Reloading restores the page.** Wherever a client starts, and whatever happens to it: once a
URL has been added to the history, which takes a window that has one, a client that starts in a browser
which shows the last URL has the same location and the same page. And going to a page that some path
leads to shows this page. -/
theorem reload_restores (browser : Browser) (path : String) (occurrences : List Occurrence) :
    let app := (startAt browser path).run occurrences
    (browser.pushed.length < app.browser.pushed.length →
      ∀ reloaded : Browser, reloaded.hasWindow = true → reloaded.hasPathname = true →
        app.browser.pushed.getLast? = some reloaded.pathname →
        (start reloaded).location = app.location ∧ (start reloaded).route = app.route) ∧
    ∀ origin, (app.navigate (Route.ofPath origin)).route = Route.ofPath origin := by
  intro app
  have htracks := tracks_startAt browser path occurrences
  constructor
  · intro hmore reloaded hwindow hpathname hlast
    have hcode : app.browser.pushed.getLast? = some (Percent.encodePath app.location) :=
      htracks.getLast?_pushed hmore
    rw [hcode, Option.some_inj] at hlast
    have hlocation : (start reloaded).location = app.location :=
      location_start htracks.normal hwindow hpathname hlast.symm
    refine ⟨hlocation, ?_⟩
    rw [App.route, hlocation, ← App.route]
  · intro origin
    rw [route_navigate, Route.ofPath_toPath_ofPath]

/-- Two pages are visited, the second one under a name full of reserved characters, and the page is
loaded again. -/
theorem reload_restores_reserved :
    let app := (startAt (.fresh "/") "/").run [.goTo .trash, .visit "files//50% off/a#b?/"]
    let url := "/files/50%25%20off/a%23b%3F"
    app.browser.pushed = ["/trash", url] ∧ app.location = "/files/50% off/a#b?" ∧
      (start (.fresh url)).location = app.location ∧ (start (.fresh url)).route = app.route := by
  intro app url
  have hreload := reload_restores (.fresh "/") "/" [.goTo .trash, .visit "files//50% off/a#b?/"]
  refine ⟨by decide, by decide, ?_⟩
  exact hreload.1 (by decide) (.fresh url) rfl rfl (by decide)

end App

end DriveClient
