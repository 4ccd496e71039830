import DriveClient.Proofs.App.Reload
import DriveClient.Proofs.Text.Url

/-!
# The address bar

A browser does not show a URL as it stands: it reads it first. Nothing in the code of a location is
read as a host, a query or a fragment. But a segment of one or two dots in the location is still one in
the URL, and the browser carries it out, so that the address bar names another place than the client
shows. The address bar is right just when the location has no such segment
(`pushed_url_names_location_iff`).
-/

namespace DriveClient

namespace Url

/-- A URL that is a path and nothing else: one slash in front, nothing that ends a path or stands for
a slash, and no empty segment unless it is the root. -/
structure IsPlainPath (url : String) : Prop where
  one_slash : ∃ rest, url.toList = '/' :: rest ∧ rest.head? ≠ some '/'
  only_path : ∀ c ∈ ['?', '#', '\\'], c ∉ url.toList
  no_empty : url = "/" ∨ ∀ piece ∈ Path.pieces url.toList.tail, piece ≠ []

/-- The code of a normal form is a path and nothing else. -/
theorem isPlainPath_encodePath {path : String} (h : Path.normalize path = path) :
    IsPlainPath (Percent.encodePath path) := by
  obtain ⟨rest, hpath, hrest⟩ := Path.normalize_eq_self_iff.1 h
  have hcode := toList_encodePath_of_slash hpath
  refine ⟨⟨_, hcode, ?_⟩, not_mem_encodePath path, ?_⟩
  · have hone := head?_encodePath_tail hpath (Path.head?_ne_slash hrest)
    rwa [hcode, List.tail_cons] at hone
  · rcases hrest with rfl | hrest
    · have hroot : path = "/" := String.toList_inj.1 hpath
      rw [hroot]
      exact .inl (by decide)
    · refine .inr fun piece hpiece => ?_
      rw [pieces_encodePath hpath] at hpiece
      obtain ⟨p, hp, rfl⟩ := List.mem_map.1 hpiece
      rw [ne_eq, Percent.encode_eq_nil_iff]
      exact hrest p hp

/-- A browser reads the code of a normal form as the path that it is, just when the path has no
segment of dots. -/
theorem read_encodePath_eq_self_iff {path : String} (h : Path.normalize path = path) :
    read (Percent.encodePath path) = ⟨none, Percent.encodePath path, none, none⟩ ↔
      NoDots path := by
  obtain ⟨rest, hpath, hrest⟩ := Path.normalize_eq_self_iff.1 h
  rw [read_encodePath hpath (Path.head?_ne_slash hrest), ← withoutDots_eq_self_iff hpath]
  simp [Percent.encodePath_inj]

/-- A browser that reads the code of a normal form shows the path without its dots. -/
theorem locationPath_of_read {path : String} (h : Path.normalize path = path) {shown : Browser}
    (hwindow : shown.hasWindow = true) (hpathname : shown.hasPathname = true)
    (hread : shown.pathname = (read (Percent.encodePath path)).path) :
    shown.locationPath = withoutDots path := by
  obtain ⟨rest, hpath, hrest⟩ := Path.normalize_eq_self_iff.1 h
  rw [read_encodePath hpath (Path.head?_ne_slash hrest)] at hread
  exact Browser.locationPath_of_pathname hwindow hpathname hread

/-- What a browser makes of the code of a normal form: a path and nothing else, which is read as it
stands, and shown as the path that it is the code of, just when that has no segment of dots. -/
theorem encodePath_names_iff {path : String} (h : Path.normalize path = path) :
    IsPlainPath (Percent.encodePath path) ∧
      (∀ dots ∈ [".", ".."],
        dots ∈ Path.segments (Percent.encodePath path) ↔ dots ∈ Path.segments path) ∧
      (read (Percent.encodePath path) = ⟨none, Percent.encodePath path, none, none⟩ ↔
        NoDots path) ∧
      ∀ shown : Browser, shown.hasWindow = true → shown.hasPathname = true →
        shown.pathname = (read (Percent.encodePath path)).path →
        (shown.locationPath = path ↔ NoDots path) := by
  obtain ⟨rest, hpath, -⟩ := Path.normalize_eq_self_iff.1 h
  refine ⟨isPlainPath_encodePath h, dots_mem_segments_encodePath hpath,
    read_encodePath_eq_self_iff h, ?_⟩
  intro shown hwindow hpathname hread
  rw [locationPath_of_read h hwindow hpathname hread, withoutDots_eq_self_iff hpath]

end Url

namespace App

/-- **The address bar.** Whatever happens to a client, wherever it is, this adds nothing to the
history, or it adds one URL, which is a path and nothing else. The URL has the same segments of dots
as the location; a browser reads it as the path that it is just when there are none, and just then
the address bar names the location that the client shows. -/
theorem pushed_url_names_location_iff (app : App) (next : Occurrence) :
    (app.step next).browser.pushed = app.browser.pushed ∨
      ∃ url, (app.step next).browser.pushed = app.browser.pushed ++ [url] ∧
        Url.IsPlainPath url ∧
        (∀ dots ∈ [".", ".."],
          dots ∈ Path.segments url ↔ dots ∈ Path.segments (app.step next).location) ∧
        (Url.read url = ⟨none, url, none, none⟩ ↔ Url.NoDots (app.step next).location) ∧
        ∀ shown : Browser, shown.hasWindow = true → shown.hasPathname = true →
          shown.pathname = (Url.read url).path →
          (shown.locationPath = (app.step next).location ↔
            Url.NoDots (app.step next).location) := by
  have hcases := app.step_cases next
  -- the client afterwards gets a name, so that nothing tries to compute it
  generalize app.step next = after at hcases ⊢
  rcases hcases with ⟨-, hpushed, -⟩ | ⟨target, -, -, hlocation, hpushed⟩
  · exact .inl hpushed
  · have hnormal : Path.normalize after.location = after.location := by
      rw [hlocation, Path.normalize_normalize]
    rw [← hlocation] at hpushed
    split at hpushed
    · exact .inr ⟨_, hpushed, Url.encodePath_names_iff hnormal⟩
    · rw [List.append_nil] at hpushed
      exact .inl hpushed

/-- A path with two dots in it is pushed as it is. The browser goes one up and shows the trash, while
the client looks for a folder. -/
theorem pushed_url_keeps_dots :
    let app := (startAt (.fresh "/") "/").run [.visit "/files/../trash"]
    let url := "/files/../trash"
    app.browser.pushed = [url] ∧ ".." ∈ Path.segments url ∧ app.location = url ∧
      app.route = .folder "/../trash" ∧ (Url.read url).path = "/trash" ∧
      (Browser.fresh (Url.read url).path).locationPath = "/trash" ∧
      (start (.fresh (Url.read url).path)).route = .trash := by
  intro app url
  have hlocation : app.location = url := by decide
  have hread : (Url.read url).path = "/trash" := by decide
  have hroute : Route.ofPath url = .folder "/../trash" := by decide
  have hshown : (Browser.fresh "/trash").locationPath = "/trash" :=
    Browser.locationPath_of_pathname rfl rfl (by decide)
  have hreloaded : (start (.fresh "/trash")).route = .trash := by
    rw [start, hshown]
    decide
  rw [App.route, hlocation, hroute, hread]
  exact ⟨by decide, by decide, rfl, rfl, rfl, hshown, hreloaded⟩

end App

end DriveClient
