import Mathlib.Data.List.Chain
import DriveClient.Proofs.App.Whereabouts
import DriveClient.Proofs.Path.Segments
import DriveClient.Proofs.Text.PathCode

/-!
# Location and history along a run

A run changes the location again and again. `moves` lists the locations it changes to, and `Tracks`
says how the list and the whereabouts of the client belong together: the location is a normal form
and the last one of the list, neighbours in the list differ, and the session history holds the code
of each, in order. Each step keeps this (`Tracks.step`), so it holds along every run
(`tracks_startAt`).
-/

namespace DriveClient

/-! ## The invariant -/

/-- How a client that started at `start` and has moved to `moves` since then stands now. -/
structure Tracks (start : Whereabouts) (moves : List String) (now : Whereabouts) : Prop where
  normal : Path.normalize now.location = now.location
  kept : now.kept = start.kept
  pushed : now.pushed = start.pushed ++ if start.kept then moves.map Percent.encodePath else []
  changes : (start.location :: moves).IsChain (· ≠ ·)
  last : (start.location :: moves).getLast? = some now.location

namespace Tracks

variable {start now : Whereabouts} {moves : List String}

theorem refl (h : Path.normalize start.location = start.location) : Tracks start [] start where
  normal := h
  kept := rfl
  pushed := by simp
  changes := by simp
  last := rfl

/-- Going elsewhere adds one location. -/
theorem move (h : Tracks start moves now) {path : String}
    (helsewhere : Path.normalize path ≠ now.location) :
    Tracks start (moves ++ [Path.normalize path]) (now.moveTo (Path.normalize path)) where
  normal := Path.normalize_normalize path
  kept := h.kept
  pushed := by
    rw [Whereabouts.pushed_moveTo, h.kept, h.pushed]
    cases start.kept with
    | false => simp
    | true => simp
  changes := by
    rw [← List.cons_append, List.isChain_append]
    refine ⟨h.changes, by simp, ?_⟩
    intro x hx y hy
    rw [h.last, Option.mem_some_iff] at hx
    rw [List.head?_singleton, Option.mem_some_iff] at hy
    rw [← hx, ← hy]
    exact helsewhere.symm
  last := by rw [← List.cons_append, List.getLast?_concat, Whereabouts.location_moveTo]

/-- Neighbours among the URLs differ, as the locations that they are the codes of do. -/
theorem urls_differ (h : Tracks start moves now) :
    (moves.map Percent.encodePath).IsChain (· ≠ ·) := by
  have hdiffer : moves.IsChain (· ≠ ·) := h.changes.tail
  rw [List.isChain_map]
  refine hdiffer.imp ?_
  intro p q hpq hcode
  exact hpq (Percent.encodePath_inj.1 hcode)

/-- The last URL is the code of the location. -/
theorem last_url (h : Tracks start moves now) :
    moves = [] ∧ now.location = start.location ∨
      (moves.map Percent.encodePath).getLast? = some (Percent.encodePath now.location) := by
  have hlast := h.last
  cases moves with
  | nil =>
    rw [List.getLast?_singleton, Option.some_inj] at hlast
    exact .inl ⟨rfl, hlast.symm⟩
  | cons first more =>
    rw [List.getLast?_cons_cons] at hlast
    rw [List.getLast?_map, hlast, Option.map_some]
    exact .inr rfl

end Tracks

/-! ## Runs -/

namespace App

/-- The locations that a run moves to, one for each change of the location. -/
def moves (app : App) : List Occurrence → List String
  | [] => []
  | occurrence :: rest =>
    (if (app.step occurrence).location = app.location then []
      else [(app.step occurrence).location]) ++ (app.step occurrence).moves rest

end App

namespace Tracks

variable {start : Whereabouts} {moves : List String} {app : App}

theorem step (h : Tracks start moves app.whereabouts) (occurrence : App.Occurrence) :
    Tracks start
      (moves ++ if (app.step occurrence).location = app.location then []
        else [(app.step occurrence).location])
      (app.step occurrence).whereabouts := by
  rcases app.whereabouts_step_cases occurrence with ⟨hstay, -⟩ | ⟨target, -, helse, hmove⟩
  -- the locations are rewritten and not computed, which would run the step
  · have hsame := congrArg Whereabouts.location hstay
    rw [App.location_whereabouts, App.location_whereabouts] at hsame
    rw [if_pos hsame, hstay, List.append_nil]
    exact h
  · have hnew := congrArg Whereabouts.location hmove
    rw [App.location_whereabouts, Whereabouts.location_moveTo] at hnew
    have hchanged : (app.step occurrence).location ≠ app.location := by
      rw [hnew]
      exact helse
    rw [if_neg hchanged, hnew, hmove]
    exact h.move helse

/-- The invariant is kept along a run. -/
theorem run (h : Tracks start moves app.whereabouts) (occurrences : List App.Occurrence) :
    Tracks start (moves ++ app.moves occurrences) (app.run occurrences).whereabouts := by
  induction occurrences generalizing app moves with
  | nil =>
    rw [App.moves, List.append_nil]
    exact h
  | cons occurrence rest ih =>
    rw [App.moves, ← List.append_assoc, App.run_cons]
    exact ih (h.step occurrence)

end Tracks

namespace App

/-- A client that has started anywhere and gone through any occurrences satisfies the invariant. -/
theorem tracks_startAt (browser : Browser) (path : String) (occurrences : List Occurrence) :
    Tracks (startAt browser path).whereabouts ((startAt browser path).moves occurrences)
      ((startAt browser path).run occurrences).whereabouts := by
  have hstart : Tracks (startAt browser path).whereabouts [] (startAt browser path).whereabouts :=
    Tracks.refl (Path.normalize_normalize path)
  exact hstart.run occurrences

/-- An occurrence changes location and history together or not at all. -/
theorem step_cases (app : App) (next : Occurrence) :
    ((app.step next).location = app.location ∧
        (app.step next).browser.pushed = app.browser.pushed ∧
        ∀ target ∈ next.target?, Path.normalize target = app.location) ∨
      ∃ target ∈ next.target?, Path.normalize target ≠ app.location ∧
        (app.step next).location = Path.normalize target ∧
        (app.step next).browser.pushed = app.browser.pushed ++
          if app.whereabouts.kept then [Percent.encodePath (Path.normalize target)] else [] := by
  rcases app.whereabouts_step_cases next with ⟨hstay, hvoid⟩ | ⟨target, hmem, helse, hmove⟩
  · have hlocation := congrArg Whereabouts.location hstay
    have hpushed := congrArg Whereabouts.pushed hstay
    rw [location_whereabouts, location_whereabouts] at hlocation
    rw [pushed_whereabouts, pushed_whereabouts] at hpushed
    exact .inl ⟨hlocation, hpushed, hvoid⟩
  · have hlocation := congrArg Whereabouts.location hmove
    have hpushed := congrArg Whereabouts.pushed hmove
    rw [location_whereabouts, Whereabouts.location_moveTo] at hlocation
    rw [pushed_whereabouts, Whereabouts.pushed_moveTo, pushed_whereabouts] at hpushed
    exact .inr ⟨target, hmem, helse, hlocation, hpushed⟩

end App

/-! ## Who asks for paths -/

namespace View

/-- A link acts on the primary button without modifier keys, and leaves every other click to the
browser. -/
theorem respond_link (href query : String) (click : Click) :
    (Listener.link href).respond query (.click click) =
      if click.button = 0 ∧ click.ctrlKey = false ∧ click.metaKey = false ∧
          click.shiftKey = false ∧ click.altKey = false then ⟨true, .navigate href⟩
      else ⟨false, .nothing⟩ := by
  have hplain : click.isPlain = true ↔
      click.button = 0 ∧ click.ctrlKey = false ∧ click.metaKey = false ∧
        click.shiftKey = false ∧ click.altKey = false := by
    simp [Click.isPlain, and_assoc]
  rw [Listener.respond]
  simp only [hplain]
  rfl

/-- Whether a link is active or not, it responds to clicks in the same way. -/
theorem respond_head?_targets_link (location href activeClass : String) (children : List Node)
    (query : String) (event : Event) :
    ((link location href activeClass children).targets.head?.map fun target =>
        target.listener.respond query event) =
      some ((Listener.link href).respond query event) := by
  unfold link
  split
  · rfl
  · rfl

end View

namespace App

/-! ## Navigation -/

/-- **Location and history belong together.** Wherever a client starts, and whatever happens to it:

* its location is a normal form;
* what happens next leaves location and history alone, or it asks for another place; then the
  location becomes the normal form of the path asked for, and one URL, its code, is added to the
  history if there is one;
* the URLs added so far are the codes of the locations moved to, in order, no two neighbours are
  equal, and the last one is the code of the location;
* a link acts, and keeps the browser from following it, on plain clicks only; the settings button of
  the header and the button on the page for unknown places act on every click. -/
theorem navigation_history (browser : Browser) (path : String)
    (occurrences : List Occurrence) :
    let app := (startAt browser path).run occurrences
    let moves := (startAt browser path).moves occurrences
    let kept := browser.hasWindow && browser.hasHistory
    Path.normalize app.location = app.location ∧
    (∀ next : Occurrence,
      ((app.step next).location = app.location ∧
          (app.step next).browser.pushed = app.browser.pushed ∧
          ∀ target ∈ next.target?, Path.normalize target = app.location) ∨
        ∃ target ∈ next.target?, Path.normalize target ≠ app.location ∧
          (app.step next).location = Path.normalize target ∧
          (app.step next).browser.pushed = app.browser.pushed ++
            if kept then [Percent.encodePath (Path.normalize target)] else []) ∧
    app.browser.pushed = browser.pushed ++ (if kept then moves.map Percent.encodePath else []) ∧
    (moves.map Percent.encodePath).IsChain (· ≠ ·) ∧
    (moves = [] ∧ app.location = Path.normalize path ∨
      (moves.map Percent.encodePath).getLast? = some (Percent.encodePath app.location)) ∧
    (∀ location href activeClass children query click,
      ((View.link location href activeClass children).targets.head?.map fun target =>
          target.listener.respond query (.click click)) =
        some (if click.button = 0 ∧ click.ctrlKey = false ∧ click.metaKey = false ∧
            click.shiftKey = false ∧ click.altKey = false then ⟨true, .navigate href⟩
          else ⟨false, .nothing⟩)) ∧
    (∀ query click,
      ((View.header.targets.filter (·.name = "Settings")).map fun target =>
          target.listener.respond query (.click click)) = [⟨false, .navigate "/settings"⟩]) ∧
    ∀ missing query click,
      ((View.notFoundPage missing).targets.map fun target =>
          target.listener.respond query (.click click)) = [⟨false, .navigate "/"⟩] := by
  intro app moves kept
  have htracks := tracks_startAt browser path occurrences
  have hkept : app.whereabouts.kept = kept := htracks.kept
  refine ⟨htracks.normal, ?_, htracks.pushed, htracks.urls_differ, htracks.last_url, ?_, ?_, ?_⟩
  · intro next
    rw [← hkept]
    exact step_cases app next
  · intro location href activeClass children query click
    rw [View.respond_head?_targets_link, View.respond_link]
  · intro query click
    rfl
  · intro missing query click
    rfl

end App

end DriveClient
