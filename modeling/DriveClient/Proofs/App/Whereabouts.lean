import DriveClient.App.Run

/-!
# Where a client is

Of all that a client holds, navigation touches the location and the session history only, and
nothing else touches these. So a client, seen as its whereabouts, is a machine with one instruction: go to a
path. Each occurrence gives it one such instruction or none (`whereabouts_step`), and a run gives it
the instructions of the occurrences in their order (`whereabouts_run`).
-/

namespace DriveClient

/-! ## Instructions -/

/-- The path that an action goes to, if it goes to one. -/
def View.Action.target? : View.Action → Option String
  | .navigate path => some path
  | _ => none

/-- The path that an occurrence asks for, if it asks for one. -/
def App.Occurrence.target? : App.Occurrence → Option String
  | .visit path => some path
  | .goTo route => some route.toPath
  | .event listener query input => (listener.respond query input).action.target?
  | .usage _ => none
  | .retitle _ => none

/-! ## The machine -/

/-- The location of a client and the URLs in its session history, and whether that history is kept
at all. -/
structure Whereabouts where
  location : String
  pushed : List String
  kept : Bool
deriving DecidableEq

namespace Whereabouts

/-- Moves to another location, whose code is added to a kept history. -/
def moveTo (here : Whereabouts) (location : String) : Whereabouts :=
  { here with
    location := location
    pushed := here.pushed ++ if here.kept then [Percent.encodePath location] else [] }

/-- Goes to a path, unless that is here already. -/
def goTo (here : Whereabouts) (path : String) : Whereabouts :=
  if here.location = Path.normalize path then here else here.moveTo (Path.normalize path)

/-- Goes to a path if there is one. -/
def follow (here : Whereabouts) : Option String → Whereabouts
  | none => here
  | some path => here.goTo path

@[simp] theorem location_moveTo (here : Whereabouts) (location : String) :
    (here.moveTo location).location = location := rfl

@[simp] theorem pushed_moveTo (here : Whereabouts) (location : String) :
    (here.moveTo location).pushed =
      here.pushed ++ if here.kept then [Percent.encodePath location] else [] := rfl

/-- After going to a path the location is the normal form of the path. -/
theorem location_goTo (here : Whereabouts) (path : String) :
    (here.goTo path).location = Path.normalize path := by
  unfold goTo
  split
  · rename_i hhere
    exact hhere
  · rfl

/-- An instruction is void, or it leads elsewhere. -/
theorem follow_cases (here : Whereabouts) (target? : Option String) :
    (here.follow target? = here ∧ ∀ path ∈ target?, Path.normalize path = here.location) ∨
      ∃ path ∈ target?, Path.normalize path ≠ here.location ∧
        here.follow target? = here.moveTo (Path.normalize path) := by
  cases target? with
  | none => exact .inl ⟨rfl, by simp⟩
  | some path =>
    by_cases hhere : here.location = Path.normalize path
    · refine .inl ⟨if_pos hhere, ?_⟩
      intro other hother
      rw [Option.mem_some_iff] at hother
      rw [← hother, hhere]
    · exact .inr ⟨path, rfl, fun hc => hhere hc.symm, if_neg hhere⟩

end Whereabouts

namespace App

/-- The whereabouts of a client. The history is kept in a window that has one. -/
def whereabouts (app : App) : Whereabouts :=
  ⟨app.location, app.browser.pushed, app.browser.hasWindow && app.browser.hasHistory⟩

@[simp] theorem location_whereabouts (app : App) : app.whereabouts.location = app.location := rfl

@[simp] theorem pushed_whereabouts (app : App) : app.whereabouts.pushed = app.browser.pushed := rfl

/-! ## What leaves the whereabouts alone -/

theorem whereabouts_setTitle (app : App) (title : String) :
    { app with browser := app.browser.setTitle title }.whereabouts = app.whereabouts := by
  obtain ⟨shown, hbrowser⟩ := app.browser.exists_setTitle title
  rw [hbrowser]
  rfl

theorem whereabouts_reload (app : App) :
    { app with browser := app.browser.reload }.whereabouts = app.whereabouts := by
  obtain ⟨reloads, hbrowser⟩ := app.browser.exists_reload
  rw [hbrowser]
  rfl

theorem whereabouts_followTitle (app : App) (before : Route) :
    (app.followTitle before).whereabouts = app.whereabouts := by
  unfold followTitle
  split
  · rfl
  · exact whereabouts_setTitle app _

theorem whereabouts_settleUsage (app : App) (outcome : Except Fetch.Failure Report) :
    (app.settleUsage outcome).whereabouts = app.whereabouts := by
  cases outcome with
  | ok report => rfl
  | error failure => rfl

/-! ## The simulation -/

theorem whereabouts_navigateTo (app : App) (path : String) :
    (app.navigateTo path).whereabouts = app.whereabouts.goTo path := by
  unfold navigateTo Whereabouts.goTo
  by_cases hhere : app.location = Path.normalize path
  · rw [location_whereabouts, if_pos hhere, if_pos hhere]
  · rw [location_whereabouts, if_neg hhere, if_neg hhere]
    by_cases hkept : (app.browser.hasWindow && app.browser.hasHistory) = true
    · simp [whereabouts, Whereabouts.moveTo, Browser.push, hkept]
    · simp [whereabouts, Whereabouts.moveTo, Browser.push, hkept]

theorem whereabouts_perform (app : App) (action : View.Action) :
    (app.perform action).whereabouts = app.whereabouts.follow action.target? := by
  cases action with
  | nothing => rfl
  | navigate path => exact whereabouts_navigateTo app path
  | log level message => rfl
  | reload => exact whereabouts_reload app
  | notify notice => rfl

/-- An occurrence moves a client to the path it asks for, and does nothing to its whereabouts
otherwise. -/
theorem whereabouts_step (app : App) (occurrence : Occurrence) :
    (app.step occurrence).whereabouts = app.whereabouts.follow occurrence.target? := by
  -- showing the title afterwards is no part of it
  rw [step, whereabouts_followTitle]
  cases occurrence with
  | visit path => exact whereabouts_navigateTo app path
  | goTo route => exact whereabouts_navigateTo app route.toPath
  | event listener query event => exact whereabouts_perform app _
  | usage outcome => exact whereabouts_settleUsage app outcome
  | retitle title => exact whereabouts_setTitle app title

/-- An occurrence leaves a client where it is, or it asks for another place and moves it there. -/
theorem whereabouts_step_cases (app : App) (occurrence : Occurrence) :
    ((app.step occurrence).whereabouts = app.whereabouts ∧
        ∀ target ∈ occurrence.target?, Path.normalize target = app.location) ∨
      ∃ target ∈ occurrence.target?, Path.normalize target ≠ app.location ∧
        (app.step occurrence).whereabouts = app.whereabouts.moveTo (Path.normalize target) := by
  rw [whereabouts_step]
  exact app.whereabouts.follow_cases occurrence.target?

theorem run_cons (app : App) (occurrence : Occurrence) (rest : List Occurrence) :
    app.run (occurrence :: rest) = (app.step occurrence).run rest := by
  rw [run, run, List.foldl_cons]

/-- A run moves a client along the paths that its occurrences ask for. -/
theorem whereabouts_run (app : App) (occurrences : List Occurrence) :
    (app.run occurrences).whereabouts =
      (occurrences.map Occurrence.target?).foldl Whereabouts.follow app.whereabouts := by
  induction occurrences generalizing app with
  | nil => rfl
  | cons occurrence rest ih =>
    rw [run_cons, ih, whereabouts_step, List.map_cons, List.foldl_cons]

end App

end DriveClient
