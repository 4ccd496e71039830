import DriveClient.Proofs.App.Whereabouts
import DriveClient.Proofs.View.Header
import DriveClient.Proofs.View.Highlighting

/-!
# What a client knows of the usage

The figures of a client are the usage that it shows and the warnings that it has given. Nothing but the
end of a request changes them: navigation does not, and nor does anything else that a user does on the
screen (`InUse.isQuiet`, `figures_step`). What a request makes of them depends on nothing in the client
but the figures themselves, where it counts whether there is a window to ask in
(`figures_loadUsage`).
-/

namespace DriveClient

/-! ## Quiet occurrences -/

/-- Whether an action logs no warning. -/
def View.Action.isQuiet : View.Action → Bool
  | .log level _ => level ≠ .warn
  | _ => true

/-- Whether an occurrence has nothing to do with the usage: it is not the end of a request, and it
logs no warning. -/
def App.Occurrence.isQuiet : App.Occurrence → Bool
  | .event listener query input => (listener.respond query input).action.isQuiet
  | .usage _ => false
  | _ => true

/-- Navigation is quiet, whoever asks for it. -/
theorem App.Occurrence.isQuiet_of_target? {occurrence : Occurrence} {path : String}
    (h : occurrence.target? = some path) : occurrence.isQuiet = true := by
  cases occurrence with
  | visit path => rfl
  | goTo route => rfl
  | retitle title => rfl
  | usage outcome => exact absurd h (by simp [target?])
  | event listener query input =>
    rw [target?] at h
    rw [isQuiet]
    cases haction : (listener.respond query input).action with
    | navigate other => rfl
    | nothing | log level message | reload | notify notice =>
      rw [haction] at h
      exact absurd h (by simp [View.Action.target?])

namespace View

/-- Whether a listener never logs a warning. -/
def Listener.Quiet (listener : Listener) : Prop :=
  ∀ query event, (listener.respond query event).action.isQuiet = true

theorem Listener.quiet_link (href : String) : (Listener.link href).Quiet := by
  intro query event
  cases event with
  | click click =>
    rw [respond]
    split
    · rfl
    · rfl
  | key name => rfl

theorem Listener.quiet_press {action : Action} (h : action.isQuiet = true) :
    (Listener.press action).Quiet := by
  intro query event
  cases event with
  | click click => exact h
  | key name => rfl

theorem isQuiet_submitQuery {use : String → Action} (h : ∀ query, (use query).isQuiet = true)
    (query : String) : (submitQuery use query).isQuiet = true := by
  unfold submitQuery
  split
  · rfl
  · exact h _

theorem Listener.quiet_submit {use : String → Action} (h : ∀ query, (use query).isQuiet = true) :
    (Listener.submit use).Quiet := by
  intro query event
  cases event with
  | click click => simpa only [respond] using isQuiet_submitQuery h query
  | key name => rfl

theorem Listener.quiet_enter {use : String → Action} (h : ∀ query, (use query).isQuiet = true) :
    (Listener.enter use).Quiet := by
  intro query event
  cases event with
  | click click => rfl
  | key name =>
    rw [respond]
    split
    · simpa only using isQuiet_submitQuery h query
    · rfl

theorem quiet_header : ∀ target ∈ header.targets, target.listener.Quiet := by
  have hsearch : ∀ query, (recordSearch query).isQuiet = true := fun _ => rfl
  rw [targets_header]
  simp only [otherButtons, List.forall_mem_cons]
  exact ⟨Listener.quiet_submit hsearch, Listener.quiet_enter hsearch, Listener.quiet_press rfl,
    Listener.quiet_press rfl, Listener.quiet_press rfl, by simp⟩

theorem quiet_sidebar (location : String) (usage : Usage) :
    ∀ target ∈ (sidebar location usage).value.targets, target.listener.Quiet := by
  intro target htarget
  rw [targets_sidebar] at htarget
  rcases List.mem_cons.1 htarget with rfl | hitem
  · exact Listener.quiet_press rfl
  · obtain ⟨item, -, rfl⟩ := List.mem_map.1 hitem
    exact Listener.quiet_link item.href

theorem quiet_outlet (route : Route) : ∀ target ∈ (outlet route).targets, target.listener.Quiet := by
  cases route with
  | files path favourites recent => simp [outlet, filesPage, frame, plain, Node.targets, targetsIn]
  | uploads | trash | settings =>
    simp [outlet, uploadsPage, trashPage, settingsPage, emptyPage, frame, plain, Node.targets,
      targetsIn]
  | notFound path =>
    have hback : (Listener.press (.navigate Route.home.toPath)).Quiet := Listener.quiet_press rfl
    simp [outlet, notFoundPage, frame, plain, active, Node.targets, targetsIn, hback]

/-- Nothing on the screen of a client logs a warning when something happens to it. -/
theorem quiet_screen (location : String) (usage : Usage) (thrown : Option String) :
    ∀ target ∈ (screen location usage thrown).value.targets, target.listener.Quiet := by
  cases thrown with
  | some message =>
    have hreload : (Listener.press .reload).Quiet := Listener.quiet_press rfl
    simp [screen, errorScreen, plain, active, Node.targets, targetsIn, hreload]
  | none =>
    have htargets : (screen location usage none).value.targets = header.targets ++
        ((sidebar location usage).value.targets ++ (outlet (Route.ofPath location)).targets) := by
      simp [screen, layout, plain, Node.targets, targetsIn]
    intro target htarget
    rw [htargets] at htarget
    rcases List.mem_append.1 htarget with hheader | hbody
    · exact quiet_header target hheader
    · rcases List.mem_append.1 hbody with hsidebar | houtlet
      · exact quiet_sidebar location usage target hsidebar
      · exact quiet_outlet _ target houtlet

end View

/-- What happens while a client is in use: a navigation, whoever asks for it, or anything that a user
does to an element that some screen shows. -/
inductive App.Occurrence.InUse : App.Occurrence → Prop
  | navigation {occurrence : Occurrence} {path : String} (h : occurrence.target? = some path) :
    InUse occurrence
  | screen {location : String} {usage : Usage} {thrown : Option String} {target : View.Target}
    (h : target ∈ (View.screen location usage thrown).value.targets) (query : String)
    (event : View.Event) : InUse (.event target.listener query event)

theorem App.Occurrence.InUse.isQuiet {occurrence : Occurrence} (h : occurrence.InUse) :
    occurrence.isQuiet = true := by
  cases h with
  | navigation h => exact isQuiet_of_target? h
  | screen h query event => exact View.quiet_screen _ _ _ _ h query event

/-! ## Figures -/

/-- What a client knows of the usage and has warned of, and whether it has a window to ask in. -/
structure Figures where
  usage : Usage
  warnings : List Log.Entry
  windowed : Bool

/-- Takes up the end of a request. -/
def Figures.settle (figures : Figures) : Except Fetch.Failure Report → Figures
  | .ok report => { figures with usage := report.usage }
  | .error failure =>
    { figures with
      warnings := figures.warnings ++
        [⟨.warn, s!"storage usage unavailable: {failure.message}"⟩] }

namespace App

/-- The warnings in the log. -/
def warnings (app : App) : List Log.Entry := app.log.filter fun entry => entry.level = .warn

/-- The figures of a client. -/
def figures (app : App) : Figures := ⟨app.usage, app.warnings, app.browser.hasWindow⟩

/-- Only a warning changes the figures when it is logged. -/
theorem figures_record (app : App) {level : Log.Level} (h : level ≠ .warn) (message : String) :
    (app.record level message).figures = app.figures := by
  have hnone : (Log.entries level message).filter (fun entry => entry.level = .warn) = [] := by
    cases level with
    | warn => exact absurd rfl h
    | error | info | debug => rfl
  rw [figures, warnings, record, List.filter_append, hnone, List.append_nil]
  rfl

theorem figures_setTitle (app : App) (title : String) :
    { app with browser := app.browser.setTitle title }.figures = app.figures := by
  obtain ⟨shown, hbrowser⟩ := app.browser.exists_setTitle title
  rw [hbrowser]
  rfl

theorem figures_followTitle (app : App) (before : Route) :
    (app.followTitle before).figures = app.figures := by
  unfold followTitle
  split
  · rfl
  · exact app.figures_setTitle _

theorem figures_navigateTo (app : App) (path : String) :
    (app.navigateTo path).figures = app.figures := by
  obtain ⟨pathname, pushed, hpush⟩ := app.browser.exists_push (Path.normalize path)
  unfold navigateTo
  split
  · rfl
  · rw [hpush]
    exact app.figures_record (by decide) _

theorem figures_perform (app : App) {action : View.Action} (h : action.isQuiet = true) :
    (app.perform action).figures = app.figures := by
  cases action with
  | nothing | notify notice => rfl
  | navigate path => exact app.figures_navigateTo path
  | log level message => exact app.figures_record (of_decide_eq_true h) message
  | reload =>
    obtain ⟨reloads, hreload⟩ := app.browser.exists_reload
    rw [perform, hreload]
    rfl

/-- A quiet occurrence leaves the figures alone. -/
theorem figures_step (app : App) {occurrence : Occurrence} (h : occurrence.isQuiet = true) :
    (app.step occurrence).figures = app.figures := by
  rw [step, figures_followTitle]
  cases occurrence with
  | visit path => exact app.figures_navigateTo path
  | goTo route => exact app.figures_navigateTo route.toPath
  | event listener query event => exact app.figures_perform h
  | usage outcome => exact absurd h Bool.false_ne_true
  | retitle title => exact app.figures_setTitle title

/-- The end of a request changes the figures, and by nothing else than itself. -/
theorem figures_settleUsage (app : App) (outcome : Except Fetch.Failure Report) :
    (app.settleUsage outcome).figures = app.figures.settle outcome := by
  cases outcome with
  | ok report => rfl
  | error failure =>
    rw [figures, warnings, settleUsage, record, List.filter_append]
    rfl

/-- What is logged while a part of the screen is drawn depends on the figures only. -/
theorem log_part_congr {app other : App} (h : app.figures = other.figures) (part : Part) :
    (app.part part).log = (other.part part).log := by
  have husage : app.usage = other.usage := congrArg Figures.usage h
  cases part with
  | outlet | header => rfl
  | sidebar =>
    rw [App.part, App.part, husage]
    rfl

end App

/-! ## Requests in a browser -/

namespace Fetch

/-- A request leaves a record in the browser and changes nothing else there. -/
theorem exists_browser_run (browser : Browser) (script : Script) (url : String) (timeout : Int) :
    ∃ requests, (run browser script url timeout).browser =
      { browser with requests := requests } := by
  unfold run
  split
  · exact ⟨browser.requests, rfl⟩
  split
  · exact ⟨browser.requests, rfl⟩
  · exact ⟨_, rfl⟩

/-- How a request ends depends on the browser only in whether there is a window. -/
theorem outcome_run_congr {browser other : Browser} (h : browser.hasWindow = other.hasWindow)
    (script : Script) (url : String) (timeout : Int) :
    (run browser script url timeout).outcome = (run other script url timeout).outcome := by
  rw [run, run, h]
  split
  · rfl
  split
  · rfl
  · rfl

end Fetch

namespace App

/-- A client that has made the request for a report. -/
def request (app : App) (script : Fetch.Script) : App :=
  { app with browser := (Fetch.run app.browser script usageUrl fetchTimeout).browser }

/-- How the request will end, if it does. -/
def answer (app : App) (script : Fetch.Script) : Option (Except Fetch.Failure Report) :=
  (Fetch.run app.browser script usageUrl fetchTimeout).outcome

/-- A load is a request and, if there is one, its end. -/
theorem loadUsage_eq (app : App) (script : Fetch.Script) :
    app.loadUsage script =
      (app.answer script).elim (app.request script) (app.request script).settleUsage := rfl

theorem whereabouts_request (app : App) (script : Fetch.Script) :
    (app.request script).whereabouts = app.whereabouts := by
  obtain ⟨requests, hbrowser⟩ := Fetch.exists_browser_run app.browser script usageUrl fetchTimeout
  rw [request, hbrowser]
  rfl

theorem figures_request (app : App) (script : Fetch.Script) :
    (app.request script).figures = app.figures := by
  obtain ⟨requests, hbrowser⟩ := Fetch.exists_browser_run app.browser script usageUrl fetchTimeout
  rw [request, hbrowser]
  rfl

theorem answer_congr {app other : App} (h : app.figures = other.figures) (script : Fetch.Script) :
    app.answer script = other.answer script :=
  Fetch.outcome_run_congr (congrArg Figures.windowed h) script usageUrl fetchTimeout

theorem figures_loadUsage (app : App) (script : Fetch.Script) :
    (app.loadUsage script).figures =
      (app.answer script).elim app.figures app.figures.settle := by
  rw [loadUsage_eq]
  cases app.answer script with
  | none => exact app.figures_request script
  | some outcome =>
    rw [Option.elim_some, Option.elim_some, figures_settleUsage, figures_request]

end App

end DriveClient
