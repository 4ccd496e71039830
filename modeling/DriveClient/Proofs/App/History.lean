import DriveClient.App.History
import DriveClient.Proofs.App.Reload
import DriveClient.Proofs.View.Outlet

/-!
# Back and forward through the history

In a complete browser the address bar always names the location of the client (`InSync`): a navigation
puts the code of the new location there, and after a step through the history the listener takes the
location from there. So a URL that comes back into the address bar brings back the location and the
page that it was added with. Going back as often as the client has moved undoes all its moves, and
nothing but these (`back_restores`). The title of the document follows the page here, too
(`titled_run`).
-/

namespace DriveClient

/-! ## Address bar and location -/

namespace App

/-- A complete browser, whose address bar names the location of the client. -/
structure InSync (app : App) : Prop where
  hasWindow : app.browser.hasWindow = true
  hasHistory : app.browser.hasHistory = true
  hasPathname : app.browser.hasPathname = true
  location : app.location = Path.normalize app.browser.locationPath

namespace InSync

variable {app : App}

theorem setTitle (h : app.InSync) (title : String) :
    InSync { app with browser := app.browser.setTitle title } := by
  obtain ⟨shown, hbrowser⟩ := app.browser.exists_setTitle title
  rw [hbrowser]
  exact ⟨h.hasWindow, h.hasHistory, h.hasPathname, h.location⟩

theorem reload (h : app.InSync) : InSync { app with browser := app.browser.reload } := by
  obtain ⟨reloads, hbrowser⟩ := app.browser.exists_reload
  rw [hbrowser]
  exact ⟨h.hasWindow, h.hasHistory, h.hasPathname, h.location⟩

theorem followTitle (h : app.InSync) (before : Route) : (app.followTitle before).InSync := by
  unfold App.followTitle
  split
  · exact h
  · exact h.setTitle _

theorem navigateTo (h : app.InSync) (path : String) : (app.navigateTo path).InSync := by
  unfold App.navigateTo
  split
  · exact h
  · have hpath := Browser.locationPath_push h.hasWindow h.hasHistory h.hasPathname
      (Path.normalize path)
    obtain ⟨pathname, pushed, hpush⟩ := app.browser.exists_push (Path.normalize path)
    rw [hpush] at hpath ⊢
    refine ⟨h.hasWindow, h.hasHistory, h.hasPathname, ?_⟩
    change Path.normalize path = Path.normalize (Browser.locationPath _)
    rw [hpath, Path.normalize_normalize]

theorem perform (h : app.InSync) (action : View.Action) : (app.perform action).InSync := by
  cases action with
  | nothing | notify notice => exact h
  | navigate path => exact h.navigateTo path
  | log level message => exact ⟨h.hasWindow, h.hasHistory, h.hasPathname, h.location⟩
  | reload => exact h.reload

theorem step (h : app.InSync) (occurrence : Occurrence) : (app.step occurrence).InSync := by
  rw [App.step]
  apply followTitle
  cases occurrence with
  | visit path => exact h.navigateTo path
  | goTo route => exact h.navigateTo route.toPath
  | event listener query event => exact h.perform _
  | usage outcome =>
    cases outcome with
    | ok report | error failure =>
      exact ⟨h.hasWindow, h.hasHistory, h.hasPathname, h.location⟩
  | retitle title => exact h.setTitle title

/-- The listener brings the location in line with the address bar. -/
theorem showEntry (h : app.InSync) (url : String) : (app.showEntry url).InSync := by
  apply followTitle
  exact ⟨h.hasWindow, h.hasHistory, h.hasPathname, rfl⟩

end InSync

/-- What is shown for an entry depends on its URL only. -/
theorem location_showEntry (app : App) (url : String) :
    (app.showEntry url).location =
      Path.normalize { app.browser with pathname := url }.locationPath := by
  rw [showEntry, ← location_whereabouts, whereabouts_followTitle]
  rfl

/-- The URL that is in the address bar now will bring the location back, whichever client is in the tab
by then. -/
theorem InSync.location_showEntry {app later : App} (h : app.InSync) (hlater : later.InSync) :
    (later.showEntry app.browser.pathname).location = app.location := by
  rw [App.location_showEntry, h.location, Browser.locationPath, Browser.locationPath, h.hasWindow,
    h.hasPathname, hlater.hasWindow, hlater.hasPathname]

/-- The page changes at most the title of the document. -/
theorem exists_followTitle (app : App) (before : Route) :
    ∃ title, app.followTitle before = { app with browser := { app.browser with title := title } } := by
  unfold followTitle
  split
  · exact ⟨app.browser.title, rfl⟩
  · obtain ⟨shown, hbrowser⟩ := app.browser.exists_setTitle (titleOf app.route)
    refine ⟨shown, ?_⟩
    rw [showTitle, hbrowser]

/-- An entry that is shown changes neither usage nor log, and adds nothing to the history. -/
theorem showEntry_kept (app : App) (url : String) :
    (app.showEntry url).usage = app.usage ∧ (app.showEntry url).log = app.log ∧
      (app.showEntry url).browser.pushed = app.browser.pushed := by
  rw [showEntry]
  obtain ⟨title, happ⟩ := exists_followTitle
    { app with browser := { app.browser with pathname := url } }.popState app.route
  rw [happ]
  exact ⟨rfl, rfl, rfl⟩

end App

/-! ## Steps in a tab -/

namespace Tab

open App (InSync)

theorem run_append (tab : Tab) (first second : List Occurrence) :
    tab.run (first ++ second) = (tab.run first).run second := by
  rw [run, run, run, List.foldl_append]

theorem run_cons (tab : Tab) (first : Occurrence) (rest : List Occurrence) :
    tab.run (first :: rest) = (tab.step first).run rest := by
  rw [run, run, List.foldl_cons]

theorem step_back_nil {tab : Tab} (h : tab.back = []) : tab.step .back = tab := by
  rw [step, h]

theorem step_back {tab : Tab} {url : String} {rest : List String} (h : tab.back = url :: rest) :
    (tab.step .back).app = tab.app.showEntry url ∧ (tab.step .back).back = rest ∧
      (tab.step .back).forward = tab.app.browser.pathname :: tab.forward := by
  have hstep : tab.step .back =
      ⟨tab.app.showEntry url, rest, tab.app.browser.pathname :: tab.forward⟩ := by
    rw [step, h]
  rw [hstep]
  generalize tab.app.showEntry url = shown
  exact ⟨rfl, rfl, rfl⟩

theorem step_forward_nil {tab : Tab} (h : tab.forward = []) : tab.step .forward = tab := by
  rw [step, h]

theorem step_forward {tab : Tab} {url : String} {rest : List String} (h : tab.forward = url :: rest) :
    (tab.step .forward).app = tab.app.showEntry url ∧
      (tab.step .forward).back = tab.app.browser.pathname :: tab.back ∧
      (tab.step .forward).forward = rest := by
  have hstep : tab.step .forward =
      ⟨tab.app.showEntry url, tab.app.browser.pathname :: tab.back, rest⟩ := by
    rw [step, h]
  rw [hstep]
  generalize tab.app.showEntry url = shown
  exact ⟨rfl, rfl, rfl⟩

/-- What happens to the client is the same in a tab. -/
theorem app_step_client (tab : Tab) (occurrence : App.Occurrence) :
    (tab.step (.client occurrence)).app = tab.app.step occurrence := by
  rw [step]
  generalize tab.app.step occurrence = after
  split
  · rfl
  · rfl

/-- An entry is added just when the client moves. -/
theorem back_step_client {tab : Tab} (h : tab.app.InSync) (occurrence : App.Occurrence) :
    (tab.app.step occurrence).location = tab.app.location ∧
        (tab.step (.client occurrence)).back = tab.back ∨
      (tab.app.step occurrence).location ≠ tab.app.location ∧
        (tab.step (.client occurrence)).back = tab.app.browser.pathname :: tab.back := by
  have hkept : tab.app.whereabouts.kept = true := by
    rw [App.whereabouts, h.hasWindow, h.hasHistory]
    rfl
  have hcases := tab.app.step_cases occurrence
  rw [step]
  generalize tab.app.step occurrence = after at hcases ⊢
  rcases hcases with ⟨hlocation, hpushed, -⟩ | ⟨target, -, helse, hlocation, hpushed⟩
  · rw [if_pos (congrArg List.length hpushed)]
    exact .inl ⟨hlocation, rfl⟩
  · have hlength : after.browser.pushed.length ≠ tab.app.browser.pushed.length := by
      rw [hpushed, if_pos hkept, List.length_append, List.length_singleton]
      exact Nat.succ_ne_self _
    rw [if_neg hlength]
    refine .inr ⟨?_, rfl⟩
    rw [hlocation]
    exact helse

/-- What every step of the client and every entry that is shown preserves holds along a run in a tab.
What happens to the client may be limited (`Q`). -/
theorem run_induction {P : App → Prop} {Q : App.Occurrence → Prop}
    (hclient : ∀ app occurrence, Q occurrence → P app → P (app.step occurrence))
    (hentry : ∀ app url, P app → P (app.showEntry url)) {tab : Tab} (h : P tab.app)
    {occurrences : List Occurrence}
    (hall : ∀ occurrence, .client occurrence ∈ occurrences → Q occurrence) :
    P (tab.run occurrences).app := by
  induction occurrences generalizing tab with
  | nil => exact h
  | cons first rest ih =>
    rw [run_cons]
    refine ih ?_ fun occurrence hmem => hall occurrence (List.mem_cons_of_mem first hmem)
    cases first with
    | client occurrence =>
      rw [app_step_client]
      exact hclient _ occurrence (hall occurrence List.mem_cons_self) h
    | back =>
      cases hback : tab.back with
      | nil => rwa [step_back_nil hback]
      | cons url rest =>
        rw [(step_back hback).1]
        exact hentry _ url h
    | forward =>
      cases hforward : tab.forward with
      | nil => rwa [step_forward_nil hforward]
      | cons url rest =>
        rw [(step_forward hforward).1]
        exact hentry _ url h

/-- The address bar names the location along every run in a tab. -/
theorem inSync_run {tab : Tab} (h : tab.app.InSync) (occurrences : List Occurrence) :
    (tab.run occurrences).app.InSync :=
  run_induction (Q := fun _ => True) (fun _ occurrence _ h => h.step occurrence)
    (fun _ url h => h.showEntry url) h fun _ _ => trivial

/-- The document shows the title of the active page also after steps through the history. -/
theorem titled_run {tab : Tab} (h : Titled tab.app) {occurrences : List Occurrence}
    (hinside : ∀ occurrence, .client occurrence ∈ occurrences → occurrence.retitles = false) :
    Titled (tab.run occurrences).app :=
  run_induction (fun _ _ hinside h => h.step hinside) (fun _ _ h => h.followTitle rfl) h hinside

/-! ## Going back -/

/-- Going back any number of times changes neither usage nor log, and adds nothing to the history. -/
theorem run_back_kept (tab : Tab) (count : Nat) :
    (tab.run (List.replicate count .back)).app.usage = tab.app.usage ∧
      (tab.run (List.replicate count .back)).app.log = tab.app.log ∧
      (tab.run (List.replicate count .back)).app.browser.pushed = tab.app.browser.pushed := by
  induction count generalizing tab with
  | zero => exact ⟨rfl, rfl, rfl⟩
  | succ count ih =>
    rw [List.replicate_succ, run_cons]
    cases hback : tab.back with
    | nil =>
      rw [step_back_nil hback]
      exact ih tab
    | cons url rest =>
      have hkept := tab.app.showEntry_kept url
      obtain ⟨husage, hlog, hpushed⟩ := ih (tab.step .back)
      rw [(step_back hback).1] at husage hlog hpushed
      exact ⟨husage.trans hkept.1, hlog.trans hkept.2.1, hpushed.trans hkept.2.2⟩

/-- Going back as often as the client has moved leads to where it was. The induction is on what happened
to the client, and the last step back undoes the first move. -/
theorem run_back {tab : Tab} (h : tab.app.InSync) (occurrences : List App.Occurrence) :
    ((tab.run (occurrences.map .client)).run
        (List.replicate (tab.app.moves occurrences).length .back)).app.location =
          tab.app.location ∧
      ((tab.run (occurrences.map .client)).run
        (List.replicate (tab.app.moves occurrences).length .back)).back = tab.back := by
  induction occurrences generalizing tab with
  | nil => exact ⟨rfl, rfl⟩
  | cons first rest ih =>
    have hcases := back_step_client h first
    have hsync : (tab.step (.client first)).app.InSync := by
      rw [app_step_client]
      exact h.step first
    rw [List.map_cons, run_cons, App.moves]
    rw [← app_step_client] at hcases ⊢
    generalize tab.step (.client first) = next at hcases hsync ⊢
    obtain ⟨hthere, hentries⟩ := ih hsync
    rcases hcases with ⟨hlocation, hback⟩ | ⟨hlocation, hback⟩
    · rw [if_pos hlocation, List.nil_append]
      exact ⟨hthere.trans hlocation, hentries.trans hback⟩
    · rw [if_neg hlocation, List.singleton_append, List.length_cons, List.replicate_succ',
        run_append, run_cons]
      have hagain := inSync_run (inSync_run hsync (rest.map .client))
        (List.replicate (next.app.moves rest).length .back)
      obtain ⟨hshown, hleft, -⟩ := step_back (hentries.trans hback)
      rw [run, List.foldl_nil, hshown, hleft]
      exact ⟨h.location_showEntry hagain, rfl⟩

/-- A step forward undoes a step back. -/
theorem forward_back {tab : Tab} (h : tab.app.InSync) (hback : tab.back ≠ []) :
    ((tab.step .back).step .forward).app.location = tab.app.location := by
  obtain ⟨url, rest, hentries⟩ := List.exists_cons_of_ne_nil hback
  obtain ⟨-, -, hbehind⟩ := step_back hentries
  rw [(step_forward hbehind).1]
  exact h.location_showEntry (inSync_run h [.back])

/-- **Back and forward.** In a complete browser, wherever a tab has come to, the address bar names the
location of the client. Whatever happens to the client next, going back as often as it has moved
brings back its location and its page; usage and log stay, and nothing is added to the history. And a
step forward undoes a step back. -/
theorem back_restores {browser : Browser} (hwindow : browser.hasWindow = true)
    (hhistory : browser.hasHistory = true) (hpathname : browser.hasPathname = true)
    (occurrences : List Occurrence) :
    let tab := (start browser).run occurrences
    tab.app.location = Path.normalize tab.app.browser.locationPath ∧
    (∀ events : List App.Occurrence,
      let there := tab.run (events.map .client)
      let again := there.run (List.replicate (tab.app.moves events).length .back)
      again.app.location = tab.app.location ∧ again.app.route = tab.app.route ∧
        again.app.usage = there.app.usage ∧ again.app.log = there.app.log ∧
        again.app.browser.pushed = there.app.browser.pushed) ∧
    (tab.back ≠ [] → ((tab.step .back).step .forward).app.location = tab.app.location) := by
  intro tab
  have hstart : (start browser).app.InSync := ⟨hwindow, hhistory, hpathname, rfl⟩
  have hsync : tab.app.InSync := inSync_run hstart occurrences
  clear_value tab
  refine ⟨hsync.location, ?_, forward_back hsync⟩
  intro events there again
  have hlocation : again.app.location = tab.app.location := (run_back hsync events).1
  refine ⟨hlocation, ?_, run_back_kept there _⟩
  rw [App.route, hlocation, App.route]

/-- Two places are visited and left again by the way they were come to. -/
example :
    ((start (.fresh "/")).run [.client (.visit "/trash"), .client (.visit "/recent"), .back,
      .back]).app.location = "/" := by decide +kernel

end Tab

end DriveClient
