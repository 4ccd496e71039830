import DriveClient.App.Page
import DriveClient.Proofs.Text.Trimming
import DriveClient.Proofs.View.Header

/-!
# Searching

A user types into the search input and does things to the elements of the header. Which queries are
submitted by this is told without regard to listeners and to how a text is trimmed (`Submitted`): the
core of what the input holds at each Enter key and at each click on the search button, if it has one.
The log gets these queries, each of them once and in their order, and nothing else
(`searches_logged`).
-/

namespace DriveClient

/-! ## What an event logs -/

/-- What an action logs. -/
def View.Action.entries : View.Action → List Log.Entry
  | .log level message => Log.entries level message
  | _ => []

namespace App

theorem log_followTitle (app : App) (before : Route) : (app.followTitle before).log = app.log := by
  unfold followTitle
  split
  · rfl
  · rfl

/-- A navigation is logged too verbosely to be kept. -/
theorem log_navigateTo (app : App) (path : String) : (app.navigateTo path).log = app.log := by
  unfold navigateTo
  split
  · rfl
  · exact List.append_nil app.log

theorem log_perform (app : App) (action : View.Action) :
    (app.perform action).log = app.log ++ action.entries := by
  cases action with
  | navigate path => exact (app.log_navigateTo path).trans (List.append_nil app.log).symm
  | log level message => rfl
  | nothing | reload | notify notice => exact (List.append_nil app.log).symm

/-- An event logs what its action logs. -/
theorem log_step_event (app : App) (listener : View.Listener) (query : String)
    (event : View.Event) :
    (app.step (.event listener query event)).log =
      app.log ++ (listener.respond query event).action.entries := by
  rw [step, log_followTitle, apply, log_perform]

end App

/-! ## The other buttons -/

namespace View

/-- The other buttons act on every click, and nothing that they do is logged. -/
theorem exists_press_of_mem_otherButtons {target : Target} (h : target ∈ otherButtons) :
    ∃ name action, target = ⟨"button", name, .press action⟩ ∧ name ≠ "Search" ∧
      action.entries = [] := by
  simp only [otherButtons, List.mem_cons, List.not_mem_nil, or_false] at h
  rcases h with rfl | rfl | rfl
  · exact ⟨_, _, rfl, by decide, rfl⟩
  · exact ⟨_, _, rfl, by decide, rfl⟩
  · exact ⟨_, _, rfl, by decide, rfl⟩

end View

namespace Page

open View

/-! ## Sessions -/

/-- Something done to an element of a page, after a text was put into the search input if one is
given. -/
structure Gesture where
  target : Target
  text : Option String
  event : Event

namespace Gesture

/-- What the search input holds at a gesture, given what it held before. -/
def held (gesture : Gesture) (before : String) : String := gesture.text.getD before

/-- The Enter key in the search input. -/
def Enters (gesture : Gesture) : Prop :=
  gesture.target.tag = "input" ∧ gesture.target.name = "search" ∧ gesture.event = .key "Enter"

/-- The Enter key in the search input, or a click on the search button. -/
def Submits (gesture : Gesture) : Prop :=
  gesture.Enters ∨ gesture.target.tag = "button" ∧ gesture.target.name = "Search" ∧
    ∃ click, gesture.event = .click click

end Gesture

/-- The page after a gesture. -/
def take (page : Page) (gesture : Gesture) : Page :=
  (page.send gesture.target gesture.text gesture.event).1

/-- The page after one gesture after the other. -/
def play (page : Page) (session : List Gesture) : Page := session.foldl take page

/-- The queries that are submitted in a session, given what the search input holds before it. -/
inductive Submitted : String → List Gesture → List String → Prop where
  | done (text : String) : Submitted text [] []
  | query {text query : String} {gesture : Gesture} {rest : List Gesture} {queries : List String}
      (hsubmits : gesture.Submits) (hcore : Text.IsCore (gesture.held text) query)
      (hquery : query ≠ "") (hrest : Submitted (gesture.held text) rest queries) :
      Submitted text (gesture :: rest) (query :: queries)
  | nothing {text : String} {gesture : Gesture} {rest : List Gesture} {queries : List String}
      (h : ¬gesture.Submits ∨ Text.Blank (gesture.held text).toList)
      (hrest : Submitted (gesture.held text) rest queries) :
      Submitted text (gesture :: rest) queries

/-- A session submits no other queries than it does. -/
theorem Submitted.unique {text : String} {session : List Gesture} {queries others : List String}
    (h : Submitted text session queries) (hothers : Submitted text session others) :
    queries = others := by
  have hexclusive {text query : String} {gesture : Gesture} (hsubmits : gesture.Submits)
      (hcore : Text.IsCore text query) (hquery : query ≠ "")
      (h : ¬gesture.Submits ∨ Text.Blank text.toList) : False := by
    rcases h with hnot | hblank
    · exact hnot hsubmits
    · exact hquery (hcore.trim_eq.symm.trans (Text.trim_eq_empty_iff.2 hblank))
  induction h generalizing others with
  | done text =>
    cases hothers with
    | done => rfl
  | query hsubmits hcore hquery hrest ih =>
    cases hothers with
    | query hsubmits' hcore' hquery' hrest' => rw [hcore.unique hcore', ih hrest']
    | nothing h hrest' => exact (hexclusive hsubmits hcore hquery h).elim
  | nothing h hrest ih =>
    cases hothers with
    | query hsubmits' hcore' hquery' hrest' => exact (hexclusive hsubmits' hcore' hquery' h).elim
    | nothing h' hrest' => exact ih hrest'

/-! ## One gesture -/

/-- What a gesture in the header makes the client do: a submission submits what the search input
holds, and all else is not logged. Only the Enter key in the search input is kept from the browser. -/
theorem respond_header {gesture : Gesture} (h : gesture.target ∈ header.targets) (query : String) :
    let response := gesture.target.listener.respond query gesture.event
    (response.prevented = true ↔ gesture.Enters) ∧
      (gesture.Submits → response.action = submitQuery recordSearch query) ∧
      (¬gesture.Submits → response.action.entries = []) := by
  obtain ⟨target, text, event⟩ := gesture
  rw [targets_header, List.mem_cons, List.mem_cons] at h
  rcases h with rfl | rfl | h
  · -- the search button waits for clicks
    cases event with
    | click click => simp [searchButton, Listener.respond, Gesture.Enters, Gesture.Submits]
    | key name =>
      simp [searchButton, Listener.respond, Response.ignored, Gesture.Enters, Gesture.Submits,
        Action.entries]
  · -- the search input waits for one key
    cases event with
    | click click =>
      simp [searchInput, Listener.respond, Response.ignored, Gesture.Enters, Gesture.Submits,
        Action.entries]
    | key name =>
      by_cases hname : name = "Enter"
      · simp [searchInput, Listener.respond, Gesture.Enters, Gesture.Submits, hname]
      · simp [searchInput, Listener.respond, Response.ignored, Gesture.Enters, Gesture.Submits,
          Action.entries, hname]
  · obtain ⟨name, action, rfl, hname, hentries⟩ := exists_press_of_mem_otherButtons h
    cases event with
    | click click => simp [Listener.respond, Gesture.Enters, Gesture.Submits, hname, hentries]
    | key key =>
      simp [Listener.respond, Response.ignored, Gesture.Enters, Gesture.Submits, Action.entries]

/-- The entry for a query. -/
def searchEntry (query : String) : Log.Entry := ⟨.info, s!"search requested: {query}"⟩

theorem log_take (page : Page) (gesture : Gesture) :
    (page.take gesture).app.log = page.app.log ++
      (gesture.target.listener.respond (gesture.held page.searchText)
        gesture.event).action.entries := by
  simp only [take, send, Gesture.held, App.log_step_event]

/-- A gesture in the header logs the query that it submits, or nothing. -/
theorem log_take_header (page : Page) {gesture : Gesture} (h : gesture.target ∈ header.targets) :
    (∃ query, gesture.Submits ∧ Text.IsCore (gesture.held page.searchText) query ∧ query ≠ "" ∧
      (page.take gesture).app.log = page.app.log ++ [searchEntry query]) ∨
    ((¬gesture.Submits ∨ Text.Blank (gesture.held page.searchText).toList) ∧
      (page.take gesture).app.log = page.app.log) := by
  obtain ⟨-, hsubmitted, hother⟩ := respond_header h (gesture.held page.searchText)
  rw [log_take]
  by_cases hsubmits : gesture.Submits
  · rw [hsubmitted hsubmits, submitQuery]
    by_cases hempty : Text.trim (gesture.held page.searchText) = ""
    · refine .inr ⟨.inr (Text.trim_eq_empty_iff.1 hempty), ?_⟩
      rw [if_pos hempty]
      exact List.append_nil _
    · refine .inl ⟨_, hsubmits, Text.isCore_trim _, hempty, ?_⟩
      rw [if_neg hempty]
      rfl
  · refine .inr ⟨.inl hsubmits, ?_⟩
    rw [hother hsubmits, List.append_nil]

/-! ## A whole session -/

/-- The log grows by the queries that are submitted. -/
theorem exists_submitted (page : Page) {session : List Gesture}
    (hsession : ∀ gesture ∈ session, gesture.target ∈ header.targets) :
    ∃ queries, Submitted page.searchText session queries ∧
      (page.play session).app.log = page.app.log ++ queries.map searchEntry := by
  induction session generalizing page with
  | nil => exact ⟨[], .done _, (List.append_nil _).symm⟩
  | cons gesture rest ih =>
    rw [List.forall_mem_cons] at hsession
    obtain ⟨queries, hrest, hlog⟩ := ih (page.take gesture) hsession.2
    rw [play, List.foldl_cons, ← play, hlog]
    rcases page.log_take_header hsession.1 with
      ⟨query, hsubmits, hcore, hquery, hone⟩ | ⟨hnothing, hnone⟩
    · refine ⟨query :: queries, .query hsubmits hcore hquery hrest, ?_⟩
      rw [hone, List.append_assoc, List.map_cons, List.singleton_append]
    · exact ⟨queries, .nothing hnothing hrest, by rw [hnone]⟩

/-- **Searches in the log.** In every session of gestures in the header the log gets the submitted
queries, in their order and each of them once, and nothing else; it is determined which queries these
are. The browser's own reaction is prevented at the Enter key in the search input only. -/
theorem searches_logged (app : App) {session : List Gesture}
    (hsession : ∀ gesture ∈ session, gesture.target ∈ (ofPart app .header).targets) :
    let page : Page := ofPart app .header
    (∃ queries, (∀ others, Submitted "" session others ↔ others = queries) ∧
      (page.play session).app.log = app.log ++ queries.map searchEntry) ∧
    ∀ before gesture after, session = before ++ gesture :: after →
      (((page.play before).send gesture.target gesture.text gesture.event).2.prevented = true ↔
        gesture.Enters) := by
  intro page
  constructor
  · obtain ⟨queries, hsubmitted, hlog⟩ := page.exists_submitted hsession
    refine ⟨queries, fun others => ⟨fun h => h.unique hsubmitted, ?_⟩, ?_⟩
    · rintro rfl
      exact hsubmitted
    · have hstart : page.app.log = app.log := List.append_nil app.log
      rw [hlog, hstart]
  · rintro before gesture after rfl
    have htarget : gesture.target ∈ header.targets :=
      hsession gesture (List.mem_append_right before List.mem_cons_self)
    exact (respond_header htarget _).1

/-- A query between an ideographic and a no-break space is submitted by both ways and logged twice;
then the input is cleared but for an em space, filled again, and submitted from another page. -/
theorem searches_logged_wide_blanks :
    let click : Event := .click ⟨0, false, false, false, false⟩
    let settings : Target := ⟨"button", "Settings", .press (.navigate Route.settings.toPath)⟩
    let session : List Gesture := [⟨searchInput, some "\u3000two cats\u00a0", .key "Enter"⟩,
      ⟨searchButton, none, click⟩, ⟨searchInput, some "\u2003\t", .key "Enter"⟩,
      ⟨searchInput, some "dogs\n", .key "s"⟩, ⟨settings, none, click⟩, ⟨searchButton, none, click⟩]
    let page : Page := ofPart (App.start (.fresh "/")) .header
    (∀ gesture ∈ session, gesture.target ∈ page.targets) ∧
      (page.play session).app.log = [⟨.info, "search requested: two cats"⟩,
        ⟨.info, "search requested: two cats"⟩, ⟨.info, "search requested: dogs"⟩] ∧
      ((page.play (session.take 2)).send searchInput (some "\u2003\t") (.key "Enter")).2.prevented =
        true := by
  intro click settings session page
  have hsession : ∀ gesture ∈ session, gesture.target ∈ page.targets := by
    have htargets : page.targets = searchButton :: searchInput :: otherButtons := targets_header
    simp [session, settings, htargets, otherButtons]
  obtain ⟨⟨queries, hqueries, hlog⟩, hprevented⟩ := searches_logged (App.start (.fresh "/")) hsession
  have henter {text : Option String} : (⟨searchInput, text, .key "Enter"⟩ : Gesture).Submits :=
    .inl ⟨rfl, rfl, rfl⟩
  have hbutton {text : Option String} : (⟨searchButton, text, click⟩ : Gesture).Submits :=
    .inr ⟨rfl, rfl, _, rfl⟩
  have hcore {text query : String} (h : Text.trim text = query) : Text.IsCore text query :=
    Text.trim_eq_iff.1 h
  have hsubmitted : Submitted "" session ["two cats", "two cats", "dogs"] := by
    refine .query henter (hcore (by decide)) (by decide) ?_
    refine .query hbutton (hcore (by decide)) (by decide) ?_
    refine .nothing (.inr (Text.trim_eq_empty_iff.1 (by decide))) ?_
    refine .nothing (.inl (by simp [Gesture.Submits, Gesture.Enters, searchInput])) ?_
    refine .nothing (.inl (by simp [Gesture.Submits, Gesture.Enters, settings])) ?_
    exact .query hbutton (hcore (by decide)) (by decide) (.done _)
  rw [← (hqueries _).1 hsubmitted] at hlog
  refine ⟨hsession, hlog, ?_⟩
  exact (hprevented _ ⟨searchInput, some "\u2003\t", .key "Enter"⟩ _ rfl).2 ⟨rfl, rfl, rfl⟩

end Page

end DriveClient
