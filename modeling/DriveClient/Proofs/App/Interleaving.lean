import DriveClient.Proofs.App.Figures

/-!
# Events while the usage is loaded

A client asks for a report once and goes on. The end of the request comes some time later, with any
number of events before it, and each of the two changes the client behind the other's back.

They meet in nothing. Navigation changes the whereabouts of a client, which the load leaves alone
(`whereabouts_advance`). The load changes the figures, which events leave alone, and finds them at its
end as they were at the start (`Stands`). So the whereabouts at the end are those of the events by
themselves, and the figures those of the load by itself (`load_independent`), whatever happens while the
client is in use (`loaded_in_use`).
-/

namespace DriveClient

/-! ## Turns -/

namespace App

/-- How far the load of the usage has come: it is still to be asked for, or asked for with an answer
that is on its way or never comes, or ended. -/
inductive Load where
  | due
  | waiting (answer : Option (Except Fetch.Failure Report))
  | ended

/-- How many turns the load still has a use for. -/
def Load.left : Load → Nat
  | .due => 2
  | .waiting (some _) => 1
  | .waiting none => 0
  | .ended => 0

/-- Whose turn it is: something else happens, or the load goes on. -/
inductive Turn where
  | event (occurrence : Occurrence)
  | load

/-- The occurrence of a turn, if it is not one of the load. -/
def Turn.occurrence? : Turn → Option Occurrence
  | .event occurrence => some occurrence
  | .load => none

/-- The occurrences among some turns. -/
def events (turns : List Turn) : List Occurrence := turns.filterMap Turn.occurrence?

/-- How many of some turns are the load's. -/
def loads (turns : List Turn) : Nat := turns.countP fun turn => turn.occurrence?.isNone

theorem events_cons_event (occurrence : Occurrence) (rest : List Turn) :
    events (.event occurrence :: rest) = occurrence :: events rest := rfl

theorem events_cons_load (rest : List Turn) : events (.load :: rest) = events rest := rfl

theorem loads_cons_event (occurrence : Occurrence) (rest : List Turn) :
    loads (.event occurrence :: rest) = loads rest :=
  List.countP_cons_of_neg Bool.false_ne_true

theorem loads_cons_load (rest : List Turn) : loads (.load :: rest) = loads rest + 1 :=
  List.countP_cons_of_pos rfl

/-- A client with its load of the usage. -/
structure Loading where
  app : App
  load : Load

namespace Loading

/-- The load goes on: the request is made, or its end is taken up if it has one. -/
def advance (script : Fetch.Script) : Loading → Loading
  | ⟨app, .due⟩ => ⟨app.request script, .waiting (app.answer script)⟩
  | ⟨app, .waiting (some outcome)⟩ => ⟨app.step (.usage outcome), .ended⟩
  | ⟨app, .waiting none⟩ => ⟨app, .waiting none⟩
  | ⟨app, .ended⟩ => ⟨app, .ended⟩

/-- One turn. -/
def turn (script : Fetch.Script) (now : Loading) : Turn → Loading
  | .event occurrence => { now with app := now.app.step occurrence }
  | .load => now.advance script

/-- One turn after the other. -/
def run (script : Fetch.Script) (now : Loading) (turns : List Turn) : Loading :=
  turns.foldl (turn script) now

theorem run_cons (script : Fetch.Script) (now : Loading) (first : Turn) (rest : List Turn) :
    now.run script (first :: rest) = (now.turn script first).run script rest := by
  rw [run, run, List.foldl_cons]

theorem left_advance (script : Fetch.Script) (now : Loading) :
    (now.advance script).load.left ≤ now.load.left - 1 := by
  obtain ⟨app, load⟩ := now
  cases load with
  | due =>
    rw [advance]
    cases app.answer script with
    | none => exact Nat.zero_le 1
    | some outcome => exact Nat.le_refl 1
  | waiting answer =>
    cases answer with
    | none | some outcome => exact Nat.le_refl 0
  | ended => exact Nat.le_refl 0

/-- Each turn of the load takes one off what the load still has a use for. -/
theorem left_run (script : Fetch.Script) (now : Loading) (turns : List Turn) :
    (now.run script turns).load.left ≤ now.load.left - loads turns := by
  induction turns generalizing now with
  | nil => exact Nat.le_refl _
  | cons first rest ih =>
    rw [run_cons]
    refine (ih _).trans ?_
    cases first with
    | event occurrence => rw [turn, loads_cons_event]
    | load =>
      have hadvance := now.left_advance script
      rw [turn, loads_cons_load]
      omega

/-- Two turns without any event are a load from its beginning to its end. -/
theorem run_load_load (script : Fetch.Script) (app : App) :
    ((⟨app, .due⟩ : Loading).run script [.load, .load]).app = app.loadUsage script := by
  have hroute : ∀ (app : App) outcome, (app.settleUsage outcome).route = app.route := by
    intro app outcome
    rw [App.route, App.route, ← location_whereabouts, whereabouts_settleUsage,
      location_whereabouts]
  rw [run_cons, run_cons, run, List.foldl_nil, turn, turn, advance, loadUsage_eq]
  cases app.answer script with
  | none => rw [advance, Option.elim_none]
  | some outcome =>
    rw [advance, step, apply, followTitle, if_pos (hroute _ _), Option.elim_some]

/-! ## The events by themselves -/

/-- The load leaves the whereabouts alone. -/
theorem whereabouts_advance (script : Fetch.Script) (now : Loading) :
    (now.advance script).app.whereabouts = now.app.whereabouts := by
  obtain ⟨app, load⟩ := now
  cases load with
  | due => exact app.whereabouts_request script
  | waiting answer =>
    cases answer with
    | none => rfl
    | some outcome => rw [advance, whereabouts_step, Occurrence.target?, Whereabouts.follow]
  | ended => rfl

/-- The whereabouts are those of the events without any load. -/
theorem whereabouts_run (script : Fetch.Script) (now : Loading) (turns : List Turn) :
    (now.run script turns).app.whereabouts = (now.app.run (events turns)).whereabouts := by
  rw [App.whereabouts_run]
  induction turns generalizing now with
  | nil => rfl
  | cons first rest ih =>
    rw [run_cons, ih]
    cases first with
    | event occurrence =>
      rw [turn, whereabouts_step, events_cons_event, List.map_cons, List.foldl_cons]
    | load => rw [turn, whereabouts_advance, events_cons_load]

/-! ## The load by itself -/

/-- How the figures stand while the load of a client that began as `start` is under way: as they were
until it is over, if it ever is, and then as its outcome leaves them. -/
inductive Stands (start : App) (script : Fetch.Script) : Loading → Prop
  | due {app : App} (h : app.figures = start.figures) : Stands start script ⟨app, .due⟩
  | waiting {app : App} (h : app.figures = start.figures) :
    Stands start script ⟨app, .waiting (start.answer script)⟩
  | ended {app : App} {outcome : Except Fetch.Failure Report}
      (hanswer : start.answer script = some outcome)
      (h : app.figures = start.figures.settle outcome) : Stands start script ⟨app, .ended⟩

namespace Stands

variable {start : App} {script : Fetch.Script} {now : Loading}

/-- Quiet occurrences do not touch the figures. -/
theorem event (h : Stands start script now) {occurrence : Occurrence}
    (hquiet : occurrence.isQuiet = true) :
    Stands start script (now.turn script (.event occurrence)) := by
  have hstep := now.app.figures_step hquiet
  cases h with
  | due h => exact .due (hstep.trans h)
  | waiting h => exact .waiting (hstep.trans h)
  | ended hanswer h => exact .ended hanswer (hstep.trans h)

/-- The load goes on as it would have without the events: the request is answered as at the start, and
its end finds the figures of the start. -/
theorem advance (h : Stands start script now) : Stands start script (now.advance script) := by
  cases h with
  | @due app h =>
    rw [Loading.advance, answer_congr h]
    exact .waiting ((app.figures_request script).trans h)
  | @waiting app h =>
    cases hanswer : start.answer script with
    | none =>
      rw [Loading.advance, ← hanswer]
      exact .waiting h
    | some outcome =>
      refine .ended hanswer ?_
      rw [step, figures_followTitle, apply, figures_settleUsage, h]
  | ended hanswer h => exact .ended hanswer h

/-- The figures stand as they should after any turns with quiet occurrences. -/
theorem run (h : Stands start script now) {turns : List Turn}
    (hquiet : ∀ occurrence ∈ events turns, occurrence.isQuiet = true) :
    Stands start script (now.run script turns) := by
  induction turns generalizing now with
  | nil => exact h
  | cons first rest ih =>
    rw [Loading.run_cons]
    cases first with
    | event occurrence =>
      rw [events_cons_event, List.forall_mem_cons] at hquiet
      exact ih (h.event hquiet.1) hquiet.2
    | load => exact ih h.advance hquiet

/-- Once the load has no use for a turn any more, the figures are those of a load without any
events. -/
theorem figures_of_left_eq_zero (h : Stands start script now) (hleft : now.load.left = 0) :
    now.app.figures = (start.loadUsage script).figures := by
  rw [figures_loadUsage]
  cases h with
  | due => exact absurd hleft (Nat.succ_ne_zero 1)
  | waiting h =>
    cases hanswer : start.answer script with
    | none => exact h
    | some outcome =>
      rw [hanswer] at hleft
      exact absurd hleft Nat.one_ne_zero
  | ended hanswer h => rw [hanswer, Option.elim_some, h]

end Stands

end Loading

/-- When the load has had its two turns, its figures are those of a load by itself, as far as what
happens meanwhile is quiet. -/
theorem figures_loaded (app : App) (script : Fetch.Script) {turns : List Turn}
    (hloads : 2 ≤ loads turns)
    (hquiet : ∀ occurrence ∈ events turns, occurrence.isQuiet = true) :
    (Loading.run script ⟨app, .due⟩ turns).app.figures = (app.loadUsage script).figures := by
  have hstart : Loading.Stands app script ⟨app, .due⟩ := .due rfl
  have hleft := Loading.left_run script ⟨app, .due⟩ turns
  rw [Load.left, Nat.sub_eq_zero_of_le hloads, Nat.le_zero] at hleft
  exact (hstart.run hquiet).figures_of_left_eq_zero hleft

/-- **Load and events do not interfere.** Whatever happens to a client while it loads the usage, and
whichever turns the load gets for it: location, page and history are those of the events without any
load. And once the load has had its two turns, usage and warnings are those of the load without any
events, and so is what is logged while the screen is drawn; for this the events must be quiet, as
navigation and all that a user does on the screen are. -/
theorem load_independent (app : App) (script : Fetch.Script) (turns : List Turn) :
    let client := (Loading.run script ⟨app, .due⟩ turns).app
    let walked := app.run (events turns)
    let loaded := app.loadUsage script
    (client.location = walked.location ∧ client.route = walked.route ∧
      client.browser.pushed = walked.browser.pushed) ∧
    (2 ≤ loads turns → (∀ occurrence ∈ events turns, occurrence.isQuiet = true) →
      client.usage = loaded.usage ∧ client.warnings = loaded.warnings ∧
        ∀ part, (client.part part).log = (loaded.part part).log) := by
  intro client walked loaded
  have hwhereabouts : client.whereabouts = walked.whereabouts :=
    Loading.whereabouts_run script ⟨app, .due⟩ turns
  constructor
  · have hlocation : client.location = walked.location :=
      congrArg Whereabouts.location hwhereabouts
    refine ⟨hlocation, ?_, congrArg Whereabouts.pushed hwhereabouts⟩
    rw [App.route, hlocation, ← App.route]
  · intro hloads hquiet
    have hfigures : client.figures = loaded.figures := figures_loaded app script hloads hquiet
    exact ⟨congrArg Figures.usage hfigures, congrArg Figures.warnings hfigures,
      log_part_congr hfigures⟩

/-- The request is made after one event and answered after another; its body cannot be read. The
client has gone all the way, and has warned once. -/
theorem load_independent_unreadable :
    let click : View.Event := .click ⟨0, false, false, false, false⟩
    let turns : List Turn := [.event (.visit "/trash"), .load,
      .event (.event (.link "/recent") "" click), .load, .event (.goTo .settings)]
    let script : Fetch.Script := ⟨false, some (40, .resolved (.response 200 .throws))⟩
    let client := (Loading.run script ⟨start (.fresh "/"), .due⟩ turns).app
    client.location = "/settings" ∧
      client.browser.pushed = ["/trash", "/recent", "/settings"] ∧
      client.usage = .initial ∧
      client.warnings = [⟨.warn, "storage usage unavailable: Failed to read response"⟩] := by
  intro click turns script client
  obtain ⟨⟨hlocation, -, hpushed⟩, hload⟩ := load_independent (start (.fresh "/")) script turns
  obtain ⟨husage, hwarnings, -⟩ := hload (by decide) (by decide)
  have hclient : (Loading.run script ⟨start (.fresh "/"), .due⟩ turns).app = client := rfl
  rw [hclient] at hlocation hpushed husage hwarnings
  -- without its value the client is not computed
  clear_value client
  rw [hlocation, hpushed, husage, hwarnings]
  decide +kernel

/-- Nothing that happens while the client is in use disturbs the load: neither a navigation nor anything
that a user does on a screen, the screen of an error included. -/
theorem loaded_in_use (app : App) (script : Fetch.Script) {turns : List Turn}
    (hloads : 2 ≤ loads turns) (huse : ∀ occurrence ∈ events turns, occurrence.InUse) :
    let client := (Loading.run script ⟨app, .due⟩ turns).app
    let loaded := app.loadUsage script
    client.usage = loaded.usage ∧ client.warnings = loaded.warnings ∧
      ∀ part, (client.part part).log = (loaded.part part).log := by
  intro client loaded
  have hfigures : client.figures = loaded.figures :=
    figures_loaded app script hloads fun occurrence h => (huse occurrence h).isQuiet
  exact ⟨congrArg Figures.usage hfigures, congrArg Figures.warnings hfigures,
    log_part_congr hfigures⟩

end App

end DriveClient
