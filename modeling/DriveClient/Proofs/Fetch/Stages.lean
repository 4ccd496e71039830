import DriveClient.Fetch

/-!
# Stages of a request

A request passes nine stages. What makes a stage fail is said for each stage by itself, whatever the
others do (`Stage.failure?`): a late response with an error status fails at the timer and at the
status. The outcome of the request is then the failure of the first stage that fails, and the report
in the body if none does; only the reading of the body may go on for ever (`decides_run`).

All of this is about requests that never resolve with `undefined`. One that does so is taken for the
timer, and ends like one that never settles (`run_undefined`).
-/

namespace DriveClient.Fetch

/-- The stages of a request, in order. -/
inductive Stage where
  | window
  | creation
  | timer
  | rejection
  | cast
  | status
  | reading
  | content
  | document
deriving DecidableEq

/-- The stages that a settled request passes. -/
def Stage.later : List Stage := [.rejection, .cast, .status, .reading, .content, .document]

/-- All stages, in order. -/
def Stage.all : List Stage := .window :: .creation :: .timer :: later

/-- Why a stage fails, if it does, whatever the other stages do. -/
def Stage.failure? (browser : Browser) (script : Script) (timeout : Int) (stage : Stage) :
    Option Failure :=
  match stage, script.settles with
  | .window, _ => if browser.hasWindow then none else some .noWindow
  | .creation, _ => if script.refused then some .requestRefused else none
  | .timer, none => some .timeout
  | .timer, some (delay, _) => if (delay : Int) ≤ max timeout 0 then none else some .timeout
  | .rejection, some (_, .rejected (.error message)) => some (.network message)
  | .rejection, some (_, .rejected (.text message)) => some (.network message)
  | .rejection, some (_, .rejected .nothing) => some (.network "request failed")
  | .cast, some (_, .resolved .undefined) => some .badContent
  | .cast, some (_, .resolved .other) => some .badContent
  | .status, some (_, .resolved (.response code _)) =>
    if 200 ≤ code ∧ code ≤ 299 then none else some (.status code)
  | .reading, some (_, .resolved (.response _ .throws)) => some .unreadable
  | .reading, some (_, .resolved (.response _ .rejected)) => some .unreadable
  | .content, some (_, .resolved (.response _ .notText)) => some .badContent
  | .document, some (_, .resolved (.response _ (.text written))) =>
    match Report.read written with
    | .ok _ => none
    | .error refusal => some (.badDocument refusal.message)
  | _, _ => none

/-- The failure of the first stage that fails. -/
def firstFailure? (browser : Browser) (script : Script) (timeout : Int) : Option Failure :=
  Stage.all.findSome? (Stage.failure? browser script timeout)

/-- An outcome is what the first failure says. It is this failure; when there is none, it is the
report in the body of the response, or the body is waited for and there is no outcome. -/
def Decides (first : Option Failure) (script : Script)
    (outcome : Option (Except Failure Report)) : Prop :=
  match first with
  | some failure => outcome = some (.error failure)
  | none => ∃ delay code body, script.settles = some (delay, .resolved (.response code body)) ∧
      ((body = .pending ∧ outcome = none) ∨
        ∃ written report, body = .text written ∧ Report.read written = .ok report ∧
          outcome = some (.ok report))

/-! ## After the timer -/

theorem report_rejected (reason : Rejection) :
    (Settlement.rejected reason).report = some (.error (.network reason.message)) := rfl

theorem report_other : (Settlement.resolved .other).report = some (.error .badContent) := rfl

theorem report_undefined : (Settlement.resolved .undefined).report = some (.error .timeout) := rfl

theorem report_response_of_not {code : Nat} (h : ¬(200 ≤ code ∧ code ≤ 299)) (body : Body) :
    (Settlement.resolved (.response code body)).report = some (.error (.status code)) := by
  have hbody : (valueOf (.resolved (.response code body))).bind bodyOf = .error (.status code) := by
    rw [valueOf, Except.bind, bodyOf, if_neg h]
    nofun
  rw [Settlement.report, hbody]

theorem report_response {code : Nat} (h : 200 ≤ code ∧ code ≤ 299) (body : Body) :
    (Settlement.resolved (.response code body)).report =
      (textOf body).map fun content => content.bind reportOf := by
  have hbody : (valueOf (.resolved (.response code body))).bind bodyOf = .ok body := by
    rw [valueOf, Except.bind, bodyOf, if_pos h]
    nofun
  rw [Settlement.report, hbody]

/-- Once there is a response that reports success, its body decides. -/
theorem decides_body (browser : Browser) {script : Script} (timeout : Int) {delay code : Nat}
    {body : Body} (h : script.settles = some (delay, .resolved (.response code body)))
    (hcode : 200 ≤ code ∧ code ≤ 299) :
    Decides (Stage.later.findSome? (Stage.failure? browser script timeout)) script
      (Settlement.resolved (.response code body)).report := by
  rw [report_response hcode, Stage.later]
  cases body with
  | throws =>
    simp only [List.findSome?_cons, Stage.failure?, h, if_pos hcode]
    rfl
  | rejected =>
    simp only [List.findSome?_cons, Stage.failure?, h, if_pos hcode]
    rfl
  | notText =>
    simp only [List.findSome?_cons, Stage.failure?, h, if_pos hcode]
    rfl
  | pending =>
    simp only [List.findSome?_cons, List.findSome?_nil, Stage.failure?, h, if_pos hcode]
    exact ⟨delay, code, .pending, h, .inl ⟨rfl, rfl⟩⟩
  | text written =>
    have hreport : (textOf (.text written)).map (fun content => content.bind reportOf) =
        some (reportOf written) := rfl
    rw [hreport, reportOf]
    simp only [List.findSome?_cons, List.findSome?_nil, Stage.failure?, h, if_pos hcode]
    cases hread : Report.read written with
    | ok report =>
      exact ⟨delay, code, .text written, h, .inr ⟨written, report, rfl, hread, rfl⟩⟩
    | error refusal => rfl

theorem decides_later (browser : Browser) {script : Script} (hvalue : script.NeverUndefined)
    (timeout : Int) {delay : Nat} {settlement : Settlement}
    (h : script.settles = some (delay, settlement)) :
    Decides (Stage.later.findSome? (Stage.failure? browser script timeout)) script
      settlement.report := by
  cases settlement with
  | rejected reason =>
    have hfirst : Stage.failure? browser script timeout .rejection =
        some (.network reason.message) := by
      cases reason with
      | error message => simp only [Stage.failure?, h, Rejection.message]
      | text message => simp only [Stage.failure?, h, Rejection.message]
      | nothing => simp only [Stage.failure?, h, Rejection.message]
    rw [Stage.later, List.findSome?_cons, hfirst]
    exact report_rejected reason
  | resolved value =>
    cases value with
    | undefined => exact absurd h (hvalue delay)
    | other =>
      simp only [Stage.later, List.findSome?_cons, Stage.failure?, h]
      exact report_other
    | response code body =>
      by_cases hcode : 200 ≤ code ∧ code ≤ 299
      · exact decides_body browser timeout h hcode
      · rw [report_response_of_not hcode]
        simp only [Stage.later, List.findSome?_cons, Stage.failure?, h, if_neg hcode]
        rfl

/-! ## The race -/

theorem race_of_settled {script : Script} {delay : Nat} {settlement : Settlement}
    (h : script.settles = some (delay, settlement)) (timeout : Int) :
    (race script timeout).1 =
      if (delay : Int) ≤ max timeout 0 then settlement else .resolved .undefined := by
  have hdelay : delay ≤ timeout.toNat ↔ (delay : Int) ≤ max timeout 0 := by omega
  simp only [race, h, hdelay]
  split
  · rfl
  · rfl

theorem decides_raced (browser : Browser) {script : Script} (hvalue : script.NeverUndefined)
    (timeout : Int) :
    Decides ((Stage.timer :: Stage.later).findSome? (Stage.failure? browser script timeout)) script
      (race script timeout).1.report := by
  rw [List.findSome?_cons]
  cases hsettles : script.settles with
  | none =>
    have htimer : Stage.failure? browser script timeout .timer = some .timeout := by
      simp only [Stage.failure?, hsettles]
    rw [htimer, race, hsettles]
    exact report_undefined
  | some settled =>
    obtain ⟨delay, settlement⟩ := settled
    have htimer : Stage.failure? browser script timeout .timer =
        if (delay : Int) ≤ max timeout 0 then none else some .timeout := by
      simp only [Stage.failure?, hsettles]
    rw [htimer, race_of_settled hsettles]
    by_cases hdelay : (delay : Int) ≤ max timeout 0
    · rw [if_pos hdelay, if_pos hdelay]
      exact decides_later browser hvalue timeout hsettles
    · rw [if_neg hdelay, if_neg hdelay]
      exact report_undefined

/-! ## The whole request -/

variable (browser : Browser) (url : String) (timeout : Int)

/-- The first stage that fails decides the outcome. If none does, then the request has settled with
a response. Either its body is a report, and the outcome is this report, or the body never comes. -/
theorem decides_run {script : Script} (hvalue : script.NeverUndefined) :
    Decides (firstFailure? browser script timeout) script
      (run browser script url timeout).outcome := by
  -- window and creation are looked at before anything is sent
  have hwindow : Stage.failure? browser script timeout .window =
      if browser.hasWindow then none else some .noWindow := by
    rw [Stage.failure?]
  have hcreation : Stage.failure? browser script timeout .creation =
      if script.refused then some .requestRefused else none := by
    rw [Stage.failure?]
  rw [firstFailure?, Stage.all, List.findSome?_cons, List.findSome?_cons, hwindow, hcreation, run]
  cases browser.hasWindow with
  | false => rfl
  | true =>
    cases script.refused with
    | true => rfl
    | false => exact decides_raced browser hvalue timeout

/-- A late response counts as none, whatever its status and its body. -/
example :
    firstFailure? (.fresh "/") ⟨false, some (20000, .resolved (.response 404 .throws))⟩ 10000 =
      some .timeout := by decide

/-! ## Requests that resolve with `undefined` -/

/-- Such a request loses the race to the timer, in time or not. -/
theorem race_undefined {script : Script} {delay : Nat}
    (h : script.settles = some (delay, .resolved .undefined)) :
    (race script timeout).1 = .resolved .undefined := by
  rw [race_of_settled h, ite_self]

/-- It ends like one that never settles, and leaves the same browser. -/
theorem run_undefined {script : Script} {delay : Nat}
    (h : script.settles = some (delay, .resolved .undefined)) :
    (run browser script url timeout).outcome =
        (run browser { script with settles := none } url timeout).outcome ∧
      (run browser script url timeout).browser =
        (run browser { script with settles := none } url timeout).browser := by
  have hnever : (race { script with settles := none } timeout).1 = .resolved .undefined := rfl
  rw [run, run, race_undefined timeout h, hnever]
  split
  · exact ⟨rfl, rfl⟩
  split
  · exact ⟨rfl, rfl⟩
  · exact ⟨rfl, rfl⟩

end DriveClient.Fetch
