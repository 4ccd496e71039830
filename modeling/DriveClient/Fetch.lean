import DriveClient.Browser
import DriveClient.Usage.Report

/-!
# Fetching a usage report

One request to the service, raced against a timer. A script says how the request turns out and
when; the first stage that fails decides the failure. The timer bounds the time until there is a
response, not the reading of its body.
-/

namespace DriveClient.Fetch

/-! ## How a request turns out -/

/-- What reading the body of a response gives. The reading has no timer, so it may give nothing
ever. -/
inductive Body where
  | text (content : String)
  | throws
  | rejected
  | notText
  | pending
deriving DecidableEq

/-- What a promise resolves with. -/
inductive Value where
  | undefined
  | response (status : Nat) (body : Body)
  | other
deriving DecidableEq

/-- What a failed request is rejected with. -/
inductive Rejection where
  | error (message : String)
  | text (message : String)
  | nothing
deriving DecidableEq

/-- How a promise settles. -/
inductive Settlement where
  | resolved (value : Value)
  | rejected (reason : Rejection)
deriving DecidableEq

/-- The course of a request: whether it can be made at all, and how it settles after how many
milliseconds, if ever. -/
structure Script where
  refused : Bool
  settles : Option (Nat × Settlement)
deriving DecidableEq

/-- The request never resolves with `undefined`, which is what the timer resolves with: the race is
told from its value on the understanding that a fetch never does. -/
def Script.NeverUndefined (script : Script) : Prop :=
  ∀ delay, script.settles ≠ some (delay, .resolved .undefined)

/-! ## Failures -/

/-- Why there is no report. -/
inductive Failure where
  | noWindow
  | requestRefused
  | network (message : String)
  | status (code : Nat)
  | unreadable
  | badContent
  | badDocument (message : String)
  | timeout
deriving DecidableEq

/-- A failure in words. -/
def Failure.message : Failure → String
  | .noWindow => "Browser window not available"
  | .requestRefused => "Failed to create request"
  | .network message => s!"Network error: {message}"
  | .status code => s!"HTTP error: {code}"
  | .unreadable => "Failed to read response"
  | .badContent => "Invalid response content"
  | .badDocument message => s!"JSON parse error: {message}"
  | .timeout => "Request timed out"

/-- The message of a rejection. -/
def Rejection.message : Rejection → String
  | .error message => message
  | .text message => message
  | .nothing => "request failed"

/-! ## Stages -/

/-- The race between the request and a timer of some milliseconds: which of the two settles first,
and when. The request wins a tie, a timer set to the past fires at once, and it resolves with
`undefined`. -/
def race (script : Script) (timeout : Int) : Settlement × Nat :=
  match script.settles with
  | some (delay, settlement) =>
    if delay ≤ timeout.toNat then (settlement, delay) else (.resolved .undefined, timeout.toNat)
  | none => (.resolved .undefined, timeout.toNat)

/-- The value that won the race. `undefined` stands for the timer, whoever it came from. -/
def valueOf : Settlement → Except Failure Value
  | .resolved .undefined => .error .timeout
  | .resolved value => .ok value
  | .rejected reason => .error (.network reason.message)

/-- The body of a response that reports success. -/
def bodyOf : Value → Except Failure Body
  | .response status body =>
    if 200 ≤ status ∧ status ≤ 299 then .ok body else .error (.status status)
  | _ => .error .badContent

/-- The text of a body, if the reading of it ends. -/
def textOf : Body → Option (Except Failure String)
  | .text content => some (.ok content)
  | .throws => some (.error .unreadable)
  | .rejected => some (.error .unreadable)
  | .notText => some (.error .badContent)
  | .pending => none

/-- The report in a text. -/
def reportOf (content : String) : Except Failure Report :=
  match Report.read content with
  | .ok report => .ok report
  | .error refusal => .error (.badDocument refusal.message)

/-- What the end of the race gives, if the body is ever read. -/
def Settlement.report (settlement : Settlement) : Option (Except Failure Report) :=
  match (valueOf settlement).bind bodyOf with
  | .error failure => some (.error failure)
  | .ok body => (textOf body).map fun content => content.bind reportOf

/-! ## The whole request -/

/-- The record of a request: it stays within the origin and passes by the cache. -/
def requestLine (url : String) : String := s!"GET {url} mode=SameOrigin cache=NoStore"

/-- How a request ended: the report or the failure unless it waits for its body for ever, the
browser after it, and the time until the race was decided. -/
structure Result where
  outcome : Option (Except Failure Report)
  browser : Browser
  clock : Nat

/-- Requests a report. Without a window nothing is asked, and a request that cannot be made leaves
no record. -/
def run (browser : Browser) (script : Script) (url : String) (timeout : Int) : Result :=
  if !browser.hasWindow then ⟨some (.error .noWindow), browser, 0⟩
  else if script.refused then ⟨some (.error .requestRefused), browser, 0⟩
  else
    ⟨(race script timeout).1.report,
      { browser with requests := browser.requests ++ [requestLine url] },
      (race script timeout).2⟩

end DriveClient.Fetch
