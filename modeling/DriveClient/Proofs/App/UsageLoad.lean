import DriveClient.App.State
import DriveClient.Proofs.Fetch.Stages

/-!
# Loading the usage

The client asks for a report once. A failure leaves the usage as it was and is put on record with
one warning; a report replaces the usage and leaves no trace in the log; a body that never comes
changes nothing. Which of these happens, and which failure it is, is decided by the first stage of
the request that fails (`loadUsage_outcome`).
-/

namespace DriveClient.App

variable {script : Fetch.Script}

theorem loadUsage_of_error (app : App) {failure : Fetch.Failure}
    (h : (Fetch.run app.browser script usageUrl fetchTimeout).outcome = some (.error failure)) :
    (app.loadUsage script).usage = app.usage ∧
      (app.loadUsage script).log =
        app.log ++ [⟨.warn, s!"storage usage unavailable: {failure.message}"⟩] := by
  rw [loadUsage, h]
  exact ⟨rfl, rfl⟩

theorem loadUsage_of_ok (app : App) {report : Report}
    (h : (Fetch.run app.browser script usageUrl fetchTimeout).outcome = some (.ok report)) :
    (app.loadUsage script).usage = report.usage ∧ (app.loadUsage script).log = app.log := by
  rw [loadUsage, h]
  exact ⟨rfl, rfl⟩

theorem loadUsage_of_none (app : App)
    (h : (Fetch.run app.browser script usageUrl fetchTimeout).outcome = none) :
    (app.loadUsage script).usage = app.usage ∧ (app.loadUsage script).log = app.log := by
  rw [loadUsage, h]
  exact ⟨rfl, rfl⟩

/-- A request that resolves with `undefined` leaves the client as one that never settles. -/
theorem loadUsage_undefined (app : App) {delay : Nat}
    (h : script.settles = some (delay, .resolved .undefined)) :
    app.loadUsage script = app.loadUsage { script with settles := none } := by
  obtain ⟨houtcome, hbrowser⟩ := Fetch.run_undefined app.browser usageUrl fetchTimeout h
  rw [loadUsage, loadUsage, houtcome, hbrowser]

/-- **The first failing stage decides.** For every browser and every course of a request, on the
understanding that a fetch does not resolve with `undefined`: if some stage fails, then the first one
that does gives the failure, the usage is still the initial one, and the log is one warning that names
the failure. Otherwise there is a response, and nothing is logged. Its body is a report: one in display
units is the usage then, and one of two counts of bytes gives the usage of these counts. Or the body
never comes, and the usage stays as it was.

A request that does resolve with `undefined` ends like one that never settles, and leaves the same
client. -/
theorem loadUsage_outcome (browser : Browser) (script : Fetch.Script) :
    let loaded := (start browser).loadUsage script
    let outcome := (Fetch.run browser script usageUrl fetchTimeout).outcome
    let first := Fetch.firstFailure? browser script fetchTimeout
    (script.NeverUndefined →
      (∀ failure, first = some failure →
        outcome = some (.error failure) ∧ loaded.usage = Usage.initial ∧
          loaded.log = [⟨.warn, s!"storage usage unavailable: {failure.message}"⟩]) ∧
      (first = none → ∃ delay code body,
        script.settles = some (delay, .resolved (.response code body)) ∧ loaded.log = [] ∧
          ((∃ written report, body = .text written ∧ Report.read written = .ok report ∧
              outcome = some (.ok report) ∧
              (∀ usage, report = .units usage → loaded.usage = usage) ∧
              ∀ used total, report = .bytes used total →
                loaded.usage = Usage.ofBytes used.toNat total.toNat) ∨
            (body = .pending ∧ outcome = none ∧ loaded.usage = Usage.initial)))) ∧
    (∀ delay, script.settles = some (delay, .resolved .undefined) →
      outcome = (Fetch.run browser ⟨script.refused, none⟩ usageUrl fetchTimeout).outcome ∧
        loaded = (start browser).loadUsage ⟨script.refused, none⟩) := by
  intro loaded outcome first
  constructor
  · intro hvalue
    have hdecides : Fetch.Decides first script outcome :=
      Fetch.decides_run browser usageUrl fetchTimeout hvalue
    constructor
    · intro failure hfirst
      rw [hfirst] at hdecides
      exact ⟨hdecides, loadUsage_of_error (start browser) hdecides⟩
    · intro hfirst
      rw [hfirst] at hdecides
      obtain ⟨delay, code, body, hsettles, hbody⟩ := hdecides
      rcases hbody with ⟨hpending, houtcome⟩ | ⟨written, report, htext, hread, houtcome⟩
      · obtain ⟨husage, hlog⟩ := loadUsage_of_none (start browser) houtcome
        exact ⟨delay, code, body, hsettles, hlog, .inr ⟨hpending, houtcome, husage⟩⟩
      · obtain ⟨husage, hlog⟩ := loadUsage_of_ok (start browser) houtcome
        refine ⟨delay, code, body, hsettles, hlog,
          .inl ⟨written, report, htext, hread, houtcome, ?_, ?_⟩⟩
        · rintro usage rfl
          exact husage
        · rintro used total rfl
          exact husage
  · intro delay hsettles
    exact ⟨(Fetch.run_undefined browser usageUrl fetchTimeout hsettles).1,
      loadUsage_undefined (start browser) hsettles⟩

/-- Two counts of bytes and a usage in display units, each in the body of a response, are taken up. A
request that resolves with `undefined` leaves the initial usage and one warning. -/
theorem loadUsage_outcome_both_forms :
    let client := start (.fresh "/")
    let counts := "\x7b\"used_bytes\":3,\"total_bytes\":4\x7d"
    let bytes : Fetch.Script := ⟨false, some (40, .resolved (.response 200 (.text counts)))⟩
    let list := "[1,2,\"GB\"]"
    let units : Fetch.Script := ⟨false, some (50, .resolved (.response 299 (.text list)))⟩
    let undefined : Fetch.Script := ⟨false, some (60, .resolved .undefined)⟩
    ((client.loadUsage bytes).usage = Usage.ofBytes 3 4 ∧ (client.loadUsage bytes).log = []) ∧
      ((client.loadUsage units).usage = ⟨.ofNat 1, .ofNat 2, "GB"⟩ ∧
        (client.loadUsage units).log = []) ∧
      (client.loadUsage undefined).usage = Usage.initial ∧
      (client.loadUsage undefined).log =
        [⟨.warn, "storage usage unavailable: Request timed out"⟩] := by
  intro client counts bytes list units undefined
  refine ⟨?_, ?_, ?_⟩
  · have hcounts : (Report.read counts).toOption = some (.bytes 3 4) := by decide +kernel
    have hload := (loadUsage_outcome (.fresh "/") bytes).1 nofun
    obtain ⟨delay, code, body, hsettles, hlog, hbody⟩ := hload.2 (by decide +kernel)
    cases hsettles
    rcases hbody with ⟨written, report, htext, hread, -, -, hbytes⟩ | ⟨hpending, -⟩
    · cases htext
      rw [hread] at hcounts
      exact ⟨hbytes 3 4 (Option.some.inj hcounts), hlog⟩
    · cases hpending
  · have hlist : (Report.read list).toOption = some (.units ⟨.ofNat 1, .ofNat 2, "GB"⟩) := by
      decide +kernel
    have hload := (loadUsage_outcome (.fresh "/") units).1 nofun
    obtain ⟨delay, code, body, hsettles, hlog, hbody⟩ := hload.2 (by decide +kernel)
    cases hsettles
    rcases hbody with ⟨written, report, htext, hread, -, hunits, -⟩ | ⟨hpending, -⟩
    · cases htext
      rw [hread] at hlist
      exact ⟨hunits _ (Option.some.inj hlist), hlog⟩
    · cases hpending
  · have hnever := (loadUsage_outcome (.fresh "/") ⟨false, none⟩).1 nofun
    obtain ⟨-, husage, hlog⟩ := hnever.1 .timeout (by decide +kernel)
    obtain ⟨-, hsame⟩ := (loadUsage_outcome (.fresh "/") undefined).2 60 rfl
    rw [hsame]
    exact ⟨husage, hlog⟩

end DriveClient.App
