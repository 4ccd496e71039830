/-!
# Log entries

Messages for the console, each with a severity. Only messages at least as severe as the threshold
are kept. A computation that may log carries its entries beside its value.
-/

namespace DriveClient

namespace Log

/-- Severity of a message, the most severe first. -/
inductive Level where
  | error
  | warn
  | info
  | debug
deriving DecidableEq, Repr

/-- Place of a level in the order of severity. -/
def Level.verbosity : Level → Nat
  | .error => 0
  | .warn => 1
  | .info => 2
  | .debug => 3

/-- The word for a level. -/
def Level.name : Level → String
  | .error => "error"
  | .warn => "warn"
  | .info => "info"
  | .debug => "debug"

/-- The most verbose level that is kept. -/
def threshold : Level := .info

/-- Whether messages at a level are kept. -/
def Level.enabled (level : Level) : Bool := level.verbosity ≤ threshold.verbosity

/-- A message that was kept. -/
structure Entry where
  level : Level
  message : String
deriving DecidableEq, Repr

/-- The entries that logging one message adds: itself, or nothing when its level is too verbose. -/
def entries (level : Level) (message : String) : List Entry :=
  if level.enabled then [⟨level, message⟩] else []

end Log

/-- A value together with what was logged while it was made. -/
structure Logged (α : Type) where
  value : α
  log : List Log.Entry
deriving DecidableEq

namespace Logged

/-- Logs one message. -/
def tell (level : Log.Level) (message : String) : Logged Unit := ⟨(), Log.entries level message⟩

instance : Monad Logged where
  pure a := ⟨a, []⟩
  bind x f := ⟨(f x.value).value, x.log ++ (f x.value).log⟩

@[simp] theorem value_pure {α : Type} (a : α) : (pure a : Logged α).value = a := rfl

@[simp] theorem log_pure {α : Type} (a : α) : (pure a : Logged α).log = [] := rfl

@[simp] theorem value_bind {α β : Type} (x : Logged α) (f : α → Logged β) :
    (x >>= f).value = (f x.value).value := rfl

@[simp] theorem log_bind {α β : Type} (x : Logged α) (f : α → Logged β) :
    (x >>= f).log = x.log ++ (f x.value).log := rfl

end Logged

end DriveClient
