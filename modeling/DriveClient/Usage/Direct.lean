import DriveClient.Usage.Report

/-!
# Reading a usage directly

A usage in display units, read while the text is passed through and without a tree. Members with
other names are passed over. A value of the wrong kind, a member given twice or one that is
missing is found where it stands, so it may be reported before a later fault of the text.
-/

namespace DriveClient

namespace Usage

/-- Why direct reading stops: a fault of the text, or a text of another form. -/
inductive Stop where
  | faulty (stop : Json.Stop)
  | otherForm
deriving DecidableEq

/-- Takes a fault of the text for the reason to stop. -/
def orFaulty {α : Type} : Except Json.Stop α → Except Stop α
  | .ok a => .ok a
  | .error stop => .error (.faulty stop)

/-- Why a value of the wrong kind is refused. A list or an object is refused at once; any other
value is read first and may be faulty itself. -/
def wrongKind (text : List Char) : Stop :=
  match text.head? with
  | some '[' | some '\x7b' => .otherForm
  | _ =>
    match Json.readValue .full 1 0 text with
    | .ok _ => .otherForm
    | .error stop => .faulty stop

/-- Reads a number. -/
def readNumber (text : List Char) : Except Stop (Double × List Char) :=
  match Json.skipBlanks text with
  | [] => .error (.faulty (.atEnd .endInValue))
  | c :: rest =>
    if c = '-' ∨ c.isDigit then do
      let (n, rest) ← orFaulty (Json.Literal.read .full (c :: rest))
      return (n.toDouble, rest)
    else .error (wrongKind (c :: rest))

/-- Reads a string. -/
def readText (text : List Char) : Except Stop (String × List Char) :=
  match Json.skipBlanks text with
  | [] => .error (.faulty (.atEnd .endInValue))
  | c :: rest =>
    if c = '"' then orFaulty (Json.readString .full rest) else .error (wrongKind (c :: rest))

/-! ## Objects -/

/-- The members found so far. -/
structure Found where
  used : Option Double
  total : Option Double
  unit : Option String

/-- The usage, when all its members are found. -/
def Found.usage? (found : Found) : Option Usage := do
  return ⟨← found.used, ← found.total, ← found.unit⟩

/-- Reads the value of a member, after the key and before the colon. A member that is already
found is refused as soon as its key is read. -/
def readMember (found : Found) (key : String) (text : List Char) :
    Except Stop (Found × List Char) :=
  if key = "used" then
    if found.used.isSome then .error .otherForm
    else do
      let (v, rest) ← readNumber (← orFaulty (Json.readColon text))
      return ({ found with used := some v }, rest)
  else if key = "total" then
    if found.total.isSome then .error .otherForm
    else do
      let (v, rest) ← readNumber (← orFaulty (Json.readColon text))
      return ({ found with total := some v }, rest)
  else if key = "unit" then
    if found.unit.isSome then .error .otherForm
    else do
      let (s, rest) ← readText (← orFaulty (Json.readColon text))
      return ({ found with unit := some s }, rest)
  else do
    let text ← orFaulty (Json.readColon text)
    let (_, rest) ← orFaulty (Json.readValue .pass (Json.stepsFor text) 0 text)
    return (found, rest)

/-- Reads members up to the closing brace; `fuel` bounds their number. -/
def readMembers :
    (fuel : Nat) → (first : Bool) → Found → List Char → Except Stop (Usage × List Char)
  | 0, _, _, _ => .error .otherForm
  | fuel + 1, first, found, text => do
    match ← orFaulty (Json.nextMember first text) with
    | .close rest =>
      match found.usage? with
      | some usage => return (usage, rest)
      | none => .error .otherForm
    | .item rest =>
      let (key, rest) ← orFaulty (Json.readString .full rest)
      let (found, rest) ← readMember found key rest
      readMembers fuel false found rest

/-! ## Lists -/

/-- Finds the next element of a list that must have one. -/
def requireElement (first : Bool) (text : List Char) : Except Stop (List Char) := do
  match ← orFaulty (Json.nextElement first text) with
  | .close _ => .error .otherForm
  | .item rest => return rest

/-- Requires the end of a list. -/
def readClose (text : List Char) : Except Json.Stop (List Char) :=
  match Json.skipBlanks text with
  | [] => .error (.atEnd .endInList)
  | c :: rest =>
    if c = ']' then .ok rest
    else if c = ',' then
      match Json.skipBlanks rest with
      | ']' :: more => .error (.upon .commaAtEnd (']' :: more))
      | more => .error (.upon .textAfterEnd more)
    else .error (.upon .textAfterEnd (c :: rest))

/-- Reads the three values of a list and its closing bracket. -/
def readList (text : List Char) : Except Stop (Usage × List Char) := do
  let (used, rest) ← readNumber (← requireElement true text)
  let (total, rest) ← readNumber (← requireElement false rest)
  let (unit, rest) ← readText (← requireElement false rest)
  let rest ← orFaulty (readClose rest)
  return (⟨used, total, unit⟩, rest)

/-! ## Whole texts -/

/-- Reads a usage at the start of a text. -/
def readPart (text : List Char) : Except Stop (Usage × List Char) :=
  match Json.skipBlanks text with
  | [] => .error (.faulty (.atEnd .endInValue))
  | c :: rest =>
    if c = '[' then readList rest
    else if c = '\x7b' then readMembers (rest.length + 1) true ⟨none, none, none⟩ rest
    else .error (wrongKind (c :: rest))

/-- Reads a usage that is the whole of a text. -/
def read (text : String) : Except Report.Refusal Usage :=
  let result := do
    let (usage, rest) ← readPart text.toList
    orFaulty (Json.readEnd rest)
    return usage
  match result with
  | .ok usage => .ok usage
  | .error .otherForm => .error .otherForm
  | .error (.faulty stop) => .error (.faulty (stop.locate text.toList))

end Usage

end DriveClient
