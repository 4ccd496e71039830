import DriveClient.Log
import DriveClient.Text.Blank

/-!
# Element trees

What the client shows: texts and elements with attributes. An element may listen for a click or a
key, and a listener says what an event makes the client do.
-/

namespace DriveClient.View

/-! ## Actions -/

/-- What a control tells the code that embeds it. -/
inductive Notice where
  | search (query : String)
  | settings
  | upload
  | press
deriving DecidableEq

/-- What the client does in answer to an event. -/
inductive Action where
  | nothing
  | navigate (path : String)
  | log (level : Log.Level) (message : String)
  | reload
  | notify (notice : Notice)
deriving DecidableEq

/-! ## Events -/

/-- A click: the mouse button, where 0 is the primary one, and the modifier keys held down. -/
structure Click where
  button : Int
  ctrlKey : Bool
  metaKey : Bool
  shiftKey : Bool
  altKey : Bool
deriving DecidableEq

/-- Whether a click is an ordinary one. All others, which open a new tab or a menu, are left to
the browser. -/
def Click.isPlain (click : Click) : Bool :=
  click.button = 0 && !(click.ctrlKey || click.metaKey || click.shiftKey || click.altKey)

/-- Something the user does to an element. -/
inductive Event where
  | click (click : Click)
  | key (name : String)
deriving DecidableEq

/-- What a listener makes of an event: whether the browser's own reaction is prevented, and the
action. -/
structure Response where
  prevented : Bool
  action : Action
deriving DecidableEq

/-- The event is let through and nothing is done. -/
def Response.ignored : Response := ⟨false, .nothing⟩

/-! ## Listeners -/

/-- What an element listens for.

`link` follows an address on a plain click, `press` acts on any click, and `submit` and `enter`
pass on the text of the search input, at a click and at the Enter key. -/
inductive Listener where
  | link (href : String)
  | press (action : Action)
  | submit (use : String → Action)
  | enter (use : String → Action)

/-- Passes on a query without the blanks around it, unless nothing is left. -/
def submitQuery (use : String → Action) (query : String) : Action :=
  if Text.trim query = "" then .nothing else use (Text.trim query)

/-- What a listener does, given the text of the search input. -/
def Listener.respond (listener : Listener) (query : String) (event : Event) : Response :=
  match listener, event with
  | .link href, .click click => if click.isPlain then ⟨true, .navigate href⟩ else .ignored
  | .press action, .click _ => ⟨false, action⟩
  | .submit use, .click _ => ⟨false, submitQuery use query⟩
  | .enter use, .key name => if name = "Enter" then ⟨true, submitQuery use query⟩ else .ignored
  | _, _ => .ignored

/-- Whether a listener waits for a key, and not for a click. -/
def Listener.awaitsKey : Listener → Bool
  | .enter _ => true
  | _ => false

/-! ## Trees -/

/-- A text, or an element with its attributes, its listener and what it contains. -/
inductive Node where
  | text (content : String)
  | element (tag : String) (attributes : List (String × String)) (listener : Option Listener)
      (children : List Node)

/-- An element without a listener. -/
def plain (tag : String) (attributes : List (String × String)) (children : List Node) : Node :=
  .element tag attributes none children

/-- An element with a listener. -/
def active (tag : String) (attributes : List (String × String)) (listener : Listener)
    (children : List Node) : Node :=
  .element tag attributes (some listener) children

mutual

/-- All text in a tree. -/
def Node.wholeText : Node → String
  | .text content => content
  | .element _ _ _ children => wholeTexts children

/-- All text in a list of trees. -/
def wholeTexts : List Node → String
  | [] => ""
  | node :: rest => node.wholeText ++ wholeTexts rest

end

/-- The value of an attribute. -/
def attribute? (attributes : List (String × String)) (name : String) : Option String :=
  (attributes.find? (·.1 = name)).map (·.2)

/-! ## Targets -/

/-- An element that listens, with the name that it goes by. -/
structure Target where
  tag : String
  name : String
  listener : Listener

/-- The name of an element: its title, else its address, else its form name, else its text. -/
def nameOf (attributes : List (String × String)) (children : List Node) : String :=
  (attribute? attributes "title" <|> attribute? attributes "href" <|>
    attribute? attributes "name").getD (wholeTexts children)

mutual

/-- The listening elements of a tree, in document order. -/
def Node.targets : Node → List Target
  | .text _ => []
  | .element tag attributes listener children =>
    (listener.map fun l => Target.mk tag (nameOf attributes children) l).toList ++
      targetsIn children

/-- The listening elements of a list of trees, in document order. -/
def targetsIn : List Node → List Target
  | [] => []
  | node :: rest => node.targets ++ targetsIn rest

end

end DriveClient.View
