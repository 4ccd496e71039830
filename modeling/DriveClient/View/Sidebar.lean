import DriveClient.Path
import DriveClient.Usage.Basic
import DriveClient.View.Controls

/-!
# The sidebar

The upload button, the links to the main pages, and the usage of the storage. The link whose place
is the current one, or one above it, is marked.
-/

namespace DriveClient.View

/-! ## Links -/

/-- A link within the client. While it is active it has the given class and is the current page. -/
def link (location href activeClass : String) (children : List Node) : Node :=
  if Path.isLinkActive location href then
    active "a" [("href", href), ("class", activeClass), ("aria-current", "page")] (.link href)
      children
  else active "a" [("href", href), ("class", "")] (.link href) children

/-- An entry of the navigation: a name, a picture and an address. -/
structure NavItem where
  name : String
  icon : String
  href : String
deriving DecidableEq

/-- The entries of the sidebar, in order. -/
def navItems : List NavItem :=
  [⟨"File System", Icon.fileSystem, "/"⟩,
   ⟨"Recent", Icon.clock, "/recent"⟩,
   ⟨"Uploads", Icon.upload, "/uploads"⟩,
   ⟨"Trash", Icon.trash, "/trash"⟩,
   ⟨"Settings", Icon.settings, "/settings"⟩]

/-- The entries that are active at a location. -/
def activeItems (location : String) : List NavItem :=
  navItems.filter fun item => Path.isLinkActive location item.href

/-- One entry of the navigation. -/
def navEntry (location : String) (item : NavItem) : Node :=
  plain "li" [("class", "sidebarNavItem")]
    [link location item.href "sidebarActiveLink"
      [plain "img" [("src", item.icon), ("alt", "")] [], plain "span" [] [.text item.name]]]

/-- A list of navigation entries. -/
def navigation (location : String) (items : List NavItem) : Node :=
  plain "nav" [("class", "sidebarNav")] [plain "ol" [] (items.map (navEntry location))]

/-! ## Usage -/

/-- One part of a bar. -/
def barPart (name : String) (part : Percentage) : Node :=
  plain "div" [("class", name), ("style", part.width)] []

/-- The element for a bar: the filled part, and the remainder when there is one. -/
def barNode (bar : Bar) : Node :=
  plain "div"
    [("class", "percentageBar"), ("role", "progressbar"), ("aria-valuemin", "0"),
     ("aria-valuemax", "100"), ("aria-valuenow", toString bar.filled.value)]
    (barPart "filled" bar.filled :: (bar.remainder.map (barPart "remainder")).toList)

/-- The bar for a ratio or percentage; a value that is neither gives an empty bar and a log
entry. -/
def percentageBar (value : Double) : Logged Node := do
  return barNode (← Bar.ofValue value)

/-- The usage of the storage: a label, a bar and the usage in words. -/
def storageUse (usage : Usage) : Logged Node := do
  let bar ← percentageBar usage.ratio
  return plain "div" [("class", "storageUse")]
    [plain "div" [("class", "label")]
      [plain "img" [("src", Icon.cloud), ("alt", "")] [], plain "span" [] [.text "Storage"]],
     bar,
     plain "span" [("class", "details")] [.text usage.details]]

/-- The sidebar of every page. -/
def sidebar (location : String) (usage : Usage) : Logged Node := do
  let storage ← storageUse usage
  return plain "div" [("class", "sidebar")]
    [plain "div" [("class", "uploadButton")] [uploadButton (.log .debug "Upload clicked")],
     navigation location navItems,
     storage]

end DriveClient.View
