import DriveClient.View.Header

/-!
# The elements of the header

Five elements of the header listen: the search button and the search input, and three buttons that
have nothing to do with the search input.
-/

namespace DriveClient.View

/-- The button that submits the search input. -/
def searchButton : Target := ⟨"button", "Search", .submit recordSearch⟩

/-- The search input. -/
def searchInput : Target := ⟨"input", "search", .enter recordSearch⟩

/-- The buttons that have nothing to do with the search input. -/
def otherButtons : List Target :=
  [⟨"button", "Search Settings", .press (.log .debug "Search settings clicked")⟩,
   ⟨"button", "Help", .press (.log .debug "Help clicked")⟩,
   ⟨"button", "Settings", .press (.navigate Route.settings.toPath)⟩]

theorem targets_header : header.targets = searchButton :: searchInput :: otherButtons := by
  simp only [header, logo, searchBox, roundButton, plain, active, Node.targets, targetsIn,
    Option.map_some, Option.map_none, Option.toList_some, Option.toList_none, List.nil_append,
    List.append_nil, List.cons_append]
  rfl

end DriveClient.View
