import DriveClient.Proofs.App.Navigation
import DriveClient.Proofs.Path.Links
import DriveClient.Proofs.Route.Resolution

/-!
# The highlighted link

The addresses in the sidebar have one segment at most, and no two begin with the same one. So a link
is active where the path begins as its address does, and no two links are active at once. The
sidebar marks the link of the active entry and nothing else (`marked_sidebar`,
`highlighted_sidebar`), and a plain click on a link makes its entry the active one
(`sidebar_highlights`).
-/

namespace DriveClient

namespace View

/-! ## Entries -/

/-- The addresses of the entries have one segment at most. -/
theorem length_segments_navItems :
    ∀ item ∈ navItems, (Path.segments item.href).length ≤ 1 := by
  decide

/-- The addresses of the entries begin differently. -/
theorem nodup_heads_navItems :
    (navItems.map fun item => (Path.segments item.href).head?).Nodup := by
  decide

/-- The address of an entry is the root, or it has one segment. -/
theorem exists_segment_of_ne_root :
    ∀ item ∈ navItems, item.href ≠ "/" → ∃ own, Path.segments item.href = [own] := by
  have hlength : ∀ item ∈ navItems, item.href ≠ "/" → (Path.segments item.href).length = 1 := by
    decide
  intro item hitem hroot
  exact List.length_eq_one_iff.1 (hlength item hitem hroot)

/-- A link of one segment at most is active where the path begins as its address does. -/
theorem isLinkActive_iff_head? {href : String} (h : (Path.segments href).length ≤ 1)
    (location : String) :
    Path.isLinkActive location href = true ↔
      (Path.segments href).head? = (Path.segments location).head? := by
  cases hhref : Path.segments href with
  | nil => rw [Path.isLinkActive_root hhref, List.head?_nil, eq_comm (a := none),
      List.head?_eq_none_iff]
  | cons own more =>
    have hmore : more = [] := by simpa [hhref] using h
    subst hmore
    rw [Path.isLinkActive_single hhref, List.head?_singleton, eq_comm]

/-- At most one item has a given key, if all keys differ. -/
theorem length_filter_key_le_one {α β : Type} [DecidableEq β] {key : α → β} {items : List α}
    (h : (items.map key).Nodup) (b : β) : (items.filter fun a => key a = b).length ≤ 1 := by
  have hcount := List.nodup_iff_count.1 h b
  rw [List.count_eq_countP, List.countP_map, List.countP_eq_length_filter] at hcount
  exact hcount

/-- At most one entry is active. -/
theorem length_activeItems_le (location : String) : (activeItems location).length ≤ 1 := by
  have hactive : activeItems location = navItems.filter fun item =>
      (Path.segments item.href).head? = (Path.segments location).head? := by
    refine List.filter_congr fun item hitem => ?_
    rw [Bool.eq_iff_iff, decide_eq_true_iff]
    exact isLinkActive_iff_head? (length_segments_navItems item hitem) location
  rw [hactive]
  exact length_filter_key_le_one nodup_heads_navItems _

/-- Where an entry leads, it is the active one. -/
theorem activeItems_normalize_href :
    ∀ item ∈ navItems, activeItems (Path.normalize item.href) = [item] := by
  decide

/-! ## Elements -/

/-- An element of a tree, without what it contains. -/
structure Element where
  tag : String
  attributes : List (String × String)
deriving DecidableEq

mutual

/-- The elements of a tree, in document order. -/
def Node.elements : Node → List Element
  | .text _ => []
  | .element tag attributes _ children => ⟨tag, attributes⟩ :: elementsIn children

/-- The elements of a list of trees, in document order. -/
def elementsIn : List Node → List Element
  | [] => []
  | node :: rest => node.elements ++ elementsIn rest

end

theorem elementsIn_map {α : Type} (f : α → Node) (items : List α) :
    elementsIn (items.map f) = items.flatMap fun item => (f item).elements := by
  induction items with
  | nil => rfl
  | cons item rest ih => rw [List.map_cons, elementsIn, ih, List.flatMap_cons]

theorem targetsIn_map {α : Type} (f : α → Node) (items : List α) :
    targetsIn (items.map f) = items.flatMap fun item => (f item).targets := by
  induction items with
  | nil => rfl
  | cons item rest ih => rw [List.map_cons, targetsIn, ih, List.flatMap_cons]

namespace Element

/-- Whether an element is a link. -/
def isLink (element : Element) : Bool := element.tag = "a"

/-- Whether an element is marked as the current page, or as current in any other way. -/
def isMarked (element : Element) : Bool := (attribute? element.attributes "aria-current").isSome

/-- Whether an element looks like an active link of the sidebar. -/
def isHighlighted (element : Element) : Bool :=
  attribute? element.attributes "class" = some "sidebarActiveLink"

/-- Whether an element is nothing of the kind. -/
def isOrdinary (element : Element) : Bool :=
  !element.isLink && !element.isMarked && !element.isHighlighted

end Element

/-! ## The sidebar -/

/-- The link of an entry while it is active. -/
def activeLink (item : NavItem) : Element :=
  ⟨"a", [("href", item.href), ("class", "sidebarActiveLink"), ("aria-current", "page")]⟩

/-- The link of an entry while it is not. -/
def idleLink (item : NavItem) : Element := ⟨"a", [("href", item.href), ("class", "")]⟩

/-- The link of an entry at a location. -/
def linkAt (location : String) (item : NavItem) : Element :=
  if Path.isLinkActive location item.href then activeLink item else idleLink item

/-- An entry is shown as its link, with a picture and a name in it. -/
theorem elements_navEntry (location : String) (item : NavItem) :
    (navEntry location item).elements =
      [⟨"li", [("class", "sidebarNavItem")]⟩] ++ [linkAt location item] ++
        [⟨"img", [("src", item.icon), ("alt", "")]⟩, ⟨"span", []⟩] := by
  unfold navEntry link linkAt
  split
  · rfl
  · rfl

/-- The sidebar around its entries: an upload button before them and the usage behind them. -/
theorem elements_sidebar (location : String) (usage : Usage) :
    (sidebar location usage).value.elements =
      [⟨"div", [("class", "sidebar")]⟩, ⟨"div", [("class", "uploadButton")]⟩,
        ⟨"button", [("class", "uploadButton")]⟩, ⟨"img", [("src", Icon.topArrow), ("alt", "")]⟩,
        ⟨"span", []⟩, ⟨"nav", [("class", "sidebarNav")]⟩, ⟨"ol", []⟩] ++
      navItems.flatMap (fun item => (navEntry location item).elements) ++
      (storageUse usage).value.elements := by
  rw [← elementsIn_map]
  simp [sidebar, navigation, uploadButton, plain, active, Node.elements, elementsIn]

theorem barNode_ordinary (bar : Bar) : (barNode bar).elements.all Element.isOrdinary = true := by
  unfold barNode
  cases bar.remainder with
  | none => rfl
  | some part => rfl

/-- The usage is shown without links, marks and highlights. -/
theorem storageUse_ordinary (usage : Usage) :
    (storageUse usage).value.elements.all Element.isOrdinary = true := by
  have hbar := barNode_ordinary (Bar.ofValue usage.ratio).value
  simp only [storageUse, percentageBar, plain, Logged.value_bind, Logged.value_pure,
    Node.elements, elementsIn, List.all_cons, List.all_append, List.all_nil, hbar]
  rfl

/-- Of the elements in the sidebar that are not ordinary, all are links of entries. -/
theorem filter_elements_sidebar {p : Element → Bool}
    (hordinary : ∀ element, element.isOrdinary = true → p element = false)
    (location : String) (usage : Usage) :
    (sidebar location usage).value.elements.filter p =
      (navItems.map (linkAt location)).filter p := by
  have hnone : ∀ {elements : List Element}, elements.all Element.isOrdinary = true →
      elements.filter p = [] := by
    intro elements hall
    rw [List.filter_eq_nil_iff]
    intro element helement
    rw [hordinary element (List.all_eq_true.1 hall element helement)]
    decide
  have hentry : ∀ item, (navEntry location item).elements.filter p =
      [linkAt location item].filter p := by
    intro item
    have hfront : [(⟨"li", [("class", "sidebarNavItem")]⟩ : Element)].filter p = [] := hnone rfl
    have hback : [(⟨"img", [("src", item.icon), ("alt", "")]⟩ : Element),
        ⟨"span", []⟩].filter p = [] := hnone rfl
    rw [elements_navEntry, List.filter_append, List.filter_append, hfront, hback,
      List.nil_append, List.append_nil]
  rw [elements_sidebar, List.filter_append, List.filter_append, hnone (storageUse_ordinary usage),
    hnone rfl, List.nil_append, List.append_nil, List.filter_flatMap]
  simp only [hentry]
  rw [← List.filter_flatMap, ← List.map_eq_flatMap]

/-- The sidebar has one link for each entry. -/
theorem links_sidebar (location : String) (usage : Usage) :
    (sidebar location usage).value.elements.filter Element.isLink =
      navItems.map (linkAt location) := by
  have hlink : ∀ element ∈ navItems.map (linkAt location), element.isLink = true := by
    intro element helement
    obtain ⟨item, -, rfl⟩ := List.mem_map.1 helement
    unfold linkAt
    split
    · rfl
    · rfl
  rw [filter_elements_sidebar (fun element h => by simp_all [Element.isOrdinary]),
    List.filter_eq_self.2 hlink]

/-- What only active links have is found on the links of the active entries and nowhere else. -/
theorem filter_elements_sidebar_of_active {p : Element → Bool}
    (hordinary : ∀ element, element.isOrdinary = true → p element = false)
    (hactive : ∀ item, p (activeLink item) = true) (hidle : ∀ item, p (idleLink item) = false)
    (location : String) (usage : Usage) :
    (sidebar location usage).value.elements.filter p =
      (activeItems location).map activeLink := by
  have hlinkAt : ∀ item, p (linkAt location item) = Path.isLinkActive location item.href := by
    intro item
    unfold linkAt
    cases Path.isLinkActive location item.href with
    | false => exact hidle item
    | true => exact hactive item
  have hfilter : navItems.filter (p ∘ linkAt location) = activeItems location :=
    List.filter_congr fun item _ => hlinkAt item
  rw [filter_elements_sidebar hordinary, List.filter_map, hfilter]
  refine List.map_congr_left fun item hitem => ?_
  exact if_pos (List.mem_filter.1 hitem).2

/-- The sidebar marks the link of the active entry as the current page, and nothing else. -/
theorem marked_sidebar (location : String) (usage : Usage) :
    (sidebar location usage).value.elements.filter Element.isMarked =
      (activeItems location).map activeLink :=
  filter_elements_sidebar_of_active (fun element h => by simp_all [Element.isOrdinary])
    (fun _ => rfl) (fun _ => rfl) location usage

/-- The sidebar highlights the link of the active entry, and nothing else. -/
theorem highlighted_sidebar (location : String) (usage : Usage) :
    (sidebar location usage).value.elements.filter Element.isHighlighted =
      (activeItems location).map activeLink :=
  filter_elements_sidebar_of_active (fun element h => by simp_all [Element.isOrdinary])
    (fun _ => rfl) (fun _ => rfl) location usage

/-! ## Clicks -/

/-- What listens in a link: the link itself, under its address. -/
theorem targets_navEntry (location : String) (item : NavItem) :
    (navEntry location item).targets = [⟨"a", item.href, .link item.href⟩] := by
  unfold navEntry link
  split
  · rfl
  · rfl

theorem targets_storageUse (usage : Usage) : (storageUse usage).value.targets = [] := by
  have hbar : ∀ bar, (barNode bar).targets = [] := by
    intro bar
    unfold barNode
    cases bar.remainder with
    | none => rfl
    | some part => rfl
  simp only [storageUse, percentageBar, plain, Logged.value_bind, Logged.value_pure,
    Node.targets, targetsIn, hbar]
  rfl

/-- What listens in the sidebar: the upload button, and one link for each entry. -/
theorem targets_sidebar (location : String) (usage : Usage) :
    (sidebar location usage).value.targets =
      ⟨"button", "Upload", .press (.log .debug "Upload clicked")⟩ ::
        navItems.map fun item => ⟨"a", item.href, .link item.href⟩ := by
  have hitems : targetsIn (navItems.map (navEntry location)) =
      navItems.map fun item => ⟨"a", item.href, .link item.href⟩ := by
    rw [targetsIn_map, List.map_eq_flatMap]
    simp only [targets_navEntry]
  simp only [sidebar, navigation, uploadButton, plain, active, Logged.value_bind,
    Logged.value_pure, Node.targets, targetsIn, targets_storageUse, hitems]
  rfl

/-- Only the link of an entry goes by the address of the entry. -/
theorem listener_eq_link {location : String} {usage : Usage} {item : NavItem} {target : Target}
    (hitem : item ∈ navItems) (h : target ∈ (sidebar location usage).value.targets)
    (hname : target.name = item.href) : target.listener = .link item.href := by
  have hupload : ∀ item ∈ navItems, "Upload" ≠ item.href := by decide
  rw [targets_sidebar] at h
  rcases List.mem_cons.1 h with rfl | h
  · exact absurd hname (hupload item hitem)
  · obtain ⟨other, -, rfl⟩ := List.mem_map.1 h
    rw [← hname]

end View

/-- An occurrence that asks for a path leads there. -/
theorem App.location_step_of_target? (app : App) {occurrence : Occurrence} {path : String}
    (h : occurrence.target? = some path) :
    (app.step occurrence).location = Path.normalize path := by
  have hstep := congrArg Whereabouts.location (app.whereabouts_step occurrence)
  rw [h, Whereabouts.follow, Whereabouts.location_goTo, location_whereabouts] at hstep
  exact hstep

namespace View

/-- **Highlighting.** For every location and usage: the entry of the root is active just when the
location has no segment, and any other entry just when the first segment of the location is its own;
so at most one is active. The sidebar has one link for each entry, and what is marked or highlighted in
it is the link of the active entry. Wherever a client starts, and whatever happens to it: a plain
click on the link of an entry makes this entry the active one and shows its page. -/
theorem sidebar_highlights (location : String) (usage : Usage) (browser : Browser) (path : String)
    (occurrences : List App.Occurrence) :
    (∀ item ∈ navItems, (item ∈ activeItems location ↔
      if item.href = "/" then Path.segments location = []
      else ∃ own, Path.segments item.href = [own] ∧
        (Path.segments location).head? = some own)) ∧
    (activeItems location).length ≤ 1 ∧
    (sidebar location usage).value.elements.filter Element.isLink =
      navItems.map (linkAt location) ∧
    (sidebar location usage).value.elements.filter Element.isMarked =
      (activeItems location).map activeLink ∧
    (sidebar location usage).value.elements.filter Element.isHighlighted =
      (activeItems location).map activeLink ∧
    let app := (App.startAt browser path).run occurrences
    let targets := (sidebar app.location app.usage).value.targets
    ∀ item ∈ navItems, (∃ target ∈ targets, target.name = item.href) ∧
      ∀ target ∈ targets, target.name = item.href →
        ∀ query click, click.isPlain = true →
          let after := app.step (.event target.listener query (.click click))
          activeItems after.location = [item] ∧ after.route = Route.ofPath item.href := by
  refine ⟨?_, length_activeItems_le location, links_sidebar location usage,
    marked_sidebar location usage, highlighted_sidebar location usage, ?_⟩
  · intro item hitem
    rw [activeItems, List.mem_filter, and_iff_right hitem]
    split
    · rename_i hroot
      rw [Path.isLinkActive_root (by rw [hroot]; rfl)]
    · rename_i hroot
      obtain ⟨own, hown⟩ := exists_segment_of_ne_root item hitem hroot
      rw [Path.isLinkActive_single hown]
      constructor
      · intro hhead
        exact ⟨own, hown, hhead⟩
      · rintro ⟨other, hother, hhead⟩
        rw [hhead, ← (List.cons.inj (hown.symm.trans hother)).1]
  · intro app targets item hitem
    constructor
    · refine ⟨⟨"a", item.href, .link item.href⟩, ?_, rfl⟩
      show _ ∈ (sidebar app.location app.usage).value.targets
      rw [targets_sidebar]
      exact List.mem_cons_of_mem _ (List.mem_map_of_mem hitem)
    · intro target htarget hname query click hclick after
      have hlistener := listener_eq_link hitem htarget hname
      have hlocation : after.location = Path.normalize item.href := by
        refine app.location_step_of_target? ?_
        rw [App.Occurrence.target?, hlistener, Listener.respond, if_pos hclick]
        rfl
      constructor
      · rw [hlocation]
        exact activeItems_normalize_href item hitem
      · rw [App.route, hlocation, Route.ofPath_normalize]

end View

end DriveClient
