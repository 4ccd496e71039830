import DriveClient.Proofs.Route.Codec
import DriveClient.Proofs.View.Highlighting

/-!
# What a page says about its route

The title of a route is decided once for the document and once more by the page that is shown. Both
decisions agree for every route (`headings_outlet`), and a page names the path of its route and no
other place (`places_outlet`). For the route at a location this path leads back to the location
(`Route.path_ofPath`). While a client runs, the title of the document follows the page that is shown
(`Titled.run`).
-/

namespace DriveClient

namespace View

/-! ## Texts of elements -/

mutual

/-- The texts of the elements in a tree that satisfy a condition, in document order. -/
def Node.textsOf (p : Element → Bool) : Node → List String
  | .text _ => []
  | .element tag attributes _ children =>
    (if p ⟨tag, attributes⟩ then [wholeTexts children] else []) ++ textsIn p children

/-- The texts of the elements in a list of trees that satisfy a condition, in document order. -/
def textsIn (p : Element → Bool) : List Node → List String
  | [] => []
  | node :: rest => node.textsOf p ++ textsIn p rest

end

/-- Whether an element is a heading of any level. -/
def Element.isHeading (element : Element) : Bool :=
  element.tag ∈ ["h1", "h2", "h3", "h4", "h5", "h6"]

/-- Whether an element names a place: as the location of what is shown, or as what was asked for. -/
def Element.isPlace (element : Element) : Bool :=
  element.tag = "code" || attribute? element.attributes "class" = some "location"

/-- The headings in a tree. -/
def Node.headings (node : Node) : List String := node.textsOf Element.isHeading

/-- The places that a tree names. -/
def Node.places (node : Node) : List String := node.textsOf Element.isPlace

/-! ## Pages -/

theorem headings_frame (title : String) {children : List Node}
    (h : textsIn Element.isHeading children = []) : (frame title children).headings = [title] := by
  have hframe : (frame title children).headings =
      (title ++ "") :: textsIn Element.isHeading children := rfl
  rw [hframe, h, String.append_empty]

/-- The heading of a page of files is the title of its route, whatever filters are set. -/
theorem filesHeading_eq_title (path : String) (favourites recent : Bool) :
    filesHeading favourites recent = (Route.files path favourites recent).title := by
  cases recent with
  | true => rfl
  | false =>
    cases favourites with
    | true => rfl
    | false => rfl

/-- A page has one heading, the title of its route. -/
theorem headings_outlet (route : Route) : (outlet route).headings = [route.title] := by
  cases route with
  | files path favourites recent =>
    rw [← filesHeading_eq_title]
    exact headings_frame _ rfl
  | uploads => exact headings_frame _ rfl
  | trash => exact headings_frame _ rfl
  | settings => exact headings_frame _ rfl
  | notFound path => exact headings_frame _ rfl

end View

/-- The path that a route is about, if it is about one. -/
def Route.path? : Route → Option String
  | .files path _ _ => some path
  | .notFound path => some path
  | _ => none

/-- A page names the path of its route, and no other place. -/
theorem View.places_outlet (route : Route) : (outlet route).places = route.path?.toList := by
  cases route with
  | files path favourites recent =>
    have hpage : (filesPage path favourites recent).places = [path ++ ""] := rfl
    rw [outlet, hpage, String.append_empty]
    rfl
  | uploads => rfl
  | trash => rfl
  | settings => rfl
  | notFound path =>
    have hpage : (notFoundPage path).places = [path ++ ""] := rfl
    rw [outlet, hpage, String.append_empty]
    rfl

/-! ## The route at a location -/

namespace Route

variable {location path : String}

/-- A folder that a location leads to is in normal form. -/
theorem normalize_of_ofPath_eq_files {favourites : Bool}
    (h : ofPath location = .files path favourites false) : Path.normalize path = path := by
  have hread : ofPath (folder path).toPath = .files path favourites false := by
    rw [← h, ← ofPath_toPath_ofPath location, h]
    rfl
  rw [ofPath_toPath_folder, folder, files.injEq] at hread
  exact hread.1

/-- The folder of a page of files at a location is the root, or the location without the name in
front of it. -/
theorem path_of_ofPath_eq_files {favourites recent : Bool}
    (h : ofPath location = .files path favourites recent) :
    path = "/" ∨ "/files" ++ path = Path.normalize location := by
  have hwritten := toPath_ofPath location
  by_cases hfiles : Path.normalize location = "/files"
  · left
    rw [ofPath_eq_home (by simp [hfiles]), home, folder, files.injEq] at h
    exact h.1.symm
  · rw [if_neg hfiles, h] at hwritten
    cases recent with
    | true =>
      left
      have hrecent : ofPath "/recent" = recentFiles := by decide
      have hlocation : "/recent" = Path.normalize location := hwritten
      rw [← ofPath_normalize, ← hlocation, hrecent, recentFiles, files.injEq] at h
      exact h.1.symm
    | false =>
      have hnormal := normalize_of_ofPath_eq_files h
      have hfolder : (folder path).toPath = Path.normalize location := hwritten
      rw [toPath_folder, hnormal] at hfolder
      by_cases hroot : path = "/"
      · exact .inl hroot
      · rw [if_neg hroot] at hfolder
        exact .inr hfolder

/-- A page for an unknown place names the location in normal form. -/
theorem path_of_ofPath_eq_notFound (h : ofPath location = .notFound path) :
    path = Path.normalize location := by
  have hwritten := toPath_ofPath location
  rw [h] at hwritten
  by_cases hfiles : Path.normalize location = "/files"
  · rw [ofPath_eq_home (by simp [hfiles])] at h
    cases h
  · rw [if_neg hfiles] at hwritten
    exact hwritten

end Route

/-! ## The title of the document -/

/-- Whether an occurrence sets a title from outside. -/
def App.Occurrence.retitles : App.Occurrence → Bool
  | .retitle _ => true
  | _ => false

/-- The title of a document, and whether there is a document to show it. -/
def Browser.face (browser : Browser) : Bool × Option String :=
  (browser.hasWindow && browser.hasDocument, browser.title)

/-- The document shows the title of the active page. -/
def Titled (app : App) : Prop := app.browser.face = (true, some (App.titleOf app.route))

namespace Browser

theorem face_setTitle {browser : Browser} (h : browser.face.1 = true) (title : String) :
    (browser.setTitle title).face = (true, some title) := by
  have hshows : (browser.hasWindow && browser.hasDocument) = true := h
  rw [setTitle, if_pos hshows, face, hshows]

end Browser

namespace App

theorem face_navigateTo (app : App) (path : String) :
    (app.navigateTo path).browser.face = app.browser.face := by
  obtain ⟨pathname, pushed, hpush⟩ := app.browser.exists_push (Path.normalize path)
  unfold navigateTo
  split
  · rfl
  · rw [hpush]
    rfl

/-- Only titles from outside are shown before the title follows the page. -/
theorem face_apply (app : App) {occurrence : Occurrence} (h : occurrence.retitles = false) :
    (app.apply occurrence).browser.face = app.browser.face := by
  cases occurrence with
  | visit path => exact app.face_navigateTo path
  | goTo route => exact app.face_navigateTo route.toPath
  | event listener query event =>
    rw [apply]
    cases (listener.respond query event).action with
    | nothing => rfl
    | navigate path => exact app.face_navigateTo path
    | log level message => rfl
    | reload =>
      obtain ⟨reloads, hreload⟩ := app.browser.exists_reload
      rw [perform, hreload]
      rfl
    | notify notice => rfl
  | usage outcome =>
    cases outcome with
    | ok report => rfl
    | error failure => rfl
  | retitle title => cases h

end App

namespace Titled

variable {app : App}

/-- Showing the title makes the document fit the page. -/
theorem showTitle (h : app.browser.face.1 = true) : Titled app.showTitle :=
  Browser.face_setTitle h _

/-- As long as the title is left alone, it follows the page. -/
theorem followTitle (h : Titled app) {after : App} (hface : after.browser.face = app.browser.face) :
    Titled (after.followTitle app.route) := by
  rw [h] at hface
  unfold App.followTitle
  split
  · next hsame => rw [Titled, hface, hsame]
  · apply showTitle
    rw [hface]

theorem step (h : Titled app) {occurrence : App.Occurrence} (hinside : occurrence.retitles = false) :
    Titled (app.step occurrence) := h.followTitle (app.face_apply hinside)

/-- The document keeps showing the title of the active page along a run. -/
theorem run (h : Titled app) {occurrences : List App.Occurrence}
    (hinside : ∀ occurrence ∈ occurrences, occurrence.retitles = false) :
    Titled (app.run occurrences) := by
  induction occurrences generalizing app with
  | nil => exact h
  | cons occurrence rest ih =>
    rw [List.forall_mem_cons] at hinside
    rw [App.run_cons]
    exact ih (h.step hinside.1) hinside.2

end Titled

theorem App.titleOf_eq (route : Route) : titleOf route = route.title ++ " - PrivaStore" := by
  have hname : " - PrivaStore" = " - " ++ View.productName := by decide
  rw [hname, ← String.append_assoc]
  rfl

namespace View

/-- **What is shown is what the route says.** For every route: the page has one heading, the title
of the route, which also begins the title of the document; and it names the path of the route and no
other place. For every location: a page of files names the root or the location without `/files`,
and a page for an unknown place names the location in normal form. Wherever a client starts in a
document, and whatever happens to it short of a title set from outside: the title of the document
begins with the heading that is shown. -/
theorem outlet_shows_route :
    (∀ route, (outlet route).headings = [route.title] ∧
      App.titleOf route = route.title ++ " - PrivaStore" ∧
      (outlet route).places = route.path?.toList) ∧
    (∀ location,
      (∀ path favourites recent, Route.ofPath location = .files path favourites recent →
        path = "/" ∨ "/files" ++ path = Path.normalize location) ∧
      ∀ path, Route.ofPath location = .notFound path → path = Path.normalize location) ∧
    ∀ browser path occurrences, (browser.hasWindow && browser.hasDocument) = true →
      (∀ occurrence ∈ occurrences, App.Occurrence.retitles occurrence = false) →
      let app := (App.startAt browser path).showTitle.run occurrences
      ∃ heading, (outlet app.route).headings = [heading] ∧
        app.browser.title = some (heading ++ " - PrivaStore") := by
  refine ⟨?_, ?_, ?_⟩
  · intro route
    exact ⟨headings_outlet route, App.titleOf_eq route, places_outlet route⟩
  · intro location
    constructor
    · intro path favourites recent h
      exact Route.path_of_ofPath_eq_files h
    · intro path h
      exact Route.path_of_ofPath_eq_notFound h
  · intro browser path occurrences hdocument hinside app
    have hstart : (App.startAt browser path).browser.face.1 = true := hdocument
    have htitled : Titled app := (Titled.showTitle hstart).run hinside
    clear_value app
    have htitle : app.browser.title = some (App.titleOf app.route) := congrArg Prod.snd htitled
    refine ⟨app.route.title, headings_outlet app.route, ?_⟩
    rw [htitle, App.titleOf_eq]

/-- A folder below the root, a place that is none, and a client that goes to the uploads. -/
theorem outlet_shows_route_deep_link :
    Route.ofPath "/files//docs/2024/" = .files "/docs/2024" false false ∧
      (outlet (.files "/docs/2024" false false)).headings = ["Files"] ∧
      (outlet (.files "/docs/2024" false false)).places = ["/docs/2024"] ∧
      ("/docs/2024" = "/" ∨ "/files" ++ "/docs/2024" = Path.normalize "/files//docs/2024/") ∧
      Route.ofPath "trash//old" = .notFound "/trash/old" ∧
      "/trash/old" = Path.normalize "trash//old" ∧
      let app := (App.startAt (Browser.fresh "/") "/").showTitle.run [.visit "/uploads"]
      ∃ heading, (outlet app.route).headings = [heading] ∧
        app.browser.title = some (heading ++ " - PrivaStore") := by
  have hfolder : Route.ofPath "/files//docs/2024/" = .files "/docs/2024" false false := by decide
  have hunknown : Route.ofPath "trash//old" = .notFound "/trash/old" := by decide
  obtain ⟨hroutes, hlocations, hruns⟩ := outlet_shows_route
  obtain ⟨hheadings, -, hplaces⟩ := hroutes (.files "/docs/2024" false false)
  exact ⟨hfolder, hheadings, hplaces, (hlocations _).1 _ _ _ hfolder, hunknown,
    (hlocations _).2 _ hunknown,
    hruns (Browser.fresh "/") "/" [.visit "/uploads"] rfl (by simp [App.Occurrence.retitles])⟩

end View

end DriveClient
