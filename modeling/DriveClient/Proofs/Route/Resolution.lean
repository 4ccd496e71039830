import DriveClient.Proofs.Route.Pattern
import DriveClient.Route.Table

/-!
# Which page a path leads to

A row of the table looks at the segments of a path only. A literal row asks for exactly its own
segments (`resolveIn_cons_literal`), and a starred row for its literal segments with something
behind them (`resolveIn_cons_star`). Put together, the table is the case distinction `ofSegments`
(`ofPath_eq_ofSegments`).
-/

namespace DriveClient.Route

/-- The page for a list of segments: `files` alone or with a folder below it, one of the other four
names alone, or the page for unknown places. -/
def ofSegments : List String → Route
  | [] => home
  | [name] =>
    if name = "files" then home
    else if name = "recent" then recentFiles
    else if name = "uploads" then .uploads
    else if name = "trash" then .trash
    else if name = "settings" then .settings
    else .notFound (Path.absolute [name])
  | name :: first :: more =>
    if name = "files" then folder (Path.absolute (first :: more))
    else .notFound (Path.absolute (name :: first :: more))

/-! ## One row -/

variable {entry : Entry} {rows : List Entry}

/-- A row that accepts a path decides its page, and one that does not is passed over. -/
theorem resolveIn_cons (entry : Entry) (rows : List Entry) (path : String) :
    resolveIn (entry :: rows) path =
      ((Pattern.matchSegments (Path.segments entry.pattern) (Path.segments path)).map
        entry.page).getD (resolveIn rows path) := by
  have hentry : entry.resolve? (Path.normalize path) =
      (Pattern.matchSegments (Path.segments entry.pattern) (Path.segments path)).map
        entry.page := by
    rw [Entry.resolve?, Pattern.match?, Path.segments_normalize]
  rw [resolveIn, List.findSome?_cons, hentry]
  generalize (Pattern.matchSegments (Path.segments entry.pattern) (Path.segments path)).map
    entry.page = page?
  cases page? with
  | none => rfl
  | some page => rfl

theorem resolveIn_cons_literal (literal : List String)
    (hpattern : Path.segments entry.pattern = literal)
    (hliteral : ∀ s ∈ literal, Pattern.isStar s = false) (path : String) :
    resolveIn (entry :: rows) path =
      if Path.segments path = literal then entry.page ⟨none⟩ else resolveIn rows path := by
  rw [resolveIn_cons, hpattern, Pattern.matchSegments_literal hliteral]
  by_cases hpath : Path.segments path = literal
  · rw [if_pos hpath, if_pos hpath]
    rfl
  · rw [if_neg hpath, if_neg hpath]
    rfl

theorem resolveIn_cons_star (literal : List String) (star : String)
    (hpattern : Path.segments entry.pattern = literal ++ [star])
    (hliteral : ∀ s ∈ literal, Pattern.isStar s = false) (hstar : Pattern.isStar star = true)
    (path : String) :
    resolveIn (entry :: rows) path =
      if literal <+: Path.segments path ∧ (Path.segments path).drop literal.length ≠ [] then
        entry.page ⟨some (Path.join ((Path.segments path).drop literal.length))⟩
      else resolveIn rows path := by
  rw [resolveIn_cons, hpattern, Pattern.matchSegments_append hliteral,
    Pattern.matchSegments_star hstar]
  by_cases hfront : literal <+: Path.segments path
  · by_cases hrest : (Path.segments path).drop literal.length = []
    · rw [if_pos hfront, if_pos hrest, if_neg fun hc => hc.2 hrest]
      rfl
    · rw [if_pos hfront, if_neg hrest, if_pos ⟨hfront, hrest⟩]
      rfl
  · rw [if_neg hfront, if_neg fun hc => hfront hc.1]
    rfl

/-! ## The table -/

/-- The page at a path is the page for its segments. -/
theorem ofPath_eq_ofSegments (path : String) : ofPath path = ofSegments (Path.segments path) := by
  rw [ofPath, table, resolveIn_cons_literal [] (by decide) (by decide),
    resolveIn_cons_literal ["files"] (by decide) (by decide),
    resolveIn_cons_star ["files"] "*path" (by decide) (by decide) (by decide),
    resolveIn_cons_literal ["recent"] (by decide) (by decide),
    resolveIn_cons_literal ["uploads"] (by decide) (by decide),
    resolveIn_cons_literal ["trash"] (by decide) (by decide),
    resolveIn_cons_literal ["settings"] (by decide) (by decide)]
  have hunknown : resolveIn [] path = .notFound (Path.absolute (Path.segments path)) := rfl
  rw [hunknown]
  match Path.segments path with
  | [] => rfl
  | [name] => simp [ofSegments]
  | name :: first :: more =>
    simp [ofSegments, Capture.path, Path.absolute, eq_comm]

/-- The page at a path is the page at its normal form. -/
theorem ofPath_normalize (path : String) : ofPath (Path.normalize path) = ofPath path := by
  rw [ofPath_eq_ofSegments, Path.segments_normalize, ← ofPath_eq_ofSegments]

/-- The page at a path that was written from segments is the page for these. -/
theorem ofPath_absolute {ss : List String} (h : ∀ s ∈ ss, Path.IsSegment s) :
    ofPath (Path.absolute ss) = ofSegments ss := by
  rw [ofPath_eq_ofSegments, Path.segments_absolute h]

end DriveClient.Route
