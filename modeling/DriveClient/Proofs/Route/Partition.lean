import DriveClient.Proofs.Route.Resolution

/-!
# The table as a partition of all paths

Each place with a page of its own is a list of segments (`Listed`), and every other path leads to the
page for unknown places. No path is accepted by two rows, because the patterns of any two rows part
at a literal segment or at the end of one of them (`apart`). The order of the rows is therefore
without effect (`resolveIn_perm`).
-/

namespace DriveClient

/-! ## Patterns that share no path -/

namespace Pattern

/-- Whether two patterns part: at a literal segment in which they differ, or where one of them ends
and the other does not. A star before that may stand for anything, so that nothing is said. -/
def apart : List String → List String → Bool
  | [], [] => false
  | [], _ :: _ => true
  | _ :: _, [] => true
  | expected :: later, other :: others =>
    if isStar expected ∨ isStar other then false
    else decide (expected ≠ other) || apart later others

/-- A pattern that is not empty does not match the path without segments. -/
theorem matchSegments_cons_nil (expected : String) (later : List String) :
    matchSegments (expected :: later) [] = none := by
  rw [matchSegments]
  split
  · simp
  · rfl

/-- No path matches two patterns that part. -/
theorem matchSegments_of_apart {p q : List String} (h : apart p q = true) (path : List String) :
    matchSegments p path = none ∨ matchSegments q path = none := by
  induction p generalizing q path with
  | nil =>
    cases q with
    | nil => simp [apart] at h
    | cons other others =>
      cases path with
      | nil => exact .inr (matchSegments_cons_nil other others)
      | cons segment rest => exact .inl rfl
  | cons expected later ih =>
    cases q with
    | nil =>
      cases path with
      | nil => exact .inl (matchSegments_cons_nil expected later)
      | cons segment rest => exact .inr rfl
    | cons other others =>
      cases path with
      | nil => exact .inl (matchSegments_cons_nil expected later)
      | cons segment rest =>
        rw [apart] at h
        split at h
        · exact absurd h (by decide)
        · rename_i hliteral
          obtain ⟨hexpected, hother⟩ := not_or.1 hliteral
          rw [matchSegments, if_neg hexpected, matchSegments, if_neg hother]
          -- a segment that both ask for is the same in both, so they part behind it
          by_cases hs : segment = expected
          · by_cases ho : segment = other
            · rw [if_pos hs, if_pos ho]
              have hlater : apart later others = true := by simpa [← hs, ← ho] using h
              exact ih hlater rest
            · exact .inr (if_neg ho)
          · exact .inl (if_neg hs)

end Pattern

namespace Route

/-! ## One row at a time -/

/-- A row gives the same page for a path and for its normal form. -/
theorem Entry.resolve?_normalize (entry : Entry) (path : String) :
    entry.resolve? (Path.normalize path) = entry.resolve? path := by
  rw [Entry.resolve?, Entry.resolve?, Pattern.match?, Pattern.match?, Path.segments_normalize]

/-- No path is accepted by two rows whose patterns part. -/
theorem Entry.resolve?_of_apart {entry other : Entry}
    (h : Pattern.apart (Path.segments entry.pattern) (Path.segments other.pattern) = true)
    (path : String) : entry.resolve? path = none ∨ other.resolve? path = none := by
  unfold Entry.resolve? Pattern.match?
  rcases Pattern.matchSegments_of_apart h (Path.segments path) with hnone | hnone
  · exact .inl (by rw [hnone, Option.map_none])
  · exact .inr (by rw [hnone, Option.map_none])

/-- No path is accepted by two rows of the table. -/
theorem table_exclusive (path : String) :
    table.Pairwise fun entry other => entry.resolve? path = none ∨ other.resolve? path = none := by
  have hapart : table.Pairwise fun entry other =>
      Pattern.apart (Path.segments entry.pattern) (Path.segments other.pattern) = true := by
    decide
  exact hapart.imp fun h => Entry.resolve?_of_apart h path

/-! ## The order of the rows -/

/-- What is found first is found in any order, if nothing else can be found. -/
theorem findSome?_perm {α β : Type} {f : α → Option β} {as bs : List α} (h : as.Perm bs)
    (hexclusive : as.Pairwise fun a b => f a = none ∨ f b = none) :
    as.findSome? f = bs.findSome? f := by
  induction h with
  | nil => rfl
  | cons a _ ih =>
    rw [List.findSome?_cons, List.findSome?_cons, ih (List.pairwise_cons.1 hexclusive).2]
  | swap a b rest =>
    have hpair : f b = none ∨ f a = none :=
      (List.pairwise_cons.1 hexclusive).1 a (List.mem_cons_self ..)
    simp only [List.findSome?_cons]
    rcases hpair with hnone | hnone
    · rw [hnone]
    · rw [hnone]
  | trans hfirst _ ihfirst ihsecond =>
    rw [ihfirst hexclusive]
    exact ihsecond ((hfirst.pairwise_iff fun hor => hor.symm).1 hexclusive)

/-- Rows that share no path give the same page in any order. -/
theorem resolveIn_perm {rows others : List Entry} (h : others.Perm rows) (path : String)
    (hexclusive : rows.Pairwise fun entry other =>
      entry.resolve? (Path.normalize path) = none ∨ other.resolve? (Path.normalize path) = none) :
    resolveIn others path = resolveIn rows path := by
  rw [resolveIn, resolveIn, findSome?_perm h.symm hexclusive]

/-! ## The places with a page -/

/-- The places that have a page of their own, by their segments. -/
inductive Listed : List String → Route → Prop where
  | root : Listed [] home
  | files : Listed ["files"] home
  | folder {rest : List String} (h : rest ≠ []) :
    Listed ("files" :: rest) (folder ("/" ++ Path.join rest))
  | recent : Listed ["recent"] recentFiles
  | uploads : Listed ["uploads"] .uploads
  | trash : Listed ["trash"] .trash
  | settings : Listed ["settings"] .settings

/-- A listed place has the page that it is listed with. -/
theorem Listed.ofSegments_eq {ss : List String} {page : Route} (h : Listed ss page) :
    ofSegments ss = page := by
  cases h with
  | root => rfl
  | files => rfl
  | @folder rest hrest =>
    cases rest with
    | nil => exact absurd rfl hrest
    | cons first more => rfl
  | recent => rfl
  | uploads => rfl
  | trash => rfl
  | settings => rfl

/-- A place that is not listed has the page for unknown places. -/
theorem ofSegments_of_not_listed {ss : List String} (h : ∀ page, ¬Listed ss page) :
    ofSegments ss = .notFound (Path.absolute ss) := by
  match ss with
  | [] => exact absurd .root (h home)
  | [name] =>
    have hname : ∀ {listed : String} {page : Route}, Listed [listed] page → name ≠ listed := by
      rintro listed page hlisted rfl
      exact h page hlisted
    rw [ofSegments, if_neg (hname .files), if_neg (hname .recent), if_neg (hname .uploads),
      if_neg (hname .trash), if_neg (hname .settings)]
  | name :: first :: more =>
    have hname : name ≠ "files" := by
      rintro rfl
      exact h _ (.folder (List.cons_ne_nil first more))
    rw [ofSegments, if_neg hname]

/-- Nothing but a folder is listed below another place. -/
theorem Listed.eq_files_of_below {name first : String} {more : List String} {page : Route}
    (h : Listed (name :: first :: more) page) : name = "files" := by
  cases h with
  | folder => rfl

/-- **The table divides all paths.** For every path: a listed place has the page that it is listed
with, and any other path leads to the page for unknown places, which names its normal form; so does
every path with a segment behind a name other than `files`. At most one row of the table accepts the
path, any order of the rows gives the same page, and no row tells a path from its normal form. -/
theorem table_partitions (path : String) :
    (∀ page, Listed (Path.segments path) page → ofPath path = page) ∧
    ((∀ page, ¬Listed (Path.segments path) page) →
      ofPath path = .notFound (Path.normalize path)) ∧
    (∀ name first more, name ≠ "files" → Path.segments path = name :: first :: more →
      ofPath path = .notFound (Path.normalize path)) ∧
    (table.Pairwise fun entry other =>
      entry.resolve? path = none ∨ other.resolve? path = none) ∧
    (∀ rows, rows.Perm table → resolveIn rows path = ofPath path) ∧
    ∀ entry ∈ table, entry.resolve? (Path.normalize path) = entry.resolve? path := by
  have hunknown : (∀ page, ¬Listed (Path.segments path) page) →
      ofPath path = .notFound (Path.normalize path) := by
    intro hnone
    rw [ofPath_eq_ofSegments, ofSegments_of_not_listed hnone, ← Path.normalize]
  refine ⟨?_, hunknown, ?_, table_exclusive path, ?_, ?_⟩
  · intro page hlisted
    rw [ofPath_eq_ofSegments, hlisted.ofSegments_eq]
  · intro name first more hname hsegments
    refine hunknown fun page hlisted => hname ?_
    rw [hsegments] at hlisted
    exact hlisted.eq_files_of_below
  · intro rows hrows
    exact resolveIn_perm hrows path (table_exclusive _)
  · intro entry _
    exact entry.resolve?_normalize path

end Route

end DriveClient
