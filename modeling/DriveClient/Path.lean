/-!
# Location paths

A path is read as its segments: the pieces between slashes that are not empty. Two paths with the
same segments are the same place, and the normal form of a path writes its segments with exactly
one slash before each.

The pieces are those of `List.splitOn` (`pieces_eq_splitOn`), so cutting a text at its slashes and
gluing the pieces together again are inverse to each other (`glue_pieces`, `pieces_glue`).
-/

namespace DriveClient.Path

/-! ## Pieces between slashes -/

/-- The text up to the first slash, and the pieces after it. -/
def cut : List Char → List Char × List (List Char)
  | [] => ([], [])
  | c :: rest =>
    if c = '/' then ([], (cut rest).1 :: (cut rest).2) else (c :: (cut rest).1, (cut rest).2)

/-- All pieces between slashes, the empty ones included. -/
def pieces (text : List Char) : List (List Char) := (cut text).1 :: (cut text).2

/-- Pieces with a slash between neighbours. -/
def glue : List (List Char) → List Char
  | [] => []
  | piece :: more => piece ++ more.flatMap ('/' :: ·)

theorem pieces_cons (c : Char) (rest : List Char) :
    pieces (c :: rest) =
      if c = '/' then [] :: pieces rest else (c :: (cut rest).1) :: (cut rest).2 := by
  unfold pieces
  rw [cut]
  split <;> rfl

theorem pieces_eq_splitOn (text : List Char) : pieces text = text.splitOn '/' := by
  induction text with
  | nil => rfl
  | cons c rest ih =>
    rw [pieces_cons, List.splitOn_cons_eq_if_modifyHead, ← ih]
    by_cases hc : c = '/'
    · rw [if_pos hc, if_pos (beq_iff_eq.2 hc)]
    · rw [if_neg hc, if_neg fun h => hc (beq_iff_eq.1 h)]
      rfl

theorem glue_eq_intercalate (ps : List (List Char)) : glue ps = ['/'].intercalate ps := by
  induction ps with
  | nil => rfl
  | cons first more ih =>
    cases more with
    | nil => simp [glue]
    | cons second rest =>
      rw [List.intercalate_cons_cons, ← ih]
      simp [glue]

theorem pieces_ne_nil (text : List Char) : pieces text ≠ [] := List.cons_ne_nil _ _

/-- Gluing the pieces together again gives the text back. -/
theorem glue_pieces (text : List Char) : glue (pieces text) = text := by
  rw [glue_eq_intercalate, pieces_eq_splitOn, List.intercalate_splitOn]

/-- No piece holds a slash. -/
theorem not_mem_of_mem_pieces {text piece : List Char} (h : piece ∈ pieces text) : '/' ∉ piece := by
  induction text generalizing piece with
  | nil =>
    simp only [pieces, cut, List.mem_singleton] at h
    simp [h]
  | cons c rest ih =>
    have hfirst : '/' ∉ (cut rest).1 := ih (by simp [pieces])
    rw [pieces_cons] at h
    split at h
    · rcases List.mem_cons.1 h with rfl | h
      · simp
      · exact ih h
    · rename_i hc
      rcases List.mem_cons.1 h with rfl | h
      · simpa [Ne.symm hc] using hfirst
      · exact ih (List.mem_cons_of_mem _ h)

/-- The pieces of glued pieces are those pieces, if there is one and none holds a slash. -/
theorem pieces_glue {ps : List (List Char)} (hne : ps ≠ []) (h : ∀ piece ∈ ps, '/' ∉ piece) :
    pieces (glue ps) = ps := by
  rw [pieces_eq_splitOn, glue_eq_intercalate, List.splitOn_intercalate '/' h hne]

/-- A slash ends one piece and begins another, wherever it stands. -/
theorem pieces_append_cons_slash (text rest : List Char) :
    pieces (text ++ '/' :: rest) = pieces text ++ pieces rest := by
  rw [pieces_eq_splitOn, pieces_eq_splitOn, pieces_eq_splitOn, List.splitOn_append_cons_self]

/-! ## Segments -/

/-- The pieces of a path that are not empty. -/
def segments (path : String) : List String :=
  ((pieces path.toList).filter (· ≠ [])).map String.ofList

/-- Segments with a slash between neighbours. -/
def join (segments : List String) : String := String.ofList (glue (segments.map String.toList))

/-- The absolute path of some segments, which is a lone slash when there are none. -/
def absolute (segments : List String) : String := "/" ++ join segments

/-- The normal form of a path: one leading slash, none doubled, none at the end. -/
def normalize (path : String) : String := absolute (segments path)

/-! ## Links -/

/-- Whether a link to `href` is active at `current`: the same place or one below it. A link to the
root is active at the root only. -/
def isLinkActive (current href : String) : Bool :=
  if normalize href = "/" then normalize current = "/"
  else normalize current = normalize href ||
    ((normalize href).toList ++ ['/']).isPrefixOf (normalize current).toList

end DriveClient.Path
