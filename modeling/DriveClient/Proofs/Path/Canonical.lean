import DriveClient.Proofs.Path.Segments

/-!
# Canonical forms

What the normal forms are can be said of a text without cutting it: the lone slash, and every text
with a slash in front, none at its end and no two side by side (`IsCanonical`). Behind the first
slash of a text, an empty piece lies just where a slash ends the text or meets another one
(`nil_mem_pieces_iff`). So these texts are the ones that are their own normal form
(`isCanonical_iff_normalize_eq`), and each path has one of them, which tells its segments and nothing
else (`normal_forms_canonical`).
-/

namespace DriveClient.Path

/-- The segments of a path are its parts between slashes, without the empty ones. -/
theorem segments_eq_filter_split (path : String) :
    segments path = ((path.split '/').toList.map String.Slice.copy).filter (· ≠ "") := by
  have hempty : (fun piece : List Char => decide (piece ≠ [])) =
      (fun text : String => decide (text ≠ "")) ∘ String.ofList := by
    funext piece
    simp
  rw [segments, hempty, ← List.filter_map, pieces_eq_splitOn, String.toList_split_char]

/-! ## Where a piece is empty -/

theorem cut_fst_eq_nil_iff (text : List Char) :
    (cut text).1 = [] ↔ text = [] ∨ text.head? = some '/' := by
  cases text with
  | nil => simp [cut]
  | cons c rest =>
    rw [cut]
    by_cases hc : c = '/'
    · simp [hc]
    · simp [hc]

theorem getLast?_cons_eq_slash_iff (c : Char) (rest : List Char) :
    (c :: rest).getLast? = some '/' ↔ rest = [] ∧ c = '/' ∨ rest.getLast? = some '/' := by
  cases rest with
  | nil => simp
  | cons d more => simp [List.getLast?_cons_cons]

/-- Behind the first piece, one is empty just where a slash ends the text or meets another one. -/
theorem nil_mem_cut_iff (text : List Char) :
    [] ∈ (cut text).2 ↔ text.getLast? = some '/' ∨ ['/', '/'] <:+: text := by
  induction text with
  | nil => simp [cut]
  | cons c rest ih =>
    rw [getLast?_cons_eq_slash_iff, List.infix_cons_iff, List.cons_prefix_cons, cut]
    by_cases hc : c = '/'
    · -- the piece that this slash begins is empty if the text ends or goes on with a slash
      rw [if_pos hc, List.mem_cons, eq_comm, cut_fst_eq_nil_iff, ih,
        List.singleton_prefix_iff_head?_eq_some]
      grind
    · rw [if_neg hc, ih]
      grind

/-- Behind a slash, a piece is empty just where a slash ends the text or meets another one. -/
theorem nil_mem_pieces_iff (rest : List Char) :
    [] ∈ pieces rest ↔ ('/' :: rest).getLast? = some '/' ∨ ['/', '/'] <:+: '/' :: rest := by
  have hcut : (cut ('/' :: rest)).2 = pieces rest := by
    rw [cut, if_pos rfl, pieces]
  rw [← hcut, nil_mem_cut_iff]

/-! ## The shape of a normal form -/

/-- The shape of a normal form: a lone slash, or a text with a slash in front, none at its end and no
two side by side. -/
inductive IsCanonical (path : String) : Prop
  | root (lone : path = "/")
  | below (leading : path.startsWith '/' = true) (closed : path.endsWith '/' = false)
    (single : path.contains "//" = false)

theorem isCanonical_iff_exists_toList {path : String} :
    IsCanonical path ↔
      ∃ rest, path.toList = '/' :: rest ∧ (rest = [] ∨ ∀ piece ∈ pieces rest, piece ≠ []) := by
  constructor
  · intro h
    cases h with
    | root lone => exact ⟨[], by rw [lone]; rfl, .inl rfl⟩
    | below leading closed single =>
      rw [String.startsWith_char_eq_head?, beq_iff_eq, List.head?_eq_some_iff] at leading
      obtain ⟨rest, hpath⟩ := leading
      rw [String.endsWith_char_eq_getLast?, beq_eq_false_iff_ne, hpath] at closed
      rw [String.contains_string_eq_false_iff, hpath] at single
      refine ⟨rest, hpath, .inr ?_⟩
      rw [List.forall_mem_ne', nil_mem_pieces_iff]
      exact not_or.2 ⟨closed, single⟩
  · rintro ⟨rest, hpath, hrest⟩
    rcases hrest with rfl | hrest
    · exact .root (String.ext hpath)
    · rw [List.forall_mem_ne', nil_mem_pieces_iff, not_or, ← hpath] at hrest
      refine .below ?_ ?_ ?_
      · rw [String.startsWith_char_eq_head?, hpath]
        rfl
      · rw [String.endsWith_char_eq_getLast?, beq_eq_false_iff_ne]
        exact hrest.1
      · rw [String.contains_string_eq_false_iff]
        exact hrest.2

/-- The texts of this shape are the ones that are their own normal form. -/
theorem isCanonical_iff_normalize_eq {path : String} :
    IsCanonical path ↔ normalize path = path := by
  rw [isCanonical_iff_exists_toList, normalize_eq_self_iff]

theorem isCanonical_normalize (path : String) : IsCanonical (normalize path) :=
  isCanonical_iff_normalize_eq.2 (normalize_normalize path)

/-- The texts of this shape are the normal forms of paths, and no others are. -/
theorem exists_normalize_eq_iff {text : String} :
    (∃ path, normalize path = text) ↔ IsCanonical text := by
  constructor
  · rintro ⟨path, rfl⟩
    exact isCanonical_normalize path
  · intro h
    exact ⟨text, isCanonical_iff_normalize_eq.1 h⟩

theorem segments_normalize_append_slash (p q : String) :
    segments (normalize (p ++ "/" ++ q)) = segments p ++ segments q := by
  rw [segments_normalize, segments_append_slash]

/-- **Canonical forms.** The segments of a path are its parts between slashes, without the empty ones.
A normal form has a shape that is seen on the text itself, and every text of that shape is its own
normal form: normalizing twice is normalizing once, and the normal forms are the texts of that shape.
Two paths have the same normal form just when they have the same segments, and that of two paths with
a slash between them has the segments of the one, followed by those of the other. -/
theorem normal_forms_canonical :
    (∀ path, segments path =
      ((path.split '/').toList.map String.Slice.copy).filter (· ≠ "")) ∧
    (∀ path, IsCanonical (normalize path)) ∧
    (∀ path, IsCanonical path ↔ normalize path = path) ∧
    (∀ path, normalize (normalize path) = normalize path) ∧
    (∀ text, (∃ path, normalize path = text) ↔ IsCanonical text) ∧
    (∀ p q, normalize p = normalize q ↔ segments p = segments q) ∧
    ∀ p q, segments (normalize (p ++ "/" ++ q)) = segments p ++ segments q :=
  ⟨segments_eq_filter_split, isCanonical_normalize, fun _ => isCanonical_iff_normalize_eq,
    normalize_normalize, fun _ => exists_normalize_eq_iff, fun _ _ => normalize_eq_normalize_iff,
    segments_normalize_append_slash⟩

/-- No segment, one and two, with slashes missing and slashes too many. -/
example : ["", "//", "/uploads/", "files//docs/"].map normalize =
    ["/", "/", "/uploads", "/files/docs"] := by decide

end DriveClient.Path
