import DriveClient.Path

/-!
# Segments and normal forms

The normal form of a path writes the segments of the path and nothing else, and the segments can be
read back from it. Everything about normal forms is therefore a fact about lists of segments:

* `segments_absolute`: the segments of a path that was written from segments are those segments;
* `segments_normalize`, `normalize_normalize`: a path and its normal form have the same segments,
  and a normal form is its own normal form;
* `normalize_eq_absolute_iff`, `normalize_eq_normalize_iff`: a normal form tells exactly which
  segments a path has;
* `normalize_eq_self_iff`: a text is a normal form just when it is a slash, and behind it nothing or
  pieces that are not empty.
-/

namespace DriveClient.Path

/-! ## What can be a segment -/

/-- A text that can be a segment of a path: it is not empty and holds no slash. -/
structure IsSegment (text : String) : Prop where
  ne_empty : text ≠ ""
  slash_not_mem : '/' ∉ text.toList

theorem isSegment_of_mem_segments {path segment : String} (h : segment ∈ segments path) :
    IsSegment segment := by
  rw [segments, List.mem_map] at h
  obtain ⟨piece, hpiece, rfl⟩ := h
  rw [List.mem_filter] at hpiece
  have hne : piece ≠ [] := by simpa using hpiece.2
  refine ⟨fun hempty => hne ?_, ?_⟩
  · rwa [String.ofList_eq_empty_iff] at hempty
  · rw [String.toList_ofList]
    exact not_mem_of_mem_pieces hpiece.1

/-- The segments of a path are its pieces, except for the empty ones. -/
theorem mem_segments_iff {path text : String} :
    text ∈ segments path ↔ text ≠ "" ∧ text.toList ∈ pieces path.toList := by
  rw [segments, List.mem_map]
  constructor
  · rintro ⟨piece, hpiece, rfl⟩
    rw [List.mem_filter, decide_eq_true_iff] at hpiece
    rw [ne_eq, String.ofList_eq_empty_iff, String.toList_ofList]
    exact ⟨hpiece.2, hpiece.1⟩
  · rintro ⟨hne, hpiece⟩
    refine ⟨text.toList, List.mem_filter.2 ⟨hpiece, ?_⟩, String.ofList_toList⟩
    simpa using hne

/-- The segments on both sides of a slash are the segments of the whole. -/
theorem segments_append_slash (path rest : String) :
    segments (path ++ "/" ++ rest) = segments path ++ segments rest := by
  have htext : (path ++ "/" ++ rest).toList = path.toList ++ '/' :: rest.toList := by simp
  rw [segments, htext, pieces_append_cons_slash, List.filter_append, List.map_append, ← segments,
    ← segments]

/-- A slash in front leaves one empty piece, which is no segment. -/
theorem segments_of_slash {path : String} {rest : List Char} (h : path.toList = '/' :: rest) :
    segments path = ((pieces rest).filter (· ≠ [])).map String.ofList := by
  rw [segments, h, pieces_cons, if_pos rfl, List.filter_cons, if_neg (by decide)]

theorem filter_ne_nil {ps : List (List Char)} (h : ∀ piece ∈ ps, piece ≠ []) :
    ps.filter (· ≠ []) = ps :=
  List.filter_eq_self.2 fun piece hpiece => decide_eq_true (h piece hpiece)

/-! ## Paths written from segments -/

section
variable {ss ts : List String}

theorem toList_absolute (ss : List String) :
    (absolute ss).toList = '/' :: glue (ss.map String.toList) := by
  have hslash : "/".toList = ['/'] := rfl
  rw [absolute, join, String.toList_append, hslash, String.toList_ofList, List.singleton_append]

/-- The path of several segments begins with the first one. -/
theorem absolute_cons_cons (first second : String) (more : List String) :
    absolute (first :: second :: more) = "/" ++ first ++ absolute (second :: more) := by
  apply String.ext
  simp [toList_absolute, glue]

theorem pieces_glue_segments (hne : ss ≠ []) (h : ∀ s ∈ ss, IsSegment s) :
    pieces (glue (ss.map String.toList)) = ss.map String.toList := by
  apply pieces_glue
  · rwa [ne_eq, List.map_eq_nil_iff]
  · intro piece hpiece
    obtain ⟨s, hs, rfl⟩ := List.mem_map.1 hpiece
    exact (h s hs).slash_not_mem

theorem ne_nil_of_mem_segments (h : ∀ s ∈ ss, IsSegment s) :
    ∀ piece ∈ ss.map String.toList, piece ≠ [] := by
  intro piece hpiece
  obtain ⟨s, hs, rfl⟩ := List.mem_map.1 hpiece
  have hne := (h s hs).ne_empty
  rwa [ne_eq, String.toList_eq_nil_iff]

/-- The segments of a path that was written from segments are those segments. -/
theorem segments_absolute (h : ∀ s ∈ ss, IsSegment s) : segments (absolute ss) = ss := by
  rw [segments_of_slash (toList_absolute ss)]
  cases ss with
  | nil => rfl
  | cons first more =>
    rw [pieces_glue_segments (List.cons_ne_nil first more) h,
      filter_ne_nil (ne_nil_of_mem_segments h), List.map_map]
    simp [Function.comp_def]

theorem absolute_inj (hs : ∀ s ∈ ss, IsSegment s) (ht : ∀ t ∈ ts, IsSegment t) :
    absolute ss = absolute ts ↔ ss = ts := by
  constructor
  · intro h
    rw [← segments_absolute hs, h, segments_absolute ht]
  · rintro rfl
    rfl

end

/-! ## Normal forms -/

/-- A path and its normal form have the same segments. -/
theorem segments_normalize (path : String) : segments (normalize path) = segments path :=
  segments_absolute fun _ h => isSegment_of_mem_segments h

/-- A normal form is its own normal form. -/
theorem normalize_normalize (path : String) : normalize (normalize path) = normalize path := by
  rw [normalize, segments_normalize, ← normalize]

/-- What is written from segments is a normal form. -/
theorem normalize_absolute {ss : List String} (h : ∀ s ∈ ss, IsSegment s) :
    normalize (absolute ss) = absolute ss := by
  rw [normalize, segments_absolute h]

/-- A path has the normal form written from some segments just when these are its segments. -/
theorem normalize_eq_absolute_iff {path : String} {ss : List String} (h : ∀ s ∈ ss, IsSegment s) :
    normalize path = absolute ss ↔ segments path = ss :=
  absolute_inj (fun _ hs => isSegment_of_mem_segments hs) h

/-- Two paths have the same normal form just when they have the same segments. -/
theorem normalize_eq_normalize_iff {p q : String} :
    normalize p = normalize q ↔ segments p = segments q :=
  normalize_eq_absolute_iff fun _ h => isSegment_of_mem_segments h

/-- The normal form is a lone slash just when the path has no segment. -/
theorem normalize_eq_root_iff {path : String} : normalize path = "/" ↔ segments path = [] :=
  @normalize_eq_absolute_iff path [] (by simp)

/-! ## Normal forms as texts -/

/-- A normal form is a slash, and behind it nothing or pieces that are not empty. -/
theorem normalize_eq_self_iff {path : String} :
    normalize path = path ↔
      ∃ rest, path.toList = '/' :: rest ∧ (rest = [] ∨ ∀ piece ∈ pieces rest, piece ≠ []) := by
  constructor
  · intro h
    have hsegments : ∀ s ∈ segments path, IsSegment s := fun _ => isSegment_of_mem_segments
    refine ⟨glue ((segments path).map String.toList), ?_, ?_⟩
    · rw [← toList_absolute, ← normalize, h]
    · by_cases hnone : segments path = []
      · exact .inl (by rw [hnone]; rfl)
      · rw [pieces_glue_segments hnone hsegments]
        exact .inr (ne_nil_of_mem_segments hsegments)
  · rintro ⟨rest, hpath, hrest⟩
    apply String.ext
    rw [normalize, toList_absolute, segments_of_slash hpath, hpath, List.map_map]
    rcases hrest with rfl | hrest
    · rfl
    · -- nothing is dropped, so that gluing gives the text back
      have hsame : String.toList ∘ String.ofList = id := funext fun _ => String.toList_ofList
      rw [filter_ne_nil hrest, hsame, List.map_id, glue_pieces]

/-- Where no piece is empty, no slash comes first. -/
theorem head?_ne_slash {text : List Char} (h : text = [] ∨ ∀ piece ∈ pieces text, piece ≠ []) :
    text.head? ≠ some '/' := by
  intro hslash
  obtain ⟨more, rfl⟩ := List.head?_eq_some_iff.1 hslash
  rcases h with h | h
  · exact absurd h (List.cons_ne_nil '/' more)
  · rw [pieces_cons, if_pos rfl] at h
    exact h [] (List.mem_cons_self ..) rfl

end DriveClient.Path
