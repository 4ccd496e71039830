import DriveClient.Proofs.Route.Resolution

/-!
# Paths of pages

`toPath` writes a page as a path and `ofPath` reads the page at a path. Writing the page at a path
gives the normal form of that path, except that `/files` is written as the root (`toPath_ofPath`).
So the pages at paths are exactly those which are read back from what is written for them, and two
paths lead to the same page only if they have the same normal form or are both the root folder.
-/

namespace DriveClient.Route

/-! ## Writing -/

theorem toPath_folder (path : String) :
    (folder path).toPath =
      if Path.normalize path = "/" then "/" else "/files" ++ Path.normalize path := rfl

/-- A folder below the root is written behind `files`. -/
theorem toPath_folder_absolute {first : String} {more : List String}
    (h : ∀ s ∈ first :: more, Path.IsSegment s) :
    (folder (Path.absolute (first :: more))).toPath = Path.absolute ("files" :: first :: more) := by
  have hroot : ¬Path.normalize (Path.absolute (first :: more)) = "/" := by
    rw [Path.normalize_eq_root_iff, Path.segments_absolute h]
    exact List.cons_ne_nil first more
  rw [toPath_folder, if_neg hroot, Path.normalize_absolute h, Path.absolute_cons_cons]
  rfl

/-- The page for some segments is written with these segments, except for `files` alone. -/
theorem toPath_ofSegments {ss : List String} (h : ∀ s ∈ ss, Path.IsSegment s) :
    (ofSegments ss).toPath = if ss = ["files"] then "/" else Path.absolute ss := by
  match ss with
  | [] => rfl
  | [name] =>
    by_cases hfiles : name = "files"
    · subst hfiles
      rfl
    by_cases hrecent : name = "recent"
    · subst hrecent
      rfl
    by_cases huploads : name = "uploads"
    · subst huploads
      rfl
    by_cases htrash : name = "trash"
    · subst htrash
      rfl
    by_cases hsettings : name = "settings"
    · subst hsettings
      rfl
    simp [ofSegments, toPath, hfiles, hrecent, huploads, htrash, hsettings]
  | name :: first :: more =>
    rw [ofSegments, if_neg (show name :: first :: more ≠ ["files"] by simp)]
    by_cases hfiles : name = "files"
    · subst hfiles
      rw [if_pos rfl]
      exact toPath_folder_absolute fun s hs => h s (List.mem_cons_of_mem _ hs)
    · rw [if_neg hfiles]
      rfl

theorem normalize_eq_files_iff {path : String} :
    Path.normalize path = "/files" ↔ Path.segments path = ["files"] := by
  have hsegment : ∀ s ∈ ["files"], Path.IsSegment s := by
    intro s hs
    rw [List.mem_singleton] at hs
    subst hs
    exact ⟨by decide, by decide⟩
  have hfiles : "/files" = Path.absolute ["files"] := by decide
  rw [hfiles, Path.normalize_eq_absolute_iff hsegment]

/-- The page at a path is written as the normal form of the path, except that the root folder is
always written as the root. -/
theorem toPath_ofPath (path : String) :
    (ofPath path).toPath =
      if Path.normalize path = "/files" then "/" else Path.normalize path := by
  rw [ofPath_eq_ofSegments, toPath_ofSegments fun _ => Path.isSegment_of_mem_segments]
  simp only [normalize_eq_files_iff]
  rfl

/-! ## Reading what was written -/

/-- The page at a path is read back from what is written for it. -/
theorem ofPath_toPath_ofPath (path : String) : ofPath (ofPath path).toPath = ofPath path := by
  rw [toPath_ofPath]
  split
  · rename_i hfiles
    rw [← ofPath_normalize path, hfiles]
    decide
  · exact ofPath_normalize path

theorem ofPath_toPath_eq_self_iff (route : Route) :
    ofPath route.toPath = route ↔ ∃ path, route = ofPath path := by
  constructor
  · intro h
    exact ⟨route.toPath, h.symm⟩
  · intro h
    obtain ⟨path, hroute⟩ := h
    rw [hroute]
    exact ofPath_toPath_ofPath path

/-- Both paths of the root folder lead home. -/
theorem ofPath_eq_home {path : String} (h : Path.normalize path ∈ ["/", "/files"]) :
    ofPath path = home := by
  rw [← ofPath_normalize path]
  rw [List.mem_cons, List.mem_singleton] at h
  rcases h with h | h
  · rw [h]
    decide
  · rw [h]
    decide

theorem ofPath_eq_ofPath_iff {p q : String} :
    ofPath p = ofPath q ↔
      Path.normalize p = Path.normalize q ∨
        Path.normalize p ∈ ["/", "/files"] ∧ Path.normalize q ∈ ["/", "/files"] := by
  constructor
  · intro h
    -- equal pages are written alike, so the normal forms agree unless one of them is `/files`
    have hpath : (ofPath p).toPath = (ofPath q).toPath := by rw [h]
    rw [toPath_ofPath, toPath_ofPath] at hpath
    by_cases hp : Path.normalize p = "/files"
    · by_cases hq : Path.normalize q = "/files"
      · exact .inl (hp.trans hq.symm)
      · rw [if_pos hp, if_neg hq] at hpath
        exact .inr ⟨by simp [hp], by simp [← hpath]⟩
    · by_cases hq : Path.normalize q = "/files"
      · rw [if_neg hp, if_pos hq] at hpath
        exact .inr ⟨by simp [hpath], by simp [hq]⟩
      · rw [if_neg hp, if_neg hq] at hpath
        exact .inl hpath
  · intro h
    cases h with
    | inl hnormal => rw [← ofPath_normalize p, hnormal, ofPath_normalize]
    | inr hroot => rw [ofPath_eq_home hroot.1, ofPath_eq_home hroot.2]

/-- A folder is read back with its path in normal form. -/
theorem ofPath_toPath_folder (path : String) :
    ofPath (folder path).toPath = folder (Path.normalize path) := by
  have hsegments : ∀ s ∈ Path.segments path, Path.IsSegment s :=
    fun _ => Path.isSegment_of_mem_segments
  -- only the normal form of the folder is written, so the folder may be taken to be one
  have hnormal : (folder path).toPath = (folder (Path.normalize path)).toPath := by
    rw [toPath_folder, toPath_folder, Path.normalize_normalize]
  rw [hnormal, Path.normalize]
  cases hss : Path.segments path with
  | nil => decide
  | cons first more =>
    rw [hss] at hsegments
    have hall : ∀ s ∈ "files" :: first :: more, Path.IsSegment s := by
      rw [List.forall_mem_cons]
      exact ⟨⟨by decide, by decide⟩, hsegments⟩
    rw [toPath_folder_absolute hsegments, ofPath_absolute hall, ofSegments, if_pos rfl]

/-! ## The codec -/

/-- **Writing and reading pages.** For all paths, pages and folders: the page at a path is written
as the normal form of the path, or as the root if that is `/files`; a page is read back from what is
written for it just when it is the page at some path; two paths lead to the same page just when they
have the same normal form or are both paths of the root folder; and a folder is read back with its
path in normal form. -/
theorem path_codec :
    (∀ path, (ofPath path).toPath =
      if Path.normalize path = "/files" then "/" else Path.normalize path) ∧
    (∀ route, ofPath route.toPath = route ↔ ∃ path, route = ofPath path) ∧
    (∀ p q, ofPath p = ofPath q ↔
      Path.normalize p = Path.normalize q ∨
        (Path.normalize p ∈ ["/", "/files"] ∧ Path.normalize q ∈ ["/", "/files"])) ∧
    ∀ path, ofPath (folder path).toPath = folder (Path.normalize path) :=
  ⟨toPath_ofPath, ofPath_toPath_eq_self_iff, fun _ _ => ofPath_eq_ofPath_iff, ofPath_toPath_folder⟩

end DriveClient.Route
