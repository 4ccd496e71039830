import DriveClient.Proofs.Path.Segments

/-!
# Links in terms of segments

Whether a link is active is decided by comparing normal forms as texts. Since a text is cut at every
slash (`segments_append_slash`) and a path that goes on below another one is written behind it
(`absolute_append`), this is a comparison of segments: a link to the root is active at the root only
(`isLinkActive_root`), and any other link where the path begins with the segments of its address
(`isLinkActive_below`). Activity is therefore an order on places (`activity_orders_places`).
-/

namespace DriveClient.Path

/-! ## Joining and appending -/

/-- Segments are read back from the text that joins them. -/
theorem segments_join {ss : List String} (h : ∀ s ∈ ss, IsSegment s) : segments (join ss) = ss := by
  have habsolute : absolute ss = "" ++ "/" ++ join ss := by
    rw [String.empty_append, absolute]
  have hempty : segments "" = [] := rfl
  have hsegments := segments_absolute h
  rwa [habsolute, segments_append_slash, hempty, List.nil_append] at hsegments

/-- The path of some segments is written behind the path of those before them. -/
theorem absolute_append {ss ts : List String} (hs : ss ≠ []) (ht : ts ≠ []) :
    absolute (ss ++ ts) = absolute ss ++ absolute ts := by
  induction ss with
  | nil => exact absurd rfl hs
  | cons first more ih =>
    cases more with
    | nil =>
      obtain ⟨second, rest, rfl⟩ := List.exists_cons_of_ne_nil ht
      have hfirst : absolute [first] = "/" ++ first := by
        apply String.ext
        simp [toList_absolute, glue]
      rw [List.cons_append, List.nil_append, absolute_cons_cons, hfirst]
    | cons second rest =>
      have hmore := ih (List.cons_ne_nil second rest)
      rw [List.cons_append, List.cons_append, absolute_cons_cons, absolute_cons_cons,
        ← List.cons_append, hmore, ← String.append_assoc]

/-! ## Activity -/

variable {href : String}

/-- A link to the root is active at the root only. -/
theorem isLinkActive_root (h : segments href = []) (current : String) :
    isLinkActive current href = true ↔ segments current = [] := by
  rw [isLinkActive, if_pos (normalize_eq_root_iff.2 h), decide_eq_true_iff, normalize_eq_root_iff]

/-- A normal form goes on behind another one and a slash just when it has further segments. -/
theorem normalize_slash_prefix_iff (h : segments href ≠ []) (current : String) :
    (normalize href).toList ++ ['/'] <+: (normalize current).toList ↔
      ∃ below, below ≠ [] ∧ segments current = segments href ++ below := by
  constructor
  · rintro ⟨tail, htail⟩
    have hwhole : normalize current = normalize href ++ "/" ++ String.ofList tail := by
      apply String.ext
      simp [← htail]
    have hsegments : segments current = segments href ++ segments (String.ofList tail) := by
      rw [← segments_normalize current, hwhole, segments_append_slash, segments_normalize]
    refine ⟨_, ?_, hsegments⟩
    -- without further segments both normal forms are the same, and one is longer
    intro hnone
    rw [hnone, List.append_nil] at hsegments
    have hlength := congrArg List.length htail
    rw [normalize_eq_normalize_iff.2 hsegments] at hlength
    simp at hlength
  · rintro ⟨below, hbelow, hsegments⟩
    rw [normalize, normalize, hsegments, absolute_append h hbelow, String.toList_append,
      toList_absolute below, List.prefix_append_right_inj]
    exact ⟨_, rfl⟩

/-- Any other link is active where the path begins with the segments of its address. -/
theorem isLinkActive_below (h : segments href ≠ []) (current : String) :
    isLinkActive current href = true ↔ segments href <+: segments current := by
  have hroot : ¬normalize href = "/" := fun hc => h (normalize_eq_root_iff.1 hc)
  rw [isLinkActive, if_neg hroot, Bool.or_eq_true, decide_eq_true_iff, List.isPrefixOf_iff_prefix,
    normalize_eq_normalize_iff, normalize_slash_prefix_iff h]
  constructor
  · rintro (hsame | ⟨below, -, hsegments⟩)
    · exact ⟨[], by rw [List.append_nil, hsame]⟩
    · exact ⟨below, hsegments.symm⟩
  · rintro ⟨below, hsegments⟩
    by_cases hbelow : below = []
    · rw [hbelow, List.append_nil] at hsegments
      exact .inl hsegments.symm
    · exact .inr ⟨below, hbelow, hsegments.symm⟩

/-- A link of one segment is active where the path has that segment first. -/
theorem isLinkActive_single {own : String} (h : segments href = [own]) (current : String) :
    isLinkActive current href = true ↔ (segments current).head? = some own := by
  have hne : segments href ≠ [] := by
    rw [h]
    exact List.cons_ne_nil own []
  rw [isLinkActive_below hne, h, List.singleton_prefix_iff_head?_eq_some]

/-! ## The order of places -/

/-- Both are the root, or the address is not and the path begins with its segments. -/
theorem isLinkActive_iff_segments (current href : String) :
    isLinkActive current href = true ↔
      segments current = [] ∧ segments href = [] ∨
        segments href ≠ [] ∧ segments href <+: segments current := by
  by_cases h : segments href = []
  · rw [isLinkActive_root h]
    simp [h]
  · rw [isLinkActive_below h]
    simp [h]

/-- Without the case of the root this would be the order of prefixes. -/
theorem segments_prefix_of_isLinkActive {current href : String}
    (h : isLinkActive current href = true) : segments href <+: segments current := by
  rw [isLinkActive_iff_segments] at h
  rcases h with ⟨-, hhref⟩ | ⟨-, hprefix⟩
  · rw [hhref]
    exact List.nil_prefix
  · exact hprefix

theorem isLinkActive_self (path : String) : isLinkActive path path = true := by
  rw [isLinkActive_iff_segments]
  by_cases h : segments path = []
  · exact .inl ⟨h, h⟩
  · exact .inr ⟨h, List.prefix_rfl⟩

theorem isLinkActive_trans {current middle href : String}
    (hmiddle : isLinkActive current middle = true) (hhref : isLinkActive middle href = true) :
    isLinkActive current href = true := by
  have hprefix := segments_prefix_of_isLinkActive hmiddle
  rw [isLinkActive_iff_segments] at hmiddle hhref ⊢
  rcases hhref with ⟨hroot, hhref⟩ | ⟨hne, hhref⟩
  · -- what is active where the root is a link is the root
    rcases hmiddle with ⟨hcurrent, -⟩ | ⟨hne, -⟩
    · exact .inl ⟨hcurrent, hhref⟩
    · exact absurd hroot hne
  · exact .inr ⟨hne, hhref.trans hprefix⟩

/-- Two places have links active at each other just when they are the same. -/
theorem isLinkActive_and_isLinkActive_iff (a b : String) :
    isLinkActive a b = true ∧ isLinkActive b a = true ↔ normalize a = normalize b := by
  rw [normalize_eq_normalize_iff]
  constructor
  · rintro ⟨hb, ha⟩
    have hba := segments_prefix_of_isLinkActive hb
    have hab := segments_prefix_of_isLinkActive ha
    exact hab.eq_of_length_le hba.length_le
  · intro h
    have hself := isLinkActive_self a
    rw [isLinkActive_iff_segments] at hself ⊢
    rw [isLinkActive_iff_segments, ← h]
    exact ⟨hself, hself⟩

/-- Of two links that are active at one place, one is active at the other. -/
theorem isLinkActive_or_isLinkActive {current a b : String} (ha : isLinkActive current a = true)
    (hb : isLinkActive current b = true) : isLinkActive a b = true ∨ isLinkActive b a = true := by
  have hprefix := List.prefix_or_prefix_of_prefix (segments_prefix_of_isLinkActive ha)
    (segments_prefix_of_isLinkActive hb)
  rw [isLinkActive_iff_segments] at ha hb
  rw [isLinkActive_iff_segments, isLinkActive_iff_segments]
  rcases ha with ⟨hroot, ha⟩ | ⟨hane, ha⟩
  · rcases hb with ⟨-, hb⟩ | ⟨hbne, hb⟩
    · exact .inl (.inl ⟨ha, hb⟩)
    · rw [hroot, List.prefix_nil] at hb
      exact absurd hb hbne
  · rcases hb with ⟨hroot, -⟩ | ⟨hbne, -⟩
    · rw [hroot, List.prefix_nil] at ha
      exact absurd ha hane
    · exact hprefix.symm.imp (fun h => .inr ⟨hbne, h⟩) fun h => .inr ⟨hane, h⟩

/-- **Activity of links.** A link is active where path and address both have no segment, or the
address has some and the path begins with them, however the two are written. So every link is active
at its own address; a link that is active at the address of an active one is active itself; links
that are active at each other have the same normal form; and of two active links, one is active at
the other. -/
theorem activity_orders_places :
    (∀ current href, isLinkActive current href = true ↔
      segments current = [] ∧ segments href = [] ∨
        segments href ≠ [] ∧ segments href <+: segments current) ∧
    (∀ path, isLinkActive path path = true) ∧
    (∀ current middle href, isLinkActive current middle = true →
      isLinkActive middle href = true → isLinkActive current href = true) ∧
    (∀ a b, isLinkActive a b = true ∧ isLinkActive b a = true ↔ normalize a = normalize b) ∧
    ∀ current a b, isLinkActive current a = true → isLinkActive current b = true →
      isLinkActive a b = true ∨ isLinkActive b a = true :=
  ⟨isLinkActive_iff_segments, isLinkActive_self, fun _ _ _ => isLinkActive_trans,
    isLinkActive_and_isLinkActive_iff, fun _ _ _ => isLinkActive_or_isLinkActive⟩

/-- Three ways to write a folder and those above it, at a path with slashes too many. The link to a
name that only begins alike is not active. -/
theorem activity_orders_places_folders :
    let current := "//files/docs//2024/"
    isLinkActive current "files/docs" = true ∧ isLinkActive "files/docs" "/files/" = true ∧
      isLinkActive current "/files/" = true ∧
      (isLinkActive "files/docs" "/files/" = true ∨ isLinkActive "/files/" "files/docs" = true) ∧
      isLinkActive current "/files/doc" = false := by
  intro current
  have hmiddle : isLinkActive current "files/docs" = true := by decide
  have habove : isLinkActive "files/docs" "/files/" = true := by decide
  have hcurrent : isLinkActive current "/files/" = true :=
    activity_orders_places.2.2.1 _ _ _ hmiddle habove
  exact ⟨hmiddle, habove, hcurrent, activity_orders_places.2.2.2.2 _ _ _ hmiddle hcurrent,
    by decide⟩

end DriveClient.Path
