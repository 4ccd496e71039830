import DriveClient.Proofs.Path.Segments
import DriveClient.Route.Pattern

/-!
# Matching segments

A pattern is literal segments and at most one star behind them. Literal segments at its front take
equal segments off the path (`matchSegments_append`), which leaves two cases: nothing, which matches
the empty rest only, and a star, which captures any other rest. With more behind a star, nothing
matches (`matchSegments_early_star`).
-/

namespace DriveClient.Pattern

variable {literal : List String}

theorem matchSegments_nil (path : List String) :
    matchSegments [] path = if path = [] then some ⟨none⟩ else none := by
  cases path with
  | nil => rfl
  | cons segment rest => rfl

/-- A star captures everything, if there is anything and the star is the last segment. -/
theorem matchSegments_cons_star {star : String} (h : isStar star = true)
    (later path : List String) :
    matchSegments (star :: later) path =
      if later = [] ∧ path ≠ [] then some ⟨some (Path.join path)⟩ else none := by
  cases path with
  | nil => rw [matchSegments, if_pos h]
  | cons segment rest => rw [matchSegments, if_pos h]

/-- A star alone captures everything, if there is anything. -/
theorem matchSegments_star {star : String} (h : isStar star = true) (path : List String) :
    matchSegments [star] path = if path = [] then none else some ⟨some (Path.join path)⟩ := by
  rw [matchSegments_cons_star h]
  simp

/-- Literal segments take equal segments off the front of the path. -/
theorem matchSegments_append (h : ∀ s ∈ literal, isStar s = false) (pattern path : List String) :
    matchSegments (literal ++ pattern) path =
      if literal <+: path then matchSegments pattern (path.drop literal.length) else none := by
  induction literal generalizing path with
  | nil => simp
  | cons expected later ih =>
    have hexpected : ¬isStar expected = true := by
      rw [h expected (List.mem_cons_self ..)]
      decide
    have hlater := ih fun s hs => h s (List.mem_cons_of_mem _ hs)
    cases path with
    | nil => rw [List.cons_append, matchSegments, if_neg hexpected, if_neg (by simp)]
    | cons segment rest =>
      rw [List.cons_append, matchSegments, if_neg hexpected]
      by_cases hs : segment = expected
      · subst hs
        simp [hlater]
      · have hfront : ¬expected :: later <+: segment :: rest := by
          rw [List.cons_prefix_cons]
          exact fun hc => hs hc.1.symm
        rw [if_neg hs, if_neg hfront]

/-- A pattern without a star matches the path with the same segments, and captures nothing. -/
theorem matchSegments_literal (h : ∀ s ∈ literal, isStar s = false) (path : List String) :
    matchSegments literal path = if path = literal then some ⟨none⟩ else none := by
  have hmatch := matchSegments_append h [] path
  rw [List.append_nil, matchSegments_nil] at hmatch
  rw [hmatch]
  by_cases hpath : path = literal
  · subst hpath
    simp
  · rw [if_neg hpath]
    split
    · rename_i hfront
      obtain ⟨rest, rfl⟩ := hfront
      have hrest : rest ≠ [] := fun hc => hpath (by rw [hc, List.append_nil])
      rw [List.drop_left, if_neg hrest]
    · rfl

/-- A pattern with more behind a star matches nothing, whatever stands before the star. -/
theorem matchSegments_early_star {before after : List String} {star : String}
    (hstar : isStar star = true) (hafter : after ≠ []) (path : List String) :
    matchSegments (before ++ star :: after) path = none := by
  induction before generalizing path with
  | nil => rw [List.nil_append, matchSegments_cons_star hstar, if_neg fun hc => hafter hc.1]
  | cons expected later ih =>
    rw [List.cons_append]
    by_cases hexpected : isStar expected = true
    · -- another star, which is not the last segment either
      have hlater : later ++ star :: after ≠ [] := by simp
      rw [matchSegments_cons_star hexpected, if_neg fun hc => hlater hc.1]
    · cases path with
      | nil => rw [matchSegments, if_neg hexpected]
      | cons segment rest =>
        rw [matchSegments, if_neg hexpected]
        by_cases hsegment : segment = expected
        · simp only [if_pos hsegment]
          exact ih rest
        · simp only [if_neg hsegment]

end DriveClient.Pattern
