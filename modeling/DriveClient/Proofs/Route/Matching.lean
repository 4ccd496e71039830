import DriveClient.Proofs.Path.Links
import DriveClient.Proofs.Route.Pattern

/-!
# What a pattern accepts

Pattern and path are matched segment by segment, so that slashes too many in either of them change
nothing (`match?_normalize_pattern`, `match?_normalize_path`). What a star captures is an absolute
path in normal form, and written behind the literal segments it gives the path back
(`normalize_join_append_path`). The main statement (`matching_by_segments`) tells for each pattern
what it accepts.
-/

namespace DriveClient

namespace Capture

variable {literal rest : List String}

/-- The path under a star is the absolute path of the captured segments. -/
theorem path_of_rest (rest : List String) :
    Capture.path ⟨some (Path.join rest)⟩ = Path.absolute rest := rfl

/-- Behind the literal segments of the pattern, the captured path is the whole path. -/
theorem normalize_join_append_path (hliteral : ∀ s ∈ literal, Path.IsSegment s)
    (hrest : ∀ s ∈ rest, Path.IsSegment s) :
    Path.normalize (Path.join literal ++ Capture.path ⟨some (Path.join rest)⟩) =
      Path.absolute (literal ++ rest) := by
  have hsegments : Path.segments (Path.join literal ++ Path.absolute rest) = literal ++ rest := by
    rw [Path.absolute, ← String.append_assoc, Path.segments_append_slash,
      Path.segments_join hliteral, Path.segments_join hrest]
  rw [path_of_rest, Path.normalize, hsegments]

end Capture

namespace Pattern

theorem match?_normalize_pattern (pattern path : String) :
    match? (Path.normalize pattern) path = match? pattern path := by
  rw [match?, match?, Path.segments_normalize]

theorem match?_normalize_path (pattern path : String) :
    match? pattern (Path.normalize path) = match? pattern path := by
  rw [match?, match?, Path.segments_normalize]

/-- A pattern without a star accepts the paths with its own segments, and captures nothing. -/
theorem match?_literal_iff {pattern : String}
    (hliteral : ∀ s ∈ Path.segments pattern, isStar s = false) (path : String) (capture : Capture) :
    match? pattern path = some capture ↔
      Path.segments pattern = Path.segments path ∧ capture.rest = none := by
  rw [match?, matchSegments_literal hliteral]
  constructor
  · intro h
    split at h
    · rename_i hsegments
      rw [← Option.some.inj h]
      exact ⟨hsegments.symm, rfl⟩
    · exact absurd h (by simp)
  · rintro ⟨hsegments, hcapture⟩
    obtain rfl : capture = ⟨none⟩ := by rw [← hcapture]
    rw [if_pos hsegments.symm]

/-- A pattern with a star at its end accepts the paths that go on behind its literal segments, and
captures what follows these. -/
theorem match?_star_iff {pattern star : String} {literal : List String}
    (hpattern : Path.segments pattern = literal ++ [star])
    (hliteral : ∀ s ∈ literal, isStar s = false) (hstar : isStar star = true) (path : String)
    (capture : Capture) :
    match? pattern path = some capture ↔
      ∃ rest, rest ≠ [] ∧ Path.segments path = literal ++ rest ∧
        capture = ⟨some (Path.join rest)⟩ := by
  rw [match?, hpattern, matchSegments_append hliteral, matchSegments_star hstar]
  constructor
  · intro h
    split at h
    · rename_i hfront
      obtain ⟨rest, hsegments⟩ := hfront
      rw [← hsegments, List.drop_left] at h
      split at h
      · exact absurd h (by simp)
      · rename_i hrest
        exact ⟨rest, hrest, hsegments.symm, (Option.some.inj h).symm⟩
    · exact absurd h (by simp)
  · rintro ⟨rest, hrest, hsegments, rfl⟩
    rw [hsegments, if_pos (List.prefix_append literal rest), List.drop_left, if_neg hrest]

/-- **Matching.** A pattern without a star accepts exactly the paths with the same segments, and
captures nothing. A pattern whose first star is its last segment accepts exactly the paths that have
its literal segments and something behind them, which it captures; what it captures is a path in
normal form, and behind the literal segments it is the whole path. A pattern with more behind a star
accepts nothing. The normal form of a pattern, and that of a path, match just as they do. -/
theorem matching_by_segments (pattern path : String) :
    ((∀ s ∈ Path.segments pattern, isStar s = false) → ∀ capture,
      match? pattern path = some capture ↔
        Path.segments pattern = Path.segments path ∧ capture.rest = none) ∧
    (∀ literal star, Path.segments pattern = literal ++ [star] →
      (∀ s ∈ literal, isStar s = false) → isStar star = true → ∀ capture,
        (match? pattern path = some capture ↔
          ∃ rest, rest ≠ [] ∧ Path.segments path = literal ++ rest ∧
            capture = ⟨some (Path.join rest)⟩) ∧
        (match? pattern path = some capture →
          Path.normalize capture.path = capture.path ∧
          Path.normalize (Path.join literal ++ capture.path) = Path.normalize path)) ∧
    (∀ before star after, Path.segments pattern = before ++ star :: after →
      isStar star = true → after ≠ [] → match? pattern path = none) ∧
    match? (Path.normalize pattern) path = match? pattern path ∧
    match? pattern (Path.normalize path) = match? pattern path := by
  refine ⟨fun hliteral => match?_literal_iff hliteral path, ?_, ?_,
    match?_normalize_pattern pattern path, match?_normalize_path pattern path⟩
  · intro literal star hpattern hliteral hstar capture
    have haccepts := match?_star_iff hpattern hliteral hstar path capture
    refine ⟨haccepts, fun h => ?_⟩
    obtain ⟨rest, -, hsegments, rfl⟩ := haccepts.1 h
    have hpath : ∀ s ∈ literal ++ rest, Path.IsSegment s := by
      rw [← hsegments]
      exact fun _ => Path.isSegment_of_mem_segments
    have hrest : ∀ s ∈ rest, Path.IsSegment s := fun s hs => hpath s (List.mem_append_right _ hs)
    constructor
    · rw [Capture.path_of_rest, Path.normalize_absolute hrest]
    · have hliteral' := fun s hs => hpath s (List.mem_append_left rest hs)
      rw [Capture.normalize_join_append_path hliteral' hrest, Path.normalize, hsegments]
  · intro before star after hpattern hstar hafter
    rw [match?, hpattern, matchSegments_early_star hstar hafter]

/-- A folder below a literal segment, with slashes too many and a star of its own; the same path
under a pattern that goes on behind its star; and a path under a pattern without one. -/
theorem matching_by_segments_folder :
    match? "/files//*path" "files/*docs//2024/" = some ⟨some "*docs/2024"⟩ ∧
      Path.normalize "/*docs/2024" = "/*docs/2024" ∧
      Path.normalize ("files" ++ "/*docs/2024") = Path.normalize "files/*docs//2024/" ∧
      match? "/files/*path/2024" "files/*docs//2024/" = none ∧
      match? "/trash" "trash/" = some ⟨none⟩ := by
  have hstar := (matching_by_segments "/files//*path" "files/*docs//2024/").2.1 ["files"] "*path"
    (by decide) (by decide) (by decide) ⟨some "*docs/2024"⟩
  have hmatch := hstar.1.2 ⟨["*docs", "2024"], by decide, by decide, by decide⟩
  have hearly := (matching_by_segments "/files/*path/2024" "files/*docs//2024/").2.2.1
    ["files"] "*path" ["2024"] (by decide) (by decide) (by decide)
  have hliteral := (matching_by_segments "/trash" "trash/").1 (by decide) ⟨none⟩
  exact ⟨hmatch, (hstar.2 hmatch).1, (hstar.2 hmatch).2, hearly,
    hliteral.2 ⟨by decide, rfl⟩⟩

end Pattern

end DriveClient
