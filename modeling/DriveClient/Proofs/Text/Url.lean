import Mathlib.Data.List.TakeWhile
import DriveClient.Proofs.Path.Segments
import DriveClient.Proofs.Text.PathCode

/-!
# How a browser reads a URL

A URL is not taken as it stands. What follows a question mark or a number sign is no part of the path,
two slashes in front begin a host, and a segment of one or two dots is an instruction: stay here, or
go one up. The dots may be escaped.

The code of a path has nothing of this but the dots, which are not escaped. So its path is the code of
the path with its dots carried out (`read_encodePath`), and that is the path itself just when it has
no segment of dots (`withoutDots_eq_self_iff`).
-/

namespace DriveClient.Url

open DriveClient.Path (glue pieces)

/-! ## Segments of dots -/

/-- What a segment of dots says. -/
inductive Dots where
  | stay
  | up
deriving DecidableEq

/-- The pieces read so far, the last one first, after an instruction. -/
def Dots.apply : Dots → List (List Char) → List (List Char)
  | .stay, done => done
  | .up, done => done.tail

/-- The pieces read so far, the last one first, after one more piece. An instruction at the end leaves
an empty piece, so that the path ends in a slash. -/
def put (dots? : List Char → Option Dots) (done : List (List Char)) (piece : List Char)
    (isLast : Bool) : List (List Char) :=
  match dots? piece with
  | none => piece :: done
  | some dots => if isLast then [] :: dots.apply done else dots.apply done

/-- Carries out the instructions among some pieces. -/
def resolve (dots? : List Char → Option Dots) (done : List (List Char)) :
    List (List Char) → List (List Char)
  | [] => done.reverse
  | piece :: rest => resolve dots? (put dots? done piece rest.isEmpty) rest

/-- The instruction that a piece of text is, if it is one. -/
def dotsOf? (piece : List Char) : Option Dots :=
  if piece = ['.'] then some .stay else if piece = ['.', '.'] then some .up else none

/-- The ways to write a dot in a URL: as itself, or escaped in either case of letters. -/
def dotForms : List (List Char) := [['.'], ['%', '2', 'e'], ['%', '2', 'E']]

/-- The instruction that a piece of a URL is, if it is one. -/
def codedDots? (piece : List Char) : Option Dots :=
  if piece ∈ dotForms then some .stay
  else if piece ∈ dotForms.flatMap fun first => dotForms.map (first ++ ·) then some .up
  else none

/-! ## Reading -/

/-- The text before the first occurrence of a character, and the text behind it if there is one. -/
def splitOff (c : Char) (text : List Char) : List Char × Option (List Char) :=
  (text.takeWhile (· ≠ c), (text.dropWhile (· ≠ c)).tail?)

/-- What a URL without a scheme refers to. -/
structure Reference where
  host : Option String
  path : String
  query : Option String
  fragment : Option String
deriving DecidableEq

/-- The path that a browser shows for an absolute path, given without its slash in front. -/
def readPath (text : List Char) : String :=
  String.ofList ('/' :: glue (resolve codedDots? [] (pieces text)))

/-- How a browser reads a URL that begins with a slash and has no blanks and controls in it. A
backslash is a slash too. -/
def read (url : String) : Reference :=
  let whole := splitOff '#' url.toList
  let front := splitOff '?' whole.1
  let slashed := front.1.map fun c => if c = '\\' then '/' else c
  if ['/', '/'].isPrefixOf slashed then
    let authority := splitOff '/' (slashed.dropWhile (· = '/'))
    ⟨some (String.ofList authority.1), readPath (authority.2.getD []),
      front.2.map String.ofList, whole.2.map String.ofList⟩
  else ⟨none, readPath slashed.tail, front.2.map String.ofList, whole.2.map String.ofList⟩

/-- A path with the instructions in it carried out. -/
def withoutDots (path : String) : String :=
  String.ofList ('/' :: glue (resolve dotsOf? [] (pieces path.toList.tail)))

/-- A path without segments of dots. -/
def NoDots (path : String) : Prop := "." ∉ Path.segments path ∧ ".." ∉ Path.segments path

instance (path : String) : Decidable (NoDots path) := by
  unfold NoDots; infer_instance

/-! ## Carrying out instructions -/

section Resolve

variable {dots? : List Char → Option Dots} {done : List (List Char)} {piece : List Char}

theorem put_of_none (h : dots? piece = none) (isLast : Bool) :
    put dots? done piece isLast = piece :: done := by
  rw [put, h]

theorem put_of_some {dots : Dots} (h : dots? piece = some dots) (isLast : Bool) :
    put dots? done piece isLast = if isLast then [] :: dots.apply done else dots.apply done := by
  rw [put, h]

theorem put_last_ne_nil : put dots? done piece true ≠ [] := by
  cases hdots : dots? piece with
  | none =>
    rw [put_of_none hdots]
    exact List.cons_ne_nil piece done
  | some dots =>
    rw [put_of_some hdots, if_pos rfl]
    exact List.cons_ne_nil [] _

/-- No piece is new, except for an empty one. -/
theorem mem_put {isLast : Bool} {q : List Char} (h : q ∈ put dots? done piece isLast) :
    q ∈ done ∨ (q = piece ∧ dots? q = none) ∨ q = [] := by
  cases hdots : dots? piece with
  | none =>
    rw [put_of_none hdots] at h
    rcases List.mem_cons.1 h with rfl | hdone
    · exact .inr (.inl ⟨rfl, hdots⟩)
    · exact .inl hdone
  | some dots =>
    have happly : q ∈ dots.apply done → q ∈ done := by
      intro hq
      cases dots with
      | stay => exact hq
      | up => exact List.mem_of_mem_tail hq
    rw [put_of_some hdots] at h
    split at h
    · rcases List.mem_cons.1 h with hempty | hdone
      · exact .inr (.inr hempty)
      · exact .inl (happly hdone)
    · exact .inl (happly h)

/-- Pieces without an instruction stay as they are. -/
theorem resolve_of_none {ps : List (List Char)} (h : ∀ p ∈ ps, dots? p = none) :
    resolve dots? done ps = done.reverse ++ ps := by
  induction ps generalizing done with
  | nil => rw [resolve, List.append_nil]
  | cons piece rest ih =>
    rw [List.forall_mem_cons] at h
    rw [resolve, put_of_none h.1, ih h.2, List.reverse_cons, List.append_assoc,
      List.singleton_append]

/-- What is left are pieces without an instruction, and empty ones. -/
theorem mem_resolve {ps : List (List Char)} {q : List Char} (h : q ∈ resolve dots? done ps) :
    q ∈ done ∨ (q ∈ ps ∧ dots? q = none) ∨ q = [] := by
  induction ps generalizing done with
  | nil => exact .inl (List.mem_reverse.1 h)
  | cons piece rest ih =>
    rcases ih h with hput | ⟨hrest, hnone⟩ | hempty
    · rcases mem_put hput with hdone | ⟨rfl, hnone⟩ | hempty
      · exact .inl hdone
      · exact .inr (.inl ⟨List.mem_cons_self .., hnone⟩)
      · exact .inr (.inr hempty)
    · exact .inr (.inl ⟨List.mem_cons_of_mem _ hrest, hnone⟩)
    · exact .inr (.inr hempty)

/-- Of one piece or more something is left. -/
theorem resolve_ne_nil {ps : List (List Char)} (h : ps ≠ []) : resolve dots? done ps ≠ [] := by
  induction ps generalizing done with
  | nil => exact absurd rfl h
  | cons piece rest ih =>
    rw [resolve]
    cases rest with
    | nil =>
      rw [resolve, List.isEmpty_nil, ne_eq, List.reverse_eq_nil_iff]
      exact put_last_ne_nil
    | cons second more => exact ih (List.cons_ne_nil second more)

/-- Instructions are carried out on codes as on texts, if they are the same on both. -/
theorem resolve_map {code : List Char → List Char} {coded? : List Char → Option Dots}
    (hempty : code [] = []) (h : ∀ p, coded? (code p) = dots? p) (ps : List (List Char)) :
    resolve coded? (done.map code) (ps.map code) = (resolve dots? done ps).map code := by
  have hput : ∀ done piece isLast,
      put coded? (done.map code) (code piece) isLast = (put dots? done piece isLast).map code := by
    intro done piece isLast
    cases hdots : dots? piece with
    | none => rw [put_of_none hdots, put_of_none ((h piece).trans hdots), List.map_cons]
    | some dots =>
      have happly : dots.apply (done.map code) = (dots.apply done).map code := by
        cases dots with
        | stay => rfl
        | up => exact List.map_tail.symm
      rw [put_of_some hdots, put_of_some ((h piece).trans hdots), happly]
      split
      · rw [List.map_cons, hempty]
      · rfl
  induction ps generalizing done with
  | nil => rw [List.map_nil, resolve, resolve, List.map_reverse]
  | cons piece rest ih => rw [List.map_cons, resolve, resolve, List.isEmpty_map, hput, ih]

end Resolve

/-! ## Dots in codes -/

/-- The first byte of a character is the dot only for the dot itself. -/
theorem exists_encode_eq_cons (c : Char) :
    ∃ b bytes, Utf8.encode c = b :: bytes ∧ b < 256 ∧ (b = 0x2E → c = '.') := by
  have hmax := Utf8.toNat_lt c
  have hdot : c.toNat = 0x2E → c = '.' := by
    intro h
    rw [← Char.ofNat_toNat c, h]
  unfold Utf8.encode Utf8.bytesOf
  split
  · exact ⟨_, _, rfl, by omega, hdot⟩
  split
  · exact ⟨_, _, rfl, by omega, by omega⟩
  split
  · exact ⟨_, _, rfl, by omega, by omega⟩
  · exact ⟨_, _, rfl, by omega, by omega⟩

/-- A code begins with a dot, escaped or not, only if the text does; then the dot is not escaped. -/
theorem encode_eq_dotForm_append {text form rest : List Char} (hform : form ∈ dotForms)
    (h : Percent.encode text = form ++ rest) :
    ∃ more, text = '.' :: more ∧ Percent.encode more = rest := by
  have htwo : ∀ n < 16, Hex.upper n = '2' → n = 2 := by decide
  have hlower : ∀ n < 16, Hex.upper n ≠ 'e' := by decide
  have hupper : ∀ n < 16, Hex.upper n = 'E' → n = 14 := by decide
  cases text with
  | nil =>
    have hform' : form ≠ [] := by
      rintro rfl
      revert hform
      decide
    exact absurd (List.append_eq_nil_iff.1 h.symm).1 hform'
  | cons c more =>
    rw [Percent.encode, List.flatMap_cons, ← Percent.encode, Percent.encodeChar] at h
    simp only [dotForms, List.mem_cons, List.not_mem_nil, or_false] at hform
    split at h
    · rename_i hplain
      have hpercent : c ≠ '%' := by
        rintro rfl
        exact absurd hplain (by decide)
      rcases hform with rfl | rfl | rfl
      · obtain ⟨rfl, hmore⟩ := List.cons.inj h
        exact ⟨more, rfl, hmore⟩
      · exact absurd (List.cons.inj h).1 hpercent
      · exact absurd (List.cons.inj h).1 hpercent
    · rename_i hplain
      obtain ⟨b, bytes, hbytes, hlt, hdot⟩ := exists_encode_eq_cons c
      rw [hbytes, List.flatMap_cons, Percent.escape] at h
      -- an escaped dot would be the escape of the dot, which stands for itself
      rcases hform with rfl | rfl | rfl
      · simp at h
      · simp only [List.cons_append, List.nil_append, List.cons.injEq] at h
        exact absurd h.2.2.1 (hlower _ (by omega))
      · simp only [List.cons_append, List.nil_append, List.cons.injEq] at h
        have hhigh := htwo _ (by omega) h.2.1
        have hlow := hupper _ (by omega) h.2.2.1
        rw [hdot (by omega)] at hplain
        exact absurd rfl hplain

/-- A code is an instruction just when the text is. -/
theorem codedDots?_encode (text : List Char) :
    codedDots? (Percent.encode text) = dotsOf? text := by
  have hone : Percent.encode text ∈ dotForms ↔ text = ['.'] := by
    constructor
    · intro h
      obtain ⟨more, rfl, hmore⟩ := encode_eq_dotForm_append h (List.append_nil _).symm
      rw [Percent.encode_eq_nil_iff.1 hmore]
    · rintro rfl
      decide
  have htwo : (Percent.encode text ∈ dotForms.flatMap fun first => dotForms.map (first ++ ·)) ↔
      text = ['.', '.'] := by
    constructor
    · intro h
      obtain ⟨first, hfirst, hpair⟩ := List.mem_flatMap.1 h
      obtain ⟨second, hsecond, hcode⟩ := List.mem_map.1 hpair
      obtain ⟨more, rfl, hmore⟩ := encode_eq_dotForm_append hfirst hcode.symm
      rw [← List.append_nil second] at hmore
      obtain ⟨last, rfl, hlast⟩ := encode_eq_dotForm_append hsecond hmore
      rw [Percent.encode_eq_nil_iff.1 hlast]
    · rintro rfl
      decide
  simp only [codedDots?, hone, htwo]
  rfl

/-! ## Codes of paths -/

section Absolute

variable {path : String} {rest : List Char}

/-- The code of an absolute path, piece by piece. -/
theorem toList_encodePath_of_slash (h : path.toList = '/' :: rest) :
    (Percent.encodePath path).toList = '/' :: glue ((pieces rest).map Percent.encode) := by
  obtain ⟨first, more, hpieces⟩ := List.exists_cons_of_ne_nil (Path.pieces_ne_nil rest)
  rw [Percent.encodePath, String.toList_ofList, h, Path.pieces_cons, if_pos rfl, hpieces]
  rfl

/-- The pieces of the code of an absolute path are the codes of its pieces. -/
theorem pieces_encodePath (h : path.toList = '/' :: rest) :
    pieces (Percent.encodePath path).toList.tail = (pieces rest).map Percent.encode := by
  rw [toList_encodePath_of_slash h, List.tail_cons]
  refine Path.pieces_glue ?_ ?_
  · rw [ne_eq, List.map_eq_nil_iff]
    exact Path.pieces_ne_nil rest
  · intro p hp
    obtain ⟨q, -, rfl⟩ := List.mem_map.1 hp
    exact Percent.slash_not_mem_encode q

theorem pieces_resolve (rest : List Char) :
    pieces (glue (resolve dotsOf? [] (pieces rest))) = resolve dotsOf? [] (pieces rest) := by
  refine Path.pieces_glue (resolve_ne_nil (Path.pieces_ne_nil rest)) ?_
  intro q hq
  rcases mem_resolve hq with hnone | ⟨hpiece, -⟩ | rfl
  · exact absurd hnone List.not_mem_nil
  · exact Path.not_mem_of_mem_pieces hpiece
  · exact List.not_mem_nil

theorem toList_withoutDots (h : path.toList = '/' :: rest) :
    (withoutDots path).toList = '/' :: glue (resolve dotsOf? [] (pieces rest)) := by
  rw [withoutDots, String.toList_ofList, h, List.tail_cons]

/-- An absolute path has the segments that are its pieces behind the slash. -/
theorem mem_segments_of_slash (h : path.toList = '/' :: rest) {text : String} (hne : text ≠ "") :
    text ∈ Path.segments path ↔ text.toList ∈ pieces rest := by
  have htext : text.toList ≠ [] := by simpa using hne
  rw [Path.mem_segments_iff, h, Path.pieces_cons, if_pos rfl, and_iff_right hne, List.mem_cons,
    or_iff_right htext]

/-- A path without segments of dots is one whose pieces are no instructions. -/
theorem noDots_iff (h : path.toList = '/' :: rest) :
    NoDots path ↔ ∀ p ∈ pieces rest, dotsOf? p = none := by
  have hnone : ∀ p, dotsOf? p = none ↔ p ≠ ".".toList ∧ p ≠ "..".toList := by
    intro p
    unfold dotsOf?
    split
    · rename_i hone
      simp [hone]
    · rename_i hone
      split
      · rename_i htwo
        simp [htwo]
      · rename_i htwo
        exact iff_of_true rfl ⟨hone, htwo⟩
  rw [NoDots, mem_segments_of_slash h (by decide), mem_segments_of_slash h (by decide)]
  simp only [hnone]
  constructor
  · rintro ⟨hone, htwo⟩ p hp
    exact ⟨fun e => hone (e ▸ hp), fun e => htwo (e ▸ hp)⟩
  · intro hall
    exact ⟨fun hone => (hall _ hone).1 rfl, fun htwo => (hall _ htwo).2 rfl⟩

/-- Carrying out the instructions of a path leaves it as it is just when there are none. -/
theorem withoutDots_eq_self_iff (h : path.toList = '/' :: rest) :
    withoutDots path = path ↔ NoDots path := by
  rw [noDots_iff h, ← String.toList_inj, toList_withoutDots h, h, List.cons_inj_right]
  constructor
  · intro hsame p hp
    rw [← hsame, pieces_resolve] at hp
    rcases mem_resolve hp with hnone | ⟨-, hnone⟩ | rfl
    · exact absurd hnone List.not_mem_nil
    · exact hnone
    · rfl
  · intro hnone
    rw [resolve_of_none hnone, List.reverse_nil, List.nil_append, Path.glue_pieces]

/-- A segment of dots is in the code of a path just when it is in the path. -/
theorem dots_mem_segments_encodePath (h : path.toList = '/' :: rest) :
    ∀ dots ∈ [".", ".."],
      dots ∈ Path.segments (Percent.encodePath path) ↔ dots ∈ Path.segments path := by
  have hcode : ∀ dots ∈ [".", ".."],
      dots ≠ "" ∧ Percent.encode dots.toList = dots.toList := by
    decide
  intro dots hdots
  obtain ⟨hne, hself⟩ := hcode dots hdots
  have hpieces := pieces_encodePath h
  rw [toList_encodePath_of_slash h, List.tail_cons] at hpieces
  rw [mem_segments_of_slash (toList_encodePath_of_slash h) hne, mem_segments_of_slash h hne,
    hpieces, List.mem_map]
  constructor
  · rintro ⟨p, hp, hsame⟩
    rw [← hself, Percent.encode_inj] at hsame
    rwa [← hsame]
  · intro hmem
    exact ⟨dots.toList, hmem, hself⟩

theorem splitOff_of_not_mem {c : Char} {text : List Char} (h : c ∉ text) :
    splitOff c text = (text, none) := by
  have hall : ∀ d ∈ text, decide (d ≠ c) = true := by
    intro d hd
    rw [decide_eq_true_iff]
    rintro rfl
    exact h hd
  rw [splitOff, List.takeWhile_eq_self_iff.2 hall, List.dropWhile_eq_nil_iff.2 hall]
  rfl

/-- Nothing in the code of a path ends the path or stands for a slash. -/
theorem not_mem_encodePath (path : String) :
    ∀ c ∈ ['?', '#', '\\'], c ∉ (Percent.encodePath path).toList := by
  intro c hc h
  have hspecial : c ≠ '/' ∧ c ≠ '%' ∧ ¬Percent.isPlain c = true := by
    simp only [List.mem_cons, List.not_mem_nil, or_false] at hc
    rcases hc with rfl | rfl | rfl
    · decide
    · decide
    · decide
  obtain ⟨hslash, hpercent, hplain⟩ := hspecial
  rcases Percent.mem_encodePath h with h | h | h
  · exact hslash h
  · exact hpercent h
  · exact hplain h

/-- The code of an absolute path has one slash in front if the path has. -/
theorem head?_encodePath_tail (h : path.toList = '/' :: rest) (hone : rest.head? ≠ some '/') :
    (Percent.encodePath path).toList.tail.head? ≠ some '/' := by
  intro hslash
  obtain ⟨more, hmore⟩ := List.head?_eq_some_iff.1 hslash
  -- two slashes in the code would leave an empty piece in front of another one
  have hcodes := pieces_encodePath h
  rw [hmore, Path.pieces_cons, if_pos rfl] at hcodes
  obtain ⟨first, others, hpieces⟩ := List.exists_cons_of_ne_nil (Path.pieces_ne_nil rest)
  rw [hpieces, List.map_cons, List.cons.injEq] at hcodes
  have hfirst : first = [] := Percent.encode_eq_nil_iff.1 hcodes.1.symm
  cases others with
  | nil => exact absurd hcodes.2 (Path.pieces_ne_nil more)
  | cons second rests =>
    refine hone ?_
    rw [← Path.glue_pieces rest, hpieces, hfirst]
    rfl

/-- The code of a path has the path without its dots, and no host, query or fragment. -/
theorem read_encodePath (h : path.toList = '/' :: rest) (hone : rest.head? ≠ some '/') :
    read (Percent.encodePath path) =
      ⟨none, Percent.encodePath (withoutDots path), none, none⟩ := by
  have habsent := not_mem_encodePath path
  have hslashed : (Percent.encodePath path).toList.map (fun c => if c = '\\' then '/' else c) =
      (Percent.encodePath path).toList := by
    have hkeep : ∀ c ∈ (Percent.encodePath path).toList, (if c = '\\' then '/' else c) = id c := by
      intro c hc
      refine if_neg ?_
      rintro rfl
      exact habsent _ (by decide) hc
    rw [List.map_congr_left hkeep, List.map_id]
  have hhost : ¬['/', '/'].isPrefixOf (Percent.encodePath path).toList = true := by
    have htail := head?_encodePath_tail h hone
    rw [toList_encodePath_of_slash h, List.tail_cons] at htail
    rw [toList_encodePath_of_slash h, List.isPrefixOf_iff_prefix, List.cons_prefix_cons,
      List.singleton_prefix_iff_head?_eq_some]
    exact fun hc => htail hc.2
  have hpath : readPath (Percent.encodePath path).toList.tail =
      Percent.encodePath (withoutDots path) := by
    rw [readPath, pieces_encodePath h, ← String.toList_inj, String.toList_ofList,
      toList_encodePath_of_slash (toList_withoutDots h), pieces_resolve,
      ← resolve_map rfl codedDots?_encode]
    rfl
  unfold read
  simp only [splitOff_of_not_mem (habsent _ (by decide : '#' ∈ ['?', '#', '\\'])),
    splitOff_of_not_mem (habsent _ (by decide : '?' ∈ ['?', '#', '\\'])), hslashed]
  rw [if_neg hhost, hpath]
  rfl

end Absolute

end DriveClient.Url
