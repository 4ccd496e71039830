import DriveClient.Text.Percent

/-!
# Percent code of paths

A path is encoded segment by segment. Since the slash itself would be escaped inside a segment, this
is the same as going through the characters one by one and keeping the slashes
(`toList_encodePath`). Decoding the whole code at once therefore gives the path back
(`decode?_encodePath`), and different paths have different codes (`encodePath_inj`). A code has the
slashes of its path and no others (`count_slash_encodePath`); what else it is made of is told by
`IsCode`.
-/

namespace DriveClient.Percent

/-! ## Character by character -/

/-- The code of a character of a path. -/
def encodePathChar (c : Char) : List Char := if c = '/' then ['/'] else encodeChar c

theorem glue_encode_pieces (text : List Char) :
    Path.glue ((Path.pieces text).map encode) = text.flatMap encodePathChar := by
  induction text with
  | nil => rfl
  | cons c rest ih =>
    rw [Path.pieces, List.map_cons, Path.glue] at ih
    rw [Path.pieces_cons, List.flatMap_cons, ← ih, encodePathChar]
    by_cases hc : c = '/'
    · rw [if_pos hc, if_pos hc, List.map_cons, Path.glue, Path.pieces, List.map_cons,
        List.flatMap_cons]
      rfl
    · rw [if_neg hc, if_neg hc, List.map_cons, Path.glue, encode, List.flatMap_cons,
        List.append_assoc]
      rfl

theorem toList_encodePath (path : String) :
    (encodePath path).toList = path.toList.flatMap encodePathChar := by
  rw [encodePath, String.toList_ofList, glue_encode_pieces]

/-! ## Decoding -/

theorem codes_encodePathChar (c : Char) : Codes c (encodePathChar c) := by
  unfold encodePathChar
  split
  · rename_i hc
    subst hc
    exact codes_plain (by decide)
  · exact codes_encodeChar c

/-- Decoding the code of a path gives the path back. -/
theorem decode?_encodePath (path : String) : decode? (encodePath path) = some path := by
  rw [encodePath, glue_encode_pieces, decode?_flatMap codes_encodePathChar, String.ofList_toList]

/-- Different paths have different codes. -/
theorem encodePath_inj {p q : String} : encodePath p = encodePath q ↔ p = q := by
  constructor
  · intro h
    have hdecode : decode? (encodePath p) = decode? (encodePath q) := by rw [h]
    rw [decode?_encodePath, decode?_encodePath] at hdecode
    exact Option.some.inj hdecode
  · rintro rfl
    rfl

/-! ## What codes are made of -/

/-- A code is made of percent signs and characters that stand for themselves. -/
theorem mem_encodeChar {c d : Char} (h : d ∈ encodeChar c) : d = '%' ∨ isPlain d = true := by
  have hdigit : ∀ n < 16, isPlain (Hex.upper n) = true := by decide
  unfold encodeChar at h
  split at h
  · rename_i hplain
    rw [List.mem_singleton.1 h]
    exact .inr hplain
  · obtain ⟨b, hb, hd⟩ := List.mem_flatMap.1 h
    have hlt : b < 256 := Utf8.lt_of_mem_bytesOf (Utf8.toNat_lt c) hb
    simp only [escape, List.mem_cons, List.not_mem_nil, or_false] at hd
    rcases hd with rfl | rfl | rfl
    · exact .inl rfl
    · exact .inr (hdigit _ (by omega))
    · exact .inr (hdigit _ (by omega))

theorem mem_encode {text : List Char} {d : Char} (h : d ∈ encode text) :
    d = '%' ∨ isPlain d = true := by
  obtain ⟨c, -, hd⟩ := List.mem_flatMap.1 h
  exact mem_encodeChar hd

/-- The code of a path has slashes besides. -/
theorem mem_encodePath {path : String} {d : Char} (h : d ∈ (encodePath path).toList) :
    d = '/' ∨ d = '%' ∨ isPlain d = true := by
  rw [toList_encodePath] at h
  obtain ⟨c, -, hd⟩ := List.mem_flatMap.1 h
  unfold encodePathChar at hd
  split at hd
  · exact .inl (List.mem_singleton.1 hd)
  · exact .inr (mem_encodeChar hd)

theorem slash_not_mem_encode (text : List Char) : '/' ∉ encode text := by
  intro h
  rcases mem_encode h with hc | hc
  · exact absurd hc (by decide)
  · exact absurd hc (by decide)

theorem encode_inj {text other : List Char} :
    encode text = encode other ↔ text = other := by
  constructor
  · intro h
    have hdecode := decode?_encode text
    rw [h, decode?_encode, Option.some_inj] at hdecode
    exact (String.ofList_injective hdecode).symm
  · rintro rfl
    rfl

theorem encode_eq_nil_iff {text : List Char} : encode text = [] ↔ text = [] := by
  have h : encode text = encode [] ↔ text = [] := encode_inj
  exact h

/-! ## Slashes -/

theorem count_slash_encodePathChar (c : Char) :
    (encodePathChar c).count '/' = if c = '/' then 1 else 0 := by
  unfold encodePathChar
  split
  · rfl
  · rw [List.count_eq_zero]
    intro h
    rcases mem_encodeChar h with hc | hc
    · exact absurd hc (by decide)
    · exact absurd hc (by decide)

/-- A code has as many slashes as its path. -/
theorem count_slash_encodePath (path : String) :
    (encodePath path).toList.count '/' = path.toList.count '/' := by
  rw [toList_encodePath]
  induction path.toList with
  | nil => rfl
  | cons c rest ih =>
    rw [List.flatMap_cons, List.count_append, count_slash_encodePathChar, ih, List.count_cons,
      Nat.add_comm]
    simp

/-- The code of a path is put together from the codes on both sides of a slash. -/
theorem encodePath_append_slash (a b : String) :
    encodePath (a ++ "/" ++ b) = encodePath a ++ "/" ++ encodePath b := by
  apply String.toList_inj.1
  have hslash : "/".toList.flatMap encodePathChar = "/".toList := by decide
  rw [String.toList_append, String.toList_append, toList_encodePath, toList_encodePath,
    toList_encodePath, String.toList_append, String.toList_append, List.flatMap_append,
    List.flatMap_append, hslash]

/-! ## The alphabet -/

/-- Letters and digits of the basic alphabet, and nine marks. -/
def Unreserved (c : Char) : Prop :=
  'A' ≤ c ∧ c ≤ 'Z' ∨ 'a' ≤ c ∧ c ≤ 'z' ∨ '0' ≤ c ∧ c ≤ '9' ∨ c ∈ "-_.!~*'()".toList

/-- A hexadecimal digit in upper case. -/
def UpperHex (c : Char) : Prop := '0' ≤ c ∧ c ≤ '9' ∨ 'A' ≤ c ∧ c ≤ 'F'

instance (c : Char) : Decidable (UpperHex c) :=
  inferInstanceAs (Decidable ('0' ≤ c ∧ c ≤ '9' ∨ 'A' ≤ c ∧ c ≤ 'F'))

/-- Texts made of slashes, unreserved characters, and escapes of two digits each. -/
inductive IsCode : List Char → Prop where
  | nil : IsCode []
  | slash {rest : List Char} (h : IsCode rest) : IsCode ('/' :: rest)
  | plain {c : Char} {rest : List Char} (hc : Unreserved c) (h : IsCode rest) : IsCode (c :: rest)
  | escape {high low : Char} {rest : List Char} (hhigh : UpperHex high) (hlow : UpperHex low)
      (h : IsCode rest) : IsCode ('%' :: high :: low :: rest)

theorem unreserved_of_isPlain {c : Char} (h : isPlain c = true) : Unreserved c := by
  have hkinds : (c.isUpper || c.isLower || c.isDigit || "-_.!~*'()".toList.contains c) = true := h
  simp only [Bool.or_eq_true, List.contains_iff_mem] at hkinds
  rcases hkinds with ((hupper | hlower) | hdigit) | hmark
  · exact .inl (of_decide_eq_true hupper)
  · obtain ⟨hlow, hhigh⟩ := Bool.and_eq_true_iff.1 hlower
    exact .inr (.inl ⟨of_decide_eq_true hlow, of_decide_eq_true hhigh⟩)
  · obtain ⟨hlow, hhigh⟩ := Bool.and_eq_true_iff.1 hdigit
    exact .inr (.inr (.inl ⟨of_decide_eq_true hlow, of_decide_eq_true hhigh⟩))
  · exact .inr (.inr (.inr hmark))

theorem upperHex_upper {n : Nat} (h : n < 16) : UpperHex (Hex.upper n) := by
  revert n
  decide

theorem IsCode.escapes {bytes : List Nat} (h : ∀ b ∈ bytes, b < 256) {rest : List Char}
    (hrest : IsCode rest) : IsCode (bytes.flatMap Percent.escape ++ rest) := by
  induction bytes with
  | nil => exact hrest
  | cons b more ih =>
    have hb : b < 256 := h b (List.mem_cons_self ..)
    have hmore := ih fun x hx => h x (List.mem_cons_of_mem _ hx)
    rw [List.flatMap_cons, List.append_assoc]
    exact .escape (upperHex_upper (by omega)) (upperHex_upper (by omega)) hmore

theorem IsCode.encodePathChar (c : Char) {rest : List Char} (hrest : IsCode rest) :
    IsCode (Percent.encodePathChar c ++ rest) := by
  unfold Percent.encodePathChar
  split
  · exact .slash hrest
  · unfold encodeChar
    split
    · rename_i hplain
      exact .plain (unreserved_of_isPlain hplain) hrest
    · exact .escapes (fun _ => Utf8.lt_of_mem_bytesOf (Utf8.toNat_lt c)) hrest

/-- A code is made of nothing else. -/
theorem isCode_encodePath (path : String) : IsCode (encodePath path).toList := by
  rw [toList_encodePath]
  induction path.toList with
  | nil => exact .nil
  | cons c rest ih =>
    rw [List.flatMap_cons]
    exact .encodePathChar c ih

end DriveClient.Percent
