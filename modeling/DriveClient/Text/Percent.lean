import DriveClient.Path
import DriveClient.Text.Hex
import DriveClient.Text.Utf8

/-!
# Percent code

Text in a URL: characters that have no meaning there stand for themselves, and every other
character is written as its UTF-8 bytes, each as a percent sign and two hexadecimal digits. A path
is encoded segment by segment, so that its slashes stay separators.

Decoding undoes every code that is given character by character (`decode?_flatMap`), so decoding the
code of a text gives the text back (`decode?_encode`).
-/

namespace DriveClient.Percent

/-! ## Encoding -/

/-- Characters that stand for themselves. -/
def isPlain (c : Char) : Bool := c.isAlphanum || "-_.!~*'()".toList.contains c

/-- The escape of a byte. -/
def escape (byte : Nat) : List Char := ['%', Hex.upper (byte / 16), Hex.upper (byte % 16)]

/-- The code of a character. -/
def encodeChar (c : Char) : List Char := if isPlain c then [c] else (Utf8.encode c).flatMap escape

/-- The code of a text, slashes included. -/
def encode (text : List Char) : List Char := text.flatMap encodeChar

/-- The code of a path, which keeps the slashes. -/
def encodePath (path : String) : String :=
  String.ofList (Path.glue ((Path.pieces path.toList).map encode))

/-! ## Decoding -/

/-- What a code is made of: characters that stand for themselves, and bytes. -/
inductive Token where
  | plain (c : Char)
  | byte (value : Nat)
deriving DecidableEq

/-- Splits a code into characters and bytes. A percent sign must begin an escape. -/
def tokens? : List Char → Option (List Token)
  | [] => some []
  | c :: rest =>
    if c = '%' then
      match rest with
      | high :: low :: more =>
        match Hex.value? high, Hex.value? low with
        | some h, some l => (tokens? more).map (.byte (16 * h + l) :: ·)
        | _, _ => none
      | _ => none
    else (tokens? rest).map (.plain c :: ·)

/-- Puts bytes together into characters.

The state is the character under way: how many bytes it still needs, how many it has after the
leading one in all, and the bits read so far. -/
def gather? (needed following bits : Nat) : List Token → Option (List Char)
  | [] => if needed = 0 then some [] else none
  | .plain c :: rest => if needed = 0 then (gather? 0 0 0 rest).map (c :: ·) else none
  | .byte b :: rest =>
    if needed = 0 then
      match Utf8.leading? b with
      | none => none
      | some (0, first) => (Utf8.character? 0 first).bind fun c => (gather? 0 0 0 rest).map (c :: ·)
      | some (more + 1, first) => gather? (more + 1) (more + 1) first rest
    else
      match Utf8.trailing? b with
      | none => none
      | some next =>
        if needed = 1 then
          (Utf8.character? following (64 * bits + next)).bind fun c =>
            (gather? 0 0 0 rest).map (c :: ·)
        else gather? (needed - 1) following (64 * bits + next) rest

/-- The text of a code, if every escape is complete and the bytes are strict UTF-8. -/
def decode? (code : String) : Option String :=
  ((tokens? code.toList).bind (gather? 0 0 0)).map String.ofList

/-! ## Decoding what was encoded -/

/-- A code of a character: wherever it stands, it splits into tokens, and these are put together into
the character. -/
def Codes (c : Char) (code : List Char) : Prop :=
  ∃ tokens, (∀ rest, tokens? (code ++ rest) = (tokens? rest).map (tokens ++ ·)) ∧
    ∀ rest, gather? 0 0 0 (tokens ++ rest) = (gather? 0 0 0 rest).map (c :: ·)

/-- Decoding undoes any code that is given character by character. -/
theorem decode?_flatMap {code : Char → List Char} (h : ∀ c, Codes c (code c)) (text : List Char) :
    decode? (String.ofList (text.flatMap code)) = some (String.ofList text) := by
  have hall : ∃ tokens, tokens? (text.flatMap code) = some tokens ∧
      gather? 0 0 0 tokens = some text := by
    induction text with
    | nil => exact ⟨[], rfl, rfl⟩
    | cons c rest ih =>
      obtain ⟨first, hsplit, hjoin⟩ := h c
      obtain ⟨more, htokens, hgather⟩ := ih
      refine ⟨first ++ more, ?_, ?_⟩
      · rw [List.flatMap_cons, hsplit, htokens, Option.map_some]
      · rw [hjoin, hgather, Option.map_some]
  obtain ⟨tokens, htokens, hgather⟩ := hall
  rw [decode?, String.toList_ofList, htokens, Option.bind_some, hgather, Option.map_some]

theorem tokens?_plain {c : Char} (h : c ≠ '%') (rest : List Char) :
    tokens? (c :: rest) = (tokens? rest).map (.plain c :: ·) := by
  cases rest with
  | nil => simp [tokens?, h]
  | cons d more => cases more <;> simp [tokens?, h]

/-- An escape is split off as its byte. -/
theorem tokens?_escape {b : Nat} (h : b < 256) (rest : List Char) :
    tokens? (escape b ++ rest) = (tokens? rest).map (.byte b :: ·) := by
  have e : 16 * (b / 16) + b % 16 = b := by omega
  simp [escape, tokens?, Hex.value?_upper (show b / 16 < 16 by omega),
    Hex.value?_upper (show b % 16 < 16 by omega), e]

/-- The bytes of a character are put together into that character. -/
theorem gather?_bytes (c : Char) (rest : List Token) :
    gather? 0 0 0 ((Utf8.encode c).map .byte ++ rest) = (gather? 0 0 0 rest).map (c :: ·) := by
  have hmax := Utf8.toNat_lt c
  generalize hn : c.toNat = n at hmax
  have hchar : ∀ following, Utf8.least following ≤ n → Utf8.character? following n = some c :=
    fun _ h => hn ▸ Utf8.character?_toNat (hn ▸ h)
  have hlast := Utf8.trailing?_add (Nat.mod_lt n (show 0 < 64 by decide))
  have hsecond := Utf8.trailing?_add (Nat.mod_lt (n / 64) (show 0 < 64 by decide))
  have hfirst := Utf8.trailing?_add (Nat.mod_lt (n / 4096) (show 0 < 64 by decide))
  rw [Utf8.encode, hn, Utf8.bytesOf]
  by_cases h1 : n < 0x80
  · simp [h1, gather?, Utf8.leading?, hchar 0 (Nat.zero_le _)]
  by_cases h2 : n < 0x800
  · have e : 64 * (n / 64) + n % 64 = n := by omega
    simp [h1, h2, gather?, Utf8.leading?_two (show n / 64 < 32 by omega), hlast, e,
      hchar 1 (by simp [Utf8.least]; omega)]
  by_cases h3 : n < 0x10000
  · have e : 64 * (64 * (n / 4096) + n / 64 % 64) + n % 64 = n := by omega
    simp [h1, h2, h3, gather?, Utf8.leading?_three (show n / 4096 < 16 by omega), hlast, hsecond, e,
      hchar 2 (by simp [Utf8.least]; omega)]
  · have e : 64 * (64 * (64 * (n / 262144) + n / 4096 % 64) + n / 64 % 64) + n % 64 = n := by omega
    simp [h1, h2, h3, gather?, Utf8.leading?_four (show n / 262144 < 8 by omega), hlast, hsecond,
      hfirst, e, hchar 3 (by simp [Utf8.least]; omega)]

theorem tokens?_escapes {bytes : List Nat} (h : ∀ b ∈ bytes, b < 256) (rest : List Char) :
    tokens? (bytes.flatMap escape ++ rest) = (tokens? rest).map (bytes.map .byte ++ ·) := by
  induction bytes with
  | nil => simp
  | cons b more ih =>
    rw [List.flatMap_cons, List.append_assoc, tokens?_escape (h b (by simp)),
      ih fun x hx => h x (List.mem_cons_of_mem _ hx)]
    simp [Function.comp_def]

/-- A character that stands for itself is its own code. -/
theorem codes_plain {c : Char} (h : c ≠ '%') : Codes c [c] :=
  ⟨[.plain c], tokens?_plain h, fun _ => rfl⟩

theorem codes_encodeChar (c : Char) : Codes c (encodeChar c) := by
  unfold encodeChar
  split
  · rename_i h
    exact codes_plain fun e => absurd (e ▸ h) (by decide)
  · have hbytes : ∀ b ∈ Utf8.encode c, b < 256 :=
      fun _ => Utf8.lt_of_mem_bytesOf (Utf8.toNat_lt c)
    exact ⟨(Utf8.encode c).map .byte, tokens?_escapes hbytes, gather?_bytes c⟩

/-- Decoding the code of a text gives the text back. -/
theorem decode?_encode (text : List Char) :
    decode? (String.ofList (encode text)) = some (String.ofList text) :=
  decode?_flatMap codes_encodeChar text

end DriveClient.Percent
