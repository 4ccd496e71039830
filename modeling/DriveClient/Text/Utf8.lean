/-!
# UTF-8

The bytes of a character and the strict reading of bytes: no overlong form, no surrogate, nothing
past the last code point. Bytes are natural numbers. Each part of a form gives back the bits that
were put into it, and a character is found again from its code point (`character?_toNat`).
-/

namespace DriveClient.Utf8

/-- The bytes of a code point. -/
def bytesOf (n : Nat) : List Nat :=
  if n < 0x80 then [n]
  else if n < 0x800 then [0xC0 + n / 64, 0x80 + n % 64]
  else if n < 0x10000 then [0xE0 + n / 4096, 0x80 + n / 64 % 64, 0x80 + n % 64]
  else [0xF0 + n / 262144, 0x80 + n / 4096 % 64, 0x80 + n / 64 % 64, 0x80 + n % 64]

/-- The bytes of a character. -/
def encode (c : Char) : List Nat := bytesOf c.toNat

/-- How many bytes follow a leading byte, and the bits that it contributes. -/
def leading? (b : Nat) : Option (Nat × Nat) :=
  if b < 0x80 then some (0, b)
  else if 0xC0 ≤ b ∧ b < 0xE0 then some (1, b - 0xC0)
  else if 0xE0 ≤ b ∧ b < 0xF0 then some (2, b - 0xE0)
  else if 0xF0 ≤ b ∧ b < 0xF8 then some (3, b - 0xF0)
  else none

/-- The bits that a byte after the leading one contributes. -/
def trailing? (b : Nat) : Option Nat := if 0x80 ≤ b ∧ b < 0xC0 then some (b - 0x80) else none

/-- The least code point whose form has this many bytes after the leading one. -/
def least : Nat → Nat
  | 0 => 0
  | 1 => 0x80
  | 2 => 0x800
  | _ => 0x10000

/-- The character with a code point, if it is one and its form needs the given number of bytes
after the leading one. -/
def character? (following codePoint : Nat) : Option Char :=
  if least following ≤ codePoint ∧ codePoint.isValidChar then some (Char.ofNat codePoint) else none

/-! ## Reading what was written -/

theorem leading?_two {n : Nat} (h : n < 32) : leading? (0xC0 + n) = some (1, n) := by
  rw [leading?, if_neg (by omega), if_pos (by omega), Nat.add_sub_cancel_left]

theorem leading?_three {n : Nat} (h : n < 16) : leading? (0xE0 + n) = some (2, n) := by
  rw [leading?, if_neg (by omega), if_neg (by omega), if_pos (by omega), Nat.add_sub_cancel_left]

theorem leading?_four {n : Nat} (h : n < 8) : leading? (0xF0 + n) = some (3, n) := by
  rw [leading?, if_neg (by omega), if_neg (by omega), if_neg (by omega), if_pos (by omega),
    Nat.add_sub_cancel_left]

theorem trailing?_add {n : Nat} (h : n < 64) : trailing? (0x80 + n) = some n := by
  rw [trailing?, if_pos (by omega), Nat.add_sub_cancel_left]

theorem toNat_lt (c : Char) : c.toNat < 0x110000 := by
  rcases c.valid with h | ⟨_, h⟩
  · exact Nat.lt_trans h (by decide)
  · exact h

theorem character?_toNat {c : Char} {following : Nat} (h : least following ≤ c.toNat) :
    character? following c.toNat = some c := by
  rw [character?, if_pos ⟨h, c.valid⟩, Char.ofNat_toNat]

theorem lt_of_mem_bytesOf {n b : Nat} (hmax : n < 0x110000) (h : b ∈ bytesOf n) : b < 256 := by
  unfold bytesOf at h
  split at h
  · simp at h
    omega
  split at h
  · simp at h
    omega
  split at h
  · simp at h
    omega
  · simp at h
    omega

end DriveClient.Utf8
