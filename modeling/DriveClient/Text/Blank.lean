/-!
# Blank characters

The characters with the property White_Space, and texts without them at either end.
-/

namespace DriveClient.Text

/-- Whether a character is white space: the ASCII blanks and controls, the next-line control, and
the spaces and separators beyond ASCII. -/
def isBlank (c : Char) : Bool :=
  let n := c.toNat
  (0x09 ≤ n && n ≤ 0x0D) || n == 0x20 || n == 0x85 || n == 0xA0 || n == 0x1680 ||
    (0x2000 ≤ n && n ≤ 0x200A) || n == 0x2028 || n == 0x2029 || n == 0x202F || n == 0x205F ||
    n == 0x3000

/-- A text without its blanks at the start. -/
def trimStart (text : List Char) : List Char := text.dropWhile isBlank

/-- A text without its blanks at the end. -/
def trimEnd (text : List Char) : List Char := (trimStart text.reverse).reverse

/-- A text without its blanks at both ends. -/
def trim (text : String) : String := String.ofList (trimEnd (trimStart text.toList))

end DriveClient.Text
