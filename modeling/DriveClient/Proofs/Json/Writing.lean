import DriveClient.Proofs.Json.Grammar

/-!
# Written strings and objects

What is written is spelled as the grammar says: a string in quotes spells that string
(`spellsText_quote`), and an object written from texts that spell its values spells the object
(`document_writeObject`).
-/

namespace DriveClient.Json

/-! ## Strings -/

/-- A control character is written by its number, in four digits. -/
theorem fourDigits_control {c : Char} (h : c.toNat < 0x20) :
    FourDigits ['0', '0', Hex.lower (c.toNat / 16), Hex.lower (c.toNat % 16)] c.toNat := by
  have hhigh := Hex.value?_lower (show c.toNat / 16 < 16 by omega)
  have hlow := Hex.value?_lower (show c.toNat % 16 < 16 by omega)
  have hzero : Hex.value? '0' = some 0 := rfl
  have hsum : 16 * (c.toNat / 16) + c.toNat % 16 = c.toNat := by omega
  exact ⟨rfl, by simp [Hex.read?, hzero, hhigh, hlow, hsum]⟩

theorem spellsChar_escapeChar (c : Char) : SpellsChar c (escapeChar c) := by
  unfold escapeChar
  repeat' split
  all_goals try subst_vars
  · exact .short rfl
  · exact .short rfl
  · exact .short rfl
  · exact .short rfl
  · exact .short rfl
  · exact .short rfl
  · exact .short rfl
  · next h => exact .numbered (fourDigits_control h)
  · next hq hb _ _ _ _ _ hc => exact .plain hq hb hc

theorem spellsChars_flatMap (cs : List Char) : SpellsChars cs (cs.flatMap escapeChar) := by
  induction cs with
  | nil => exact .nil
  | cons c more ih =>
    rw [List.flatMap_cons]
    exact .cons (spellsChar_escapeChar c) ih

/-- A string in quotes spells itself. -/
theorem spellsText_quote (s : String) : SpellsText s (quote s).toList := by
  refine ⟨_, spellsChars_flatMap s.toList, ?_⟩
  rw [quote, String.toList_ofList]

/-! ## Objects -/

/-- A member of an object together with the text its value is written as. The value fits inside the
brackets of the object. -/
structure Entry where
  name : String
  text : String
  tree : Tree
  spells : Spells (.value tree) text.toList
  fits : Fits (maxDepth - 1) tree

namespace Entry

/-- The member as the writer of objects takes it. -/
def source (e : Entry) : String × String := (e.name, e.text)

/-- The member as it is read. -/
def target (e : Entry) : String × Tree := (e.name, e.tree)

/-- A member with a string. -/
def ofString (name s : String) : Entry where
  name := name
  text := quote s
  tree := .string s
  spells := .string (spellsText_quote s)
  fits := .string s

/-- The text of the member in the written object. -/
def written (e : Entry) : List Char := (quote e.name).toList ++ ':' :: e.text.toList

end Entry

theorem Spells.element_of_value {tree : Tree} {text : List Char} (h : Spells (.value tree) text) :
    Spells (.element tree) text := by
  simpa using Spells.element .nil h .nil

theorem Entry.spells_written (e : Entry) : Spells (.member e.name e.tree) e.written := by
  have hvalue := Spells.element_of_value e.spells
  simpa [written] using Spells.member .nil (spellsText_quote e.name) .nil hvalue

theorem spells_members (e : Entry) (entries : List Entry) :
    Spells (.members ((e :: entries).map Entry.target))
      ([','].intercalate ((e :: entries).map Entry.written)) := by
  induction entries generalizing e with
  | nil =>
    rw [List.map_singleton, List.map_singleton, List.intercalate_singleton]
    exact .lastMember e.spells_written
  | cons next entries ih =>
    have hrest := ih next
    simp only [List.map_cons] at hrest ⊢
    rw [List.intercalate_cons_cons, List.append_assoc]
    exact .moreMembers e.spells_written hrest

theorem toList_writeObject (entries : List Entry) :
    (writeObject (entries.map Entry.source)).toList =
      '\x7b' :: [','].intercalate (entries.map Entry.written) ++ ['\x7d'] := by
  have hopen : "\x7b".toList = ['\x7b'] := rfl
  have hcomma : ",".toList = [','] := rfl
  have hclose : "\x7d".toList = ['\x7d'] := rfl
  have hmap (f : Entry → List Char) (hf : ∀ e, f e = e.written) :
      entries.map f = entries.map Entry.written := List.map_congr_left fun e _ => hf e
  rw [writeObject, String.toList_append, String.toList_append, String.toList_intercalate,
    List.map_map, List.map_map, hopen, hcomma, hclose, hmap _ fun e => ?_]
  · rfl
  · have hcolon : ":".toList = [':'] := rfl
    simp only [Function.comp, Entry.source, String.toList_append, hcolon, Entry.written,
      List.append_assoc, List.cons_append, List.nil_append]

/-- A written object is a document: the object with the values of its texts. -/
theorem document_writeObject (entries : List Entry) :
    Document (writeObject (entries.map Entry.source)) (.object (entries.map Entry.target)) := by
  constructor
  · apply Spells.element_of_value
    rw [toList_writeObject]
    cases entries with
    | nil => exact .emptyObject .nil
    | cons e entries => exact .object (spells_members e entries)
  · refine Fits.object fun m hm => ?_
    obtain ⟨e, -, rfl⟩ := List.mem_map.1 hm
    exact e.fits

end DriveClient.Json
