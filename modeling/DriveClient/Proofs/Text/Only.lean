/-!
# Characters of one kind

Texts that are made of one kind of characters, such as blanks. Every text begins with one of them,
which may be empty, and dropping it leaves the rest.
-/

namespace DriveClient.Text

/-- Nothing but characters of a kind. -/
def Only (kind : Char → Bool) (text : List Char) : Prop := ∀ c ∈ text, kind c = true

variable {kind : Char → Bool} {text before after : List Char}

theorem Only.nil : Only kind [] := fun _ hc => absurd hc List.not_mem_nil

theorem Only.append (hbefore : Only kind before) (hafter : Only kind after) :
    Only kind (before ++ after) := by
  intro c hc
  rcases List.mem_append.1 hc with hc | hc
  · exact hbefore c hc
  · exact hafter c hc

theorem Only.reverse (h : Only kind text) : Only kind text.reverse :=
  fun c hc => h c (List.mem_reverse.1 hc)

/-- What is dropped from the start of a text is of the kind. -/
theorem exists_only_dropWhile (kind : Char → Bool) (text : List Char) :
    ∃ before, Only kind before ∧ text = before ++ text.dropWhile kind := by
  have hall : (text.takeWhile kind).all kind = true := List.all_takeWhile
  exact ⟨text.takeWhile kind, fun c hc => List.all_eq_true.1 hall c hc,
    List.takeWhile_append_dropWhile.symm⟩

/-- No more is dropped than what is of the kind. -/
theorem dropWhile_only_append (h : Only kind before) (hstart : ∀ c ∈ text.head?, kind c = false) :
    (before ++ text).dropWhile kind = text := by
  rw [List.dropWhile_append_of_pos h]
  cases text with
  | nil => rfl
  | cons c rest =>
    have hc : kind c = false := hstart c rfl
    exact List.dropWhile_cons_of_neg (by rw [hc]; exact Bool.false_ne_true)

end DriveClient.Text
