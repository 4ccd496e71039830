import DriveClient.Proofs.Json.Soundness

/-!
# Documents piece by piece

What a reader finds that goes through a document without building its tree. The first character of a
value tells its kind (`Spells.opens`). Inside brackets, the reader stands before elements or members
that are still to come (`ElementsRead`, `MembersRead`): it finds the next one with the text behind
it, or the closing bracket.
-/

namespace DriveClient.Json

/-! ## The kind of a value -/

/-- The characters that a value of some kind can begin with. -/
def Opens : Tree → Char → Prop
  | .null, c => c = 'n'
  | .bool _, c => c = 't' ∨ c = 'f'
  | .number _, c => c = '-' ∨ c.isDigit
  | .string _, c => c = '"'
  | .array _, c => c = '['
  | .object _, c => c = '\x7b'

theorem Spells.opens {tree : Tree} {text : List Char} (h : Spells (.value tree) text) :
    ∃ c more, text = c :: more ∧ Opens tree c := by
  cases h with
  | nullWord => exact ⟨_, _, rfl, rfl⟩
  | trueWord => exact ⟨_, _, rfl, .inl rfl⟩
  | falseWord => exact ⟨_, _, rfl, .inr rfl⟩
  | number h => exact h.exists_cons
  | string h =>
    obtain ⟨codes, -, rfl⟩ := h
    exact ⟨_, _, rfl, rfl⟩
  | emptyArray _ => exact ⟨_, _, rfl, rfl⟩
  | array _ => exact ⟨_, _, rfl, rfl⟩
  | emptyObject _ => exact ⟨_, _, rfl, rfl⟩
  | object _ => exact ⟨_, _, rfl, rfl⟩

namespace Opens

variable {tree : Tree} {c : Char}

theorem number_iff (h : Opens tree c) : (c = '-' ∨ c.isDigit) ↔ ∃ n, tree = .number n := by
  cases tree with
  | number n => exact iff_of_true h ⟨n, rfl⟩
  | bool value =>
    rcases h with rfl | rfl
    all_goals exact iff_of_false (by decide) (by simp)
  | _ =>
    obtain rfl := h
    exact iff_of_false (by decide) (by simp)

/-- Strings, lists and objects begin with a character of their own. -/
theorem bracket_iff (h : Opens tree c) :
    (c = '"' ↔ ∃ s, tree = .string s) ∧ (c = '[' ↔ ∃ trees, tree = .array trees) ∧
      (c = '\x7b' ↔ ∃ members, tree = .object members) := by
  cases tree with
  | number n =>
    have hne (d : Char) (hd : d ≠ '-' ∧ ¬d.isDigit) : c ≠ d := by
      rintro rfl
      exact h.elim hd.1 hd.2
    simp [hne '"' (by decide), hne '[' (by decide), hne '\x7b' (by decide)]
  | bool value =>
    rcases h with rfl | rfl
    all_goals simp
  | _ =>
    obtain rfl := h
    simp

end Opens

/-- After its blanks an element begins with its value. -/
theorem Spells.element_opens {tree : Tree} {text : List Char} (h : Spells (.element tree) text)
    (rest : List Char) :
    ∃ c body after, Blank after ∧ skipBlanks (text ++ rest) = c :: (body ++ after ++ rest) ∧
      Spells (.value tree) (c :: body) ∧ Opens tree c := by
  cases h with
  | @element _ before value after hb hv ha =>
    obtain ⟨c, body, rfl, hc, -⟩ := hv.value_cons
    obtain ⟨d, more, hd, hopens⟩ := hv.opens
    obtain rfl : c = d := List.head_eq_of_cons_eq hd
    refine ⟨c, body, after, ha, ?_, hv, hopens⟩
    rw [List.append_assoc, List.append_assoc, List.cons_append, skipBlanks_append_cons hb hc,
      List.append_assoc]

/-! ## Lists -/

variable {room : Nat} {first : Bool} {text rest : List Char}

theorem nextElement_lead {lead body : List Char} {trees : List Tree} (hlead : Lead first lead)
    (h : Spells (.elements trees) body) (rest : List Char) :
    nextElement first (lead ++ body ++ ']' :: rest) =
      .ok (.item (skipBlanks (body ++ ']' :: rest))) := by
  obtain ⟨c, more, hskip, hc⟩ := h.elements_cons (']' :: rest)
  rw [List.append_assoc]
  cases first with
  | true =>
    obtain rfl : lead = [] := hlead
    exact nextElement_first hskip hc
  | false =>
    obtain ⟨blanks, hb, rfl⟩ := hlead
    rw [List.append_assoc, List.singleton_append]
    exact nextElement_comma (skipBlanks_append_cons hb (by decide) _) hskip hc

/-- When no element is left, the bracket comes next. -/
theorem ElementsRead.close (h : ElementsRead room first text rest []) :
    nextElement first text = .ok (.close rest) := by
  obtain ⟨-, ⟨-, blanks, hb, rfl⟩ | ⟨lead, body, -, -, hbody⟩⟩ := h
  · exact nextElement_close first (skipBlanks_append_cons hb (by decide) rest)
  · cases hbody

/-- The next element, and what is left behind it up to blanks. -/
theorem ElementsRead.next {tree : Tree} {trees : List Tree}
    (h : ElementsRead room first text rest (tree :: trees)) :
    ∃ element tail, nextElement first text = .ok (.item (skipBlanks (element ++ tail))) ∧
      Spells (.element tree) element ∧ Fits room tree ∧ Ends tail ∧
      ∀ after, Blank after → ElementsRead room false (after ++ tail) rest trees := by
  obtain ⟨hfits, ⟨hnil, -⟩ | ⟨lead, body, hlead, rfl, hbody⟩⟩ := h
  · exact absurd hnil (List.cons_ne_nil tree trees)
  · obtain ⟨hfit, hfits⟩ := List.forall_mem_cons.1 hfits
    rw [nextElement_lead hlead hbody]
    -- behind the last element the bracket is left, behind any other a comma and more of them
    cases hbody with
    | lastElement h =>
      refine ⟨body, ']' :: rest, rfl, h, hfit, .cons (.inr (.inl rfl)) rest, fun after ha => ?_⟩
      exact ⟨hfits, .inl ⟨rfl, after, ha, rfl⟩⟩
    | @moreElements _ _ element texts h hs =>
      refine ⟨element, ',' :: (texts ++ ']' :: rest), by simp, h, hfit, .cons (.inl rfl) _,
        fun after ha => ⟨hfits, .inr ⟨after ++ [','], texts, ⟨after, ha, rfl⟩, ?_, hs⟩⟩⟩
      simp

/-- Behind its opening bracket a list is its elements and the closing one. -/
theorem Spells.array_elements {trees : List Tree} {body : List Char}
    (h : Spells (.value (.array trees)) ('[' :: body)) (hfits : Fits room (.array trees))
    (rest : List Char) : ∃ inside, ElementsRead inside true (body ++ rest) rest trees := by
  cases hfits with
  | @array inside _ hfits =>
    refine ⟨inside, hfits, ?_⟩
    generalize hopen : '[' :: body = value at h
    cases h with
    | emptyArray hb =>
      obtain rfl := List.tail_eq_of_cons_eq hopen
      exact .inl ⟨rfl, _, hb, by simp⟩
    | array h =>
      obtain rfl := List.tail_eq_of_cons_eq hopen
      exact .inr ⟨[], _, rfl, by simp, h⟩

/-! ## Objects -/

theorem nextMember_lead {lead body more : List Char} (hlead : Lead first lead)
    (h : skipBlanks (body ++ '\x7d' :: rest) = '"' :: more) :
    nextMember first (lead ++ body ++ '\x7d' :: rest) = .ok (.item more) := by
  rw [List.append_assoc]
  cases first with
  | true =>
    obtain rfl : lead = [] := hlead
    exact nextMember_first h
  | false =>
    obtain ⟨blanks, hb, rfl⟩ := hlead
    rw [List.append_assoc, List.singleton_append]
    exact nextMember_comma (skipBlanks_append_cons hb (by decide) _) h

/-- When no member is left, the brace comes next. -/
theorem MembersRead.close (h : MembersRead room first text rest []) :
    nextMember first text = .ok (.close rest) := by
  obtain ⟨-, ⟨-, blanks, hb, rfl⟩ | ⟨lead, body, -, -, hbody⟩⟩ := h
  · exact nextMember_close first (skipBlanks_append_cons hb (by decide) rest)
  · cases hbody

/-- A member is its name in quotes, a colon and its value. -/
theorem Spells.member_parts {name : String} {tree : Tree} (h : Spells (.member name tree) text)
    (rest : List Char) :
    ∃ item colon element, skipBlanks (text ++ rest) = '"' :: item ∧
      readString .full item = .ok (name, colon) ∧ readColon colon = .ok (element ++ rest) ∧
      Spells (.element tree) element := by
  cases h with
  | @member _ _ before key after element hb hk ha h =>
    obtain ⟨codes, hcodes, rfl⟩ := hk
    refine ⟨codes ++ '"' :: (after ++ ':' :: (element ++ rest)), after ++ ':' :: (element ++ rest),
      element, ?_, readString_spelled hcodes _, readColon_blank ha _, h⟩
    simp only [List.append_assoc, List.cons_append, List.nil_append]
    rw [skipBlanks_append_cons hb (by decide)]

/-- The next member with its name and its value, and what is left behind it up to blanks. -/
theorem MembersRead.next {name : String} {tree : Tree} {members : List (String × Tree)}
    (h : MembersRead room first text rest ((name, tree) :: members)) :
    ∃ item colon element tail, nextMember first text = .ok (.item item) ∧
      readString .full item = .ok (name, colon) ∧ readColon colon = .ok (element ++ tail) ∧
      Spells (.element tree) element ∧ Fits room tree ∧ Ends tail ∧
      ∀ after, Blank after → MembersRead room false (after ++ tail) rest members := by
  obtain ⟨hfits, ⟨hnil, -⟩ | ⟨lead, body, hlead, rfl, hbody⟩⟩ := h
  · exact absurd hnil (List.cons_ne_nil (name, tree) members)
  · obtain ⟨hfit, hfits⟩ := List.forall_mem_cons.1 hfits
    cases hbody with
    | lastMember h =>
      obtain ⟨item, colon, element, hskip, hname, hcolon, helement⟩ :=
        h.member_parts ('\x7d' :: rest)
      refine ⟨item, colon, element, '\x7d' :: rest, nextMember_lead hlead hskip, hname, hcolon,
        helement, hfit, .cons (.inr (.inr rfl)) rest, fun after ha => ?_⟩
      exact ⟨hfits, .inl ⟨rfl, after, ha, rfl⟩⟩
    | @moreMembers _ _ _ member texts h hs =>
      obtain ⟨item, colon, element, hskip, hname, hcolon, helement⟩ :=
        h.member_parts (',' :: (texts ++ '\x7d' :: rest))
      have hskip' : skipBlanks (member ++ ',' :: texts ++ '\x7d' :: rest) = '"' :: item := by
        rw [List.append_assoc]
        exact hskip
      refine ⟨item, colon, element, ',' :: (texts ++ '\x7d' :: rest), nextMember_lead hlead hskip',
        hname, hcolon, helement, hfit, .cons (.inl rfl) _,
        fun after ha => ⟨hfits, .inr ⟨after ++ [','], texts, ⟨after, ha, rfl⟩, ?_, hs⟩⟩⟩
      simp

/-- Behind its opening brace an object is its members and the closing one. -/
theorem Spells.object_members {members : List (String × Tree)} {body : List Char}
    (h : Spells (.value (.object members)) ('\x7b' :: body)) (hfits : Fits room (.object members))
    (rest : List Char) : ∃ inside, MembersRead inside true (body ++ rest) rest members := by
  cases hfits with
  | @object inside _ hfits =>
    refine ⟨inside, hfits, ?_⟩
    generalize hopen : '\x7b' :: body = value at h
    cases h with
    | emptyObject hb =>
      obtain rfl := List.tail_eq_of_cons_eq hopen
      exact .inl ⟨rfl, _, hb, by simp⟩
    | object h =>
      obtain rfl := List.tail_eq_of_cons_eq hopen
      exact .inr ⟨[], _, rfl, by simp, h⟩

/-- Each member takes a character at least. -/
theorem Spells.members_length_le {members : List (String × Tree)} {body : List Char}
    (h : Spells (.members members) body) : members.length ≤ body.length := by
  induction members generalizing body with
  | nil => exact Nat.zero_le _
  | cons m members ih =>
    cases h with
    | lastMember h => exact h.member_length_pos
    | moreMembers h hs =>
      have hmore := ih hs
      simp only [List.length_append, List.length_cons]
      omega

theorem MembersRead.length_le {members : List (String × Tree)}
    (h : MembersRead room first text rest members) : members.length ≤ text.length := by
  obtain ⟨-, ⟨rfl, -⟩ | ⟨lead, body, -, rfl, hbody⟩⟩ := h
  · exact Nat.zero_le _
  · have hlength := hbody.members_length_le
    simp only [List.length_append]
    omega

end DriveClient.Json
