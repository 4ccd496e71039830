import DriveClient.Proofs.Json.Passing
import DriveClient.Proofs.Json.Pieces
import DriveClient.Proofs.Json.WellFormed
import DriveClient.Proofs.Usage.Acceptance
import DriveClient.Proofs.Usage.Collecting

/-!
# Reading directly and reading a tree

At a document a usage is read directly with the same outcome as from the tree of the document
(`read_document_iff`). Why a text is refused need not be the same, since direct reading stops at the
first thing it cannot use. So what is compared is the usage that is given, or that none is given.

A member nobody asks for is passed over by the direct reader, and a surrogate may stand alone in it.
The agreement is therefore stated for the texts whose surrogates are paired (`read_agrees`).
-/

namespace DriveClient.Usage

open Json

open Report (loneSurrogate wellFormedText_loneSurrogate read_loneSurrogate)

/-! ## What a reader gives -/

section Given

variable {α β : Type}

theorem toOption_bind (x : Except Stop α) (next : α → Except Stop β) :
    (x >>= next).toOption = x.toOption.bind fun a => (next a).toOption := by
  cases x <;> rfl

theorem toOption_orFaulty (x : Except Json.Stop α) : (orFaulty x).toOption = x.toOption := by
  cases x <;> rfl

theorem toOption_eq_some_iff {x : Except Stop α} {a : α} : x.toOption = some a ↔ x = .ok a := by
  cases x <;> simp [Except.toOption]

end Given

/-! ## Numbers and strings -/

/-- A reader of one value gives what is taken from the tree of the value, and leaves what follows
the value up to blanks. Blanks before the value make no difference. -/
structure ReadsElement {α : Type} (read : List Char → Except Stop (α × List Char))
    (value? : Tree → Option α) : Prop where
  read_skipBlanks : ∀ text, read (skipBlanks text) = read text
  read_element : ∀ {room : Nat} {tree : Tree} {element rest : List Char},
    Spells (.element tree) element → Fits room tree → Ends rest →
      ∃ after, Blank after ∧
        (read (element ++ rest)).toOption = (value? tree).map (·, after ++ rest)

theorem readsElement_readNumber : ReadsElement readNumber Tree.double? := by
  refine ⟨fun text => ?_, fun {room tree element rest} h hfits hends => ?_⟩
  · rw [readNumber, readNumber, skipBlanks_skipBlanks]
  obtain ⟨c, body, after, ha, hskip, hvalue, hopens⟩ := h.element_opens rest
  refine ⟨after, ha, ?_⟩
  rw [readNumber, hskip]
  -- the reader looks at one character, and this tells whether the value is a number
  by_cases hc : c = '-' ∨ c.isDigit
  · obtain ⟨n, rfl⟩ := hopens.number_iff.1 hc
    cases hvalue with
    | number hspells =>
      cases hfits with
      | number hn =>
        have hread := Literal.read_spelled hspells (hends.append ha) hn
        rw [List.cons_append, ← List.append_assoc] at hread
        simp only [if_pos hc, hread]
        rfl
  · have hnone : tree.double? = none := by
      refine Option.eq_none_iff_forall_ne_some.2 fun v hv => hc ?_
      obtain ⟨n, htree, -⟩ := Tree.double?_eq_some_iff.1 hv
      exact hopens.number_iff.2 ⟨n, htree⟩
    simp only [if_neg hc, hnone]
    rfl

theorem readsElement_readText : ReadsElement readText Tree.text? := by
  refine ⟨fun text => ?_, fun {room tree element rest} h hfits hends => ?_⟩
  · rw [readText, readText, skipBlanks_skipBlanks]
  obtain ⟨c, body, after, ha, hskip, hvalue, hopens⟩ := h.element_opens rest
  refine ⟨after, ha, ?_⟩
  rw [readText, hskip]
  by_cases hc : c = '"'
  · subst hc
    obtain ⟨s, rfl⟩ := hopens.bracket_iff.1.1 rfl
    cases hvalue with
    | string hspells =>
      obtain ⟨codes, hcodes, htext⟩ := hspells
      obtain rfl : body = codes ++ ['"'] := List.tail_eq_of_cons_eq htext
      have hread := readString_spelled hcodes (after ++ rest)
      simp only [if_pos, List.append_assoc, List.cons_append, List.nil_append, hread]
      rfl
  · have hnone : tree.text? = none := by
      refine Option.eq_none_iff_forall_ne_some.2 fun s hs => hc ?_
      exact hopens.bracket_iff.1.2 ⟨s, Tree.text?_eq_some_iff.1 hs⟩
    simp only [if_neg hc, hnone]
    rfl

/-! ## Members -/

section Member

variable {room : Nat} {tree : Tree} {colon element tail : List Char}

/-- A member that is not yet found is filled in, when its value is of the right kind. -/
theorem toOption_fill {α : Type} {read : List Char → Except Stop (α × List Char)}
    {value? : Tree → Option α} (hread : ReadsElement read value?) (field : Option α)
    (set : α → Found) (hcolon : readColon colon = .ok (element ++ tail))
    (h : Spells (.element tree) element) (hfits : Fits room tree) (hends : Ends tail) :
    ∃ after, Blank after ∧
      (if field.isSome then .error .otherForm
        else orFaulty (readColon colon) >>= fun text =>
          read text >>= fun r => pure (set r.1, r.2)).toOption =
        (if field.isSome then none else (value? tree).map set).map (·, after ++ tail) := by
  obtain ⟨after, ha, hvalue⟩ := hread.read_element h hfits hends
  refine ⟨after, ha, ?_⟩
  split
  · rfl
  · rw [hcolon]
    show (read (element ++ tail) >>= _).toOption = _
    rw [toOption_bind, hvalue]
    cases value? tree <;> rfl

/-- A member nobody asks for is passed over. -/
theorem readValue_pass (h : Spells (.element tree) element) (hfits : Fits room tree)
    (hends : Ends tail) :
    ∃ after tree', Blank after ∧
      readValue .pass (stepsFor (element ++ tail)) 0 (element ++ tail) =
        .ok (tree', after ++ tail) := by
  have hfuel : 2 * element.length ≤ stepsFor (element ++ tail) := by
    rw [stepsFor, List.length_append]
    omega
  obtain ⟨after, ha, hread⟩ := h.reads _ room tail hfits hfuel hends
  obtain ⟨tree', hpass⟩ := getsAsFar_readValue _ room 0 _ tree (after ++ tail) hread
  exact ⟨after, tree', ha, hpass⟩

theorem toOption_readMember (found : Found) (name : String)
    (hcolon : readColon colon = .ok (element ++ tail)) (h : Spells (.element tree) element)
    (hfits : Fits room tree) (hends : Ends tail) :
    ∃ after, Blank after ∧
      (readMember found name colon).toOption = (found.add? name tree).map (·, after ++ tail) := by
  unfold readMember Found.add?
  split
  · exact toOption_fill readsElement_readNumber found.used
      (fun v => { found with used := some v }) hcolon h hfits hends
  split
  · exact toOption_fill readsElement_readNumber found.total
      (fun v => { found with total := some v }) hcolon h hfits hends
  split
  · exact toOption_fill readsElement_readText found.unit
      (fun s => { found with unit := some s }) hcolon h hfits hends
  · -- the tree that is passed over may differ, but it is dropped
    obtain ⟨after, tree', ha, hpass⟩ := readValue_pass h hfits hends
    refine ⟨after, ha, ?_⟩
    rw [hcolon]
    show (orFaulty (readValue .pass _ 0 (element ++ tail)) >>= _).toOption = _
    rw [hpass]
    rfl

end Member

/-- The members of an object are collected while they are read. The induction is on the members that
are still to come. -/
theorem toOption_readMembers {members : List (String × Tree)} {found : Found} {room fuel : Nat}
    {first : Bool} {text rest : List Char} (h : MembersRead room first text rest members)
    (hfuel : members.length < fuel) :
    (readMembers fuel first found text).toOption =
      ((found.addAll? members).bind Found.usage?).map (·, rest) := by
  induction members generalizing found first text fuel with
  | nil =>
    obtain ⟨fuel, rfl⟩ := Nat.exists_eq_add_of_le' (Nat.zero_lt_of_lt hfuel)
    rw [readMembers, h.close, Found.addAll?, Option.bind_some]
    cases found.usage? with
    | none => simp [orFaulty, bind, Except.bind, Except.toOption]
    | some usage => simp [orFaulty, bind, Except.bind, Except.toOption, pure, Except.pure]
  | cons m members ih =>
    obtain ⟨name, tree⟩ := m
    obtain ⟨fuel, rfl⟩ := Nat.exists_eq_add_of_le' (Nat.zero_lt_of_lt hfuel)
    obtain ⟨item, colon, element, tail, hnext, hname, hcolon, helement, hfits, hends, hmore⟩ :=
      h.next
    obtain ⟨after, ha, hmember⟩ := toOption_readMember found name hcolon helement hfits hends
    have hread : (readMembers (fuel + 1) first found text).toOption =
        (readMember found name colon >>= fun r => readMembers fuel false r.1 r.2).toOption := by
      rw [readMembers, hnext]
      show (orFaulty (readString .full item) >>= _).toOption = _
      rw [hname]
      rfl
    -- both sides go on with what is found after this member, or end here
    rw [hread, toOption_bind, hmember, Found.addAll?]
    cases found.add? name tree with
    | none => rfl
    | some next => exact ih (hmore after ha) (Nat.lt_of_succ_lt_succ hfuel)

/-! ## Lists -/

section List

variable {room : Nat} {first : Bool} {text rest : List Char} {trees : List Tree}

/-- The next element of a list is read, and the others are left. There must be one. -/
theorem toOption_item {α β : Type} {read : List Char → Except Stop (α × List Char)}
    {value? : Tree → Option α} (hread : ReadsElement read value?)
    {next : α × List Char → Except Stop β} {result : α → Option β}
    (h : ElementsRead room first text rest trees)
    (hnext : ∀ v more, ElementsRead room false more rest trees.tail →
      (next (v, more)).toOption = result v) :
    (requireElement first text >>= fun item => read item >>= next).toOption =
      trees.head?.bind fun tree => (value? tree).bind result := by
  cases trees with
  | nil =>
    rw [requireElement, h.close]
    rfl
  | cons tree trees =>
    obtain ⟨element, tail, hitem, helement, hfits, hends, hmore⟩ := h.next
    obtain ⟨after, ha, hvalue⟩ := hread.read_element helement hfits hends
    rw [requireElement, hitem]
    show (read (skipBlanks (element ++ tail)) >>= next).toOption = (value? tree).bind result
    rw [hread.read_skipBlanks, toOption_bind, hvalue]
    cases value? tree with
    | none => rfl
    | some v => exact hnext v (after ++ tail) (hmore after ha)

/-- A list is closed where no element is left. -/
theorem toOption_close (usage : Usage) (h : ElementsRead room false text rest trees) :
    (orFaulty (readClose text) >>= fun left => pure (usage, left)).toOption =
      if trees.isEmpty then some (usage, rest) else none := by
  obtain ⟨-, ⟨rfl, blanks, hb, rfl⟩ | ⟨lead, body, ⟨blanks, hb, rfl⟩, rfl, hbody⟩⟩ := h
  · rw [readClose, skipBlanks_append_cons hb (by decide)]
    rfl
  · -- where an element is left a comma comes next, and it is refused whatever follows it
    have hskip : skipBlanks (blanks ++ [','] ++ body ++ ']' :: rest) =
        ',' :: (body ++ ']' :: rest) := by
      simp only [List.append_assoc, List.cons_append, List.nil_append]
      exact skipBlanks_append_cons hb (by decide) _
    have hclose : (readClose (blanks ++ [','] ++ body ++ ']' :: rest)).toOption = none := by
      rw [readClose, hskip]
      simp only [if_neg (show ',' ≠ ']' by decide), if_pos]
      split <;> rfl
    rw [toOption_bind, toOption_orFaulty, hclose]
    cases hbody <;> rfl

/-- A list is three values of the right kinds, told from its front. -/
theorem ofTree?_array (trees : List Tree) :
    ofTree? (.array trees) =
      trees.head?.bind fun a => a.double?.bind fun used =>
        trees.tail.head?.bind fun b => b.double?.bind fun total =>
          trees.tail.tail.head?.bind fun c => c.text?.bind fun unit =>
            if trees.tail.tail.tail.isEmpty then some ⟨used, total, unit⟩ else none := by
  rcases trees with _ | ⟨a, _ | ⟨b, _ | ⟨c, _ | ⟨d, more⟩⟩⟩⟩
  all_goals simp [ofTree?]

theorem toOption_readList (h : ElementsRead room true text rest trees) :
    (readList text).toOption = (ofTree? (.array trees)).map (·, rest) := by
  have hread : readList text =
      requireElement true text >>= fun item => readNumber item >>= fun used =>
        requireElement false used.2 >>= fun item => readNumber item >>= fun total =>
          requireElement false total.2 >>= fun item => readText item >>= fun unit =>
            orFaulty (readClose unit.2) >>= fun left =>
              pure (⟨used.1, total.1, unit.1⟩, left) := rfl
  rw [hread, ofTree?_array]
  simp only [Option.map_bind, Function.comp_def]
  refine toOption_item readsElement_readNumber h fun used more h => ?_
  refine toOption_item readsElement_readNumber h fun total more h => ?_
  refine toOption_item readsElement_readText h fun unit more h => ?_
  rw [toOption_close ⟨used, total, unit⟩ h]
  split <;> rfl

end List

/-! ## Whole texts -/

/-- A document is read as the usage its tree is, up to blanks. -/
theorem toOption_readPart {text : List Char} {tree : Tree} (h : Spells (.element tree) text)
    (hfits : Fits maxDepth tree) :
    ∃ after, Blank after ∧ (readPart text).toOption = (ofTree? tree).map (·, after) := by
  obtain ⟨c, body, after, ha, hskip, hvalue, hopens⟩ := h.element_opens []
  obtain ⟨-, harray, hobject⟩ := hopens.bracket_iff
  refine ⟨after, ha, ?_⟩
  rw [List.append_nil, List.append_nil] at hskip
  rw [readPart, hskip]
  -- the number itself plays no part
  generalize maxDepth = room at hfits
  by_cases hlist : c = '['
  · obtain ⟨trees, rfl⟩ := harray.1 hlist
    subst hlist
    obtain ⟨inside, hread⟩ := hvalue.array_elements hfits after
    simp only [if_pos]
    exact toOption_readList hread
  by_cases hbrace : c = '\x7b'
  · obtain ⟨members, rfl⟩ := hobject.1 hbrace
    subst hbrace
    obtain ⟨inside, hread⟩ := hvalue.object_members hfits after
    simp only [if_neg hlist, if_pos]
    rw [toOption_readMembers hread (Nat.lt_succ_of_le hread.length_le), bind_addAll?_usage?]
  · have hnone : ofTree? tree = none := by
      cases tree with
      | array trees => exact absurd (harray.2 ⟨trees, rfl⟩) hlist
      | object members => exact absurd (hobject.2 ⟨members, rfl⟩) hbrace
      | _ => rfl
    simp only [if_neg hlist, if_neg hbrace, hnone]
    rfl

/-- What is read of a whole text: a usage at its start, and blanks behind it. -/
theorem read_eq_ok_iff {text : String} {usage : Usage} :
    read text = .ok usage ↔
      ∃ rest, readPart text.toList = .ok (usage, rest) ∧ readEnd rest = .ok () := by
  unfold read
  cases readPart text.toList with
  | error stop => cases stop <;> simp [bind, Except.bind]
  | ok part =>
    obtain ⟨found, rest⟩ := part
    cases hend : readEnd rest with
    | error stop => simp [bind, Except.bind, orFaulty, hend]
    | ok done => simp [bind, Except.bind, pure, Except.pure, orFaulty, hend]

/-- At a document the direct reader gives the usage that the tree of the document is. -/
theorem read_document_iff {text : String} {tree : Tree} (h : Document text tree) {usage : Usage} :
    read text = .ok usage ↔ ofTree? tree = some usage := by
  obtain ⟨after, ha, hpart⟩ := toOption_readPart h.spells h.fits
  have hpart_iff (rest : List Char) : readPart text.toList = .ok (usage, rest) ↔
      ofTree? tree = some usage ∧ after = rest := by
    rw [← toOption_eq_some_iff, hpart, Option.map_eq_some_iff]
    simp
  simp only [read_eq_ok_iff, hpart_iff]
  constructor
  · rintro ⟨rest, ⟨hv, -⟩, -⟩
    exact hv
  · exact fun hv => ⟨after, ⟨hv, rfl⟩, readEnd_blank ha⟩

/-! ## Two ways of reading -/

/-- Only documents give a report. -/
theorem exists_document_of_report {text : String} {report : Report}
    (h : Report.read text = .ok report) : ∃ tree, Document text tree := by
  unfold Report.read at h
  split at h
  · exact absurd h (by simp)
  · next tree rest htree =>
    split at h
    · exact absurd h (by simp)
    · split at h
      · exact absurd h (by simp)
      · next hend => exact ⟨tree, document_iff.2 ⟨rest, htree, hend⟩⟩

/-- At a document a usage is read directly exactly when it is reported. -/
theorem read_iff_report {text : String} {tree : Tree} (h : Document text tree) {usage : Usage} :
    read text = .ok usage ↔ Report.read text = .ok (.units usage) := by
  rw [read_document_iff h, Report.ofTree?_units_iff, ← Report.ofTree?_eq_units_iff,
    Report.read_document h]
  cases Report.ofTree? tree <;> simp

/-- **Two ways of reading.** They agree at every well-formed text whose surrogates are paired: a
usage is read directly exactly when it is reported. And whatever text is reported as a usage is read
directly as this usage. -/
theorem read_agrees :
    (∀ text, WellFormedText Paired text →
      ∀ usage, read text = .ok usage ↔ Report.read text = .ok (.units usage)) ∧
    ∀ text usage, Report.read text = .ok (.units usage) → read text = .ok usage := by
  constructor
  · intro text hwell usage
    obtain ⟨tree, hdoc⟩ := exists_document_iff.2 hwell
    exact read_iff_report hdoc
  · intro text usage hreport
    obtain ⟨tree, hdoc⟩ := exists_document_of_report hreport
    exact (read_iff_report hdoc).2 hreport

/-- A text with an escape in a name, and a member to pass over with nested lists and a pair of
surrogates. -/
def nestedNote : String :=
  "\x7b\"note\":[[1e5,\"\\ud83d\\ude00\"],[]],\"total\":2,\"\\u0075sed\":1,\"unit\":\"GB\"\x7d"

theorem read_agrees_nestedNote :
    WellFormedText Paired nestedNote ∧
      Report.read nestedNote = .ok (.units ⟨.ofNat 1, .ofNat 2, "GB"⟩) ∧
      read nestedNote = .ok ⟨.ofNat 1, .ofNat 2, "GB"⟩ := by
  have hreport : Report.read nestedNote = .ok (.units ⟨.ofNat 1, .ofNat 2, "GB"⟩) := by
    decide +kernel
  have hwell := exists_document_iff.1 (exists_document_of_report hreport)
  exact ⟨hwell, hreport, (read_agrees.1 nestedNote hwell _).2 hreport⟩

/-- A surrogate that stands alone is passed over with its member, but it keeps the text from being
read as a tree. -/
theorem read_disagrees_at_loneSurrogate :
    WellFormedText Quoted loneSurrogate ∧ read loneSurrogate = .ok ⟨.ofNat 1, .ofNat 2, "GB"⟩ ∧
      Report.read loneSurrogate = .error (.faulty ⟨.cutSurrogatePair, 1, 16⟩) ∧
      ¬∀ text, WellFormedText Quoted text →
        ∀ usage, read text = .ok usage ↔ Report.read text = .ok (.units usage) := by
  have hread : read loneSurrogate = .ok ⟨.ofNat 1, .ofNat 2, "GB"⟩ := by decide +kernel
  refine ⟨wellFormedText_loneSurrogate, hread, read_loneSurrogate, fun hall => ?_⟩
  have hunits := (hall loneSurrogate wellFormedText_loneSurrogate _).1 hread
  exact absurd (read_loneSurrogate.symm.trans hunits) (by simp)

end DriveClient.Usage
