import Mathlib.Data.List.Basic
import DriveClient.Proofs.Text.Only
import DriveClient.Text.Blank

/-!
# What trimming leaves

The core of a text is the text without the blanks around it: it has no blank at either end, and
nothing but blanks is missing. A text has just one core (`IsCore.unique`), and trimming finds it
(`trim_eq_iff`).
-/

namespace DriveClient.Text

/-- Nothing but blanks. -/
abbrev Blank (text : List Char) : Prop := Only isBlank text

/-- A part of a text that has no blank at its ends, with nothing but blanks around it. -/
structure IsCore (text core : String) : Prop where
  start : ∀ c ∈ core.toList.head?, isBlank c = false
  finish : ∀ c ∈ core.toList.getLast?, isBlank c = false
  around : ∃ before after, Blank before ∧ Blank after ∧
    text.toList = before ++ core.toList ++ after

/-! ## One end -/

variable {text before after : List Char}

theorem trimStart_append (hbefore : Blank before) (hstart : ∀ c ∈ text.head?, isBlank c = false) :
    trimStart (before ++ text) = text := dropWhile_only_append hbefore hstart

theorem trimEnd_append (hafter : Blank after) (hfinish : ∀ c ∈ text.getLast?, isBlank c = false) :
    trimEnd (text ++ after) = text := by
  rw [trimEnd, List.reverse_append, trimStart_append hafter.reverse, List.reverse_reverse]
  rwa [List.head?_reverse]

theorem exists_blank_trimStart (text : List Char) :
    ∃ before, Blank before ∧ text = before ++ trimStart text :=
  exists_only_dropWhile isBlank text

theorem exists_blank_trimEnd (text : List Char) :
    ∃ after, Blank after ∧ text = trimEnd text ++ after := by
  obtain ⟨before, hblank, hsplit⟩ := exists_blank_trimStart text.reverse
  refine ⟨before.reverse, hblank.reverse, ?_⟩
  rw [trimEnd, ← List.reverse_append, ← hsplit, List.reverse_reverse]

theorem isBlank_head?_trimStart (text : List Char) :
    ∀ c ∈ (trimStart text).head?, isBlank c = false := by
  intro c hc
  have hhead := List.head?_dropWhile_not isBlank text
  rw [trimStart] at hc
  rw [Option.mem_def.1 hc] at hhead
  exact hhead

theorem isBlank_getLast?_trimEnd (text : List Char) :
    ∀ c ∈ (trimEnd text).getLast?, isBlank c = false := by
  rw [trimEnd, List.getLast?_reverse]
  exact isBlank_head?_trimStart _

/-! ## Both ends -/

theorem isCore_trim (text : String) : IsCore text (trim text) := by
  obtain ⟨before, hbefore, hstart⟩ := exists_blank_trimStart text.toList
  obtain ⟨after, hafter, hend⟩ := exists_blank_trimEnd (trimStart text.toList)
  have hcore : (trim text).toList = trimEnd (trimStart text.toList) := String.toList_ofList
  constructor
  · -- what is left begins as it did before its end was taken off
    intro c hc
    rw [hcore] at hc
    refine isBlank_head?_trimStart text.toList c ?_
    rw [hend]
    exact List.mem_head?_append_of_mem_head? hc
  · rw [hcore]
    exact isBlank_getLast?_trimEnd _
  · refine ⟨before, after, hbefore, hafter, ?_⟩
    rw [hcore, List.append_assoc, ← hend, ← hstart]

theorem IsCore.trim_eq {text core : String} (h : IsCore text core) : trim text = core := by
  obtain ⟨before, after, hbefore, hafter, htext⟩ := h.around
  rw [trim, htext, List.append_assoc]
  by_cases hempty : core.toList = []
  · have hblank : Blank (before ++ after) := hbefore.append hafter
    have hnone : trimStart (before ++ after ++ []) = [] := trimStart_append hblank (by simp)
    rw [List.append_nil] at hnone
    rw [hempty, List.nil_append, hnone, ← String.ofList_toList (s := core), hempty]
    rfl
  · have hstart : ∀ c ∈ (core.toList ++ after).head?, isBlank c = false := by
      rw [List.head?_append_of_ne_nil _ hempty]
      exact h.start
    rw [trimStart_append hbefore hstart, trimEnd_append hafter h.finish, String.ofList_toList]

/-- Trimming finds the core of a text, which is the only one. -/
theorem trim_eq_iff {text core : String} : trim text = core ↔ IsCore text core := by
  constructor
  · rintro rfl
    exact isCore_trim text
  · exact IsCore.trim_eq

theorem IsCore.unique {text core other : String} (h : IsCore text core) (hother : IsCore text other) :
    core = other :=
  h.trim_eq.symm.trans hother.trim_eq

/-- Nothing is left of blanks only. -/
theorem trim_eq_empty_iff {text : String} : trim text = "" ↔ Blank text.toList := by
  rw [trim_eq_iff]
  constructor
  · intro h
    obtain ⟨before, after, hbefore, hafter, htext⟩ := h.around
    rw [htext, String.toList_empty, List.append_nil]
    exact hbefore.append hafter
  · intro h
    exact ⟨by simp, by simp, text.toList, [], h, .nil, by simp⟩

end DriveClient.Text
