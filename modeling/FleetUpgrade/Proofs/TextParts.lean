import FleetUpgrade.Text.Search
import Mathlib.Data.List.Basic

/-! # The parts of a text

A text is cut at every separator, and joining the parts again gives it back. Parts
without a separator are told from the joined text. The lines of a text are its parts
between line feeds, so a text of lines that are each ended has one more, which is
empty.
-/

namespace FleetUpgrade.Text

variable {sep : Char} {cs part : List Char} {parts : List (List Char)}

theorem segments_append (sep : Char) (before after : List Char) :
    segments sep (before ++ sep :: after) = segments sep before ++ segments sep after := by
  induction before with
  | nil => simp [segments]
  | cons c before ih =>
      simp only [List.cons_append, segments, ih]
      by_cases hc : c = sep
      · simp [hc]
      · simp only [if_neg hc]
        cases hs : segments sep before with
        | nil => exact absurd hs (segments_ne_nil sep before)
        | cons part parts => simp

theorem segments_of_not_mem (h : sep ∉ cs) : segments sep cs = [cs] := by
  induction cs with
  | nil => rfl
  | cons c cs ih =>
      simp only [List.mem_cons, not_or] at h
      simp only [segments, if_neg (Ne.symm h.1), ih h.2]

theorem not_mem_of_mem_segments (h : part ∈ segments sep cs) : sep ∉ part := by
  induction cs generalizing part with
  | nil =>
      rw [List.mem_singleton.1 h]
      exact List.not_mem_nil
  | cons c cs ih =>
      simp only [segments] at h
      split at h
      · rcases List.mem_cons.1 h with rfl | hrest
        · exact List.not_mem_nil
        · exact ih hrest
      · next hc =>
          cases hs : segments sep cs with
          | nil => exact absurd hs (segments_ne_nil sep cs)
          | cons head parts =>
              rw [hs] at h
              rcases List.mem_cons.1 h with rfl | hrest
              · have hhead : sep ∉ head := ih (by simp [hs])
                simp [hhead, Ne.symm hc]
              · exact ih (by simp [hs, hrest])

/-! ## Joining -/

theorem joinWith_cons (sep part : List Char) (hne : parts ≠ []) :
    joinWith sep (part :: parts) = part ++ (sep ++ joinWith sep parts) := by
  obtain ⟨next, parts, rfl⟩ := List.exists_cons_of_ne_nil hne
  exact List.append_assoc part sep (joinWith sep (next :: parts))

theorem joinWith_append (sep : List Char) {others : List (List Char)} (hne : parts ≠ [])
    (hothers : others ≠ []) :
    joinWith sep (parts ++ others) = joinWith sep parts ++ sep ++ joinWith sep others := by
  induction parts with
  | nil => exact absurd rfl hne
  | cons part parts ih =>
      cases parts with
      | nil =>
          rw [List.singleton_append, joinWith_cons sep part hothers, ← List.append_assoc]
          rfl
      | cons next parts =>
          have hrest := ih (List.cons_ne_nil next parts)
          rw [List.cons_append, joinWith_cons sep part (by simp), hrest,
            joinWith_cons sep part (List.cons_ne_nil next parts)]
          simp only [List.append_assoc]

theorem infix_joinWith (sep : List Char) (h : part ∈ parts) : part <:+: joinWith sep parts := by
  induction parts with
  | nil => exact absurd h List.not_mem_nil
  | cons first parts ih =>
      cases parts with
      | nil => exact List.mem_singleton.1 h ▸ List.infix_refl _
      | cons next parts =>
          rw [joinWith_cons sep first (List.cons_ne_nil next parts)]
          rcases List.mem_cons.1 h with rfl | hrest
          · exact (List.prefix_append part _).isInfix
          · refine (ih hrest).trans ?_
            rw [← List.append_assoc]
            exact (List.suffix_append (first ++ sep) _).isInfix

/-- Parts without the separator are told from the text that they join to. -/
theorem segments_joinWith (hne : parts ≠ []) (h : ∀ part ∈ parts, sep ∉ part) :
    segments sep (joinWith [sep] parts) = parts := by
  induction parts with
  | nil => exact absurd rfl hne
  | cons part rest ih =>
      have hpart := segments_of_not_mem (h part List.mem_cons_self)
      cases rest with
      | nil => exact hpart
      | cons next rest =>
          have hrest := ih (List.cons_ne_nil next rest) fun other hother =>
            h other (List.mem_cons_of_mem part hother)
          rw [joinWith_cons [sep] part (List.cons_ne_nil next rest), List.singleton_append,
            segments_append, hpart, hrest]
          rfl

theorem flatMap_of_segments (h : segments sep cs = part :: parts) :
    cs = part ++ parts.flatMap (sep :: ·) := by
  have hjoin : joinWith [sep] (part :: parts) = cs := h ▸ joinWith_segments sep cs
  rw [← hjoin]
  clear h hjoin
  induction parts generalizing part with
  | nil => simp [joinWith]
  | cons next parts ih =>
      rw [joinWith_cons [sep] part (List.cons_ne_nil next parts), ih, List.flatMap_cons]
      rfl

/-- A text is cut into parts just if it is made of them, each after the first behind a separator. -/
theorem segments_eq_cons_iff : segments sep cs = part :: parts ↔
    cs = part ++ parts.flatMap (sep :: ·) ∧ ∀ other ∈ part :: parts, sep ∉ other := by
  constructor
  · intro h
    exact ⟨flatMap_of_segments h, fun other hother => not_mem_of_mem_segments (h ▸ hother)⟩
  · intro ⟨hcs, hparts⟩
    have hsegments := segments_joinWith (List.cons_ne_nil part parts) hparts
    rw [hcs, ← flatMap_of_segments hsegments]
    exact hsegments

/-! ## Lines -/

/-- The parts of a text between line feeds; after a last line feed there is an empty one. -/
def lines (text : String) : List String :=
  (segments '\n' text.toList).map String.ofList

theorem lines_of_not_mem {text : String} (h : '\n' ∉ text.toList) : lines text = [text] := by
  rw [lines, segments_of_not_mem h, List.map_singleton, String.ofList_toList]

theorem lines_append_line (text rest : String) :
    lines (text ++ "\n" ++ rest) = lines text ++ lines rest := by
  have hchars : (text ++ "\n" ++ rest).toList = text.toList ++ '\n' :: rest.toList := by simp
  rw [lines, hchars, segments_append, List.map_append]
  rfl

theorem segments_append_of_not_mem {lead : List Char} (h : sep ∉ lead) (cs : List Char) :
    segments sep (lead ++ cs) = (segments sep cs).modifyHead (lead ++ ·) := by
  induction lead with
  | nil =>
      obtain ⟨part, parts, hparts⟩ := List.exists_cons_of_ne_nil (segments_ne_nil sep cs)
      rw [List.nil_append, hparts]
      rfl
  | cons c lead ih =>
      rw [List.mem_cons, not_or] at h
      obtain ⟨part, parts, hparts⟩ := List.exists_cons_of_ne_nil (segments_ne_nil sep cs)
      rw [List.cons_append, segments, if_neg (Ne.symm h.1), ih h.2, hparts]
      rfl

/-- What is put before a text is put before its first line. -/
theorem tail_lines_append {lead : String} (h : '\n' ∉ lead.toList) (text : String) :
    ∃ first, lines (lead ++ text) = (lead ++ first) :: (lines text).tail := by
  obtain ⟨first, rest, hparts⟩ := List.exists_cons_of_ne_nil (segments_ne_nil '\n' text.toList)
  refine ⟨String.ofList first, ?_⟩
  rw [lines, String.toList_append, segments_append_of_not_mem h, lines, hparts]
  simp [String.ofList_append]

/-- Texts that are each ended by a line feed have their own lines, and an empty one last. -/
theorem lines_join_ended (texts : List String) :
    lines (String.join (texts.map fun text => text ++ "\n")) = texts.flatMap lines ++ [""] := by
  induction texts with
  | nil => rfl
  | cons text texts ih =>
      rw [List.map_cons, String.join_cons, lines_append_line, ih, List.flatMap_cons,
        List.append_assoc]

/-- Lines that are each ended are read back, with an empty one last. -/
theorem lines_join_of_not_mem {texts : List String} (h : ∀ text ∈ texts, '\n' ∉ text.toList) :
    lines (String.join (texts.map fun text => text ++ "\n")) = texts ++ [""] := by
  have hlines : texts.flatMap lines = texts.flatMap fun text => [text] :=
    List.flatMap_congr fun text htext => lines_of_not_mem (h text htext)
  rw [lines_join_ended, hlines, List.flatMap_singleton']

end FleetUpgrade.Text
