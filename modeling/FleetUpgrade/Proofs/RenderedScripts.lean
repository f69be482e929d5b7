import FleetUpgrade.Proofs.MarkedLines
import FleetUpgrade.Proofs.TextParts

/-! # The two renderings of a script

A text is pieces without a word, and the word between them. Where the word does not begin
again within itself, replacing it puts the new text between the same pieces. So a preview is
the pieces of a script with echoes between them, and the live script is the same pieces with
nothing between them. Neither the marker nor the echo has a line feed, so both are rendered
line by line.
-/

namespace FleetUpgrade

/-! ## Pieces -/

namespace Text

variable {word other new text : List Char} {pieces : List (List Char)} {c sep : Char}

/-- Every text is pieces without a word, and the word between them. -/
theorem exists_pieces (hword : word ≠ []) (text : List Char) :
    ∃ pieces, pieces ≠ [] ∧ text = joinWith word pieces ∧ ∀ piece ∈ pieces, ¬word <:+: piece := by
  induction hn : text.length using Nat.strong_induction_on generalizing text with
  | _ n ih =>
      by_cases hin : word <:+: text
      · -- what stands before an occurrence and what stands after it are shorter
        obtain ⟨before, after, rfl⟩ := hin
        have hpos := List.length_pos_iff.2 hword
        simp only [List.length_append] at hn
        obtain ⟨firsts, hfirsts, hbefore, hfree⟩ := ih before.length (by omega) before rfl
        obtain ⟨lasts, hlasts, hafter, hfree'⟩ := ih after.length (by omega) after rfl
        refine ⟨firsts ++ lasts, List.append_ne_nil_of_left_ne_nil hfirsts lasts, ?_,
          List.forall_mem_append.2 ⟨hfree, hfree'⟩⟩
        rw [joinWith_append word hfirsts hlasts, ← hbefore, ← hafter]
      · exact ⟨[text], List.cons_ne_nil text [], rfl, fun piece hpiece =>
          List.mem_singleton.1 hpiece ▸ hin⟩

/-- A word that does not begin again within itself is replaced between the pieces and nowhere
else. -/
theorem replaceAll_joinWith (hword : word ≠ []) (hhead : ∀ c ∈ word.head?, c ∉ word.tail)
    (new : List Char) (h : ∀ piece ∈ pieces, ¬word <:+: piece) :
    replaceAll word new (joinWith word pieces) = joinWith new pieces := by
  induction pieces with
  | nil => rfl
  | cons piece pieces ih =>
      have hpiece := replaceAll_of_absent new (h piece List.mem_cons_self)
      cases pieces with
      | nil => exact hpiece
      | cons next pieces =>
          have hne := List.cons_ne_nil next pieces
          have hrest := ih fun other hother => h other (List.mem_cons_of_mem piece hother)
          have hjoint : ∀ c ∈ (word ++ joinWith word (next :: pieces)).head?, c ∉ word.tail := by
            rwa [List.head?_append_of_ne_nil word hword]
          rw [joinWith_cons word piece hne, replaceAll_append new piece hjoint, hpiece,
            replaceAll_word_append new _ hword, hrest, joinWith_cons new piece hne]

/-- What is put between pieces makes no word there that it shares neither end with. -/
theorem not_infix_joinWith (hnew : new ≠ []) (hin : ¬other <:+: new)
    (hhead : ∀ c ∈ new.head?, c ∉ other) (hlast : ∀ c ∈ new.getLast?, c ∉ other)
    (h : ∀ piece ∈ pieces, ¬other <:+: piece) : ¬other <:+: joinWith new pieces := by
  induction pieces with
  | nil => exact fun hnil => hin (hnil.trans (List.nil_infix))
  | cons piece pieces ih =>
      have hpiece := h piece List.mem_cons_self
      cases pieces with
      | nil => exact hpiece
      | cons next pieces =>
          have hrest := ih fun piece' hpiece' => h piece' (List.mem_cons_of_mem piece hpiece')
          have hjoint : ∀ c ∈ (new ++ joinWith new (next :: pieces)).head?, c ∉ other := by
            rwa [List.head?_append_of_ne_nil new hnew]
          rw [joinWith_cons new piece (List.cons_ne_nil next pieces)]
          exact not_infix_append hpiece (not_infix_append hin hrest (Or.inl hlast)) (Or.inr hjoint)

/-! ## Lines -/

theorem not_mem_replaceFrom (word : List Char) (hnew : c ∉ new) (skip : Nat) (h : c ∉ text) :
    c ∉ replaceFrom word new skip text := by
  induction text generalizing skip with
  | nil => simp [replaceFrom]
  | cons d text ih =>
      rw [List.mem_cons, not_or] at h
      cases skip with
      | succ skip => exact ih skip h.2
      | zero =>
          unfold replaceFrom
          split
          · exact fun hin => (List.mem_append.1 hin).elim hnew (ih _ h.2)
          · exact fun hin => (List.mem_cons.1 hin).elim h.1 (ih 0 h.2)

theorem replaceAll_joinWith_sep (new : List Char) (hword : sep ∉ word) (parts : List (List Char)) :
    replaceAll word new (joinWith [sep] parts) =
      joinWith [sep] (parts.map (replaceAll word new)) := by
  induction parts with
  | nil => rfl
  | cons part parts ih =>
      cases parts with
      | nil => rfl
      | cons next parts =>
          have hjoint : ∀ c ∈ (sep :: joinWith [sep] (next :: parts)).head?, c ∉ word.tail := by
            intro c hc htail
            obtain rfl : sep = c := Option.some.inj hc
            exact hword (List.mem_of_mem_tail htail)
          rw [joinWith_cons [sep] part (List.cons_ne_nil next parts), List.singleton_append,
            replaceAll_append new part hjoint, replaceAll_cons_of_ne new _ hword, ih,
            List.map_cons (l := next :: parts), joinWith_cons [sep] _ (by simp)]
          rfl

/-- A word without the separator is replaced part by part. -/
theorem segments_replaceAll (hword : sep ∉ word) (hnew : sep ∉ new) (text : List Char) :
    segments sep (replaceAll word new text) = (segments sep text).map (replaceAll word new) := by
  have hne : (segments sep text).map (replaceAll word new) ≠ [] := by
    simpa using segments_ne_nil sep text
  have hparts : ∀ part ∈ (segments sep text).map (replaceAll word new), sep ∉ part := by
    rw [List.forall_mem_map]
    exact fun part hpart => not_mem_replaceFrom word hnew 0 (not_mem_of_mem_segments hpart)
  rw [← segments_joinWith hne hparts, ← replaceAll_joinWith_sep new hword, joinWith_segments]

theorem lines_replace {pattern replacement : String} (hpattern : '\n' ∉ pattern.toList)
    (hreplacement : '\n' ∉ replacement.toList) (text : String) :
    lines (replace text pattern replacement) =
      (lines text).map fun line => replace line pattern replacement := by
  unfold lines replace
  rw [String.toList_ofList, segments_replaceAll hpattern hreplacement, List.map_map, List.map_map]
  simp only [Function.comp_def, String.toList_ofList]

end Text

/-! ## Scripts -/

namespace Script

open Text

variable (s : Script)

def substitute (mode : RunMode) : String :=
  if mode.isLive then "" else echo

@[simp] theorem substitute_live : substitute .live = "" := rfl

@[simp] theorem substitute_preview : substitute .preview = echo := rfl

theorem body_eq (mode : RunMode) : s.body mode = replace s.text marker (substitute mode) := rfl

/-- A script is pieces with markers between them; each mode has the same pieces. -/
theorem exists_pieces_body :
    ∃ pieces, s.text.toList = joinWith marker.toList pieces ∧
      (∀ piece ∈ pieces, ¬marker.toList <:+: piece) ∧
      ∀ mode, (s.body mode).toList = joinWith (substitute mode).toList pieces := by
  have hne : marker.toList ≠ [] := by decide
  have hhead : ∀ c ∈ marker.toList.head?, c ∉ marker.toList.tail := by
    intro c hc
    obtain rfl : 'd' = c := Option.some.inj hc
    decide
  obtain ⟨pieces, -, htext, hfree⟩ := exists_pieces hne s.text.toList
  refine ⟨pieces, htext, hfree, fun mode => ?_⟩
  rw [body_eq, replace, String.toList_ofList, htext, replaceAll_joinWith hne hhead _ hfree]

/-- Without echoes in the script, taking the echoes out of the preview gives the live script. -/
theorem replace_echo_preview (h : ¬echo.toList <:+: s.text.toList) :
    replace (s.body .preview) echo "" = s.body .live := by
  obtain ⟨pieces, htext, -, hbody⟩ := s.exists_pieces_body
  have hfree : ∀ piece ∈ pieces, ¬echo.toList <:+: piece := fun piece hpiece hin =>
    h (htext ▸ hin.trans (infix_joinWith marker.toList hpiece))
  have hne : echo.toList ≠ [] := by decide
  have hhead : ∀ c ∈ echo.toList.head?, c ∉ echo.toList.tail := by
    intro c hc
    obtain rfl : 'e' = c := Option.some.inj hc
    decide
  apply String.toList_inj.1
  rw [replace, String.toList_ofList, hbody, hbody, substitute_live, substitute_preview,
    replaceAll_joinWith hne hhead _ hfree]

theorem marker_absent_preview : ¬marker.toList <:+: (s.body .preview).toList := by
  obtain ⟨pieces, -, hfree, hbody⟩ := s.exists_pieces_body
  have hecho : ¬marker.toList <:+: echo.toList := fun hin =>
    absurd (hin.subset (by decide : 'd' ∈ marker.toList)) (by decide)
  have hhead : ∀ c ∈ echo.toList.head?, c ∉ marker.toList := by
    intro c hc
    obtain rfl : 'e' = c := Option.some.inj hc
    decide
  have hlast : ∀ c ∈ echo.toList.getLast?, c ∉ marker.toList := by
    intro c hc
    obtain rfl : '\x27' = c := Option.some.inj hc
    decide
  rw [hbody, substitute_preview]
  exact not_infix_joinWith (by decide) hecho hhead hlast hfree

/-- A script is rendered line by line. -/
theorem lines_body (mode : RunMode) :
    lines (s.body mode) = (lines s.text).map fun line => replace line marker (substitute mode) := by
  have hsubstitute : '\n' ∉ (substitute mode).toList := by cases mode <;> decide
  rw [body_eq, lines_replace (by decide) hsubstitute]

theorem replace_marker_of_absent {line : String} (new : String)
    (h : ¬marker.toList <:+: line.toList) : replace line marker new = line := by
  rw [replace, replaceAll_of_absent _ h, String.ofList_toList]

/-- A preview is the live script up to echoes: taking the echoes out of the preview gives the live
script, the preview has no marker, and both renderings have the lines of the script, of which
those without a marker stay as they are. -/
theorem preview_live_up_to_echoes (h : ¬echo.toList <:+: s.text.toList) :
    replace (s.body .preview) echo "" = s.body .live ∧
      ¬marker.toList <:+: (s.body .preview).toList ∧
      ∀ mode, (lines (s.body mode)).length = (lines s.text).length ∧
        ∀ (i : Nat) (line : String), (lines s.text)[i]? = some line →
          ¬marker.toList <:+: line.toList → (lines (s.body mode))[i]? = some line := by
  refine ⟨s.replace_echo_preview h, s.marker_absent_preview, fun mode => ⟨?_, ?_⟩⟩
  · rw [lines_body, List.length_map]
  · intro i line hline habsent
    rw [lines_body, List.getElem?_map, hline, Option.map_some, replace_marker_of_absent _ habsent]

/-- Markers within an echo and within a marker: dropping them makes an echo and a marker. -/
def nested : Script :=
  ⟨"echo do-op '  run: 'x\ndo-do-op op y\nz"⟩

theorem preview_live_up_to_echoes_nested :
    ¬echo.toList <:+: nested.text.toList ∧
      replace (nested.body .preview) echo "" = nested.body .live ∧
      nested.body .live = "echo '  run: 'x\ndo-op y\nz" ∧
      (lines (nested.body .preview))[2]? = some "z" := by
  have habsent : ¬echo.toList <:+: nested.text.toList := by decide +kernel
  obtain ⟨hlive, -, hlines⟩ := nested.preview_live_up_to_echoes habsent
  exact ⟨habsent, hlive, by decide +kernel,
    (hlines .preview).2 2 "z" (by decide +kernel) (by decide +kernel)⟩

end Script

end FleetUpgrade
