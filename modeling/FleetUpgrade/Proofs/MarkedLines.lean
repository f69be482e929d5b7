import FleetUpgrade.Fleet.Scripts
import Mathlib.Data.List.TakeWhile

/-! # What a preview echoes

A preview puts an echo in place of each marker, so what it says it would run is what stands
after an echo on the same line. Markers are looked for in the text of a script as a whole, where
a value that was pasted into a line may hold one or become a part of one. Texts without the word
of the marker have no marker, and none arises where they meet at another character.
-/

namespace FleetUpgrade

/-! ## Words in texts -/

namespace Text

variable {word text rest lead before after : List Char} {c : Char}

/-- A word does not go on in what follows a text, if that begins with another character. -/
theorem prefix_of_prefix_append (htext : text ≠ []) (hrest : ∀ c ∈ rest.head?, c ∉ word.tail)
    (h : word <+: text ++ rest) : word <+: text := by
  rcases List.prefix_or_prefix_of_prefix h (List.prefix_append text rest) with hin | ⟨more, rfl⟩
  · exact hin
  · cases more with
    | nil => simp
    | cons c more =>
        obtain ⟨others, rfl⟩ := (List.prefix_append_right_inj text).1 h
        obtain ⟨first, text, rfl⟩ := List.exists_cons_of_ne_nil htext
        exact absurd (by simp) (hrest c (by simp))

/-- A word is in no part of a joined text across the joint, if one side of it has a character
that is not in the word. -/
theorem not_infix_append (htext : ¬word <:+: text) (hrest : ¬word <:+: rest)
    (hjoint : (∀ c ∈ text.getLast?, c ∉ word) ∨ ∀ c ∈ rest.head?, c ∉ word) :
    ¬word <:+: text ++ rest := by
  rw [List.infix_append_iff]
  rintro (hin | hin | ⟨first, last, rfl, hfirst, hlast⟩)
  · exact htext hin
  · exact hrest hin
  · rcases List.eq_nil_or_concat first with rfl | ⟨first, c, rfl⟩
    · exact hrest hlast.isInfix
    · cases last with
      | nil => exact htext (by simpa using hfirst.isInfix)
      | cons d last =>
          obtain ⟨more, rfl⟩ := hfirst
          obtain ⟨others, rfl⟩ := hlast
          rcases hjoint with hjoint | hjoint
          · exact hjoint c (by simp) (by simp)
          · exact hjoint d (by simp) (by simp)

/-- What begins with a character that is not in the lead begins after the lead. -/
theorem after_lead (hlead : c ∉ lead) (h : before ++ c :: after = lead ++ rest) :
    ∃ between, before = lead ++ between ∧ between ++ c :: after = rest := by
  rcases List.append_eq_append_iff.1 h with ⟨more, rfl, hmore⟩ | ⟨between, rfl, hrest⟩
  · cases more with
    | nil => exact ⟨[], by simp, hmore⟩
    | cons d more =>
        obtain ⟨rfl, -⟩ := List.cons_eq_cons.1 hmore
        exact absurd (by simp) hlead
  · exact ⟨between, rfl, hrest.symm⟩

/-- A word without the separator is before it or after it. -/
theorem before_or_after {sep : Char} (hsep : sep ∉ word)
    (h : before ++ word ++ after = text ++ sep :: rest) :
    (∃ more, text = before ++ word ++ more ∧ after = more ++ sep :: rest) ∨
      ∃ more, before = text ++ sep :: more ∧ more ++ word ++ after = rest := by
  rcases List.append_eq_append_iff.1 h with ⟨more, htext, hafter⟩ | ⟨more, hword, hrest⟩
  · exact Or.inl ⟨more, htext, hafter⟩
  · cases more with
    | nil => exact Or.inl ⟨[], by simpa using hword.symm, by simpa using hrest.symm⟩
    | cons d more =>
        -- the text and the separator are passed, so the word cannot have begun before them
        obtain ⟨rfl, rfl⟩ := List.cons_eq_cons.1 hrest
        rcases List.append_eq_append_iff.1 hword with ⟨within, -, rfl⟩ | ⟨between, rfl, hmore⟩
        · exact absurd (by simp) hsep
        · cases between with
          | nil =>
              obtain rfl : sep :: more = word := by simpa using hmore
              exact absurd (by simp) hsep
          | cons d between =>
              obtain ⟨rfl, rfl⟩ := List.cons_eq_cons.1 hmore
              exact Or.inr ⟨between, rfl, rfl⟩

/-! ## Replacing -/

theorem replaceFrom_append (new : List Char) (hrest : ∀ c ∈ rest.head?, c ∉ word.tail)
    {skip : Nat} (hskip : skip ≤ text.length) :
    replaceFrom word new skip (text ++ rest) =
      replaceFrom word new skip text ++ replaceAll word new rest := by
  induction text generalizing skip with
  | nil =>
      obtain rfl : skip = 0 := by simpa using hskip
      simp [replaceFrom, replaceAll]
  | cons c text ih =>
      cases skip with
      | succ skip => exact ih (by simpa using hskip)
      | zero =>
          -- where the word is found and how far it goes is settled within the text
          have hbegins : word <+: c :: (text ++ rest) ↔ word <+: c :: text :=
            ⟨prefix_of_prefix_append (List.cons_ne_nil c text) hrest,
              fun h => h.trans (List.prefix_append (c :: text) rest)⟩
          simp only [List.cons_append, replaceFrom, List.isPrefixOf_iff_prefix, hbegins]
          by_cases hword : word ≠ [] ∧ word <+: c :: text
          · have hlength : word.length - 1 ≤ text.length := by
              have := hword.2.length_le
              simp only [List.length_cons] at this
              omega
            rw [if_pos hword, if_pos hword, ih hlength, List.append_assoc]
          · rw [if_neg hword, if_neg hword, ih (Nat.zero_le _), List.cons_append]

/-- A joined text is replaced part by part, if no word goes across the joint. -/
theorem replaceAll_append (new text : List Char) (hrest : ∀ c ∈ rest.head?, c ∉ word.tail) :
    replaceAll word new (text ++ rest) = replaceAll word new text ++ replaceAll word new rest :=
  replaceFrom_append new hrest (Nat.zero_le _)

theorem replaceAll_cons_of_ne (new rest : List Char) (hc : c ∉ word) :
    replaceAll word new (c :: rest) = c :: replaceAll word new rest := by
  have hword : ¬(word ≠ [] ∧ word <+: c :: rest) := by
    rintro ⟨hne, more, hmore⟩
    obtain ⟨d, word, rfl⟩ := List.exists_cons_of_ne_nil hne
    obtain ⟨rfl, -⟩ := List.cons_eq_cons.1 hmore
    exact hc List.mem_cons_self
  simp only [replaceAll, replaceFrom, List.isPrefixOf_iff_prefix, if_neg hword]

theorem replaceAll_word_append (new rest : List Char) (hword : word ≠ []) :
    replaceAll word new (word ++ rest) = new ++ replaceAll word new rest := by
  obtain ⟨c, word, rfl⟩ := List.exists_cons_of_ne_nil hword
  have hskip : ∀ text, replaceFrom (c :: word) new text.length (text ++ rest) =
      replaceAll (c :: word) new rest := by
    intro text
    induction text with
    | nil => rfl
    | cons d text ih => exact ih
  simp only [replaceAll, List.cons_append, replaceFrom, List.isPrefixOf_iff_prefix,
    List.length_cons, Nat.add_sub_cancel]
  rw [if_pos ⟨hword, ⟨rest, rfl⟩⟩, hskip]
  rfl

theorem replaceAll_of_absent (new : List Char) (h : ¬word <:+: text) :
    replaceAll word new text = text := by
  induction text with
  | nil => rfl
  | cons c text ih =>
      rw [List.infix_cons_iff, not_or] at h
      have hrest := ih h.2
      unfold replaceAll at hrest ⊢
      simp only [replaceFrom, List.isPrefixOf_iff_prefix, h.1, and_false, if_false, hrest]

end Text

/-! ## Echoed commands -/

namespace Script

open Text

def firstLine (text : List Char) : List Char :=
  text.takeWhile (· ≠ '\n')

/-- A marker stands in a text, and the command is what a preview leaves after it on its line. -/
def EchoedIn (text command : List Char) : Prop :=
  ∃ before after, text = before ++ marker.toList ++ after ∧
    command = firstLine (replaceAll marker.toList echo.toList after)

def Echoes (s : Script) (command : List Char) : Prop :=
  EchoedIn s.text.toList command

variable {s : Script} {text rest command : List Char}

theorem firstLine_append_line (text rest : List Char) :
    firstLine (text ++ '\n' :: rest) = firstLine text := by
  induction text with
  | nil => rfl
  | cons c text ih =>
      by_cases hc : c = '\n'
      · simp [firstLine, hc]
      · unfold firstLine at ih ⊢
        rw [List.cons_append, List.takeWhile_cons, List.takeWhile_cons, ih]

theorem firstLine_of_not_mem (h : '\n' ∉ text) : firstLine text = text :=
  List.takeWhile_eq_self_iff.2 fun _ hc => decide_eq_true fun he => h (he ▸ hc)

/-- An echoed command stands in the preview, after an echo and up to the end of the line. -/
theorem body_of_echoes (h : s.Echoes command) :
    ∃ before after, (s.body .preview).toList = before ++ echo.toList ++ command ++ after ∧
      ∀ c ∈ after.head?, c = '\n' := by
  obtain ⟨before, after, htext, rfl⟩ := h
  have hbody : (s.body .preview).toList =
      replaceAll marker.toList echo.toList before ++ (echo.toList ++
        replaceAll marker.toList echo.toList after) := by
    rw [body, replace, String.toList_ofList, htext, List.append_assoc,
      replaceAll_append _ _ (by simp [marker])]
    exact congrArg _ (replaceAll_word_append _ _ (by decide))
  refine ⟨replaceAll marker.toList echo.toList before,
    (replaceAll marker.toList echo.toList after).dropWhile (· ≠ '\n'), ?_, ?_⟩
  · rw [hbody, List.append_assoc, List.append_assoc, firstLine, List.takeWhile_append_dropWhile]
  · intro c hc
    rw [← List.find?_not_eq_head?_dropWhile] at hc
    simpa using List.find?_some hc

theorem echoedIn_append_line (text rest command : List Char) :
    EchoedIn (text ++ '\n' :: rest) command ↔ EchoedIn text command ∨ EchoedIn rest command := by
  constructor
  · rintro ⟨before, after, h, rfl⟩
    rcases before_or_after (by decide) h.symm with ⟨more, rfl, rfl⟩ | ⟨more, rfl, hrest⟩
    · refine Or.inl ⟨before, more, rfl, ?_⟩
      rw [replaceAll_append _ _ (by simp [marker]), replaceAll_cons_of_ne _ _ (by decide),
        firstLine_append_line]
    · exact Or.inr ⟨more, after, hrest.symm, rfl⟩
  · rintro (⟨before, after, rfl, rfl⟩ | ⟨before, after, rfl, rfl⟩)
    · refine ⟨before, after ++ '\n' :: rest, by simp, ?_⟩
      rw [replaceAll_append _ _ (by simp [marker]), replaceAll_cons_of_ne _ _ (by decide),
        firstLine_append_line]
    · exact ⟨text ++ '\n' :: before, after, by simp, rfl⟩

/-- What a script echoes is what one of its lines does. -/
theorem echoes_ofLines (lines : List String) :
    (ofLines lines).Echoes command ↔ ∃ line ∈ lines, EchoedIn line.toList command := by
  induction lines with
  | nil =>
      simp [Echoes, ofLines, EchoedIn, marker]
  | cons line lines ih =>
      have htext : (ofLines (line :: lines)).text.toList =
          line.toList ++ '\n' :: (ofLines lines).text.toList := by
        simp [ofLines, String.join_cons]
      simp only [List.mem_cons, exists_eq_or_imp]
      rw [Echoes, htext, echoedIn_append_line]
      exact or_congr_right ih

/-! ## Texts without markers -/

/-- The marker without the blank, which a value need not bring along. -/
def markerWord : String := "do-op"

/-- A text on one line that does not have the word of the marker. -/
def Unmarked (text : List Char) : Prop :=
  ¬markerWord.toList <:+: text ∧ '\n' ∉ text

instance (text : List Char) : Decidable (Unmarked text) :=
  inferInstanceAs (Decidable (_ ∧ _))

theorem Unmarked.append (htext : Unmarked text) (hrest : Unmarked rest)
    (hjoint : (∀ c ∈ text.getLast?, c ∉ markerWord.toList) ∨
      ∀ c ∈ rest.head?, c ∉ markerWord.toList) : Unmarked (text ++ rest) :=
  ⟨not_infix_append htext.1 hrest.1 hjoint,
    fun hline => (List.mem_append.1 hline).elim htext.2 hrest.2⟩

theorem Unmarked.marker_absent (h : Unmarked text) : ¬marker.toList <:+: text := by
  have hword : markerWord.toList <:+: marker.toList := by decide
  exact fun hin => h.1 (hword.trans hin)

theorem Unmarked.not_echoedIn (h : Unmarked text) : ¬EchoedIn text command := by
  rintro ⟨before, after, rfl, -⟩
  exact h.marker_absent (List.infix_append before marker.toList after)

/-- A line with a single marker echoes what follows the marker. -/
theorem Unmarked.echoedIn_marked {indent : List Char} (hindent : 'd' ∉ indent)
    (h : Unmarked text) :
    EchoedIn (indent ++ (marker.toList ++ text)) command ↔ command = text := by
  have hafter : firstLine (replaceAll marker.toList echo.toList text) = text := by
    rw [replaceAll_of_absent _ h.marker_absent, firstLine_of_not_mem h.2]
  constructor
  · rintro ⟨before, after, hmarker, rfl⟩
    suffices after = text by rw [this, hafter]
    obtain ⟨tail, htail, hd⟩ : ∃ tail, marker.toList = 'd' :: tail ∧ 'd' ∉ tail :=
      ⟨"o-op ".toList, by decide, by decide⟩
    rw [htail, List.append_assoc, List.cons_append, List.cons_append] at hmarker
    obtain ⟨between, -, hbetween⟩ := after_lead hindent hmarker.symm
    cases between with
    | nil => exact List.append_cancel_left (List.cons_eq_cons.1 hbetween).2
    | cons c between =>
        -- another marker would begin within this one or stand in the command
        obtain ⟨others, -, hothers⟩ := after_lead hd (List.cons_eq_cons.1 hbetween).2
        refine absurd ⟨others, after, ?_⟩ h.marker_absent
        rw [htail, List.append_assoc]
        exact hothers
  · rintro rfl
    exact ⟨indent, command, by rw [List.append_assoc], hafter.symm⟩

end Script

end FleetUpgrade
