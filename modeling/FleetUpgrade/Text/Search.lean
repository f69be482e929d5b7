/-!
# Searching text

Cutting a text at a separator, removing a leading part, and replacing every occurrence of a
pattern. All functions walk a list of characters; `Text.replace` and `Text.cutFirst` are the
same on strings.
-/

namespace FleetUpgrade.Text

/-- The parts before and after the first `sep`, or nothing when there is none. -/
def splitFirst (sep : Char) : List Char → Option (List Char × List Char)
  | [] => none
  | c :: cs =>
      if c = sep then some ([], cs)
      else (splitFirst sep cs).map fun parts => (c :: parts.1, parts.2)

/-- The parts before and after the last `sep`, or nothing when there is none. -/
def splitLast (sep : Char) : List Char → Option (List Char × List Char)
  | [] => none
  | c :: cs =>
      match splitLast sep cs with
      | some parts => some (c :: parts.1, parts.2)
      | none => if c = sep then some ([], cs) else none

/-- The parts between the separators: one more than there are separators. -/
def segments (sep : Char) : List Char → List (List Char)
  | [] => [[]]
  | c :: cs =>
      if c = sep then [] :: segments sep cs
      else
        match segments sep cs with
        | [] => [[c]]
        | part :: parts => (c :: part) :: parts

/-- The parts written one after another with `sep` between them. -/
def joinWith (sep : List Char) : List (List Char) → List Char
  | [] => []
  | [part] => part
  | part :: parts => part ++ sep ++ joinWith sep parts

/--
Replace every occurrence of `pattern`, leftmost first and without overlap.

`skip` counts the characters of an occurrence that still have to be passed over; it is zero
between occurrences. The empty pattern never occurs.
-/
def replaceFrom (pattern replacement : List Char) : Nat → List Char → List Char
  | _, [] => []
  | skip + 1, _ :: cs => replaceFrom pattern replacement skip cs
  | 0, c :: cs =>
      if pattern ≠ [] ∧ pattern.isPrefixOf (c :: cs) then
        replacement ++ replaceFrom pattern replacement (pattern.length - 1) cs
      else c :: replaceFrom pattern replacement 0 cs

def replaceAll (pattern replacement cs : List Char) : List Char :=
  replaceFrom pattern replacement 0 cs

def replace (text pattern replacement : String) : String :=
  String.ofList (replaceAll pattern.toList replacement.toList text.toList)

def cutFirst (sep : Char) (text : String) : Option (String × String) :=
  (splitFirst sep text.toList).map fun parts => (String.ofList parts.1, String.ofList parts.2)

def cutLast (sep : Char) (text : String) : Option (String × String) :=
  (splitLast sep text.toList).map fun parts => (String.ofList parts.1, String.ofList parts.2)

/-- What follows `lead`, if the text starts with it. -/
def stripLead (lead text : String) : Option String :=
  (lead.toList.isPrefixOf? text.toList).map String.ofList

/-- The texts written one after another with `sep` between them. -/
def join (sep : String) (parts : List String) : String :=
  String.ofList (joinWith sep.toList (parts.map String.toList))

theorem splitFirst_eq_some {sep : Char} {cs before after : List Char}
    (h : splitFirst sep cs = some (before, after)) :
    cs = before ++ sep :: after ∧ sep ∉ before := by
  induction cs generalizing before after with
  | nil => simp [splitFirst] at h
  | cons c cs ih =>
      by_cases hc : c = sep
      · simp only [splitFirst, hc, if_true, Option.some.injEq, Prod.mk.injEq] at h
        obtain ⟨rfl, rfl⟩ := h
        simp [hc]
      · simp only [splitFirst, hc, if_false, Option.map_eq_some_iff, Prod.mk.injEq] at h
        obtain ⟨⟨b, a⟩, hs, rfl, rfl⟩ := h
        obtain ⟨rfl, hb⟩ := ih hs
        simp only [List.cons_append, List.mem_cons, not_or, true_and]
        exact ⟨fun e => hc e.symm, hb⟩

theorem splitFirst_append {sep : Char} {before : List Char} (after : List Char)
    (h : sep ∉ before) : splitFirst sep (before ++ sep :: after) = some (before, after) := by
  induction before with
  | nil => simp [splitFirst]
  | cons c cs ih =>
      simp only [List.mem_cons, not_or] at h
      have hc : c ≠ sep := fun e => h.1 e.symm
      simp [splitFirst, hc, ih h.2]

theorem segments_ne_nil (sep : Char) (cs : List Char) : segments sep cs ≠ [] := by
  cases cs with
  | nil => simp [segments]
  | cons c cs =>
      simp only [segments]
      split
      · simp
      · split <;> simp

/-- Joining the parts again gives the text back. -/
theorem joinWith_segments (sep : Char) (cs : List Char) :
    joinWith [sep] (segments sep cs) = cs := by
  induction cs with
  | nil => rfl
  | cons c cs ih =>
      simp only [segments]
      split
      · next h =>
          have hne := segments_ne_nil sep cs
          match hs : segments sep cs with
          | [] => exact absurd hs hne
          | part :: parts => rw [hs] at ih; simp [joinWith, ih, h]
      · match hs : segments sep cs with
        | [] => exact absurd hs (segments_ne_nil sep cs)
        | [part] => rw [hs] at ih; simpa [joinWith] using ih
        | part :: next :: parts => rw [hs] at ih; simpa [joinWith] using ih

end FleetUpgrade.Text
