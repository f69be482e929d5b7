import FleetUpgrade.Proofs.DocumentFields
import FleetUpgrade.Proofs.TextParts
import FleetUpgrade.Upgrade.ServiceTag
import Mathlib.Computability.RegularExpressions

/-! # Names of services

Names are told in three ways: character by character, by their parts between hyphens, and
by a pattern. The parts are what the other two are compared with. A character either goes
on with the current part or begins the next one. The pattern fits a text if there is a way
to take the text apart; there may be many, but all of them have the same hyphens.
-/

namespace FleetUpgrade.ServiceTag

def between (low high : Char) : List Char :=
  (List.range' low.toNat (high.toNat + 1 - low.toNat)).map Char.ofNat

def letters : List Char := between 'a' 'z'

def digits : List Char := between '0' '9'

/-- A first part: a letter, and then letters and digits. -/
def IsFirstPart : List Char → Prop
  | [] => False
  | c :: cs => c ∈ letters ∧ ∀ x ∈ cs, x ∈ letters ++ digits

/-- A further part: letters and digits, with a letter somewhere. -/
def IsFurtherPart (part : List Char) : Prop :=
  (∀ c ∈ part, c ∈ letters ++ digits) ∧ ∃ c ∈ part, c ∈ letters

/-- A text that has the parts of a name between its hyphens. -/
def HasNameParts (cs : List Char) : Prop :=
  ∃ first further, Text.segments '-' cs = first :: further ∧ IsFirstPart first ∧
    ∀ part ∈ further, IsFurtherPart part

variable {c : Char} {cs text part : List Char} {parts : List (List Char)}

/-! ## Characters -/

/-- Below the surrogates every number is that of a character. -/
theorem mem_between_iff {low high : Char} (hhigh : high.toNat < 0xd800) :
    c ∈ between low high ↔ low ≤ c ∧ c ≤ high := by
  rw [between, List.mem_map]
  constructor
  · intro ⟨n, hn, hc⟩
    rw [List.mem_range'_1] at hn
    have hvalid : n.isValidChar := Or.inl (by omega)
    have hcode : c.toNat = n := by
      rw [← hc, Char.ofNat, dif_pos hvalid]
      rfl
    have hlow : low.toNat ≤ c.toNat := by omega
    have hle : c.toNat ≤ high.toNat := by omega
    exact ⟨hlow, hle⟩
  · intro ⟨hlow, hle⟩
    have hlow : low.toNat ≤ c.toNat := hlow
    have hle : c.toNat ≤ high.toNat := hle
    exact ⟨c.toNat, List.mem_range'_1.2 ⟨hlow, by omega⟩, Char.ofNat_toNat c⟩

theorem mem_letters_iff : c ∈ letters ↔ 'a' ≤ c ∧ c ≤ 'z' :=
  mem_between_iff (by decide)

theorem mem_digits_iff : c ∈ digits ↔ '0' ≤ c ∧ c ≤ '9' :=
  mem_between_iff (by decide)

theorem isLetter_iff : isLetter c = true ↔ c ∈ letters := by
  simp [isLetter, mem_letters_iff]

theorem isDigit_iff : isDigit c = true ↔ c ∈ digits := by
  simp [isDigit, mem_digits_iff]

theorem hyphen_not_mem : '-' ∉ letters ++ digits := by
  rw [List.mem_append, mem_letters_iff, mem_digits_iff]
  decide

theorem IsFirstPart.mem_of_mem (h : IsFirstPart part) (hc : c ∈ part) : c ∈ letters ++ digits := by
  cases part with
  | nil => exact h.elim
  | cons first rest =>
      rcases List.mem_cons.1 hc with rfl | hrest
      · exact List.mem_append_left digits h.1
      · exact h.2 c hrest

/-! ## Reading a name -/

namespace Progress

/-- What the rest of the current part has to be. -/
def Completes : Progress → List Char → Prop
  | .opening, rest => IsFirstPart rest
  | .lettered, rest => ∀ c ∈ rest, c ∈ letters ++ digits
  | .unlettered, rest => IsFurtherPart rest

variable {p q : Progress}

theorem accepts_nil_iff : p.accepts [] = true ↔ p.Completes [] := by
  cases p <;> simp [accepts, Completes, IsFirstPart, IsFurtherPart]

theorem accepts_cons_iff :
    p.accepts (c :: cs) = true ↔ ∃ q, p.step c = some q ∧ q.accepts cs = true := by
  rw [accepts]
  cases p.step c <;> simp

theorem step_hyphen_iff : p.step '-' = some q ↔ p.Completes [] ∧ q = .unlettered := by
  cases p <;> simp [step, Completes, IsFirstPart, IsFurtherPart, isLetter, isDigit, eq_comm]

theorem completes_cons_iff (hc : c ≠ '-') :
    p.Completes (c :: cs) ↔ ∃ q, p.step c = some q ∧ q.Completes cs := by
  by_cases hletter : c ∈ letters
  · have hstep : p.step c = some .lettered := if_pos (isLetter_iff.2 hletter)
    cases p <;> simp [hstep, Completes, IsFirstPart, IsFurtherPart, hletter]
  · have hno : isLetter c = false := Bool.eq_false_iff.2 fun h => hletter (isLetter_iff.1 h)
    by_cases hdigit : c ∈ digits
    · have hyes : isDigit c = true := isDigit_iff.2 hdigit
      cases p <;> simp [step, hno, hyes, Completes, IsFirstPart, IsFurtherPart, hletter, hdigit]
    · have hnone : isDigit c = false := Bool.eq_false_iff.2 fun h => hdigit (isDigit_iff.1 h)
      cases p <;>
        simp [step, hno, hnone, hc, Completes, IsFirstPart, IsFurtherPart, hletter, hdigit]

/-- What is left of a name completes the current part, and the parts after it are in order. -/
theorem accepts_iff (h : Text.segments '-' cs = part :: parts) :
    p.accepts cs = true ↔ p.Completes part ∧ ∀ further ∈ parts, IsFurtherPart further := by
  induction cs generalizing p part parts with
  | nil =>
      cases h
      simp [accepts_nil_iff]
  | cons c cs ih =>
      obtain ⟨next, rest, hrest⟩ := List.exists_cons_of_ne_nil (Text.segments_ne_nil '-' cs)
      by_cases hc : c = '-'
      · -- the hyphen ends the current part, and the next one is a further part
        subst hc
        rw [Text.segments, if_pos rfl, hrest] at h
        cases h
        calc p.accepts ('-' :: cs) = true
            ↔ p.Completes [] ∧ unlettered.accepts cs = true := by
              simp only [accepts_cons_iff, step_hyphen_iff, and_assoc, exists_and_left,
                exists_eq_left]
          _ ↔ p.Completes [] ∧ IsFurtherPart next ∧ ∀ further ∈ rest, IsFurtherPart further :=
              and_congr_right fun _ => ih hrest
          _ ↔ p.Completes [] ∧ ∀ further ∈ next :: rest, IsFurtherPart further := by
              rw [List.forall_mem_cons]
      · rw [Text.segments, if_neg hc, hrest] at h
        cases h
        calc p.accepts (c :: cs) = true
            ↔ ∃ q, p.step c = some q ∧ q.Completes next ∧
                ∀ further ∈ parts, IsFurtherPart further := by
              simp only [accepts_cons_iff, ih hrest]
          _ ↔ p.Completes (c :: next) ∧ ∀ further ∈ parts, IsFurtherPart further := by
              simp only [completes_cons_iff hc, ← and_assoc, exists_and_right]

end Progress

theorem isName_iff : isName cs = true ↔ HasNameParts cs := by
  obtain ⟨first, further, hparts⟩ := List.exists_cons_of_ne_nil (Text.segments_ne_nil '-' cs)
  have hread := Progress.accepts_iff (p := .opening) hparts
  rw [isName, hread, HasNameParts]
  constructor
  · intro h
    exact ⟨first, further, hparts, h⟩
  · intro ⟨_, _, hother, h⟩
    cases hparts.symm.trans hother
    exact h

/-! ## The pattern of names -/

def oneOf (cs : List Char) : RegularExpression Char :=
  (cs.map RegularExpression.char).sum

def literal (cs : List Char) : RegularExpression Char :=
  (cs.map RegularExpression.char).prod

/-- Letters and digits, any number of them: `[a-z0-9]*`. -/
def anyPattern : RegularExpression Char :=
  (oneOf (letters ++ digits)).star

/-- The pattern of a first part: `[a-z][a-z0-9]*`. -/
def firstPattern : RegularExpression Char :=
  oneOf letters * anyPattern

/-- The pattern of a further part: `[a-z0-9]*[a-z][a-z0-9]*`. -/
def furtherPattern : RegularExpression Char :=
  anyPattern * oneOf letters * anyPattern

/-- The pattern of a name: `[a-z][a-z0-9]*(?:-[a-z0-9]*[a-z][a-z0-9]*)*`. -/
def namePattern : RegularExpression Char :=
  firstPattern * (literal ['-'] * furtherPattern).star

/-- The whole tag fits `service-` and then the pattern of a name, which `name` is what fits. -/
def Captures (tag name : List Char) : Prop :=
  name ∈ namePattern.matches' ∧
    ∃ front ∈ (literal "service-".toList).matches', front ++ name = tag

theorem mem_char_iff : text ∈ (RegularExpression.char c).matches' ↔ text = [c] :=
  Iff.rfl

theorem mem_oneOf_iff : text ∈ (oneOf cs).matches' ↔ ∃ c ∈ cs, text = [c] := by
  induction cs with
  | nil => simp [oneOf]
  | cons c cs ih =>
      have hsum : oneOf (c :: cs) = .char c + oneOf cs := List.sum_cons
      rw [hsum, RegularExpression.matches'_add, Language.mem_add, mem_char_iff, ih,
        List.exists_mem_cons_iff]

theorem mem_literal_iff : text ∈ (literal cs).matches' ↔ text = cs := by
  induction cs generalizing text with
  | nil => exact Language.mem_one text
  | cons c cs ih =>
      have hprod : literal (c :: cs) = .char c * literal cs := List.prod_cons
      simp only [hprod, RegularExpression.matches'_mul, Language.mem_mul, mem_char_iff, ih,
        exists_eq_left, List.singleton_append]
      exact eq_comm

theorem mem_anyPattern_iff :
    text ∈ anyPattern.matches' ↔ ∀ c ∈ text, c ∈ letters ++ digits := by
  rw [anyPattern, RegularExpression.matches'_star, Language.mem_kstar]
  constructor
  · intro ⟨pieces, htext, hpieces⟩ c hc
    obtain ⟨piece, hpiece, hmem⟩ := List.mem_flatten.1 (htext ▸ hc)
    obtain ⟨d, hd, rfl⟩ := mem_oneOf_iff.1 (hpieces piece hpiece)
    exact List.mem_singleton.1 hmem ▸ hd
  · intro h
    have htext : text = (text.map fun c => [c]).flatten := by
      rw [← List.flatMap_def, List.flatMap_singleton']
    refine ⟨text.map fun c => [c], htext, fun piece hpiece => ?_⟩
    obtain ⟨c, hc, rfl⟩ := List.mem_map.1 hpiece
    exact mem_oneOf_iff.2 ⟨c, h c hc, rfl⟩

theorem mem_firstPattern_iff : part ∈ firstPattern.matches' ↔ IsFirstPart part := by
  simp only [firstPattern, RegularExpression.matches'_mul, Language.mem_mul, mem_oneOf_iff,
    mem_anyPattern_iff]
  constructor
  · rintro ⟨_, ⟨c, hc, rfl⟩, rest, hrest, rfl⟩
    exact ⟨hc, hrest⟩
  · intro h
    cases part with
    | nil => exact h.elim
    | cons c rest => exact ⟨[c], ⟨c, h.1, rfl⟩, rest, h.2, rfl⟩

/-- Any letter of a further part will do for the one that the pattern asks for. -/
theorem mem_furtherPattern_iff : part ∈ furtherPattern.matches' ↔ IsFurtherPart part := by
  simp only [furtherPattern, RegularExpression.matches'_mul, Language.mem_mul, mem_oneOf_iff,
    mem_anyPattern_iff]
  constructor
  · rintro ⟨_, ⟨before, hbefore, _, ⟨c, hc, rfl⟩, rfl⟩, after, hafter, rfl⟩
    have hall : ∀ x ∈ before ++ [c] ++ after, x ∈ letters ++ digits := by
      simp only [List.append_assoc, List.forall_mem_append, List.forall_mem_singleton]
      exact ⟨hbefore, List.mem_append_left digits hc, hafter⟩
    exact ⟨hall, c, by simp, hc⟩
  · intro ⟨hall, c, hmem, hc⟩
    obtain ⟨before, after, rfl⟩ := List.append_of_mem hmem
    rw [List.forall_mem_append, List.forall_mem_cons] at hall
    exact ⟨before ++ [c], ⟨before, hall.1, [c], ⟨c, hc, rfl⟩, rfl⟩, after, hall.2.2, by simp⟩

theorem mem_hyphen_mul_iff {pattern : RegularExpression Char} :
    text ∈ (literal ['-'] * pattern).matches' ↔
      ∃ part, text = '-' :: part ∧ part ∈ pattern.matches' := by
  simp only [RegularExpression.matches'_mul, Language.mem_mul, mem_literal_iff, exists_eq_left,
    List.singleton_append]
  exact exists_congr fun part => and_comm.trans (and_congr_left fun _ => eq_comm)

theorem mem_star_hyphen_mul_iff {pattern : RegularExpression Char} :
    text ∈ (literal ['-'] * pattern).star.matches' ↔
      ∃ parts : List (List Char), text = parts.flatMap ('-' :: ·) ∧
        ∀ part ∈ parts, part ∈ pattern.matches' := by
  rw [RegularExpression.matches'_star, Language.mem_kstar]
  constructor
  · intro ⟨pieces, htext, hpieces⟩
    subst htext
    induction pieces with
    | nil => exact ⟨[], rfl, by simp⟩
    | cons piece pieces ih =>
        rw [List.forall_mem_cons] at hpieces
        obtain ⟨part, rfl, hpart⟩ := mem_hyphen_mul_iff.1 hpieces.1
        obtain ⟨parts, hparts, hall⟩ := ih hpieces.2
        refine ⟨part :: parts, ?_, List.forall_mem_cons.2 ⟨hpart, hall⟩⟩
        rw [List.flatten_cons, hparts, List.flatMap_cons]
  · intro ⟨parts, htext, hparts⟩
    refine ⟨parts.map ('-' :: ·), htext.trans List.flatMap_def, fun piece hpiece => ?_⟩
    obtain ⟨part, hpart, rfl⟩ := List.mem_map.1 hpiece
    exact mem_hyphen_mul_iff.2 ⟨part, rfl, hparts part hpart⟩

theorem mem_namePattern_iff : cs ∈ namePattern.matches' ↔ HasNameParts cs := by
  rw [namePattern, RegularExpression.matches'_mul, Language.mem_mul]
  simp only [mem_firstPattern_iff, mem_star_hyphen_mul_iff, mem_furtherPattern_iff, HasNameParts,
    Text.segments_eq_cons_iff]
  constructor
  · rintro ⟨first, hfirst, _, ⟨further, rfl, hfurther⟩, rfl⟩
    have hhyphens : ∀ part ∈ first :: further, '-' ∉ part :=
      List.forall_mem_cons.2 ⟨fun hmem => hyphen_not_mem (hfirst.mem_of_mem hmem),
        fun part hpart hmem => hyphen_not_mem ((hfurther part hpart).1 '-' hmem)⟩
    exact ⟨first, further, ⟨rfl, hhyphens⟩, hfirst, hfurther⟩
  · rintro ⟨first, further, ⟨rfl, -⟩, hfirst, hfurther⟩
    exact ⟨first, hfirst, _, ⟨further, rfl, hfurther⟩, rfl⟩

theorem captures_iff {tag name : List Char} :
    Captures tag name ↔ tag = "service-".toList ++ name ∧ HasNameParts name := by
  simp only [Captures, mem_namePattern_iff, mem_literal_iff, exists_eq_left]
  exact and_comm.trans (and_congr_left fun _ => eq_comm)

/-! ## Tags -/

theorem name?_eq_some_iff {tag name : String} :
    name? tag = some name ↔ tag = "service-" ++ name ∧ HasNameParts name.toList := by
  rw [name?, Option.filter_eq_some_iff, Text.stripLead_eq_some_iff, isName_iff]
  rfl

example : name? "service-my-sql2" = some "my-sql2" := by decide +kernel

example : name? "service-my-2" = none := by decide +kernel

/-- A tag has a name just if it is `service-` and a text with the parts of a name, and the name is
that text. The same name is what the pattern captures in the tag, whichever way it fits. -/
theorem tag_named_iff (tag name : String) :
    (name? tag = some name ↔ tag = "service-" ++ name ∧ HasNameParts name.toList) ∧
      (name? tag = some name ↔ Captures tag.toList name.toList) := by
  refine ⟨name?_eq_some_iff, ?_⟩
  rw [name?_eq_some_iff, captures_iff, ← String.toList_append, String.toList_inj]

end FleetUpgrade.ServiceTag
