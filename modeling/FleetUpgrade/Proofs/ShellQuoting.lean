import FleetUpgrade.Remote.Shell
import Mathlib.Data.List.Basic

/-! # The quoting of shell text

A line is read character by character. `Quoting.step` says how each character changes
the quoting, and has no next state where the shell would act upon the character: at an
operator or a redirection that is not quoted, and at a command substitution outside of
single quotes. A value without quotes and without such characters leaves the quoting
as it is wherever it is pasted.
-/

namespace FleetUpgrade.Shell

/-- How the next character of a text is quoted. -/
inductive Quoting where
  | bare
  /-- after a backslash outside of quotes -/
  | escaped
  | single
  | double
  /-- after a backslash between double quotes -/
  | doubleEscaped
  /-- after a dollar sign between double quotes -/
  | doubleDollar
  deriving DecidableEq

def quotes : List Char := ['\x27', '\x22', '\\']

/-- The operators and redirections, and what begins a command substitution. -/
def special : List Char := [';', '&', '|', '<', '>', '(', ')', '\x60']

namespace Quoting

/-- Between double quotes a substitution begins with a backquote, or with a parenthesis after a
dollar sign. -/
def stepDouble (afterDollar : Bool) (c : Char) : Option Quoting :=
  if c = '\x22' then some .bare
  else if c = '\\' then some .doubleEscaped
  else if c = '$' then some .doubleDollar
  else if c = '\x60' ∨ (afterDollar ∧ c = '(') then none
  else some .double

/-- The quoting after a character, unless the shell would act upon it. -/
def step : Quoting → Char → Option Quoting
  | .bare, c =>
      if c = '\x27' then some .single
      else if c = '\x22' then some .double
      else if c = '\\' then some .escaped
      else if c ∈ special then none
      else some .bare
  | .escaped, _ => some .bare
  | .single, c => if c = '\x27' then some .bare else some .single
  | .double, c => stepDouble false c
  | .doubleEscaped, _ => some .double
  | .doubleDollar, c => stepDouble true c

def scan (q : Quoting) (text : List Char) : Option Quoting :=
  text.foldlM step q

variable {q q' : Quoting} {text rest : List Char}

theorem scan_append (q : Quoting) (text rest : List Char) :
    q.scan (text ++ rest) = (q.scan text).bind fun q' => q'.scan rest :=
  List.foldlM_append

theorem scan_append_of (h : q.scan text = some q') : q.scan (text ++ rest) = q'.scan rest := by
  rw [scan_append, h, Option.bind_some]

end Quoting

/-- A line upon which the shell does nothing but split it into words and expand parameters. -/
def Harmless (line : List Char) : Prop := (Quoting.scan .bare line).isSome = true

instance (line : List Char) : Decidable (Harmless line) :=
  inferInstanceAs (Decidable (_ = true))

/-! ## Values -/

/-- A value that quotes nothing. -/
def Plain (value : List Char) : Prop := ∀ c ∈ value, c ∉ quotes

/-- A value without operators, redirections and command substitutions. -/
def Bland (value : List Char) : Prop := ∀ c ∈ value, c ∉ special

instance (value : List Char) : Decidable (Plain value) :=
  List.decidableBAll (fun c => c ∉ quotes) value

instance (value : List Char) : Decidable (Bland value) :=
  List.decidableBAll (fun c => c ∉ special) value

theorem plain_append {text rest : List Char} : Plain (text ++ rest) ↔ Plain text ∧ Plain rest :=
  List.forall_mem_append

theorem bland_append {text rest : List Char} : Bland (text ++ rest) ↔ Bland text ∧ Bland rest :=
  List.forall_mem_append

namespace Quoting

variable {q : Quoting} {c : Char} {text value : List Char}

theorem step_bare (hplain : c ∉ quotes) :
    step .bare c = if c ∈ special then none else some .bare := by
  simp only [quotes, List.mem_cons, List.not_mem_nil, or_false, not_or] at hplain
  obtain ⟨hsingle, hdouble, hslash⟩ := hplain
  rw [step, if_neg hsingle, if_neg hdouble, if_neg hslash]

/-- Outside of quotes the shell acts upon a plain value just if it is not bland. -/
theorem scan_bare (hplain : Plain value) :
    scan .bare value = if Bland value then some .bare else none := by
  induction value with
  | nil => rfl
  | cons c value ih =>
      have hfirst : c ∉ quotes := hplain c List.mem_cons_self
      have hrest := ih fun other hother => hplain other (List.mem_cons_of_mem c hother)
      unfold scan at hrest ⊢
      rw [List.foldlM_cons, step_bare hfirst]
      by_cases hc : c ∈ special
      · rw [if_pos hc, if_neg fun hbland => hbland c List.mem_cons_self hc]
        rfl
      · have hcons : Bland (c :: value) ↔ Bland value := by simp [Bland, hc]
        rw [if_neg hc]
        simp only [hcons]
        exact hrest

/-- The quoting between double quotes, right after a dollar sign or not. -/
def IsDouble (q : Quoting) : Prop := q = .double ∨ q = .doubleDollar

theorem step_double (hq : q.IsDouble) (hplain : c ∉ quotes) (hbland : c ∉ special) :
    ∃ q', q.step c = some q' ∧ q'.IsDouble := by
  have hchar : ∀ afterDollar, stepDouble afterDollar c =
      if c = '$' then some .doubleDollar else some .double := by
    simp only [quotes, special, List.mem_cons, List.not_mem_nil, or_false, not_or] at hplain hbland
    simp [stepDouble, hplain, hbland]
  have hstep : ∃ afterDollar, q.step c = stepDouble afterDollar c := by
    rcases hq with rfl | rfl
    · exact ⟨false, rfl⟩
    · exact ⟨true, rfl⟩
  obtain ⟨afterDollar, hstep⟩ := hstep
  rw [hstep, hchar]
  by_cases hc : c = '$'
  · exact ⟨.doubleDollar, if_pos hc, Or.inr rfl⟩
  · exact ⟨.double, if_neg hc, Or.inl rfl⟩

theorem scan_double (hq : q.IsDouble) (hplain : Plain value) (hbland : Bland value) :
    ∃ q', q.scan value = some q' ∧ q'.IsDouble := by
  induction value generalizing q with
  | nil => exact ⟨q, rfl, hq⟩
  | cons c value ih =>
      obtain ⟨between, hstep, hbetween⟩ :=
        step_double hq (hplain c List.mem_cons_self) (hbland c List.mem_cons_self)
      obtain ⟨q', hrest, hq'⟩ := ih hbetween
        (fun other hother => hplain other (List.mem_cons_of_mem c hother))
        (fun other hother => hbland other (List.mem_cons_of_mem c hother))
      refine ⟨q', ?_, hq'⟩
      unfold scan at hrest ⊢
      rw [List.foldlM_cons, hstep]
      exact hrest

/-- A text reads alike after a dollar sign, unless it begins a substitution with it. -/
theorem scan_of_isDouble (hq : q.IsDouble) (hne : text ≠ []) (hparen : text.head? ≠ some '(') :
    q.scan text = scan .double text := by
  cases text with
  | nil => exact absurd rfl hne
  | cons c text =>
      have hc : c ≠ '(' := fun he => hparen (congrArg some he)
      rcases hq with rfl | rfl
      · rfl
      · unfold scan
        rw [List.foldlM_cons, List.foldlM_cons]
        simp [step, stepDouble, hc]

/-- Between single quotes every character stands for itself. -/
theorem scan_single (h : '\x27' ∉ value) : scan .single value = some .single := by
  induction value with
  | nil => rfl
  | cons c value ih =>
      have hc : step .single c = some .single :=
        if_neg fun he : c = '\x27' => h (he ▸ List.mem_cons_self)
      have hrest := ih fun hin => h (List.mem_cons_of_mem c hin)
      unfold scan at hrest ⊢
      rw [List.foldlM_cons, hc]
      exact hrest

end Quoting

theorem harmless_iff_bland {line : List Char} (hplain : Plain line) :
    Harmless line ↔ Bland line := by
  rw [Harmless, Quoting.scan_bare hplain]
  by_cases hbland : Bland line
  · simp [hbland]
  · simp [hbland]

example : Harmless "sed 's/a;b/' \"$file\"".toList := by decide

example : ¬Harmless "echo \"$(id)\"".toList := by decide

end FleetUpgrade.Shell
