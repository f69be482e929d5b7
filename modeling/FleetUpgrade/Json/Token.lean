import FleetUpgrade.Json.Basic
import FleetUpgrade.Text.Hex

/-!
# JSON tokens

The text is cut into punctuation, literals, numerals and strings. Blanks between tokens are
spaces, tabs, line feeds and carriage returns.
-/

namespace FleetUpgrade.Json

open Decimal (Digit)

inductive Token where
  | openArray
  | closeArray
  | openObject
  | closeObject
  | colon
  | comma
  | null
  | bool (b : Bool)
  | number (n : Numeral)
  | string (s : String)
  /-- a string that escapes one half of a surrogate pair without the other -/
  | garbled
  deriving DecidableEq

namespace Token

/-- Whether the character may stand between tokens. -/
def isSpace (c : Char) : Bool :=
  c == ' ' || c == '\t' || c == '\n' || c == '\r'

/-! ## Strings -/

/-- Where the reader stands inside a string. -/
inductive Within where
  /-- between characters -/
  | plain
  /-- after a backslash -/
  | escape
  /-- inside a code of four digits; a first half of a surrogate pair may have been read -/
  | code (left value : Nat) (high : Option Nat)
  /-- after a first half, which a second code must follow -/
  | pair (high : Nat)
  /-- after the backslash that starts the second code -/
  | pairEscape (high : Nat)

inductive Effect where
  | finish
  | write (c : Char)
  | move (next : Within)
  | writeMove (c : Char) (next : Within)

/-- Finish a code: a lone half of a surrogate pair is refused. -/
def closeCode (value : Nat) : Option Nat → Option Effect
  | none =>
      if 0xd800 ≤ value ∧ value ≤ 0xdbff then some (.move (.pair value))
      else if 0xdc00 ≤ value ∧ value ≤ 0xdfff then none
      else some (.writeMove (Char.ofNat value) .plain)
  | some high =>
      if 0xdc00 ≤ value ∧ value ≤ 0xdfff then
        some (.writeMove (Char.ofNat (0x10000 + (high - 0xd800) * 0x400 + (value - 0xdc00))) .plain)
      else none

/-- Read one character of a string; nothing when it may not stand there. -/
def Within.step : Within → Char → Option Effect
  | .plain, c =>
      if c = '"' then some .finish
      else if c = '\\' then some (.move .escape)
      else if c.toNat < 0x20 then none
      else some (.write c)
  | .escape, c =>
      match c with
      | '"' => some (.writeMove '"' .plain)
      | '\\' => some (.writeMove '\\' .plain)
      | '/' => some (.writeMove '/' .plain)
      | 'b' => some (.writeMove (Char.ofNat 8) .plain)
      | 'f' => some (.writeMove (Char.ofNat 12) .plain)
      | 'n' => some (.writeMove '\n' .plain)
      | 'r' => some (.writeMove '\r' .plain)
      | 't' => some (.writeMove '\t' .plain)
      | 'u' => some (.move (.code 3 0 none))
      | _ => none
  | .code left value high, c =>
      match Text.Hex.value? c with
      | none => none
      | some d =>
          match left with
          | 0 => closeCode (value * 16 + d) high
          | left + 1 => some (.move (.code left (value * 16 + d) high))
  | .pair high, c => if c = '\\' then some (.move (.pairEscape high)) else none
  | .pairEscape high, c => if c = 'u' then some (.move (.code 3 0 (some high))) else none

/-- Read a string up to its closing quote: its characters, and what follows. -/
def scanString : Within → List Char → Option (List Char × List Char)
  | _, [] => none
  | state, c :: cs =>
      match state.step c with
      | none => none
      | some .finish => some ([], cs)
      | some (.write d) => (scanString state cs).map fun r => (d :: r.1, r.2)
      | some (.move next) => scanString next cs
      | some (.writeMove d next) => (scanString next cs).map fun r => (d :: r.1, r.2)

theorem scanString_length {state : Within} {cs out rest : List Char}
    (h : scanString state cs = some (out, rest)) : rest.length ≤ cs.length := by
  induction cs generalizing state out rest with
  | nil => simp [scanString] at h
  | cons c cs ih =>
      simp only [scanString] at h
      split at h
      · simp at h
      · simp only [Option.some.injEq, Prod.mk.injEq] at h
        rw [← h.2]
        simp
      · simp only [Option.map_eq_some_iff, Prod.mk.injEq] at h
        obtain ⟨⟨o, r⟩, hs, -, rfl⟩ := h
        have := ih hs
        simp only [List.length_cons]
        omega
      · have := ih h
        simp only [List.length_cons]
        omega
      · simp only [Option.map_eq_some_iff, Prod.mk.injEq] at h
        obtain ⟨⟨o, r⟩, hs, -, rfl⟩ := h
        have := ih hs
        simp only [List.length_cons]
        omega

/-! ## Strings that are no text -/

inductive Passing where
  /-- between characters -/
  | plain
  /-- after a backslash -/
  | escape
  /-- inside a code; `left` digits are due after the next -/
  | code (left : Nat)

def Passing.step : Passing → Char → Option Passing
  | .plain, c =>
      if c = '\\' then some .escape else if c.toNat < 0x20 then none else some .plain
  | .escape, c =>
      if c = 'u' then some (.code 3)
      else if ['"', '\\', '/', 'b', 'f', 'n', 'r', 't'].contains c then some .plain
      else none
  | .code left, c =>
      if (Text.Hex.value? c).isNone then none
      else match left with
        | 0 => some .plain
        | left + 1 => some (.code left)

/-- Pass over a string and its closing quote: what follows. -/
def passString : Passing → List Char → Option (List Char)
  | _, [] => none
  | .plain, '"' :: cs => some cs
  | state, c :: cs =>
      match state.step c with
      | none => none
      | some next => passString next cs

theorem passString_length {state : Passing} {cs rest : List Char}
    (h : passString state cs = some rest) : rest.length ≤ cs.length := by
  induction cs generalizing state with
  | nil => simp [passString] at h
  | cons c cs ih =>
      unfold passString at h
      split at h
      · simp at h
      · simp_all
      · next heq =>
          simp only [List.cons.injEq] at heq
          obtain ⟨rfl, rfl⟩ := heq
          split at h
          · simp at h
          · exact Nat.le_succ_of_le (ih h)

def scanToken (cs : List Char) : Option (Token × List Char) :=
  match scanString .plain cs with
  | some r => some (.string (String.ofList r.1), r.2)
  | none => (passString .plain cs).map fun rest => (.garbled, rest)

theorem scanToken_length {cs : List Char} {r : Token × List Char} (h : scanToken cs = some r) :
    r.2.length ≤ cs.length := by
  unfold scanToken at h
  split at h
  · next hs =>
      cases h
      exact scanString_length hs
  · simp only [Option.map_eq_some_iff] at h
    obtain ⟨rest, hr, rfl⟩ := h
    exact passString_length hr

/-! ## Numerals -/

/-- The digits before the point: a zero stands alone. -/
def scanWhole : List Char → Option (List Digit × List Char)
  | '0' :: cs => some ([.zero], cs)
  | cs => if (Decimal.span cs).1 = [] then none else some (Decimal.span cs)

/-- The digits after a point, if there is one. -/
def scanFraction : List Char → Option (List Digit × List Char)
  | '.' :: cs => if (Decimal.span cs).1 = [] then none else some (Decimal.span cs)
  | cs => some ([], cs)

def scanPowerDigits (negative : Bool) (cs : List Char) : Option (Option Power × List Char) :=
  if (Decimal.span cs).1 = [] then none
  else some (some ⟨negative, (Decimal.span cs).1⟩, (Decimal.span cs).2)

def scanSignedPower : List Char → Option (Option Power × List Char)
  | '-' :: cs => scanPowerDigits true cs
  | '+' :: cs => scanPowerDigits false cs
  | cs => scanPowerDigits false cs

/-- A power of ten, if there is one. -/
def scanPower : List Char → Option (Option Power × List Char)
  | 'e' :: cs => scanSignedPower cs
  | 'E' :: cs => scanSignedPower cs
  | cs => some (none, cs)

def scanUnsigned (negative : Bool) (cs : List Char) : Option (Numeral × List Char) :=
  (scanWhole cs).bind fun whole =>
    (scanFraction whole.2).bind fun fraction =>
      (scanPower fraction.2).map fun power => (⟨negative, whole.1, fraction.1, power.1⟩, power.2)

theorem scanWhole_length {cs : List Char} {r : List Digit × List Char}
    (h : scanWhole cs = some r) : r.2.length < cs.length := by
  unfold scanWhole at h
  split at h
  · cases h
    simp
  · split at h
    · simp at h
    · next hne =>
        cases h
        exact Decimal.span_length_lt hne

theorem scanFraction_length {cs : List Char} {r : List Digit × List Char}
    (h : scanFraction cs = some r) : r.2.length ≤ cs.length := by
  unfold scanFraction at h
  split at h
  · split at h
    · simp at h
    · cases h
      exact Nat.le_succ_of_le (Decimal.span_length _)
  · cases h
    simp

theorem scanPowerDigits_length {negative : Bool} {cs : List Char} {r : Option Power × List Char}
    (h : scanPowerDigits negative cs = some r) : r.2.length ≤ cs.length := by
  unfold scanPowerDigits at h
  split at h
  · simp at h
  · cases h
    exact Decimal.span_length cs

theorem scanSignedPower_length {cs : List Char} {r : Option Power × List Char}
    (h : scanSignedPower cs = some r) : r.2.length ≤ cs.length := by
  unfold scanSignedPower at h
  split at h
  · exact Nat.le_succ_of_le (scanPowerDigits_length h)
  · exact Nat.le_succ_of_le (scanPowerDigits_length h)
  · exact scanPowerDigits_length h

theorem scanPower_length {cs : List Char} {r : Option Power × List Char}
    (h : scanPower cs = some r) : r.2.length ≤ cs.length := by
  unfold scanPower at h
  split at h
  · exact Nat.le_succ_of_le (scanSignedPower_length h)
  · exact Nat.le_succ_of_le (scanSignedPower_length h)
  · cases h
    simp

theorem scanUnsigned_length {negative : Bool} {cs : List Char} {r : Numeral × List Char}
    (h : scanUnsigned negative cs = some r) : r.2.length < cs.length := by
  simp only [scanUnsigned, Option.bind_eq_some_iff, Option.map_eq_some_iff] at h
  obtain ⟨whole, hw, fraction, hf, power, hp, rfl⟩ := h
  exact Nat.lt_of_le_of_lt (scanPower_length hp)
    (Nat.lt_of_le_of_lt (scanFraction_length hf) (scanWhole_length hw))

/-! ## Cutting a text -/

/-- The token that starts with the character `c`, and what follows it. -/
def next? (c : Char) (cs : List Char) : Option (Token × List Char) :=
  match c with
  | '[' => some (.openArray, cs)
  | ']' => some (.closeArray, cs)
  | '\x7b' => some (.openObject, cs)
  | '\x7d' => some (.closeObject, cs)
  | ':' => some (.colon, cs)
  | ',' => some (.comma, cs)
  | 'n' => (['u', 'l', 'l'].isPrefixOf? cs).map fun rest => (.null, rest)
  | 't' => (['r', 'u', 'e'].isPrefixOf? cs).map fun rest => (.bool true, rest)
  | 'f' => (['a', 'l', 's', 'e'].isPrefixOf? cs).map fun rest => (.bool false, rest)
  | '"' => scanToken cs
  | '-' => (scanUnsigned true cs).map fun r => (.number r.1, r.2)
  | c => (scanUnsigned false (c :: cs)).map fun r => (.number r.1, r.2)

theorem isPrefixOf?_length {xs cs rest : List Char} (h : xs.isPrefixOf? cs = some rest) :
    rest.length ≤ cs.length := by
  induction xs generalizing cs with
  | nil =>
      have hrest : some cs = some rest := h
      cases hrest
      exact Nat.le_refl _
  | cons x xs ih =>
      cases cs with
      | nil => exact nomatch (show none = some rest from h)
      | cons c cs =>
          have hstep : (if x == c then xs.isPrefixOf? cs else none) = some rest := h
          split at hstep
          · exact Nat.le_succ_of_le (ih hstep)
          · cases hstep

theorem next?_length {c : Char} {cs : List Char} {r : Token × List Char}
    (h : next? c cs = some r) : r.2.length ≤ cs.length := by
  unfold next? at h
  split at h <;> try first | (cases h; simp) | exact scanToken_length h
  all_goals
    simp only [Option.map_eq_some_iff] at h
    obtain ⟨rest, hr, rfl⟩ := h
  · exact isPrefixOf?_length hr
  · exact isPrefixOf?_length hr
  · exact isPrefixOf?_length hr
  · exact Nat.le_of_lt (scanUnsigned_length hr)
  · exact Nat.le_of_lt_succ (scanUnsigned_length hr)

/-- The tokens of a text; nothing when some part of it is no token. -/
def tokens? : List Char → Option (List Token)
  | [] => some []
  | c :: cs =>
      if isSpace c then tokens? cs
      else
        match h : next? c cs with
        | none => none
        | some (t, rest) =>
            have : rest.length < (c :: cs).length := Nat.lt_succ_of_le (next?_length h)
            (tokens? rest).map (t :: ·)
termination_by cs => cs.length
decreasing_by
  · exact Nat.lt_succ_self _
  · exact this

end Token

end FleetUpgrade.Json
