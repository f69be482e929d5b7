import FleetUpgrade.Json.Printer
import FleetUpgrade.Json.Token
import Mathlib.Tactic.IntervalCases

/-! # Cutting what the printer wrote

Each part of a printed tree is one token or blanks. A numeral needs a look at what
follows it: there no further digit, point or power may stand (`Stops`).
-/

namespace FleetUpgrade.Json

open Decimal (Digit)

namespace Token

variable {c : Char} {cs rest : List Char} {t : Token}

/-! ## One token at a time -/

theorem tokens?_of_next? (hspace : isSpace c = false) (h : next? c cs = some (t, rest)) :
    tokens? (c :: cs) = (tokens? rest).map (t :: ·) := by
  rw [tokens?, hspace, if_neg Bool.false_ne_true]
  split
  · next hnone => exact absurd (h.symm.trans hnone) (Option.some_ne_none (t, rest))
  · next hsome =>
      have hsame := h.symm.trans hsome
      cases hsame
      rfl

theorem tokens?_of_isSpace (hspace : isSpace c = true) : tokens? (c :: cs) = tokens? cs := by
  rw [tokens?, if_pos hspace]

theorem tokens?_newLine (depth : Nat) (cs : List Char) :
    tokens? (newLine depth ++ cs) = tokens? cs := by
  have hblanks : ∀ n : Nat, tokens? (List.replicate n ' ' ++ cs) = tokens? cs := by
    intro n
    induction n with
    | zero => rfl
    | succ n ih => exact (tokens?_of_isSpace (by decide)).trans ih
  exact (tokens?_of_isSpace (by decide)).trans (hblanks (2 * depth))

/-! ## Strings -/

section

variable {state next : Within} {d : Char}

theorem scanString_move (h : state.step c = some (.move next)) :
    scanString state (c :: cs) = scanString next cs := by
  simp only [scanString, h]

theorem scanString_write (h : state.step c = some (.write d)) :
    scanString state (c :: cs) = (scanString state cs).map fun r => (d :: r.1, r.2) := by
  simp only [scanString, h]

theorem scanString_writeMove (h : state.step c = some (.writeMove d next)) :
    scanString state (c :: cs) = (scanString next cs).map fun r => (d :: r.1, r.2) := by
  simp only [scanString, h]

theorem value?_digit {n : Nat} (h : n < 16) : Text.Hex.value? (Text.Hex.digit n) = some n := by
  interval_cases n <;> decide

theorem step_code {left value n : Nat} (hn : n < 16) :
    Within.step (.code (left + 1) value none) (Text.Hex.digit n) =
      some (.move (.code left (value * 16 + n) none)) := by
  simp only [Within.step, value?_digit hn]

/-- A control is written as a code of four digits. -/
theorem scanString_control {n : Nat} (hn : n < 0x20) (cs : List Char) :
    scanString .plain ('\\' :: 'u' :: (Text.Hex.padded 4 n ++ cs)) =
      (scanString .plain cs).map fun r => (Char.ofNat n :: r.1, r.2) := by
  have hdigits : Text.Hex.padded 4 n ++ cs =
      Text.Hex.digit 0 :: Text.Hex.digit 0 :: Text.Hex.digit (n / 16) ::
        Text.Hex.digit (n % 16) :: cs := by
    have h₁ : n / 16 % 16 = n / 16 := by omega
    have h₂ : n / 16 / 16 % 16 = 0 := by omega
    have h₃ : n / 16 / 16 / 16 % 16 = 0 := by omega
    simp only [Text.Hex.padded, List.nil_append, List.cons_append, h₁, h₂, h₃]
  have hlast : Within.step (.code 0 (n / 16) none) (Text.Hex.digit (n % 16)) =
      some (.writeMove (Char.ofNat n) .plain) := by
    have hvalue : n / 16 * 16 + n % 16 = n := by omega
    have hhigh : ¬(0xd800 ≤ n ∧ n ≤ 0xdbff) := by omega
    have hlow : ¬(0xdc00 ≤ n ∧ n ≤ 0xdfff) := by omega
    simp only [Within.step, value?_digit (Nat.mod_lt n (by decide : 0 < 16)), hvalue, closeCode,
      if_neg hhigh, if_neg hlow]
  have hcode : scanString (.code 3 0 none) (Text.Hex.padded 4 n ++ cs) =
      scanString (.code 0 (n / 16) none) (Text.Hex.digit (n % 16) :: cs) := by
    have hthird : Within.step (.code 1 0 none) (Text.Hex.digit (n / 16)) =
        some (.move (.code 0 (n / 16) none)) := by
      rw [step_code (by omega), Nat.zero_mul, Nat.zero_add]
    rw [hdigits, scanString_move (step_code (by decide)), scanString_move (step_code (by decide)),
      scanString_move hthird]
  rw [scanString_move rfl, scanString_move rfl, hcode, scanString_writeMove hlast]

theorem scanString_stringChar (c : Char) (cs : List Char) :
    scanString .plain (stringChar c ++ cs) =
      (scanString .plain cs).map fun r => (c :: r.1, r.2) := by
  have hescaped : ∀ letter, Within.step .escape letter = some (.writeMove c .plain) →
      scanString .plain ('\\' :: letter :: cs) =
        (scanString .plain cs).map fun r => (c :: r.1, r.2) := fun letter h => by
    rw [scanString_move rfl, scanString_writeMove h]
  unfold stringChar
  split
  · exact hescaped '"' rfl
  · exact hescaped '\\' rfl
  · exact hescaped 'b' rfl
  · exact hescaped 'f' rfl
  · exact hescaped 'n' rfl
  · exact hescaped 'r' rfl
  · exact hescaped 't' rfl
  · next hquote hbackslash _ _ _ _ _ =>
      split
      · next hcontrol =>
          rw [List.cons_append, List.cons_append, scanString_control hcontrol, Char.ofNat_toNat]
      · next hplain =>
          refine scanString_write ?_
          simp only [Within.step, if_neg hquote, if_neg hbackslash, if_neg hplain]

theorem scanString_flatMap (s cs : List Char) :
    scanString .plain (s.flatMap stringChar ++ '"' :: cs) = some (s, cs) := by
  induction s with
  | nil => rfl
  | cons c s ih =>
      rw [List.flatMap_cons, List.append_assoc, scanString_stringChar, ih]
      rfl

end

theorem tokens?_stringText (s : String) (cs : List Char) :
    tokens? (stringText s ++ cs) = (tokens? cs).map (.string s :: ·) := by
  refine tokens?_of_next? (by decide) ?_
  change scanToken (s.toList.flatMap stringChar ++ ['"'] ++ cs) = _
  rw [List.append_assoc]
  unfold scanToken
  rw [show ['"'] ++ cs = '"' :: cs from rfl, scanString_flatMap]
  simp only [String.ofList_toList]

theorem tokens?_garbledText (cs : List Char) :
    tokens? (garbledText ++ cs) = (tokens? cs).map (.garbled :: ·) :=
  tokens?_of_next? (by decide) rfl

end Token

/-! ## Numerals -/

/-- A numeral that JSON has: there are digits before the point, of which a leading zero is the only
one, and a power has digits. -/
structure Numeral.WellFormed (n : Numeral) : Prop where
  whole_ne : n.whole ≠ []
  leading : n.whole.head? = some 0 → n.whole = [0]
  power_ne : ∀ p, n.power = some p → p.digits ≠ []

/-- Nothing follows that a numeral could still take in. -/
def Stops (rest : List Char) : Prop :=
  ∀ c ∈ rest.head?, Digit.ofChar? c = none ∧ c ≠ '.' ∧ c ≠ 'e' ∧ c ≠ 'E'

theorem stops_nil : Stops [] := nofun

theorem stops_cons {c : Char} (cs : List Char) (h : c ∈ [',', '\n', ']', '\x7d']) :
    Stops (c :: cs) := by
  intro first hfirst
  obtain rfl : c = first := Option.some.inj hfirst
  simp only [List.mem_cons, List.not_mem_nil, or_false] at h
  rcases h with rfl | rfl | rfl | rfl <;> decide

def fractionText (ds : List Digit) : List Char :=
  if ds = [] then [] else '.' :: Decimal.text ds

def powerText : Option Power → List Char
  | none => []
  | some p => 'e' :: (if p.negative then '-' else '+') :: Decimal.text p.digits

namespace Token

variable {ds : List Digit} {rest : List Char}

theorem scanWhole_text (hne : ds ≠ []) (hleading : ds.head? = some 0 → ds = [0])
    (hrest : ∀ c ∈ rest.head?, Digit.ofChar? c = none) :
    scanWhole (Decimal.text ds ++ rest) = some (ds, rest) := by
  have hspan := Decimal.span_text_append ds hrest
  cases ds with
  | nil => exact absurd rfl hne
  | cons d ds =>
      by_cases hzero : d = 0
      · have hsingle := hleading (congrArg some hzero)
        rw [hsingle]
        rfl
      · have hall : ∀ d : Digit, d ≠ 0 → d.char ≠ '0' := by decide
        have hchar := hall d hzero
        unfold scanWhole
        split
        · next heq => exact absurd (List.cons.inj heq).1 hchar
        · rw [hspan, if_neg (List.cons_ne_nil d ds)]

theorem scanFraction_text (hrest : ∀ c ∈ rest.head?, Digit.ofChar? c = none ∧ c ≠ '.') :
    scanFraction (fractionText ds ++ rest) = some (ds, rest) := by
  unfold fractionText
  by_cases hds : ds = []
  · subst hds
    rw [if_pos rfl, List.nil_append]
    unfold scanFraction
    split
    · exact absurd rfl (hrest '.' rfl).2
    · rfl
  · rw [if_neg hds, List.cons_append]
    simp only [scanFraction, Decimal.span_text_append ds fun c hc => (hrest c hc).1, if_neg hds]

theorem scanPowerDigits_text (negative : Bool) (hne : ds ≠ []) (hrest : Stops rest) :
    scanPowerDigits negative (Decimal.text ds ++ rest) = some (some ⟨negative, ds⟩, rest) := by
  simp only [scanPowerDigits, Decimal.span_text_append ds fun c hc => (hrest c hc).1, if_neg hne]

theorem scanPower_text {power : Option Power} (hne : ∀ p, power = some p → p.digits ≠ [])
    (hrest : Stops rest) : scanPower (powerText power ++ rest) = some (power, rest) := by
  cases power with
  | none =>
      rw [powerText, List.nil_append]
      unfold scanPower
      split
      · exact absurd rfl (hrest 'e' rfl).2.2.1
      · exact absurd rfl (hrest 'E' rfl).2.2.2
      · rfl
  | some p =>
      obtain ⟨negative, digits⟩ := p
      have hdigits := scanPowerDigits_text negative (hne _ rfl) hrest
      cases negative <;> exact hdigits

theorem stops_powerText (power : Option Power) (hrest : Stops rest) :
    ∀ c ∈ (powerText power ++ rest).head?, Digit.ofChar? c = none ∧ c ≠ '.' := by
  cases power with
  | none => exact fun c hc => ⟨(hrest c hc).1, (hrest c hc).2.1⟩
  | some p =>
      intro c hc
      obtain rfl : 'e' = c := Option.some.inj hc
      decide

theorem stops_fractionText (ds : List Digit) (hrest : ∀ c ∈ rest.head?, Digit.ofChar? c = none) :
    ∀ c ∈ (fractionText ds ++ rest).head?, Digit.ofChar? c = none := by
  unfold fractionText
  by_cases hds : ds = []
  · rw [if_pos hds]
    exact hrest
  · rw [if_neg hds]
    intro c hc
    obtain rfl : '.' = c := Option.some.inj hc
    decide

/-- A numeral is read back from its text, after its sign. -/
theorem scanUnsigned_text {n : Numeral} (h : n.WellFormed) (hrest : Stops rest) :
    scanUnsigned n.negative
        (Decimal.text n.whole ++ (fractionText n.fraction ++ (powerText n.power ++ rest))) =
      some (n, rest) := by
  have hpower := stops_powerText n.power hrest
  have hwhole := scanWhole_text h.whole_ne h.leading
    (stops_fractionText n.fraction fun c hc => (hpower c hc).1)
  have hfraction : scanFraction (fractionText n.fraction ++ (powerText n.power ++ rest)) =
      some (n.fraction, powerText n.power ++ rest) := scanFraction_text hpower
  unfold scanUnsigned
  simp only [hwhole, hfraction, Option.bind_some, scanPower_text h.power_ne hrest, Option.map_some]

theorem next?_digit (d : Digit) (cs : List Char) :
    next? d.char cs = (scanUnsigned false (d.char :: cs)).map fun r => (.number r.1, r.2) := by
  obtain ⟨value, hvalue⟩ := d
  interval_cases value <;> rfl

theorem tokens?_numeral {n : Numeral} (h : n.WellFormed) (hrest : Stops rest) :
    tokens? (n.text ++ rest) = (tokens? rest).map (.number n :: ·) := by
  have hscan := scanUnsigned_text h hrest
  have htext : n.text ++ rest = (if n.negative then ['-'] else []) ++
      (Decimal.text n.whole ++ (fractionText n.fraction ++ (powerText n.power ++ rest))) := by
    have hparts : n.text = (if n.negative then ['-'] else []) ++ Decimal.text n.whole ++
        fractionText n.fraction ++ powerText n.power := rfl
    simp only [hparts, List.append_assoc]
  rw [htext]
  -- the token is told by its first character, which is the sign or else the first digit
  cases hsign : n.negative with
  | true =>
      rw [hsign] at hscan
      exact tokens?_of_next? (by decide)
        (congrArg (Option.map fun r : Numeral × List Char => (number r.1, r.2)) hscan)
  | false =>
      rw [hsign] at hscan
      obtain ⟨d, ds, hdigits⟩ := List.exists_cons_of_ne_nil h.whole_ne
      have hspace : ∀ d : Digit, isSpace d.char = false := by decide
      rw [hdigits] at hscan ⊢
      exact tokens?_of_next? (hspace d) ((next?_digit d _).trans
        (congrArg (Option.map fun r : Numeral × List Char => (number r.1, r.2)) hscan))

end Token

theorem Numeral.wellFormed_ofInt (i : Int) : (Numeral.ofInt i).WellFormed where
  whole_ne := Decimal.ofNat_ne_nil _
  leading hzero := by
    cases hi : i.natAbs with
    | zero =>
        change Decimal.ofNat i.natAbs = [0]
        rw [hi]
        unfold Decimal.ofNat
        rfl
    | succ n => exact absurd hzero (Decimal.head?_ofNat_ne_zero (hi ▸ Nat.succ_pos n))
  power_ne := nofun

end FleetUpgrade.Json
