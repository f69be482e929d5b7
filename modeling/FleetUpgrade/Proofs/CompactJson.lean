import FleetUpgrade.Proofs.JsonText

/-! # Compact texts

The compact text of a tree is cut into the same tokens as the indented one, so the
tree is read back from it too. It has no control characters: strings escape theirs,
and nothing else writes one. So it stands on one line, whatever its strings hold.
-/

namespace FleetUpgrade.Json

open Decimal (Digit)

/-! ## Cutting -/

section

variable {cs : List Char}

theorem stops_compactItems (items : List Json) (hcs : Stops cs) :
    Stops (compactItems false items ++ cs) := by
  cases items with
  | nil => exact hcs
  | cons item items => exact stops_cons _ (by decide)

theorem stops_compactFields (fields : List (String × Json)) (hcs : Stops cs) :
    Stops (compactFields false fields ++ cs) := by
  cases fields with
  | nil => exact hcs
  | cons field fields => exact stops_cons _ (by decide)

end

mutual

/-- The compact text of a tree is cut into the same tokens. -/
theorem tokens?_compactChars {cs : List Char} (hcs : Stops cs) :
    ∀ j : Json, j.WellFormed →
      Token.tokens? (j.compactChars ++ cs) = (Token.tokens? cs).map (j.tokens ++ ·)
  | .null, _ => Token.tokens?_of_next? (by decide) rfl
  | .bool true, _ => Token.tokens?_of_next? (by decide) rfl
  | .bool false, _ => Token.tokens?_of_next? (by decide) rfl
  | .number n, h => Token.tokens?_numeral h hcs
  | .string s, _ => Token.tokens?_stringText s cs
  | .garbled, _ => Token.tokens?_garbledText cs
  | .array items, h => by
      have hitems := tokens?_compactItems (stops_cons cs (by decide : ']' ∈ _)) true items h
      simp only [compactChars, tokens, List.cons_append, List.append_assoc, List.nil_append,
        tokens?_openArray, hitems, tokens?_closeArray, Option.map_map, Function.comp_def]
  | .object fields, h => by
      have hfields := tokens?_compactFields (stops_cons cs (by decide : '\x7d' ∈ _)) true fields h
      simp only [compactChars, tokens, List.cons_append, List.append_assoc, List.nil_append,
        tokens?_openObject, hfields, tokens?_closeObject, Option.map_map, Function.comp_def]

theorem tokens?_compactItems {cs : List Char} (hcs : Stops cs) :
    ∀ (first : Bool) (items : List Json), WellFormedItems items →
      Token.tokens? (compactItems first items ++ cs) =
        (Token.tokens? cs).map (tokensOfItems first items ++ ·)
  | _, [], _ => (Option.map_id' ..).symm
  | first, item :: items, h => by
      have hitem := tokens?_compactChars (stops_compactItems items hcs) item h.1
      have hitems := tokens?_compactItems hcs false items h.2
      simp only [compactItems, tokensOfItems, List.append_assoc, tokens?_separator, hitem, hitems,
        Option.map_map, Function.comp_def]

theorem tokens?_compactFields {cs : List Char} (hcs : Stops cs) :
    ∀ (first : Bool) (fields : List (String × Json)), WellFormedFields fields →
      Token.tokens? (compactFields first fields ++ cs) =
        (Token.tokens? cs).map (tokensOfFields first fields ++ ·)
  | _, [], _ => (Option.map_id' ..).symm
  | first, (name, item) :: fields, h => by
      have hitem := tokens?_compactChars (stops_compactFields fields hcs) item h.1
      have hfields := tokens?_compactFields hcs false fields h.2
      simp only [compactFields, tokensOfFields, List.append_assoc, List.cons_append,
        tokens?_separator, Token.tokens?_stringText, tokens?_colon, hitem, hfields, Option.map_map,
        Function.comp_def]

end

theorem parse?_compact {j : Json} (h : j.WellFormed) : parse? j.compact = some j := by
  have hcut := tokens?_compactChars stops_nil j h
  rw [List.append_nil, tokens?_nil, Option.map_some, List.append_nil] at hcut
  exact parse?_of_tokens? (by rw [compact, String.toList_ofList, hcut])

/-! ## Control characters -/

def Printable (cs : List Char) : Prop :=
  ∀ c ∈ cs, ¬c.toNat < 0x20

instance (cs : List Char) : Decidable (Printable cs) :=
  List.decidableBAll _ cs

section

variable {c : Char} {cs ds : List Char}

@[simp]
theorem printable_nil : Printable [] := nofun

@[simp]
theorem printable_cons : Printable (c :: cs) ↔ ¬c.toNat < 0x20 ∧ Printable cs :=
  List.forall_mem_cons

@[simp]
theorem printable_append : Printable (cs ++ ds) ↔ Printable cs ∧ Printable ds :=
  List.forall_mem_append

theorem printable_separator (first : Bool) : Printable (if first then [] else [',']) := by
  cases first <;> decide

theorem printable_digits (digits : List Digit) : Printable (Decimal.text digits) := by
  have hall : ∀ d : Digit, ¬d.char.toNat < 0x20 := by decide
  intro c hc
  obtain ⟨d, -, rfl⟩ := List.mem_map.1 hc
  exact hall d

theorem Numeral.printable_text (n : Numeral) : Printable n.text := by
  have hsign : Printable (if n.negative then ['-'] else []) := by split <;> decide
  have hfraction : Printable (if n.fraction = [] then [] else '.' :: Decimal.text n.fraction) := by
    split
    · exact printable_nil
    · exact printable_cons.2 ⟨by decide, printable_digits n.fraction⟩
  unfold text
  simp only [printable_append, hsign, hfraction, printable_digits, true_and]
  cases n.power with
  | none => exact printable_nil
  | some p =>
      have hpower : ¬(if p.negative then '-' else '+').toNat < 0x20 := by split <;> decide
      exact printable_cons.2 ⟨by decide, printable_cons.2 ⟨hpower, printable_digits p.digits⟩⟩

theorem printable_padded (width n : Nat) : Printable (Text.Hex.padded width n) := by
  have hdigit : ∀ n < 16, ¬(Text.Hex.digit n).toNat < 0x20 := by decide
  induction width generalizing n with
  | zero => exact printable_nil
  | succ width ih =>
      exact printable_append.2
        ⟨ih (n / 16), printable_cons.2 ⟨hdigit (n % 16) (Nat.mod_lt n (by decide)), printable_nil⟩⟩

theorem printable_stringChar (c : Char) : Printable (stringChar c) := by
  unfold stringChar
  split
  iterate 7 decide
  split
  · exact printable_cons.2 ⟨by decide, printable_cons.2 ⟨by decide, printable_padded 4 c.toNat⟩⟩
  · next hplain => exact printable_cons.2 ⟨hplain, printable_nil⟩

theorem printable_stringText (s : String) : Printable (stringText s) := by
  have hchars : Printable (s.toList.flatMap stringChar) := fun c hc => by
    obtain ⟨d, -, hin⟩ := List.mem_flatMap.1 hc
    exact printable_stringChar d c hin
  exact printable_cons.2 ⟨by decide, printable_append.2 ⟨hchars, by decide⟩⟩

end

mutual

theorem printable_compactChars : ∀ j : Json, Printable j.compactChars
  | .null => by decide
  | .bool true => by decide
  | .bool false => by decide
  | .number n => n.printable_text
  | .string s => printable_stringText s
  | .garbled => by decide
  | .array items =>
      printable_cons.2 ⟨by decide, printable_append.2 ⟨printable_compactItems true items, by decide⟩⟩
  | .object fields =>
      printable_cons.2 ⟨by decide, printable_append.2 ⟨printable_compactFields true fields, by decide⟩⟩

theorem printable_compactItems (first : Bool) :
    ∀ items : List Json, Printable (compactItems first items)
  | [] => printable_nil
  | item :: items => by
      simp only [compactItems, printable_append, printable_separator, true_and]
      exact ⟨printable_compactChars item, printable_compactItems false items⟩

theorem printable_compactFields (first : Bool) :
    ∀ fields : List (String × Json), Printable (compactFields first fields)
  | [] => printable_nil
  | (name, item) :: fields => by
      simp only [compactFields, printable_append, printable_cons, printable_separator, true_and]
      exact ⟨⟨printable_stringText name, by decide, printable_compactChars item⟩,
        printable_compactFields false fields⟩

end

theorem lineFeed_not_mem_compact (j : Json) : '\n' ∉ j.compact.toList := by
  unfold compact
  rw [String.toList_ofList]
  exact fun h => printable_compactChars j '\n' h (by decide)

end FleetUpgrade.Json
