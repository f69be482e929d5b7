import FleetUpgrade.Proofs.JsonTokens
import FleetUpgrade.Json.Reader

/-! # Reading what the printer wrote

The indented text of a tree is cut into the tokens of the tree, and the reader
builds the tree from its tokens. So every tree whose numerals are JSON numerals is
read back from its text, at any depth.
-/

namespace FleetUpgrade.Json

mutual

def WellFormed : Json → Prop
  | .number n => n.WellFormed
  | .array items => WellFormedItems items
  | .object fields => WellFormedFields fields
  | _ => True

def WellFormedItems : List Json → Prop
  | [] => True
  | item :: items => item.WellFormed ∧ WellFormedItems items

def WellFormedFields : List (String × Json) → Prop
  | [] => True
  | (_, item) :: fields => item.WellFormed ∧ WellFormedFields fields

end

mutual

def tokens : Json → List Token
  | .null => [.null]
  | .bool b => [.bool b]
  | .number n => [.number n]
  | .string s => [.string s]
  | .array items => .openArray :: (tokensOfItems true items ++ [.closeArray])
  | .object fields => .openObject :: (tokensOfFields true fields ++ [.closeObject])
  | .garbled => [.garbled]

/-- Items with commas between them; `first` tells that no comma is due. -/
def tokensOfItems (first : Bool) : List Json → List Token
  | [] => []
  | item :: items =>
      (if first then [] else [.comma]) ++ item.tokens ++ tokensOfItems false items

/-- Fields with commas between them; `first` tells that no comma is due. -/
def tokensOfFields (first : Bool) : List (String × Json) → List Token
  | [] => []
  | (name, item) :: fields =>
      (if first then [] else [.comma]) ++ .string name :: .colon :: item.tokens ++
        tokensOfFields false fields

end

/-! ## Cutting -/

section

variable {cs : List Char}

theorem stops_newLine (depth : Nat) (cs : List Char) : Stops (newLine depth ++ cs) :=
  stops_cons _ (by decide)

theorem tokens?_separator (first : Bool) (cs : List Char) :
    Token.tokens? ((if first then [] else [',']) ++ cs) =
      (Token.tokens? cs).map ((if first then [] else [Token.comma]) ++ ·) := by
  cases first with
  | true => exact (Option.map_id' ..).symm
  | false => exact Token.tokens?_of_next? (by decide) rfl

theorem stops_indentedItems (depth : Nat) (items : List Json) (hcs : Stops cs) :
    Stops (indentedItems depth false items ++ cs) := by
  cases items with
  | nil => exact hcs
  | cons item items => exact stops_cons _ (by decide)

theorem stops_indentedFields (depth : Nat) (fields : List (String × Json)) (hcs : Stops cs) :
    Stops (indentedFields depth false fields ++ cs) := by
  cases fields with
  | nil => exact hcs
  | cons field fields => exact stops_cons _ (by decide)

theorem tokens?_openArray (cs : List Char) :
    Token.tokens? ('[' :: cs) = (Token.tokens? cs).map (.openArray :: ·) :=
  Token.tokens?_of_next? (by decide) rfl

theorem tokens?_closeArray (cs : List Char) :
    Token.tokens? (']' :: cs) = (Token.tokens? cs).map (.closeArray :: ·) :=
  Token.tokens?_of_next? (by decide) rfl

theorem tokens?_openObject (cs : List Char) :
    Token.tokens? ('\x7b' :: cs) = (Token.tokens? cs).map (.openObject :: ·) :=
  Token.tokens?_of_next? (by decide) rfl

theorem tokens?_closeObject (cs : List Char) :
    Token.tokens? ('\x7d' :: cs) = (Token.tokens? cs).map (.closeObject :: ·) :=
  Token.tokens?_of_next? (by decide) rfl

theorem tokens?_colon (cs : List Char) :
    Token.tokens? (':' :: cs) = (Token.tokens? cs).map (.colon :: ·) :=
  Token.tokens?_of_next? (by decide) rfl

theorem tokens?_space (cs : List Char) : Token.tokens? (' ' :: cs) = Token.tokens? cs :=
  Token.tokens?_of_isSpace (by decide)

end

mutual

/-- The text of a tree is cut into the tokens of the tree. -/
theorem tokens?_indentedChars (depth : Nat) {cs : List Char} (hcs : Stops cs) :
    ∀ j : Json, j.WellFormed →
      Token.tokens? (j.indentedChars depth ++ cs) = (Token.tokens? cs).map (j.tokens ++ ·)
  | .null, _ => Token.tokens?_of_next? (by decide) rfl
  | .bool true, _ => Token.tokens?_of_next? (by decide) rfl
  | .bool false, _ => Token.tokens?_of_next? (by decide) rfl
  | .number n, h => Token.tokens?_numeral h hcs
  | .string s, _ => Token.tokens?_stringText s cs
  | .garbled, _ => Token.tokens?_garbledText cs
  | .array [], _ => by
      change Token.tokens? ('[' :: ']' :: cs) = _
      rw [tokens?_openArray, tokens?_closeArray, Option.map_map]
      rfl
  | .array (item :: items), h => by
      have hitems := tokens?_indentedItems (depth + 1) (stops_newLine depth (']' :: cs)) true
        (item :: items) h
      simp only [indentedChars, tokens, List.cons_append, List.append_assoc, List.nil_append,
        tokens?_openArray, hitems, Token.tokens?_newLine, tokens?_closeArray, Option.map_map,
        Function.comp_def]
  | .object [], _ => by
      change Token.tokens? ('\x7b' :: '\x7d' :: cs) = _
      rw [tokens?_openObject, tokens?_closeObject, Option.map_map]
      rfl
  | .object (field :: fields), h => by
      have hfields := tokens?_indentedFields (depth + 1) (stops_newLine depth ('\x7d' :: cs)) true
        (field :: fields) h
      simp only [indentedChars, tokens, List.cons_append, List.append_assoc, List.nil_append,
        tokens?_openObject, hfields, Token.tokens?_newLine, tokens?_closeObject, Option.map_map,
        Function.comp_def]

theorem tokens?_indentedItems (depth : Nat) {cs : List Char} (hcs : Stops cs) :
    ∀ (first : Bool) (items : List Json), WellFormedItems items →
      Token.tokens? (indentedItems depth first items ++ cs) =
        (Token.tokens? cs).map (tokensOfItems first items ++ ·)
  | _, [], _ => (Option.map_id' ..).symm
  | first, item :: items, h => by
      have hitem := tokens?_indentedChars depth (stops_indentedItems depth items hcs) item h.1
      have hitems := tokens?_indentedItems depth hcs false items h.2
      simp only [indentedItems, tokensOfItems, List.append_assoc, tokens?_separator,
        Token.tokens?_newLine, hitem, hitems, Option.map_map, Function.comp_def]

theorem tokens?_indentedFields (depth : Nat) {cs : List Char} (hcs : Stops cs) :
    ∀ (first : Bool) (fields : List (String × Json)), WellFormedFields fields →
      Token.tokens? (indentedFields depth first fields ++ cs) =
        (Token.tokens? cs).map (tokensOfFields first fields ++ ·)
  | _, [], _ => (Option.map_id' ..).symm
  | first, (name, item) :: fields, h => by
      have hitem := tokens?_indentedChars depth (stops_indentedFields depth fields hcs) item h.1
      have hfields := tokens?_indentedFields depth hcs false fields h.2
      simp only [indentedFields, tokensOfFields, List.append_assoc, List.cons_append,
        tokens?_separator, Token.tokens?_newLine, Token.tokens?_stringText, tokens?_colon,
        tokens?_space, hitem, hfields, Option.map_map, Function.comp_def]

end

/-! ## Reading -/

namespace Reading

variable {frames : List Frame}

theorem run_firstItem (j : Json) (ts : List Token) :
    run (.firstItem frames) (j.tokens ++ ts) =
      run (.value (.array [] :: frames)) (j.tokens ++ ts) := by
  cases j <;> rfl

mutual

/-- The tokens of a tree are read as the tree. -/
theorem run_tokens (frames : List Frame) (ts : List Token) :
    ∀ j : Json, run (.value frames) (j.tokens ++ ts) = run (.after frames j) ts
  | .null => rfl
  | .bool _ => rfl
  | .number _ => rfl
  | .string _ => rfl
  | .garbled => rfl
  | .array [] => rfl
  | .array (item :: items) => by
      have hitem := run_tokens (.array [] :: frames)
        (tokensOfItems false items ++ .closeArray :: ts) item
      have hitems := run_tokensOfItems frames [] item ts items
      change run (.firstItem frames)
        (item.tokens ++ tokensOfItems false items ++ [Token.closeArray] ++ ts) = _
      rw [List.append_assoc, List.append_assoc, run_firstItem]
      exact hitem.trans hitems
  | .object [] => rfl
  | .object ((key, item) :: fields) => by
      have hitem := run_tokens (.object [] key :: frames)
        (tokensOfFields false fields ++ .closeObject :: ts) item
      have hfields := run_tokensOfFields frames [] key item ts fields
      change run (.value (.object [] key :: frames))
        (item.tokens ++ tokensOfFields false fields ++ [Token.closeObject] ++ ts) = _
      rw [List.append_assoc, List.append_assoc]
      exact hitem.trans hfields

theorem run_tokensOfItems (frames : List Frame) (done : List Json) (last : Json)
    (ts : List Token) : ∀ items : List Json,
    run (.after (.array done :: frames) last) (tokensOfItems false items ++ .closeArray :: ts) =
      run (.after frames (.array (done.reverse ++ last :: items))) ts
  | [] => by
      -- a frame holds the items that were read in reverse
      change run (.after frames (.array (last :: done).reverse)) ts = _
      rw [List.reverse_cons]
  | item :: items => by
      have hitem := run_tokens (.array (last :: done) :: frames)
        (tokensOfItems false items ++ .closeArray :: ts) item
      have hitems := run_tokensOfItems frames (last :: done) item ts items
      change run (.value (.array (last :: done) :: frames))
        (item.tokens ++ tokensOfItems false items ++ .closeArray :: ts) = _
      rw [List.append_assoc, hitem, hitems, List.reverse_cons, List.append_assoc]
      rfl

theorem run_tokensOfFields (frames : List Frame) (done : List (String × Json)) (key : String)
    (last : Json) (ts : List Token) : ∀ fields : List (String × Json),
    run (.after (.object done key :: frames) last)
        (tokensOfFields false fields ++ .closeObject :: ts) =
      run (.after frames (.object (done.reverse ++ (key, last) :: fields))) ts
  | [] => by
      change run (.after frames (.object ((key, last) :: done).reverse)) ts = _
      rw [List.reverse_cons]
  | (next, item) :: fields => by
      have hitem := run_tokens (.object ((key, last) :: done) next :: frames)
        (tokensOfFields false fields ++ .closeObject :: ts) item
      have hfields := run_tokensOfFields frames ((key, last) :: done) next item ts fields
      change run (.value (.object ((key, last) :: done) next :: frames))
        (item.tokens ++ tokensOfFields false fields ++ .closeObject :: ts) = _
      rw [List.append_assoc, hitem, hfields, List.reverse_cons, List.append_assoc]
      rfl

end

end Reading

theorem tokens?_nil : Token.tokens? [] = some [] := by
  rw [Token.tokens?]

theorem parse?_of_tokens? {j : Json} {text : String}
    (h : Token.tokens? text.toList = some j.tokens) : parse? text = some j := by
  have hread := Reading.run_tokens [] [] j
  rw [List.append_nil] at hread
  unfold parse?
  rw [h, Option.bind_some, hread]
  rfl

/-- A tree is read back from its indented text. -/
theorem parse?_indented {j : Json} (h : j.WellFormed) : parse? j.indented = some j := by
  have hcut := tokens?_indentedChars 0 stops_nil j h
  rw [List.append_nil, tokens?_nil, Option.map_some, List.append_nil] at hcut
  exact parse?_of_tokens? (by rw [indented, String.toList_ofList, hcut])

end FleetUpgrade.Json
