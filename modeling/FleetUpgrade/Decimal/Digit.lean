/-!
# Decimal digits

Numbers as lists of digits, most significant first. The main statement is
`value_ofNat`: reading the digits written for a number gives the number back.
-/

namespace FleetUpgrade.Decimal

abbrev Digit := Fin 10

def Digit.zero : Digit :=
  ⟨0, by decide⟩

def Digit.char (d : Digit) : Char :=
  Char.ofNat (48 + d.val)

def Digit.ofChar? (c : Char) : Option Digit :=
  if h : 48 ≤ c.toNat ∧ c.toNat ≤ 57 then some ⟨c.toNat - 48, by omega⟩ else none

/-- The number a list of digits writes, continuing the number read so far. -/
def valueFrom (start : Nat) (ds : List Digit) : Nat :=
  ds.foldl (fun n d => n * 10 + d.val) start

def value (ds : List Digit) : Nat :=
  valueFrom 0 ds

/-- The digits of a number without leading zeros; zero is the one digit 0. -/
def ofNat (n : Nat) : List Digit :=
  if h : n < 10 then [⟨n, h⟩]
  else ofNat (n / 10) ++ [⟨n % 10, Nat.mod_lt n (by omega)⟩]
termination_by n
decreasing_by omega

def text (ds : List Digit) : List Char :=
  ds.map Digit.char

/-- The digits at the front of a text, and what follows them. -/
def span : List Char → List Digit × List Char
  | [] => ([], [])
  | c :: cs =>
      match Digit.ofChar? c with
      | some d => (d :: (span cs).1, (span cs).2)
      | none => ([], c :: cs)

theorem valueFrom_append (start : Nat) (xs ys : List Digit) :
    valueFrom start (xs ++ ys) = valueFrom (valueFrom start xs) ys := by
  simp [valueFrom]

theorem value_ofNat (n : Nat) : value (ofNat n) = n := by
  induction n using Nat.strongRecOn with
  | ind n ih =>
      unfold ofNat
      by_cases h : n < 10
      · simp [h, value, valueFrom]
      · have hlt : n / 10 < n := by omega
        have hrec := ih (n / 10) hlt
        simp only [value] at hrec
        simp only [h, dif_neg, not_false_eq_true, value, valueFrom_append, hrec]
        simp only [valueFrom, List.foldl_cons, List.foldl_nil]
        omega

theorem ofNat_ne_nil (n : Nat) : ofNat n ≠ [] := by
  unfold ofNat
  split <;> simp

/-- Only zero is written with a leading zero. -/
theorem head?_ofNat_ne_zero {n : Nat} (h : 0 < n) : (ofNat n).head? ≠ some 0 := by
  induction n using Nat.strongRecOn with
  | ind n ih =>
      unfold ofNat
      by_cases hn : n < 10
      · have hne : ¬ n = 0 := by omega
        simp only [hn, dif_pos, List.head?_cons, ne_eq, Option.some.injEq, Fin.ext_iff]
        exact hne
      · have hrec := ih (n / 10) (by omega) (by omega)
        simp only [hn, dif_neg, not_false_eq_true]
        match hds : ofNat (n / 10) with
        | [] => exact absurd hds (ofNat_ne_nil _)
        | d :: ds =>
            rw [hds] at hrec
            simpa using hrec

theorem Digit.ofChar?_char (d : Digit) : Digit.ofChar? d.char = some d := by
  revert d
  decide

theorem span_length (cs : List Char) : (span cs).2.length ≤ cs.length := by
  induction cs with
  | nil => simp [span]
  | cons c cs ih =>
      simp only [span]
      split
      · simp only [List.length_cons]
        omega
      · simp

theorem span_length_lt {cs : List Char} (h : (span cs).1 ≠ []) :
    (span cs).2.length < cs.length := by
  cases cs with
  | nil => simp [span] at h
  | cons c cs =>
      simp only [span] at h ⊢
      split
      · exact Nat.lt_succ_of_le (span_length cs)
      · next hc => simp [hc] at h

/-- A text of digits is read up to the first character that is no digit. -/
theorem span_text_append (ds : List Digit) {rest : List Char}
    (h : ∀ c ∈ rest.head?, Digit.ofChar? c = none) : span (text ds ++ rest) = (ds, rest) := by
  induction ds with
  | nil =>
      cases rest with
      | nil => rfl
      | cons c cs =>
          have hc : Digit.ofChar? c = none := h c rfl
          simp [text, span, hc]
  | cons d ds ih =>
      have hstep : text (d :: ds) ++ rest = d.char :: (text ds ++ rest) := rfl
      rw [hstep]
      simp [span, Digit.ofChar?_char, ih]

end FleetUpgrade.Decimal
