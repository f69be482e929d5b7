import FleetUpgrade.Proofs.ShellQuoting
import FleetUpgrade.Proofs.TextParts
import FleetUpgrade.Remote.Ssh

/-! # Words that a shell reads

Between single quotes every character stands for itself up to the next single quote.
Outside of them a backslash makes the next character stand for itself, and a blank or a
line feed ends a word. A text that ends between quotes or after a backslash has no words.
Neither has one that a shell reads by its other rules: operators, expansions, patterns
and comments that are not quoted, and lines that a backslash joins. So words that are
read here are the words of any shell.
-/

namespace FleetUpgrade.Shell

/-- What ends a word. -/
def blanks : List Char := [' ', '\t', '\n']

/-- What a shell does not take as it is, outside of quotes and apart from blanks. -/
def reserved : List Char := special ++ ['\x22', '$', '*', '?', '[', '#', '~', '=', '%']

/-- What was read of a text: the words that have ended, and the word that has begun. -/
inductive Reading where
  | between (ended : List (List Char))
  | bare (ended : List (List Char)) (word : List Char)
  /-- after a backslash outside of quotes -/
  | escaped (ended : List (List Char)) (word : List Char)
  | single (ended : List (List Char)) (word : List Char)
  deriving DecidableEq

namespace Reading

def unquoted (ended : List (List Char)) (word : List Char) (c : Char) : Option Reading :=
  if c = '\x27' then some (.single ended word)
  else if c = '\\' then some (.escaped ended word)
  else if c ∈ reserved then none
  else some (.bare ended (word ++ [c]))

def step : Reading → Char → Option Reading
  | .between ended, c => if c ∈ blanks then some (.between ended) else unquoted ended [] c
  | .bare ended word, c =>
      if c ∈ blanks then some (.between (ended ++ [word])) else unquoted ended word c
  | .escaped ended word, c => if c = '\n' then none else some (.bare ended (word ++ [c]))
  | .single ended word, c =>
      if c = '\x27' then some (.bare ended word) else some (.single ended (word ++ [c]))

/-- The words of a text that ends here. -/
def finish : Reading → Option (List (List Char))
  | .between ended => some ended
  | .bare ended word => some (ended ++ [word])
  | .escaped .. => none
  | .single .. => none

def scan (r : Reading) (text : List Char) : Option Reading :=
  text.foldlM step r

theorem scan_append (r : Reading) (text rest : List Char) :
    r.scan (text ++ rest) = (r.scan text).bind fun r' => r'.scan rest :=
  List.foldlM_append

theorem scan_cons (r : Reading) (c : Char) (text : List Char) :
    r.scan (c :: text) = (r.step c).bind fun r' => r'.scan text :=
  List.foldlM_cons

end Reading

def words? (text : String) : Option (List String) :=
  ((Reading.scan (.between []) text.toList).bind Reading.finish).map (List.map String.ofList)

example : words? "a  'b c'\\'d" = some ["a", "b c'd"] := by decide +kernel

example : words? "a 'b" = none := by decide +kernel

/-! ## Quoted words -/

namespace Reading

variable {ended : List (List Char)} {word : List Char}

theorem scan_quotedChar (c : Char) :
    scan (.single ended word) (quotedChar c) = some (.single ended (word ++ [c])) := by
  by_cases hc : c = '\x27'
  · -- out of the quotes, over the escaped quote, and in again
    subst hc
    rfl
  · rw [quotedChar, if_neg hc, scan_cons, step, if_neg hc]
    rfl

theorem scan_flatMap_quotedChar (text : List Char) :
    scan (.single ended word) (text.flatMap quotedChar) = some (.single ended (word ++ text)) := by
  induction text generalizing word with
  | nil => simp [scan]
  | cons c text ih =>
      rw [List.flatMap_cons, scan_append, scan_quotedChar, Option.bind_some, ih, List.append_assoc]
      rfl

/-- A quoted text goes on with the word that has begun. -/
theorem scan_bare_quoteChars (text : List Char) :
    scan (.bare ended word) (quoteChars text) = some (.bare ended (word ++ text)) := by
  have hopen : step (.bare ended word) '\x27' = some (.single ended word) := rfl
  have hclose : scan (.single ended (word ++ text)) ['\x27'] =
      some (.bare ended (word ++ text)) := rfl
  rw [quoteChars, scan_cons, hopen, Option.bind_some, scan_append, scan_flatMap_quotedChar,
    Option.bind_some, hclose]

/-- A quoted text between words begins a word. -/
theorem scan_between_quoteChars (text : List Char) :
    scan (.between ended) (quoteChars text) = some (.bare ended text) := by
  -- the opening quote begins an empty word, as it does after a word that has just begun
  have hopen : scan (.between ended) (quoteChars text) =
      scan (.bare ended []) (quoteChars text) := rfl
  rw [hopen, scan_bare_quoteChars, List.nil_append]

/-- Quoted words with blanks between them are read as they are. -/
theorem scan_joinWith_quoteChars (words : List (List Char)) :
    (scan (.between ended) (Text.joinWith [' '] (words.map quoteChars))).bind finish =
      some (ended ++ words) := by
  induction words generalizing ended with
  | nil => simp [Text.joinWith, scan, finish]
  | cons word words ih =>
      cases words with
      | nil => exact congrArg (Option.bind · finish) (scan_between_quoteChars word)
      | cons next words =>
          have hblank : step (.bare ended word) ' ' = some (.between (ended ++ [word])) := rfl
          rw [List.map_cons, Text.joinWith_cons [' '] _ (by simp), scan_append,
            scan_between_quoteChars, Option.bind_some, List.singleton_append, scan_cons, hblank,
            Option.bind_some, ih, List.append_assoc]
          rfl

end Reading

/-- Any words can be handed to a shell: quoted and with blanks between them, they are read back. -/
theorem words?_join_quote (words : List String) :
    words? (Text.join " " (words.map quote)) = some words := by
  have hchars : (Text.join " " (words.map quote)).toList =
      Text.joinWith [' '] ((words.map String.toList).map quoteChars) := by
    simp [Text.join, quote, Function.comp_def]
  rw [words?, hchars, Reading.scan_joinWith_quoteChars]
  simp

theorem words?_quote (text : String) : words? (quote text) = some [text] := by
  have hword : Text.join " " [quote text] = quote text := String.ofList_toList
  rw [← hword]
  exact words?_join_quote [text]

theorem words?_remoteCommand (script : String) :
    words? (Ssh.remoteCommand script) = some ["sudo", "-n", "bash", "-c", script] := by
  have hlead : Reading.scan (.between []) "sudo -n bash -c ".toList =
      some (.between (["sudo", "-n", "bash", "-c"].map String.toList)) := by decide +kernel
  rw [words?, Ssh.remoteCommand, String.toList_append, Reading.scan_append, hlead,
    Option.bind_some, quote, String.toList_ofList, Reading.scan_between_quoteChars]
  simp [Reading.finish]

/-- A quoted text is read as one word, whatever it is, so the command that is handed to `ssh` has
the script as its last word. -/
theorem quoted_read_back (text : String) :
    words? (quote text) = some [text] ∧
      ∀ identityFile userHost : String, ∃ command,
        (Ssh.runArguments identityFile userHost text).getLast? = some command ∧
          words? command = some ["sudo", "-n", "bash", "-c", text] :=
  ⟨words?_quote text, fun identityFile userHost =>
    ⟨Ssh.remoteCommand text, by simp [Ssh.runArguments], words?_remoteCommand text⟩⟩

end FleetUpgrade.Shell
