import FleetUpgrade.Text.Search

/-!
# Service tags

The tag of a service is its name after a fixed lead. A name is made of segments between hyphens:
the first begins with a letter, every further one has a letter somewhere, and all hold only lower
case letters and decimal digits.

Names are read character by character. What has been read of the current segment decides what may
follow and whether the name may end.
-/

namespace FleetUpgrade.ServiceTag

def isLetter (c : Char) : Bool :=
  'a' ≤ c && c ≤ 'z'

def isDigit (c : Char) : Bool :=
  '0' ≤ c && c ≤ '9'

/-- What has been read of the current segment. -/
inductive Progress where
  /-- nothing of the first segment -/
  | opening
  /-- a segment that is complete as it stands -/
  | lettered
  /-- a further segment without a letter so far -/
  | unlettered

def Progress.step (p : Progress) (c : Char) : Option Progress :=
  if isLetter c then some .lettered
  else
    match p with
    | .opening => none
    | .lettered =>
        if isDigit c then some .lettered else if c = '-' then some .unlettered else none
    | .unlettered => if isDigit c then some .unlettered else none

/-- Whether the rest of a name is fine after what was read. -/
def Progress.accepts : Progress → List Char → Bool
  | .lettered, [] => true
  | _, [] => false
  | p, c :: cs =>
      match p.step c with
      | some q => q.accepts cs
      | none => false

def isName (cs : List Char) : Bool :=
  Progress.opening.accepts cs

def lead : String := "service-"

/-- The name of the service that a tag refers to. -/
def name? (tag : String) : Option String :=
  (Text.stripLead lead tag).filter fun name => isName name.toList

end FleetUpgrade.ServiceTag
