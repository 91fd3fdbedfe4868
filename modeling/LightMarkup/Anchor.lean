import LightMarkup.Failure
import LightMarkup.Pattern.Search
import LightMarkup.Text.Digest
import LightMarkup.Text.Lowercase

/-!
Anchors and links. An anchor is a document name and an identifier, both normalised; a link leads to an anchor or is
kept as it was written. NUIDs name the nodes of a document by what they hold.
-/

namespace LightMarkup

namespace Anchor

def isIdentifierChar (c : Char) : Bool :=
  ('a' ≤ c && c ≤ 'z') || ('0' ≤ c && c ≤ '9') || c = '_' || c = '-'

/-- Lower case, with a hyphen for every character that an identifier cannot hold. -/
def normalise (identifier : Text) : Text :=
  (Text.lower identifier).map fun c => if isIdentifierChar c then c else '-'

-- A document may be named with the ending of its file.
def dropExtension (documentName : Text) : Text :=
  Text.dropEnding ".nmd" documentName

def build (documentName identifier : Text) : Text :=
  normalise (dropExtension documentName) ++ "-" ++ normalise identifier

/-- The anchor of an identifier in the document at hand. -/
def inDocument (identifier : Text) : Option Text → Except Failure Text
  | none => .error (.missingDocumentName identifier)
  | some documentName => .ok (build documentName identifier)

def inDocument? (documentName : Option Text) : Option Text → Except Failure (Option Text)
  | none => .ok none
  | some identifier => (inDocument identifier documentName).map some

end Anchor

inductive Link where
  | verbatim (target : Text)
  | anchor (documentName identifier : Text)
  deriving DecidableEq, Repr

namespace Link

/-- A scheme, or a path that begins at a root or at a named directory. -/
def addressPattern : Pattern :=
  (.char CharSet.letter ++ Pattern.many (.char (CharSet.letter ∪ .range '0' '9' ∪ CharSet.anyOf "+.-"))
    ++ Pattern.literal ":")
    <|> Pattern.literal "//" <|> Pattern.literal "/" <|> Pattern.literal "./" <|> Pattern.literal "../"

def documentPattern : Pattern :=
  Pattern.plus (.char CharSet.wordOrHyphen) ++ Pattern.maybe (Pattern.literal ".nmd")

def toAnchor (identifier : Text) : Option Text → Except Failure Link
  | none => .error (.missingDocumentName identifier)
  | some documentName => .ok (.anchor documentName identifier)

/-- `#id` is an anchor of the document at hand, `name#id` of another one; anything else is kept. -/
def ofText (raw : Text) (documentName : Option Text) : Except Failure Link :=
  let raw := Text.trim raw
  if (addressPattern.matchStart? raw).isSome then .ok (.verbatim raw)
  else match raw with
    | '#' :: identifier => toAnchor identifier documentName
    | _ =>
      let name := raw.takeWhile (· != '#')
      match raw.dropWhile (· != '#') with
      | [] => .ok (.verbatim raw)
      | _ :: identifier =>
        if (documentPattern.fullMatch? name).isSome then .ok (.anchor name identifier)
        else .ok (.verbatim raw)

def isInternal : Link → Bool
  | .verbatim _ => false
  | .anchor _ _ => true

def withoutSharp : Link → Text
  | .verbatim target => target
  | .anchor documentName identifier => Anchor.build documentName identifier

def build : Link → Text
  | .verbatim target => target
  | .anchor documentName identifier => '#' :: Anchor.build documentName identifier

def describe (link : Link) : Text :=
  "ResourceReference(" ++ Text.quoted link.build ++ ")"

end Link

namespace Nuid

/-- A document's name, a digest of the content, and how often the same content came before. -/
def build (documentName content : Text) (occurrence : Int) : Text :=
  Anchor.normalise documentName ++ "-" ++ Digest.ofText content ++ "-" ++ Text.ofInt occurrence

end Nuid

end LightMarkup
