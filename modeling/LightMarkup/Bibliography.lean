import LightMarkup.Anchor
import LightMarkup.Value

/-!
Bibliographies: records in order of their keys, numbered from 1.
-/

namespace LightMarkup

/-- The fields that a configuration file may fill with any value keep it. -/
structure BibliographyRecord where
  title : Text
  authors : Option (List Text)
  year : Value
  url : Value
  description : Value
  deriving Repr

structure Bibliography where
  title : Text
  records : List (Text × BibliographyRecord)
  deriving Repr

namespace Bibliography

/-- The document that a bibliography's anchors belong to. -/
def documentName : Text := "bibliography"

def insert (key : Text) (record : BibliographyRecord) : List (Text × BibliographyRecord) → List (Text × BibliographyRecord)
  | [] => [(key, record)]
  | (other, kept) :: rest =>
    if key = other then (key, record) :: rest
    else if Text.before key other then (key, record) :: (other, kept) :: rest
    else (other, kept) :: insert key record rest

-- Of two records under one key the later counts.
def ofList (title : Text) (records : List (Text × BibliographyRecord)) : Bibliography :=
  ⟨title, records.foldl (fun sorted (key, record) => insert key record sorted) []⟩

def keys (b : Bibliography) : List Text :=
  b.records.map (·.1)

def record? (b : Bibliography) (key : Text) : Option BibliographyRecord :=
  b.records.lookup key

def numberOf? (b : Bibliography) (key : Text) : Option Nat :=
  (b.keys.findIdx? (· == key)).map (· + 1)

def linkTo (key : Text) : Link :=
  .anchor documentName key

def linkOf? (b : Bibliography) (key : Text) : Option Link :=
  if b.keys.contains key then some (linkTo key) else none

end Bibliography

end LightMarkup
