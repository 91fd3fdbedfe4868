import LightMarkup.Paragraph.Image

/-!
Paragraphs: the units of a document that are compiled one by one. Quotes and focus blocks hold paragraphs of their
own.
-/

namespace LightMarkup

inductive Leaf where
  | common
  /-- A block that its construct rewrites as a whole. -/
  | replacement (construct : Construct)
  | list
  | table
  | image (image : Image)
  | imageRow (images : List Image) (alignment : Text)
  deriving DecidableEq, Repr

inductive ContainerKind where
  | quote
  | focus
  deriving DecidableEq, Repr

/-- A paragraph has its text as written, the construct that loaded it, and a NUID once its document gives it one. -/
inductive Paragraph where
  | leaf (raw : Text) (construct : String) (nuid : Option Text) (body : Leaf)
  | container (raw : Text) (construct : String) (nuid : Option Text) (kind : ContainerKind) (type : Text)
      (nested : List Paragraph)
  deriving Repr

namespace Paragraph

def raw : Paragraph → Text
  | .leaf raw _ _ _ => raw
  | .container raw _ _ _ _ _ => raw

def construct : Paragraph → String
  | .leaf _ construct _ _ => construct
  | .container _ construct _ _ _ _ => construct

def nuid : Paragraph → Option Text
  | .leaf _ _ nuid _ => nuid
  | .container _ _ nuid _ _ _ => nuid

/-- A paragraph of plain text. -/
def common (raw : Text) (construct : String) : Paragraph :=
  .leaf raw construct none .common

mutual

/-- The raw texts of a paragraph and of those inside it, in the order of the document. -/
def contents : Paragraph → List Text
  | .leaf raw _ _ _ => [raw]
  | .container raw _ _ _ _ nested => raw :: contentsOfList nested

def contentsOfList : List Paragraph → List Text
  | [] => []
  | paragraph :: rest => paragraph.contents ++ contentsOfList rest

end

end Paragraph

end LightMarkup
