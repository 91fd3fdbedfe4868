import LightMarkup.Construct.Heading
import LightMarkup.Text.Lowercase

/-!
Headings and the chapter tags under them.
-/

namespace LightMarkup

inductive TagKey where
  | id
  | author
  | date
  | intent
  | style
  | styleClass
  deriving DecidableEq, Repr

structure ChapterTag where
  key : TagKey
  value : Option Text
  deriving DecidableEq, Repr

/-- A heading with the identifier and the NUID that its chapter and its document give it. -/
structure Heading where
  level : Int
  title : Text
  identifier : Option Text := none
  nuid : Option Text := none
  deriving DecidableEq, Repr

namespace TagKey

def all : List TagKey :=
  [.id, .author, .date, .intent, .style, .styleClass]

def name : TagKey → Text
  | .id => "id"
  | .author => "author"
  | .date => "date"
  | .intent => "intent"
  | .style => "style"
  | .styleClass => "styleclass"

/-- Keys in any case; `class` is short for `styleclass`. -/
def ofText? (raw : Text) : Option TagKey :=
  let lowered := Text.lower raw
  if lowered = "class" then some .styleClass else all.find? fun key => key.name = lowered

end TagKey

namespace ChapterTag

def ofText (rawKey : Text) (value : Option Text) : Except Failure ChapterTag :=
  match TagKey.ofText? rawKey with
  | some key => .ok ⟨key, value⟩
  | none => .error (.invalidTag ('@' :: rawKey))

def describe (tag : ChapterTag) : Text :=
  "ChapterTag(" ++ Text.quoted tag.key.name ++ ", " ++ Text.quotedOrNone tag.value ++ ")"

end ChapterTag

namespace Heading

def describe (heading : Heading) : Text :=
  "Heading(" ++ Text.ofInt heading.level ++ ", " ++ Text.quoted heading.title ++ ")"

/-- Where the heading is linked to: by its identifier if it has one, else by its title. -/
def anchor? (heading : Heading) (documentName : Option Text) : Option Text :=
  documentName.map fun name => Anchor.build name (heading.identifier.getD heading.title)

end Heading

end LightMarkup
