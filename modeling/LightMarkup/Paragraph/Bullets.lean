import LightMarkup.Construct.Block
import LightMarkup.Text.Lines

/-!
The items of a list block, one for each line that begins with a bullet. Any other line continues the item before
it.
-/

namespace LightMarkup

structure ListItem where
  level : Nat
  bullet : Text
  content : Text
  deriving DecidableEq, Repr

namespace ListItem

-- A tab counts as four spaces, and four spaces as one level.
def tabWidth : Nat := 4

def levelOf (indentation : Text) : Nat :=
  (Text.replaceChar '\t' (List.replicate tabWidth ' ') indentation).length / tabWidth

def ofLine? (line : Text) : Option ListItem :=
  (Block.listItem.matchStart? line).map fun m => ⟨levelOf (m.group 1), m.group 2, m.group 3⟩

/-- Add a line to the last item; without items it is lost. -/
def continueLast (line : Text) : List ListItem → List ListItem
  | [] => []
  | [item] => [{ item with content := item.content ++ " " ++ line }]
  | item :: rest => item :: continueLast line rest

def ofLinesAfter (strict : Bool) : List ListItem → List Text → Logged (List ListItem)
  | items, [] => pure items
  | items, line :: rest =>
    if Text.isAllBlank line then ofLinesAfter strict items rest
    else match ofLine? line with
      | some item => ofLinesAfter strict (items ++ [item]) rest
      | none => do
        let content := Text.trim line
        if strict then
          Logged.fail (.invalidListItem content)
        else
          Logged.warn .paragraphs (invalidListItemText content ++ ": appended to the previous item")
        ofLinesAfter strict (continueLast content items) rest

def ofText (strict : Bool) (raw : Text) : Logged (List ListItem) :=
  ofLinesAfter strict [] (Text.lines raw)

end ListItem

namespace BulletRecord

def applies (record : BulletRecord) (bullet : Text) (level : Int) : Bool :=
  record.source == bullet && (if record.exact then level == record.level else record.level ≤ level)

/-- The bullet as it is shown: by the first record that applies, otherwise as written. -/
def shown (records : List BulletRecord) (bullet : Text) (level : Int) : Text :=
  match records.find? (·.applies bullet level) with
  | some record => record.target
  | none => Html.escape bullet

end BulletRecord

end LightMarkup
