import LightMarkup.Text.Blank

/-!
Text as HTML content and as a double-quoted attribute value, and the class and style attributes of an element.
-/

namespace LightMarkup

namespace Html

def escapeChar (c : Char) : Text :=
  if c = '<' then "&lt;"
  else if c = '>' then "&gt;"
  else [c]

/-- Text content. Ampersands stay, so that entities in the source survive. -/
def escape (t : Text) : Text :=
  t.flatMap escapeChar

def isLetter (c : Char) : Bool :=
  ('a' ≤ c && c ≤ 'z') || ('A' ≤ c && c ≤ 'Z')

def isDigit (c : Char) : Bool :=
  '0' ≤ c && c ≤ '9'

def isHexDigit (c : Char) : Bool :=
  isDigit c || ('a' ≤ c && c ≤ 'f') || ('A' ≤ c && c ≤ 'F')

/-- One to `most` characters of a kind, then a semicolon. -/
def isRunThenSemicolon (kind : Char → Bool) (most : Nat) (t : Text) : Bool :=
  let run := t.takeWhile kind
  1 ≤ run.length && run.length ≤ most && (t.dropWhile kind).head? == some ';'

/-- Whether an ampersand before `t` begins an entity: a name of up to 31 letters, a decimal number of up to 7
digits, or a hexadecimal one of up to 6. -/
def isEntityTail : Text → Bool
  | '#' :: 'x' :: rest => isRunThenSemicolon isHexDigit 6 rest
  | '#' :: 'X' :: rest => isRunThenSemicolon isHexDigit 6 rest
  | '#' :: rest => isRunThenSemicolon isDigit 7 rest
  | t => isRunThenSemicolon isLetter 31 t

def escapeAttributeChar (c : Char) : Text :=
  if c = '"' then "&quot;" else escapeChar c

/-- An attribute value. Entities stay as they are, so that escaping twice changes nothing. -/
def escapeAttribute : Text → Text
  | [] => []
  | c :: rest =>
    (if c = '&' && !isEntityTail rest then ("&amp;" : Text) else escapeAttributeChar c) ++ escapeAttribute rest

/-- An attribute with a space before it. -/
def attr (name value : Text) : Text :=
  " " ++ name ++ "=\"" ++ value ++ "\""

def idAttribute : Option Text → Text
  | none => []
  | some identifier => attr "id" (escapeAttribute identifier)

def nuidAttribute : Option Text → Text
  | none => []
  | some nuid => attr "data-nuid" (escapeAttribute nuid)

/-- One item of an embedded style: a declaration if it has a colon, otherwise class names, whose leading dots are
dropped. -/
inductive StyleItem where
  | declaration (text : Text)
  | classes (names : List Text)
  deriving DecidableEq, Repr

def StyleItem.ofText (item : Text) : StyleItem :=
  if item.contains ':' then .declaration item
  else .classes ((Text.words item).map fun name => name.dropWhile (· == '.'))

/-- The items between semicolons, blank ones left out. -/
def styleItems (style : Text) : List StyleItem :=
  (((Text.splitAtChar ';' style).map Text.trim).filter (!·.isEmpty)).map StyleItem.ofText

def declarationsOf (items : List StyleItem) : List Text :=
  items.filterMap fun
    | .declaration text => some text
    | .classes _ => none

def classesOf (items : List StyleItem) : List Text :=
  items.flatMap fun
    | .declaration _ => []
    | .classes names => names

/-- Class and style attributes from the classes an element always has and an embedded style. -/
def styleAttributes (baseClasses : Text) (style : Option Text) : Text :=
  let items := styleItems (style.getD [])
  let classes := (baseClasses :: classesOf items).filter (!·.isEmpty)
  let declarations := declarationsOf items
  (if classes.isEmpty then [] else attr "class" (escapeAttribute (Text.join " " classes)))
    ++ (if declarations.isEmpty then []
        else attr "style" (escapeAttribute (Text.join "; " declarations) ++ ";"))

end Html

end LightMarkup
