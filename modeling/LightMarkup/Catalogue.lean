import LightMarkup.Construct.Heading

/-!
Catalogues: the constructs that a text is loaded and compiled with, in order of priority.
-/

namespace LightMarkup

structure Catalogue where
  inline : List Construct
  blocks : List BlockConstruct
  fallback : Option BlockConstruct
  headings : List HeadingConstruct
  deriving DecidableEq, Repr

namespace Catalogue

def standard : Catalogue :=
  ⟨Inline.standard, Block.standard, some Block.fallback, HeadingConstruct.standard⟩

/-- The constructs whose names are kept; headings always are. -/
def filter (keeps : String → Bool) (c : Catalogue) : Catalogue :=
  ⟨c.inline.filter (keeps ·.name), c.blocks.filter (keeps ·.name), c.fallback.filter (keeps ·.name), c.headings⟩

def retain (names : List String) (c : Catalogue) : Catalogue :=
  c.filter names.contains

def remove (names : List String) (c : Catalogue) : Catalogue :=
  c.filter fun name => !names.contains name

def unloadConstruct (names : List String) (construct : BlockConstruct) : BlockConstruct :=
  if names.contains construct.name then { construct with loading := none } else construct

/-- Take the loading rules of some block constructs away, and leave the constructs. -/
def unload (names : List String) (c : Catalogue) : Catalogue :=
  { c with
    blocks := c.blocks.map (unloadConstruct names)
    fallback := c.fallback.map (unloadConstruct names) }

def inline? (c : Catalogue) (name : String) : Option Construct :=
  c.inline.find? (·.name == name)

def block? (c : Catalogue) (name : String) : Option BlockConstruct :=
  match c.fallback with
  | some fallback => if fallback.name == name then some fallback else c.blocks.find? (·.name == name)
  | none => c.blocks.find? (·.name == name)

def describeNames (names : List String) : Text :=
  Text.quotedList (names.map Text.ofString)

def describe (c : Catalogue) : Text :=
  "Codex(inline=" ++ describeNames (c.inline.map (·.name)) ++ ", block=" ++ describeNames (c.blocks.map (·.name))
    ++ ", fallback=" ++ Text.quotedOrNone (c.fallback.map fun construct => Text.ofString construct.name) ++ ")"

end Catalogue

end LightMarkup
