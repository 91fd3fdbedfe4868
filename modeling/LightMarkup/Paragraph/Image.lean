import LightMarkup.Construct.Block
import LightMarkup.Text.Lines

/-!
Images as they are written in a block: one image, an abridged one without a caption, or several, one a line.
-/

namespace LightMarkup

structure Image where
  source : Text
  caption : Option Text
  identifier : Option Text
  style : Option Text
  abridged : Bool
  alignSelf : Option Text
  deriving DecidableEq, Repr

namespace Image

/-- Read one image; `alignSelf` comes from the line it stands on. -/
def ofText (raw : Text) (alignSelf : Option Text) : Except Failure Image :=
  let raw := Text.trim raw
  match Block.abridgedImage.pattern.fullMatch? raw with
  | some m => .ok ⟨m.group 1, none, m.group? 2, m.group? 3, true, alignSelf⟩
  | none =>
    match Block.image.pattern.fullMatch? raw with
    | some m => .ok ⟨m.group 3, some (m.group 1), m.group? 2, m.group? 4, false, alignSelf⟩
    | none => .error (.resource (.image raw))

/-- A word between colons at the beginning of a line. -/
def alignSelfPattern : Pattern :=
  Pattern.gaps ++ Pattern.literal ":" ++ Pattern.named 1 "align_self" (Pattern.many (.char CharSet.wordOrHyphen))
    ++ Pattern.literal ":" ++ Pattern.gaps

def ofLine (line : Text) : Except Failure Image :=
  match alignSelfPattern.matchStart? line with
  | some m => ofText m.stop.after (m.group? 1)
  | none => ofText line none

/-- The images on the lines that are not blank. -/
def ofLines : List Text → Except Failure (List Image)
  | [] => .ok []
  | line :: rest =>
    if Text.isAllBlank line then ofLines rest
    else do
      let image ← ofLine line
      let images ← ofLines rest
      pure (image :: images)

def standardAlignment : Text := "normal"

/-- The images of a row, and how the row aligns them. -/
def rowOfText (raw : Text) : Except Failure (List Image × Text) :=
  match Block.imageRow.pattern.fullMatch? (Text.trim raw) with
  | none => .error (.resource (.multiImage raw))
  | some m => do
    let images ← ofLines (Text.lines (m.group 2))
    pure (images, (m.group? 1).getD standardAlignment)

end Image

end LightMarkup
