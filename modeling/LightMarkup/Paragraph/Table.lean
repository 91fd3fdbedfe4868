import LightMarkup.Pattern.Search
import LightMarkup.Text.Lines

/-!
Tables: lines of cells between pipes. A line of dashes after the first row makes that row the header, one before the
last row makes that row the footer; the colons beside the dashes align the columns. A last line without pipes may
hold a caption, an identifier and a style.
-/

namespace LightMarkup

inductive Alignment where
  | left
  | center
  | right
  deriving DecidableEq, Repr

abbrev Row := List Text

structure TableMetadata where
  caption : Option Text
  identifier : Option Text
  style : Option Text
  deriving DecidableEq, Repr

structure Table where
  header : Option Row
  body : List Row
  footer : Option Row
  alignments : List (Option Alignment)
  metadata : Option TableMetadata
  deriving DecidableEq, Repr

namespace Alignment

def name : Alignment → Text
  | .left => "left"
  | .center => "center"
  | .right => "right"

end Alignment

namespace Table

open Pattern

def separator : Pattern :=
  .notBehind (.one '\\') ++ literal "|"

def unescapePipes : Text → Text
  | [] => []
  | '\\' :: '|' :: rest => '|' :: unescapePipes rest
  | c :: rest => c :: unescapePipes rest

def dropOpeningPipe : Text → Text
  | '|' :: rest => rest
  | line => line

def escapedPipe : Text := "\\|"

-- A pipe after a backslash belongs to the last cell.
def dropClosingPipe (line : Text) : Text :=
  if escapedPipe.isSuffixOf line then line else Text.dropEnding "|" line

def cellsOf (line : Text) : Row :=
  (separator.split (dropClosingPipe (dropOpeningPipe (Text.trim line)))).map unescapePipes

def alignmentCell : Pattern :=
  gaps ++ named 1 "left" (maybe (literal ":")) ++ plus (literal "-") ++ named 2 "right" (maybe (literal ":")) ++ gaps

def alignmentOf? (cell : Text) : Option (Option Alignment) :=
  (alignmentCell.fullMatch? cell).map fun m =>
    match (m.group 1).isEmpty, (m.group 2).isEmpty with
    | false, false => some .center
    | true, false => some .right
    | false, true => some .left
    | true, true => none

/-- The alignments of a row in which every cell is one. -/
def alignmentsOf? (cells : Row) : Option (List (Option Alignment)) :=
  cells.mapM alignmentOf?

def metadataPattern : Pattern :=
  gaps ++ maybe (literal "[" ++ named 1 "caption" (many (.char (CharSet.noneOf "]\n"))) ++ literal "]")
    ++ maybe (literal "#" ++ named 2 "identifier" (plus (.char CharSet.wordOrHyphen)))
    ++ maybe (literal "\x7b\x7b" ++ named 3 "style" (many (.char (CharSet.noneOf "\x7b\x7d\n")))
      ++ literal "\x7d\x7d")
    ++ gaps

def metadataOf? (line : Text) : Option TableMetadata :=
  (metadataPattern.fullMatch? line).map fun m => ⟨m.group? 1, m.group? 2, m.group? 3⟩

/-- The lines of rows, and the metadata if the last line has no pipe at its beginning. -/
def splitMetadata (lines : List Text) : List Text × Option TableMetadata :=
  match lines.getLast? with
  | none => ([], none)
  | some last =>
    if (Text.trim last).head? = some '|' then (lines, none) else (lines.dropLast, metadataOf? last)

/-- The header with its alignments, and the rows after them. -/
def splitHeader : List Row → Option (Row × List (Option Alignment)) × List Row
  | first :: second :: rest =>
    match alignmentsOf? second with
    | some alignments => (some (first, alignments), rest)
    | none => (none, first :: second :: rest)
  | rows => (none, rows)

/-- The rows before the footer, and the footer with its alignments. -/
def splitFooter (rows : List Row) : List Row × Option (Row × List (Option Alignment)) :=
  match rows.reverse with
  | last :: second :: rest =>
    match alignmentsOf? second with
    | some alignments => (rest.reverse, some (last, alignments))
    | none => (rows, none)
  | _ => (rows, none)

def ofRows (rows : List Row) (metadata : Option TableMetadata) : Table :=
  let (header, rows) := splitHeader rows
  let (rows, footer) := splitFooter rows
  { header := header.map (·.1)
    body := rows.filter fun row => (alignmentsOf? row).isNone
    footer := footer.map (·.1)
    alignments := ((header.or footer).map (·.2)).getD []
    metadata := metadata }

def ofText (raw : Text) : Table :=
  let (lines, metadata) := splitMetadata ((Text.lines raw).filter fun line => !Text.isAllBlank line)
  ofRows (lines.map cellsOf) metadata

end Table

end LightMarkup
