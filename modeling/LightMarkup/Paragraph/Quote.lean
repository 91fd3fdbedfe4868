import LightMarkup.Logged
import LightMarkup.Pattern.Search
import LightMarkup.Text.Lines
import LightMarkup.Text.Lowercase

/-!
Block quotes: lines behind a `>`, the first of which may name the type of the quote.
-/

namespace LightMarkup

namespace Quote

def typePattern : Pattern :=
  Pattern.literal "[!" ++ Pattern.named 1 "type" (Pattern.plus (.char CharSet.wordOrHyphen)) ++ Pattern.literal "]"
    ++ Pattern.gaps

/-- The text of a line behind its mark and one space; nothing for a line without the mark. -/
def content? (line : Text) : Option Text :=
  match Text.trim line with
  | '>' :: ' ' :: content => some content
  | '>' :: content => some content
  | _ => none

def typeOf? (content : Text) : Option Text :=
  (typePattern.fullMatch? content).map fun m => Text.lower (m.group 1)

/-- The quoted lines. A blank line stays blank; any other line without the mark is an error in strict mode, else it
is skipped with a warning. -/
def bodyLines (strict : Bool) : List Text → Logged (List Text)
  | [] => pure []
  | line :: rest =>
    match content? line with
    | some content => do
      let body ← bodyLines strict rest
      pure (content :: body)
    | none =>
      if Text.isAllBlank line then do
        let body ← bodyLines strict rest
        pure ([] :: body)
      else do
        let line := Text.trim line
        if strict then
          Logged.fail (.quoteLineWithoutMark line)
        else
          Logged.warn .paragraphs (quoteLineText line ++ ": skipped")
        bodyLines strict rest

/-- The type that the first line names. -/
def firstType? (lines : List Text) : Option Text :=
  match lines with
  | [] => none
  | line :: _ => (content? line).bind typeOf?

/-- The type of a quote, if it names one, and its body. -/
def ofText (strict : Bool) (raw : Text) : Logged (Option Text × Text) := do
  let lines := Text.lines raw
  match firstType? lines with
  | some type =>
    let body ← bodyLines strict lines.tail
    pure (some type, Text.join "\n" body)
  | none =>
    let body ← bodyLines strict lines
    pure (none, Text.join "\n" body)

end Quote

end LightMarkup
