import LightMarkup.Construct.Inline

/-!
The block constructs, in order of priority, and the fallback for text that no block construct claims.

A block ends before a blank line, a line that begins with a hash, or the end of the text. What ends it is not part
of it, so that neighbouring blocks can share a blank line.
-/

namespace LightMarkup

/-- How the text of a block becomes paragraphs. -/
inductive Loading where
  | common
  | replacement (pieces : List Piece)
  | list
  | table
  | image
  | imageRow
  | quote
  | focus
  deriving DecidableEq, Repr

structure BlockConstruct where
  name : String
  pattern : Pattern
  excluded : Exclusion
  loading : Option Loading
  deriving DecidableEq, Repr

namespace Block

open Pattern
open Inline (char onLine anything identifierAt styleAt captureEscaped withAnchor)

def blockEnd : Pattern :=
  .ahead (gaps ++ ((lineBreak ++ gaps ++ (lineBreak <|> .textEnd)) <|> (lineBreak ++ char '#') <|> .textEnd))

/-- A pattern that must reach the end of a block. -/
def block (body : Pattern) : Pattern :=
  body ++ blockEnd

def optionalReturn : Pattern := maybe (char '\r')

-- The blanks that may end a line, and its end.
def restOfLine : Pattern :=
  gaps ++ optionalReturn ++ .lineEnd

def bullet : Pattern :=
  let stop : Pattern := .char (CharSet.anyOf ".)")
  firstOf [
    literal "-[]", literal "-[ ]", literal "-[x]", literal "-[X]", literal "->", literal "--", literal "-",
    literal "|", literal "*", literal "+",
    plus (.char .decimal) ++ stop,
    (.char CharSet.letter <|> .repeated false 1 (some 8) (.char (CharSet.anyOf "ivxlcdm"))) ++ stop,
    literal "&" ++ plus (.char (.complement (.one ';' ∪ .blank))) ++ literal ";"]

/-- A list item: indentation, bullet, one space, and its content. -/
def listItem : Pattern :=
  .textStart ++ named 1 "indentation" gaps ++ named 2 "bullet" bullet ++ literal " "
    ++ named 3 "content" (lazyMany onLine) ++ gaps ++ optionalReturn ++ .lastLineEnd

/-- A run of one character on its own line. -/
def rule (c : Char) : Pattern :=
  block (.lineStart ++ atLeast 3 (char c) ++ restOfLine)

def tableRow : Pattern :=
  .lineStart ++ gaps ++ literal "|" ++ many onLine ++ literal "|" ++ gaps ++ optionalReturn

def tableMetadata : Pattern :=
  lineBreak ++ gaps ++ .ahead (.char (CharSet.anyOf "[#\x7b"))
    ++ maybe (literal "[" ++ many (.char (CharSet.noneOf "]\n")) ++ literal "]")
    ++ maybe (literal "#" ++ plus (.char CharSet.wordOrHyphen))
    ++ maybe (literal "\x7b\x7b" ++ many (.char (CharSet.noneOf "\x7b\x7d\n")) ++ literal "\x7d\x7d")
    ++ restOfLine

def nuidTemplate (before after : Text) : Piece :=
  .template [.text before, .group "nuid", .text after] [] [] []

def todoOpening (kind : Text) : Piece :=
  nuidTemplate ("<div class=\"todo" ++ kind ++ "\"")
    "><div class=\"todo-title\"></div><div class=\"todo-description\">"

def code : BlockConstruct where
  name := "code-block"
  pattern := block (literal "```" ++ gaps ++ captured 1 (many (.char (.word ∪ CharSet.anyOf "+#-"))) ++ gaps ++ lineBreak
    ++ captured 2 (lazyMany anything) ++ lineBreak ++ gaps ++ literal "```")
  excluded := .everything
  loading := some (.replacement [.codeOpening, captureEscaped 2, .text "</code></pre>"])

def math : BlockConstruct where
  name := "math-block"
  pattern := block (literal "$$" ++ captured 1 (lazyPlus anything) ++ literal "$$")
  excluded := .everything
  loading := some (.replacement [
    nuidTemplate "<p class=\"math-block\"" ">$$", captureEscaped 1, .text "$$</p>"])

def styledWithId : BlockConstruct where
  name := "embedded-paragraph-style-with-id"
  pattern := block (literal "[[" ++ captured 1 (lazyMany anything) ++ literal "]]" ++ optionalReturn
    ++ maybe (char '\n') ++ maybe (identifierAt 2) ++ optionalReturn ++ maybe (char '\n') ++ styleAt 3)
  excluded := .nothing
  loading := some (.replacement [
    .opening "div" "embedded-paragraph-style" (.group 3) (some 2) true, captureEscaped 1, .text "</div>"])

def identified : BlockConstruct where
  name := "paragraph-identifier"
  pattern := block (literal "[[" ++ captured 1 (lazyMany anything) ++ literal "]]" ++ optionalReturn
    ++ maybe (char '\n') ++ identifierAt 2)
  excluded := .nothing
  loading := some (.replacement [
    .template [.text "<div class=\"identifier\" id=\"", .group "2", .text "\"", .group "nuid", .text ">"]
      [] [.number 2] [],
    captureEscaped 1, .text "</div>"])

def table : BlockConstruct where
  name := "table"
  pattern := block (many (tableRow ++ (char '\n' <|> .textEnd)) ++ tableRow ++ .lineEnd ++ maybe tableMetadata)
  excluded := .nothing
  loading := some .table

def quote : BlockConstruct where
  name := "extended-block-quote"
  pattern := block (.lineStart ++ literal ">" ++ lazyMany anything)
  excluded := .nothing
  loading := some .quote

def focus : BlockConstruct where
  name := "focus-block"
  pattern := block (literal ":::" ++ gaps ++ captured 1 (plus (.char .word)) ++ gaps ++ lineBreak
    ++ captured 2 (lazyMany anything) ++ lineBreak ++ gaps ++ literal ":::")
  excluded := .nothing
  loading := some .focus

def list : BlockConstruct where
  name := "list"
  pattern := block (.lineStart ++ gaps ++ bullet ++ literal " " ++ many onLine
    ++ many (lineBreak ++ .notAhead (char '#') ++ gaps ++ .char (.complement .blank) ++ many onLine))
  excluded := .nothing
  loading := some .list

def abridgedTodo : BlockConstruct where
  name := "abridged-todo"
  pattern := block (.lineStart ++ anyCase "todo" ++ gaps ++ .lineEnd)
  excluded := .nothing
  loading := some (.replacement [nuidTemplate "<div class=\"todo abridged-todo\""
    "><div class=\"todo-title\"></div><div class=\"todo-description\"></div></div>"])

def multilineTodo : BlockConstruct where
  name := "multiline-todo"
  pattern := block (anyCase "todo" ++ literal ":" ++ captured 1 (lazyMany anything) ++ literal ":" ++ anyCase "todo")
  excluded := .nothing
  loading := some (.replacement [todoOpening " multiline-todo", captureEscaped 1, .text "</div></div>"])

def todo : BlockConstruct where
  name := "todo"
  pattern := block (.lineStart ++ anyCase "todo" ++ maybe (char ':') ++ plus (.char CharSet.gap)
    ++ captured 1 (lazyMany onLine) ++ restOfLine)
  excluded := .nothing
  loading := some (.replacement [todoOpening "", captureEscaped 1, .text "</div></div>"])

def pageBreak : BlockConstruct where
  name := "page-break"
  pattern := rule '#'
  excluded := .nothing
  loading := some (.replacement [nuidTemplate "<div class=\"page-break\"" "></div>"])

def lineBreakByDashes : BlockConstruct where
  name := "line-break-dash"
  pattern := rule '-'
  excluded := .nothing
  loading := some (.replacement [nuidTemplate "<hr class=\"line-break line-break-dash\"" ">"])

def lineBreakByStars : BlockConstruct where
  name := "line-break-star"
  pattern := rule '*'
  excluded := .nothing
  loading := some (.replacement [nuidTemplate "<hr class=\"line-break line-break-star\"" ">"])

def lineBreakByPluses : BlockConstruct where
  name := "line-break-plus"
  pattern := rule '+'
  excluded := .nothing
  loading := some (.replacement [nuidTemplate "<hr class=\"line-break line-break-plus\"" ">"])

def imageRow : BlockConstruct where
  name := "multi-image"
  pattern := block (literal "!!"
    ++ maybe (literal ":" ++ captured 1 (plus (.char CharSet.wordOrHyphen)) ++ literal ":")
    ++ literal "[[" ++ captured 2 (lazyMany anything) ++ literal "]]")
  excluded := .everything
  loading := some .imageRow

def abridgedImage : BlockConstruct where
  name := "abridged-image"
  pattern := block (literal "![(" ++ captured 1 (many (.char (CharSet.noneOf ")\n"))) ++ literal ")]"
    ++ maybe (identifierAt 2) ++ maybe (styleAt 3))
  excluded := .everything
  loading := some .image

def image : BlockConstruct where
  name := "image"
  pattern := block (literal "![" ++ captured 1 (many (.char (CharSet.noneOf "]\n"))) ++ literal "]"
    ++ maybe (identifierAt 2) ++ literal "(" ++ captured 3 (plus (.char (CharSet.noneOf ")\n"))) ++ literal ")"
    ++ maybe (styleAt 4))
  excluded := .everything
  loading := some .image

def comment : BlockConstruct where
  name := "comment-block"
  pattern := block (literal "<!--" ++ captured 1 (lazyMany anything) ++ literal "-->")
  excluded := .everything
  loading := some (.replacement [.template [.text "<!--", .group "1", .text "-->"] [] [] []])

def standard : List BlockConstruct := [
  code, math, styledWithId, identified, table, quote, focus, list, abridgedTodo, multilineTodo, todo, pageBreak,
  lineBreakByDashes, lineBreakByStars, lineBreakByPluses, imageRow, abridgedImage, image, comment]

/-- Text that no other construct claims. -/
def fallback : BlockConstruct where
  name := "common-paragraph"
  pattern := block (.char (.complement .blank) ++ lazyMany anything)
  excluded := .nothing
  loading := some .common

end Block

end LightMarkup
