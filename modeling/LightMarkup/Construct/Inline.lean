import LightMarkup.Rewrite

/-!
The inline constructs, in order of priority.
-/

namespace LightMarkup

namespace Inline

open Pattern

def char (c : Char) : Pattern := .char (.one c)

-- Characters that stay on one line, and characters of any kind.
def onLine : Pattern := .char CharSet.notNewline
def anything : Pattern := .char .all

/-- A hash and an identifier, which is the given group. -/
def identifierAt (group : Nat) : Pattern :=
  literal "#" ++ captured group (plus (.char CharSet.wordOrHyphen))

/-- Text in square brackets on one line, with the line it may end. -/
def labelAt (group : Nat) : Pattern :=
  literal "[" ++ captured group (lazyMany (.char (CharSet.noneOf "]\n"))) ++ literal "]" ++ maybe (char '\n')

/-- A style in double braces. -/
def styleAt (group : Nat) : Pattern :=
  literal "\x7b\x7b" ++ captured group (many (.char (CharSet.noneOf "\x7b\x7d"))) ++ literal "\x7d\x7d"

/-- Colour, background and font between semicolons, each of which may be missing, in single braces. -/
def abridgedStyleAt (group : Nat) : Pattern :=
  let colour := maybe (char '#') ++ plus (.char CharSet.wordOrHyphen)
  literal "\x7b" ++ maybe (named group "color" colour) ++ literal ";"
    ++ maybe (named (group + 1) "background" colour) ++ maybe (char ';')
    ++ maybe (named (group + 2) "font" (plus (.char CharSet.wordOrHyphen))) ++ literal "\x7d"

/-- The title of a bookmark. -/
def titleAt (group : Nat) : Pattern :=
  literal "@[" ++ captured group (lazyMany (.char (CharSet.noneOf "]"))) ++ literal "]"

def descriptionAt (group : Nat) : Pattern :=
  literal "(" ++ captured group (lazyMany anything) ++ literal ")"

/-- Text on one line between two marks. -/
def between (mark : Text) : Pattern :=
  literal mark ++ captured 1 (lazyMany onLine) ++ literal mark

/-- The same, but not next to a word. -/
def betweenApart (mark : Text) : Pattern :=
  .notBehind .word ++ between mark ++ .notAhead (.char .word)

def capture (group : Nat) : Piece := .capture (.number group) false
def captureEscaped (group : Nat) : Piece := .capture (.number group) true

def wrapped (opening closing : Text) : Rewrite :=
  .pieces [.text opening, capture 1, .text closing]

/-- Text with the anchor of group 2 in it. -/
def withAnchor (before after : Text) : Piece :=
  .template [.text before, .group "2", .text after] [] [.number 2] []

def codeSpan : Construct where
  name := "inline-code"
  pattern := between "`"
  excluded := .everything
  rewrite := .pieces [.text "<code class=\"language-markup inline-code\">", captureEscaped 1, .text "</code>"]

def mathSpan : Construct where
  name := "inline-math"
  pattern := literal "$" ++ captured 1 (plus (.char (CharSet.noneOf "$"))) ++ literal "$"
  excluded := .everything
  rewrite := .pieces [.text "<span class=\"inline-math\">$", captureEscaped 1, .text "$</span>"]

def escape : Construct where
  name := "escape"
  pattern := literal "\\" ++ captured 1 (.char (CharSet.anyOf "*+\\~%^$@=[]!<>\x7b\x7d()#-_|?&"))
  excluded := .everything
  rewrite := .pieces [capture 1]

def comment : Construct where
  name := "comment"
  pattern := .textStart ++ literal "//" ++ captured 1 (many onLine)
  excluded := .nothing
  rewrite := .pieces [.template [.text "<!-- ", .group "1", .text " -->"] [] [] []]

def greekLetter : Construct where
  name := "greek-letter"
  pattern := literal "%" ++ captured 1 (lazyPlus (.char .word)) ++ literal "%"
  excluded := .everything
  rewrite := .greekLetters

def todo : Construct where
  name := "todo"
  pattern := literal "@[" ++ anyCase "todo" ++ literal "]" ++ descriptionAt 1
  excluded := .nothing
  rewrite := wrapped
    "<div class=\"todo\"><div class=\"todo-title\"></div><div class=\"todo-description\">" "</div></div>"

def bookmarkWithId : Construct where
  name := "bookmark-with-id"
  pattern := titleAt 1 ++ identifierAt 2 ++ descriptionAt 3
  excluded := .nothing
  rewrite := .pieces [
    withAnchor "<div class=\"bookmark\" id=\"" "\"><div class=\"bookmark-title\">", capture 1,
    .text "</div><div class=\"bookmark-description\">", capture 3, .text "</div></div>"]

def bookmark : Construct where
  name := "bookmark"
  pattern := titleAt 1 ++ descriptionAt 2
  excluded := .nothing
  rewrite := .pieces [
    .text "<div class=\"bookmark\"><div class=\"bookmark-title\">", capture 1,
    .text "</div><div class=\"bookmark-description\">", capture 2, .text "</div></div>"]

def abridgedBookmarkWithId : Construct where
  name := "abridged-bookmark-with-id"
  pattern := titleAt 1 ++ identifierAt 2
  excluded := .nothing
  rewrite := .pieces [
    withAnchor "<div class=\"abridged-bookmark\" id=\"" "\"><div class=\"abridged-bookmark-title\">", capture 1,
    .text "</div></div>"]

def abridgedBookmark : Construct where
  name := "abridged-bookmark"
  pattern := titleAt 1
  excluded := .nothing
  rewrite := wrapped "<div class=\"abridged-bookmark\"><div class=\"abridged-bookmark-title\">" "</div></div>"

def styledWithId : Construct where
  name := "embedded-style-with-id"
  pattern := labelAt 1 ++ identifierAt 2 ++ maybe (char '\n') ++ styleAt 3
  excluded := .nothing
  rewrite := .pieces [
    .opening "span" "embedded-style" (.group 3) (some 2) false, capture 1, .text "</span>"]

def styled : Construct where
  name := "embedded-style"
  pattern := labelAt 1 ++ styleAt 2
  excluded := .nothing
  rewrite := .pieces [.opening "span" "embedded-style" (.group 2) none false, capture 1, .text "</span>"]

def abridgedStyledWithId : Construct where
  name := "abridged-embedded-style-with-id"
  pattern := labelAt 1 ++ identifierAt 2 ++ maybe (char '\n') ++ abridgedStyleAt 3
  excluded := .nothing
  rewrite := .pieces [
    .opening "span" "abridged-embedded-style" .abridged (some 2) false, capture 1, .text "</span>"]

def abridgedStyled : Construct where
  name := "abridged-embedded-style"
  pattern := labelAt 1 ++ abridgedStyleAt 2
  excluded := .nothing
  rewrite := .pieces [.opening "span" "abridged-embedded-style" .abridged none false, capture 1, .text "</span>"]

def identifier : Construct where
  name := "identifier"
  pattern := labelAt 1 ++ identifierAt 2
  excluded := .nothing
  rewrite := .pieces [withAnchor "<span class=\"identifier\" id=\"" "\">", capture 1, .text "</span>"]

def highlight : Construct where
  name := "highlight"
  pattern := between "=="
  excluded := .nothing
  rewrite := wrapped "<mark class=\"highlight\">" "</mark>"

def boldByStars : Construct where
  name := "bold-star-version"
  pattern := between "**"
  excluded := .nothing
  rewrite := wrapped "<strong class=\"bold\">" "</strong>"

def boldByUnderscores : Construct where
  name := "bold-underscore-version"
  pattern := betweenApart "__"
  excluded := .nothing
  rewrite := wrapped "<strong class=\"bold\">" "</strong>"

def italicByStars : Construct where
  name := "italic-star-version"
  pattern := between "*"
  excluded := .nothing
  rewrite := wrapped "<em class=\"italic\">" "</em>"

def italicByUnderscores : Construct where
  name := "italic-underscore-version"
  pattern := betweenApart "_"
  excluded := .nothing
  rewrite := wrapped "<em class=\"italic\">" "</em>"

def strikethrough : Construct where
  name := "strikethrough"
  pattern := between "~~"
  excluded := .nothing
  rewrite := wrapped "<del class=\"strikethrough\">" "</del>"

def underlined : Construct where
  name := "underlined"
  pattern := between "++"
  excluded := .nothing
  rewrite := wrapped "<u class=\"underlined\">" "</u>"

def superscript : Construct where
  name := "superscript"
  pattern := literal "^"
    ++ captured 1 (.char (CharSet.noneOf "[\n") ++ lazyMany onLine) ++ literal "^"
  excluded := .nothing
  rewrite := wrapped "<sup class=\"superscript\">" "</sup>"

def subscript : Construct where
  name := "subscript"
  pattern := literal "~" ++ captured 1 (lazyPlus (.char (CharSet.noneOf "~\n"))) ++ literal "~"
  excluded := .nothing
  rewrite := wrapped "<sub class=\"subscript\">" "</sub>"

def link : Construct where
  name := "link"
  pattern := literal "[" ++ captured 1 (plus (.char (CharSet.noneOf "]"))) ++ literal "]("
    ++ captured 2 (plus (.char (CharSet.noneOf ")"))) ++ literal ")"
  excluded := .nothing
  rewrite := .pieces [
    .template [.text "<a href=\"", .group "2", .text "\" class=\"link\">"] [.number 2] [] [], capture 1,
    .text "</a>"]

def checkbox : Construct where
  name := "checkbox"
  pattern := captured 1 (literal "[]" <|> literal "[ ]")
  excluded := .nothing
  rewrite := .pieces [.text checkboxHtml]

def checkedCheckbox : Construct where
  name := "checkbox-checked"
  pattern := captured 1 (literal "[x]" <|> literal "[X]")
  excluded := .nothing
  rewrite := .pieces [.text checkedCheckboxHtml]

def emoji : Construct where
  name := "emoji"
  pattern := literal ":" ++ captured 1 (plus (.char .word)) ++ literal ":"
  excluded := .everything
  rewrite := .pieces [
    .template [.text "<i class=\"em-svg em-", .group "1", .text "\" aria-role=\"presentation\"></i>"] [] [] []]

def reference : Construct where
  name := "reference"
  pattern := literal "&" ++ captured 1 (plus (.char CharSet.wordOrHyphen)) ++ literal "&"
  excluded := .everything
  rewrite := .reference

def citation : Construct where
  name := "cite"
  pattern := literal "^[" ++ captured 1 (plus (.char CharSet.wordOrHyphen)) ++ literal "]"
  excluded := .everything
  rewrite := .citation

def standard : List Construct := [
  codeSpan, mathSpan, escape, comment, greekLetter, todo, bookmarkWithId, bookmark, abridgedBookmarkWithId,
  abridgedBookmark, styledWithId, styled, abridgedStyledWithId, abridgedStyled, identifier, highlight, boldByStars,
  boldByUnderscores, italicByStars, italicByUnderscores, strikethrough, underlined, superscript, subscript, link,
  checkbox, checkedCheckbox, emoji, reference, citation]

end Inline

end LightMarkup
