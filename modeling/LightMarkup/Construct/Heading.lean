import LightMarkup.Construct.Block

/-!
The heading constructs. A heading line may be followed by lines of chapter tags and by one line with a style in
braces.
-/

namespace LightMarkup

/-- The level a heading asks for: a number, or one relative to the heading before it. -/
inductive HeadingLevel where
  | absolute (level : Int)
  | deeper
  | shallower
  | same
  deriving DecidableEq, Repr

structure HeadingConstruct where
  name : String
  pattern : Pattern
  level : HeadingLevel
  deriving DecidableEq, Repr

namespace HeadingConstruct

open Pattern
open Inline (char onLine)
open Block (restOfLine optionalReturn)

def maximumLevel : Nat := 6

def titleGroup : Nat := 1
def tagsGroup : Nat := 2
def styleGroup : Nat := 3

def lineOf (marker : Pattern) : Pattern :=
  .lineStart ++ marker ++ plus (.char CharSet.gap) ++ named titleGroup "title" (lazyMany onLine) ++ restOfLine

def tagLines : Pattern :=
  many (lineBreak ++ literal "@" ++ plus (.char .word)
    ++ maybe ((.char CharSet.gap ++ many onLine) <|> char '\r') ++ .ahead (char '\n' <|> .textEnd))

def styleLine : Pattern :=
  lineBreak ++ literal "\x7b" ++ named styleGroup "style" (many (.char (CharSet.noneOf "\x7b\x7d\n")))
    ++ literal "\x7d" ++ gaps ++ .ahead (lineBreak <|> .textEnd)

def patternOf (marker : Pattern) : Pattern :=
  lineOf marker ++ named tagsGroup "tags" tagLines ++ maybe styleLine

def shallower : HeadingConstruct := ⟨"minor-heading", patternOf (literal "#-"), .shallower⟩
def deeper : HeadingConstruct := ⟨"major-heading", patternOf (literal "#+"), .deeper⟩
def same : HeadingConstruct := ⟨"same-heading", patternOf (literal "#="), .same⟩

/-- As many hashes as the level. -/
def extended (level : Nat) : HeadingConstruct where
  name := "heading-" ++ level.repr ++ "-extended-version"
  pattern := patternOf (exactly level (char '#'))
  level := .absolute level

/-- A hash and the level. -/
def compact (level : Nat) : HeadingConstruct where
  name := "heading-" ++ level.repr ++ "-compact-version"
  pattern := patternOf (literal "#" ++ literal (Text.ofNat level))
  level := .absolute level

def standard : List HeadingConstruct :=
  [shallower, deeper, same] ++ [6, 5, 4, 3, 2, 1].flatMap fun level => [extended level, compact level]

/-- A line with a chapter tag: its key, and its value if there is one. -/
def tagLine : Pattern :=
  .lineStart ++ literal "@" ++ named 1 "key" (plus (.char .word))
    ++ maybe (plus (.char CharSet.gap) ++ named 2 "value" (lazyMany onLine)) ++ restOfLine

end HeadingConstruct

end LightMarkup
