import LightMarkup.Pattern.CharSet

/-!
Patterns: what a construct looks for in a text. A pattern is matched by trying its choices in the order
written, so that two patterns with the same texts can still differ in the match they prefer.
-/

namespace LightMarkup

inductive Pattern where
  | empty
  | char (set : CharSet)
  | seq (first second : Pattern)
  | choice (first second : Pattern)
  /-- At least `least` rounds and, if `most` is given, no more than that; a lazy one prefers fewer rounds. -/
  | repeated (lazily : Bool) (least : Nat) (most : Option Nat) (body : Pattern)
  | group (number : Nat) (name : Option String) (body : Pattern)
  | ahead (body : Pattern)
  | notAhead (body : Pattern)
  | notBehind (set : CharSet)
  | textStart
  | textEnd
  | lineStart
  | lineEnd
  /-- The end of the text, or the place before a newline that ends the text. -/
  | lastLineEnd
  deriving DecidableEq, Repr

namespace Pattern

instance : Append Pattern := ⟨seq⟩
instance : OrElse Pattern := ⟨fun first second => choice first (second ())⟩
instance : Coe CharSet Pattern := ⟨char⟩

/-- The characters of a text, one after the other. -/
def literal : Text → Pattern
  | [] => .empty
  | [c] => .char (.one c)
  | c :: rest => .seq (.char (.one c)) (literal rest)

def many (body : Pattern) : Pattern := .repeated false 0 none body
def plus (body : Pattern) : Pattern := .repeated false 1 none body
def maybe (body : Pattern) : Pattern := .repeated false 0 (some 1) body
def lazyMany (body : Pattern) : Pattern := .repeated true 0 none body
def lazyPlus (body : Pattern) : Pattern := .repeated true 1 none body
def exactly (n : Nat) (body : Pattern) : Pattern := .repeated false n (some n) body
def atLeast (n : Nat) (body : Pattern) : Pattern := .repeated false n none body

def captured (number : Nat) (body : Pattern) : Pattern := .group number none body
def named (number : Nat) (name : String) (body : Pattern) : Pattern := .group number (some name) body

/-- The first of several patterns that leads to a match. -/
def firstOf : List Pattern → Pattern
  | [] => .char (.complement .all)
  | [p] => p
  | p :: rest => .choice p (firstOf rest)

/-- A word in letters of any case. -/
def anyCase : Text → Pattern
  | [] => .empty
  | [c] => .char (CharSet.eitherCase c)
  | c :: rest => .seq (.char (CharSet.eitherCase c)) (anyCase rest)

-- A newline, with or without a carriage return before it.
def lineBreak : Pattern :=
  maybe (.char (.one '\r')) ++ .char (.one '\n')

def gaps : Pattern :=
  many (.char CharSet.gap)

/-- Numbers and names of the groups, in order of their numbers as written. -/
def groups : Pattern → List (Nat × Option String)
  | .group number name body => (number, name) :: body.groups
  | .seq first second => first.groups ++ second.groups
  | .choice first second => first.groups ++ second.groups
  | .repeated _ _ _ body => body.groups
  | .ahead body => body.groups
  | .notAhead body => body.groups
  | _ => []

def groupNumber? (name : Text) (p : Pattern) : Option Nat :=
  p.groups.findSome? fun (number, given) => if given.map Text.ofString = some name then some number else none

def hasGroup (number : Nat) (p : Pattern) : Bool :=
  p.groups.any fun group => group.1 == number

end Pattern

end LightMarkup
