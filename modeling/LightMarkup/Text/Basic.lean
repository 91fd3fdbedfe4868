/-!
Text as a list of characters: every offset and length in this library counts characters.
-/

namespace LightMarkup

abbrev Text := List Char

namespace Text

/-- The characters of a literal. Irreducible, so that proofs open it by `ofString_eq` and never by accident. -/
@[irreducible] def ofString (s : String) : Text :=
  s.toList

theorem ofString_eq (s : String) : ofString s = s.toList := by
  unfold ofString; rfl

-- Rewriting with it lists the characters of a literal, which the kernel would have to decode one by one.
theorem ofString_ofList (t : Text) : ofString (String.ofList t) = t := by
  rw [ofString_eq, String.toList_ofList]

instance : Coe String Text := ⟨ofString⟩

def toString (t : Text) : String :=
  String.ofList t

def ofNat (n : Nat) : Text :=
  Nat.toDigits 10 n

def ofInt : Int → Text
  | .ofNat n => ofNat n
  | .negSucc n => '-' :: ofNat (n + 1)

/-- Hexadecimal digits, at least `width` of them. -/
def ofHex (width n : Nat) : Text :=
  let digits := Nat.toDigits 16 n
  List.replicate (width - digits.length) '0' ++ digits

def join (separator : Text) (ts : List Text) : Text :=
  List.intercalate separator ts

-- Order by code point, the shorter of two equal beginnings first.
def before (a b : Text) : Bool :=
  match a, b with
  | [], _ => true
  | _ :: _, [] => false
  | x :: xs, y :: ys => x < y || (x == y && before xs ys)

def sort (ts : List Text) : List Text :=
  ts.mergeSort before

def replaceChar (c : Char) (replacement : Text) (t : Text) : Text :=
  t.flatMap fun x => if x = c then replacement else [x]

/-- Cut at every `c`, which is left out: one piece more than there are cuts. -/
def splitAtChar (c : Char) : Text → List Text
  | [] => [[]]
  | x :: rest =>
    if x = c then [] :: splitAtChar c rest
    else match splitAtChar c rest with
      | [] => [[x]]
      | piece :: pieces => (x :: piece) :: pieces

/-- The least offset, counted from `start`, at which `needle` begins. -/
def findFrom? (needle : Text) (start : Nat) : Text → Option Nat
  | [] => if needle.isEmpty then some start else none
  | c :: rest => if needle.isPrefixOf (c :: rest) then some start else findFrom? needle (start + 1) rest

/-- The least offset at or after `start` at which `needle` begins. -/
def find? (needle : Text) (start : Nat) (t : Text) : Option Nat :=
  if t.length < start then none else findFrom? needle start (t.drop start)

/-- Drop `ending` once if the text ends with it. -/
def dropEnding (ending : Text) (t : Text) : Text :=
  if ending.isSuffixOf t then t.take (t.length - ending.length) else t

def repeated (n : Nat) (t : Text) : Text :=
  (List.replicate n t).flatten

end Text

end LightMarkup
