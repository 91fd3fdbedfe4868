import LightMarkup.Text.Basic

/-!
Base64 with the standard alphabet and padding.
-/

namespace LightMarkup

namespace Text

def base64Digit (n : Nat) : Char :=
  if n < 26 then Char.ofNat (n + 65)
  else if n < 52 then Char.ofNat (n + 71)
  else if n < 62 then Char.ofNat (n - 4)
  else if n = 62 then '+'
  else '/'

def base64Value? (c : Char) : Option Nat :=
  if 'A' ≤ c && c ≤ 'Z' then some (c.toNat - 65)
  else if 'a' ≤ c && c ≤ 'z' then some (c.toNat - 71)
  else if '0' ≤ c && c ≤ '9' then some (c.toNat + 4)
  else if c = '+' then some 62
  else if c = '/' then some 63
  else none

def toBase64 : List UInt8 → Text
  | a :: b :: c :: rest =>
    let n := a.toNat * 65536 + b.toNat * 256 + c.toNat
    base64Digit (n / 262144) :: base64Digit (n / 4096 % 64) :: base64Digit (n / 64 % 64) :: base64Digit (n % 64)
      :: toBase64 rest
  | [a, b] =>
    let n := a.toNat * 1024 + b.toNat * 4
    [base64Digit (n / 4096), base64Digit (n / 64 % 64), base64Digit (n % 64), '=']
  | [a] =>
    let n := a.toNat * 16
    [base64Digit (n / 64), base64Digit (n % 64), '=', '=']
  | [] => []

/-- The bytes written by whole groups of four digits, the last of which may be padded. -/
def ofBase64? : Text → Option (List UInt8)
  | [] => some []
  | [a, b, '=', '='] => do
    let n := (← base64Value? a) * 64 + (← base64Value? b)
    some [(n / 16).toUInt8]
  | [a, b, c, '='] => do
    let n := (← base64Value? a) * 4096 + (← base64Value? b) * 64 + (← base64Value? c)
    some [(n / 1024).toUInt8, (n / 4 % 256).toUInt8]
  | a :: b :: c :: d :: rest => do
    let n := (← base64Value? a) * 262144 + (← base64Value? b) * 4096 + (← base64Value? c) * 64 + (← base64Value? d)
    let bytes ← ofBase64? rest
    some ((n / 65536).toUInt8 :: (n / 256 % 256).toUInt8 :: (n % 256).toUInt8 :: bytes)
  | _ => none

/-- The bytes written by digits among other characters, which do not count. A group has four digits, each of which
adds six bits to those `left`; padding ends the text once it completes a group, and no group may stay open. -/
def ofLooseBase64? (inGroup left padding : Nat) : Text → Option (List UInt8)
  | [] => if inGroup = 0 then some [] else none
  | c :: rest =>
    if c = '=' then
      if inGroup < 2 then ofLooseBase64? inGroup left padding rest
      else if 4 ≤ inGroup + padding + 1 then some []
      else ofLooseBase64? inGroup left (padding + 1) rest
    else match base64Value? c with
      | none => ofLooseBase64? inGroup left padding rest
      | some n =>
        let bits := left * 64 + n
        match inGroup with
        | 0 => ofLooseBase64? 1 n 0 rest
        | 1 => (ofLooseBase64? 2 (bits % 16) 0 rest).map ((bits / 16).toUInt8 :: ·)
        | 2 => (ofLooseBase64? 3 (bits % 4) 0 rest).map ((bits / 4).toUInt8 :: ·)
        | _ => (ofLooseBase64? 0 0 0 rest).map (bits.toUInt8 :: ·)

end Text

end LightMarkup
