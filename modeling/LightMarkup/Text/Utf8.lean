import LightMarkup.Text.Half

/-!
UTF-8: writing, and strict reading that refuses overlong forms, surrogates and cut sequences.
-/

namespace LightMarkup

namespace Text

def utf8Char (c : Char) : List UInt8 :=
  let n := c.toNat
  let continuation (weight : Nat) : UInt8 := (0x80 + n / weight % 64).toUInt8
  if n < 0x80 then [n.toUInt8]
  else if n < 0x800 then [(0xc0 + n / 64).toUInt8, continuation 1]
  else if n < 0x10000 then [(0xe0 + n / 4096).toUInt8, continuation 64, continuation 1]
  else [(0xf0 + n / 262144).toUInt8, continuation 4096, continuation 64, continuation 1]

def toUtf8 (t : Text) : List UInt8 :=
  t.flatMap utf8Char

/-- Whether a text can be written: halves of characters cannot. -/
def isWritable (t : Text) : Bool :=
  !t.any isHalf

def isContinuation (b : UInt8) : Bool :=
  0x80 ≤ b && b ≤ 0xbf

/-- The character with code point `n` in front of the rest, if `n` needs as many bytes as were read. -/
def consChecked (least n : Nat) (rest : Option Text) : Option Text :=
  if h : n.isValidChar then
    if least ≤ n then rest.map (Char.ofNatAux n h :: ·) else none
  else none

def ofUtf8? : List UInt8 → Option Text
  | [] => some []
  | a :: rest =>
    if a < 0x80 then (ofUtf8? rest).map (Char.ofNat a.toNat :: ·)
    else match rest with
      | [] => none
      | b :: rest =>
        if !isContinuation b then none
        else if 0xc0 ≤ a && a < 0xe0 then
          consChecked 0x80 ((a.toNat - 0xc0) * 64 + (b.toNat - 0x80)) (ofUtf8? rest)
        else match rest with
          | [] => none
          | c :: rest =>
            if !isContinuation c then none
            else if 0xe0 ≤ a && a < 0xf0 then
              consChecked 0x800 ((a.toNat - 0xe0) * 4096 + (b.toNat - 0x80) * 64 + (c.toNat - 0x80)) (ofUtf8? rest)
            else match rest with
              | [] => none
              | d :: rest =>
                if !isContinuation d || a < 0xf0 || 0xf8 ≤ a then none
                else
                  consChecked 0x10000
                    ((a.toNat - 0xf0) * 262144 + (b.toNat - 0x80) * 4096 + (c.toNat - 0x80) * 64 + (d.toNat - 0x80))
                    (ofUtf8? rest)

end Text

end LightMarkup
