/-!
Bytes that are written in groups of four characters of six bits each.
-/

namespace LuaTypes.Yaml.Base64

def bits? (c : Char) : Option Nat :=
  if 'A' ≤ c ∧ c ≤ 'Z' then some (c.toNat - 0x41)
  else if 'a' ≤ c ∧ c ≤ 'z' then some (c.toNat - 0x61 + 26)
  else if c.isDigit then some (c.toNat - 0x30 + 52)
  else if c = '+' then some 62
  else if c = '/' then some 63
  else none

/--
Decodes the characters of which `filled` stand in the current group before them; `carry` are the bits of
those that make no byte yet, and `padding` counts the equality signs right before. Other characters do
not count, and the signs end the text where they fill a group.
-/
def decodeFrom (filled carry padding : Nat) : List Char → Option (List UInt8)
  | [] => if filled = 0 then some [] else none
  | '=' :: cs =>
    if filled < 2 then decodeFrom filled carry padding cs
    else if 4 ≤ filled + padding + 1 then some []
    else decodeFrom filled carry (padding + 1) cs
  | c :: cs =>
    match bits? c with
    | none => decodeFrom filled carry padding cs
    | some n =>
      let word := carry * 64 + n
      match filled with
      | 0 => decodeFrom 1 n 0 cs
      | 1 => (decodeFrom 2 (word % 16) 0 cs).map ((word / 16).toUInt8 :: ·)
      | 2 => (decodeFrom 3 (word % 4) 0 cs).map ((word / 4).toUInt8 :: ·)
      | _ => (decodeFrom 0 0 0 cs).map (word.toUInt8 :: ·)

def decode? (text : List Char) : Option (List UInt8) :=
  if text.all (·.toNat < 0x80) then decodeFrom 0 0 0 text else none

end LuaTypes.Yaml.Base64
