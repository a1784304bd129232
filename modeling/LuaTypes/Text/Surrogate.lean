/-!
Surrogates that are not one of a pair. They are code points without characters, but texts that are
written with escapes can have them. In a text each is held by a character that stands in for it, of a
plane where Unicode assigns none.
-/

namespace LuaTypes.Text

def isHighSurrogate (n : Nat) : Bool := 0xD800 ≤ n && n < 0xDC00

def isLowSurrogate (n : Nat) : Bool := 0xDC00 ≤ n && n < 0xE000

def isSurrogate (n : Nat) : Bool := isHighSurrogate n || isLowSurrogate n

/--
How far the characters that stand in for surrogates lie above them. These are characters themselves, so a
text that has one of them, from U+5D800 to U+5DFFF, cannot be told from one with the surrogate, and is
written as if it had the surrogate.
-/
def standInOffset : Nat := 0x50000

def ofCodePoint (n : Nat) : Char :=
  Char.ofNat (if isSurrogate n then standInOffset + n else n)

def standsIn (c : Char) : Bool :=
  isSurrogate (c.toNat - standInOffset)

def codePoint (c : Char) : Nat :=
  if standsIn c then c.toNat - standInOffset else c.toNat

theorem codePoint_of_not_standsIn {c : Char} (h : ¬ standsIn c) : codePoint c = c.toNat := by
  simp [codePoint, h]

end LuaTypes.Text
