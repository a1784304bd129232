/-!
Texts as bytes. Encoding never fails; decoding reports the first bytes that belong to no character,
with the reason. A character that breaks off is reported up to the byte that cannot continue it.
-/

namespace LuaTypes.Text

inductive Utf8Fault where
  | invalidStart
  | invalidContinuation
  | unexpectedEnd
  deriving DecidableEq, Repr

/--
The bytes from `offset` on, `length` of them, start no character; `first` is the first of them.
-/
structure Utf8Error where
  fault : Utf8Fault
  offset : Nat
  length : Nat
  first : UInt8
  deriving DecidableEq, Repr

def encodeUtf8 (s : List Char) : List UInt8 :=
  s.flatMap String.utf8EncodeChar

namespace Utf8

structure Lead where
  continuations : Nat
  least : UInt8
  greatest : UInt8
  bits : Nat

def lead? (b : UInt8) : Option Lead :=
  let n := b.toNat
  if n < 0x80 then some ⟨0, 0x80, 0xBF, n⟩
  else if n < 0xC2 then none
  else if n < 0xE0 then some ⟨1, 0x80, 0xBF, n - 0xC0⟩
  else if n = 0xE0 then some ⟨2, 0xA0, 0xBF, 0⟩
  else if n = 0xED then some ⟨2, 0x80, 0x9F, 0xD⟩
  else if n < 0xF0 then some ⟨2, 0x80, 0xBF, n - 0xE0⟩
  else if n = 0xF0 then some ⟨3, 0x90, 0xBF, 0⟩
  else if n < 0xF4 then some ⟨3, 0x80, 0xBF, n - 0xF0⟩
  else if n = 0xF4 then some ⟨3, 0x80, 0x8F, 4⟩
  else none

/--
Reads `count` bytes that continue a character whose bits so far are `bits`. Yields the code point and
the rest, or the fault and the number of bytes read.
-/
def continuation (count : Nat) (least greatest : UInt8) (bits : Nat) (bytes : List UInt8)
    : Except (Utf8Fault × Nat) (Nat × List UInt8) :=
  match count, bytes with
  | 0, rest => .ok (bits, rest)
  | _ + 1, [] => .error (.unexpectedEnd, 0)
  | count + 1, b :: rest =>
    if least ≤ b && b ≤ greatest then
      match continuation count 0x80 0xBF (bits * 0x40 + (b.toNat - 0x80)) rest with
      | .ok r => .ok r
      | .error (fault, read) => .error (fault, read + 1)
    else .error (.invalidContinuation, 0)

theorem continuation_length_le {count least greatest bits bytes code rest}
    (h : continuation count least greatest bits bytes = .ok (code, rest))
    : rest.length ≤ bytes.length := by
  induction count generalizing least greatest bits bytes with
  | zero =>
    simp [continuation] at h
    simp [h.2]
  | succ count ih =>
    cases bytes with
    | nil => simp [continuation] at h
    | cons b bytes =>
      simp only [continuation] at h
      split at h
      · split at h
        · rename_i hr
          simp only [Except.ok.injEq] at h
          subst h
          have := ih hr
          simp only [List.length_cons]
          omega
        · simp at h
      · simp at h

def decodeAt (offset : Nat) : List UInt8 → Except Utf8Error (List Char)
  | [] => .ok []
  | b :: bytes =>
    match lead? b with
    | none => .error ⟨.invalidStart, offset, 1, b⟩
    | some lead =>
      match h : continuation lead.continuations lead.least lead.greatest lead.bits bytes with
      | .error (fault, read) => .error ⟨fault, offset, read + 1, b⟩
      | .ok (code, rest) =>
        have := continuation_length_le h
        match decodeAt (offset + (bytes.length - rest.length) + 1) rest with
        | .ok cs => .ok (Char.ofNat code :: cs)
        | .error e => .error e
termination_by bytes => bytes.length

end Utf8

def decodeUtf8 (bytes : List UInt8) : Except Utf8Error (List Char) :=
  Utf8.decodeAt 0 bytes

namespace Utf8Fault

def message : Utf8Fault → String
  | .invalidStart => "invalid start byte"
  | .invalidContinuation => "invalid continuation byte"
  | .unexpectedEnd => "unexpected end of data"

end Utf8Fault

end LuaTypes.Text
