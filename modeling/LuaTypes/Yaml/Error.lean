import LuaTypes.Yaml.Timestamp

/-!
Why a YAML text cannot be loaded. All faults of form are alike here; those of a value have a cause of
their own.
-/

namespace LuaTypes.Yaml

inductive Error where
  | malformed
  | characterCode (code : Nat)
  | number (fault : Decimal.NumberFault)
  | digits (base : Nat) (text : String)
  | noDigits
  | time (fault : TimeFault)
  | noTimestamp
  | noBoolean (text : String)
  deriving DecidableEq, Repr

namespace Error

/--
The largest code that is refused as a code point; greater ones are refused as numbers.
-/
def maxCode : Nat := 0x7FFFFFFF

def message : Error → String
  | .malformed => "Invalid YAML"
  | .characterCode code =>
    if code ≤ maxCode then "chr() arg not in range(0x110000)"
    else "Python int too large to convert to C int"
  | .number fault => fault.message
  | .digits base text =>
    "invalid literal for int() with base " ++ toString base ++ ": " ++
      String.ofList ((Text.quoted text).toList.take 200)
  | .noDigits => "string index out of range"
  | .time fault => fault.message
  | .noTimestamp => "'NoneType' object has no attribute 'groupdict'"
  | .noBoolean text => Text.quoted text

end Error

end LuaTypes.Yaml
