import LuaTypes.Yaml.Base64
import LuaTypes.Yaml.Node
import LuaTypes.Yaml.Value

/-!
From the nodes of a text to its value. The contents of a collection are looked at only after everything
outside of it, so of two faults the one in the outermost collection counts, and of those the first.
-/

namespace LuaTypes.Yaml

/--
A value, or a fault with the number of collections between it and the node that is looked at.
-/
abbrev Outcome := Except (Nat × Error)

namespace Outcome

def both {α β : Type} : Outcome α → Outcome β → Outcome (α × β)
  | .ok a, .ok b => .ok (a, b)
  | .error e, .ok _ => .error e
  | .ok _, .error f => .error f
  | .error e, .error f => .error (if e.1 ≤ f.1 then e else f)

def all {α : Type} : List (Outcome α) → Outcome (List α)
  | [] => .ok []
  | x :: xs => (both x (all xs)).map fun (a, as) => a :: as

def inside {α : Type} (x : Outcome α) : Outcome α :=
  x.mapError fun (depth, e) => (depth + 1, e)

def malformed {α : Type} : Outcome α := .error (0, .malformed)

end Outcome

/-! Scalars -/

def digitValue? (base : Nat) (c : Char) : Option Nat :=
  ((Text.decimalValue? c).or (Scalar.hexValue? c)).filter (· < base)

def baseLetter? (base : Nat) : Option Char :=
  if base = 2 then some 'b' else if base = 8 then some 'o' else if base = 16 then some 'x' else none

def withoutBase (base : Nat) : List Char → List Char
  | '0' :: c :: d :: cs => if some c.toLower = baseLetter? base then d :: cs else '0' :: c :: d :: cs
  | cs => cs

def ofDigits (base : Nat) (text : List Char) : Except Error Int :=
  let (negative, cs) := match Text.strip text with
    | '+' :: cs => (false, cs)
    | cs => Decimal.splitMinus cs
  let cs := withoutBase base cs
  let digits := cs.takeWhile fun c => (digitValue? base c).isSome
  if base = 10 ∧ Decimal.maxIntegerDigits < digits.length then
    .error (.number (.tooManyDigits digits.length))
  else if digits.isEmpty ∨ digits.length < cs.length then .error (.digits base (String.ofList text))
  else
    let n := (digits.filterMap (digitValue? base)).foldl (fun n d => base * n + d) 0
    .ok (if negative then -(n : Int) else n)

def ofSixtieths (parts : List Int) : Int :=
  parts.foldl (fun n d => 60 * n + d) 0

def readInteger (text : List Char) : Except Error Int := do
  let cs := text.filter (· ≠ '_')
  if cs.isEmpty then throw .noDigits
  let negative := cs.head? = some '-'
  let n ← match Tag.unsigned cs with
    | [] => throw .noDigits
    | ['0'] => pure 0
    | '0' :: 'b' :: digits => ofDigits 2 digits
    | '0' :: 'x' :: digits => ofDigits 16 digits
    | '0' :: digits => ofDigits 8 ('0' :: digits)
    | digits =>
      if digits.contains ':' then
        pure (ofSixtieths (← (Text.splitAtEach ':' digits).mapM (ofDigits 10)))
      else ofDigits 10 digits
  return if negative then -n else n

def readPart (text : List Char) : Except Error Float :=
  match Decimal.readFloat text with
  | .ok x => .ok x
  | .error e => .error (.number e)

def sumSixtieths (unit sum : Float) : List Float → Float
  | [] => sum
  | x :: xs => sumSixtieths (unit * 60.0) (sum + x * unit) xs

def readFloat (text : List Char) : Except Error Float := do
  let cs := (text.filter (· ≠ '_')).map Char.toLower
  if cs.isEmpty then throw .noDigits
  let negative := cs.head? = some '-'
  let digits := Tag.unsigned cs
  let x ←
    if digits = ".inf".toList then pure Decimal.infinity
    else if digits = ".nan".toList then pure Decimal.notANumber
    else if digits.contains ':' then do
      let parts ← (Text.splitAtEach ':' digits).mapM readPart
      pure (sumSixtieths 1.0 0.0 parts.reverse)
    else readPart digits
  return if negative then -x else x

def readBoolean (text : List Char) : Except Error Bool :=
  let word := String.ofList (text.map Char.toLower)
  if ["yes", "true", "on"].contains word then .ok true
  else if ["no", "false", "off"].contains word then .ok false
  else .error (.noBoolean word)

def readTimestamp (text : List Char) : Except Error Value :=
  match TimeText.ofText? text with
  | none => .error .noTimestamp
  | some t =>
    match t.value with
    | .ok (.inl d) => .ok (.date d)
    | .ok (.inr m) => .ok (.moment m)
    | .error e => .error (.time e)

def readScalar (tag : Tag) (text : List Char) : Except Error Value :=
  match tag with
  | .null => .ok .null
  | .boolean => (readBoolean text).map .boolean
  | .integer => (readInteger text).map .integer
  | .float => (readFloat text).map .float
  | .string => .ok (.string (String.ofList text))
  | .binary => match Base64.decode? text with
    | some bytes => .ok (.bytes bytes)
    | none => .error .malformed
  | .timestamp => readTimestamp text
  | _ => .error .malformed

namespace Node

mutual

def depth : Node → Nat
  | .scalar .. => 1
  | .sequence _ items => depthOfItems items + 1
  | .mapping _ entries => depthOfEntries entries + 1
  | .recursive => 1

def depthOfItems : List Node → Nat
  | [] => 0
  | n :: ns => max n.depth (depthOfItems ns)

def depthOfEntries : List (Node × Node) → Nat
  | [] => 0
  | (k, v) :: es => max (max k.depth v.depth) (depthOfEntries es)

end

mutual

/--
The entries of a mapping, after those of the mappings that it merges. Of several values of one key the
last one counts, so its own entries win.
-/
def merged? : Node → Option (List (Node × Node))
  | .mapping _ entries => (mergedEntries? entries).map fun (merges, own) => merges ++ own
  | .recursive => some []
  | _ => none

def mergedEntries? : List (Node × Node) → Option (List (Node × Node) × List (Node × Node))
  | [] => some ([], [])
  | (k, v) :: es => do
    if k.tag = .merge then
      let merge ← mergeSource? v
      let (merges, own) ← mergedEntries? es
      return (merge ++ merges, own)
    else
      let (merges, own) ← mergedEntries? es
      return (merges, (k, v) :: own)

def mergeSource? : Node → Option (List (Node × Node))
  | .mapping _ entries => (mergedEntries? entries).map fun (merges, own) => merges ++ own
  | .sequence _ items => mergeSources? items
  | .recursive => some []
  | .scalar .. => none

def mergeSources? : List Node → Option (List (Node × Node))
  | [] => some []
  | n :: ns => do
    let merge ← merged? n
    return (← mergeSources? ns) ++ merge

end

mutual

def text? : Node → Option (List Char)
  | .scalar _ text => some text
  | .mapping _ entries => valueText? entries
  | _ => none

def valueText? : List (Node × Node) → Option (List Char)
  | [] => none
  | (k, v) :: es => if k.tag = .value then v.text? else valueText? es

end

end Node

namespace Value

def ofScalar (node : Node) : Outcome Value :=
  match node.text? with
  | none => .malformed
  | some text => (readScalar node.tag text).mapError fun e => (0, e)

def ofKey (key : Node) : Outcome Value :=
  if key.tag.isCollection then .malformed
  else if key.tag = .value then
    match key.text? with
    | none => .malformed
    | some text => .ok (.string (String.ofList text))
  else ofScalar key

def pair? : Node → Option (Node × Node)
  | .mapping _ [entry] => some entry
  | _ => none

def ofNodeTo : Nat → Node → Outcome Value
  | 0, _ => .malformed
  | depth + 1, node =>
    let child (n : Node) := if n.tag.isCollection then (ofNodeTo depth n).inside else ofNodeTo depth n
    let entries : Outcome (List (Value × Value)) := match node with
      | .mapping .. =>
        match node.merged? with
        | none => .malformed
        | some es => (Outcome.all (es.map fun (k, v) => Outcome.both (ofKey k) (child v))).map
            fun es => es.foldl (fun es e => insert e.1 e.2 es) []
      | _ => .malformed
    let couples : Outcome (List Value) := match node with
      | .sequence _ items =>
        Outcome.all (items.map fun item => match pair? item with
          | none => .malformed
          | some (k, v) => (Outcome.both (child k) (child v)).map fun (k, v) => .list [k, v])
      | _ => .malformed
    match node, node.tag with
    | .recursive, _ => .ok .recursive
    | .sequence _ items, .sequence => (Outcome.all (items.map child)).map .list
    | _, .sequence => .malformed
    | _, .mapping => entries.map .map
    | _, .set => entries.map fun es => .set (es.map (·.1))
    | _, .orderedMap | _, .pairs => couples.map .list
    | _, _ => ofScalar node

def ofNode (node : Node) : Except Error Value :=
  (ofNodeTo node.depth node).mapError (·.2)

end Value

def load (text : String) : Except Error Value := do
  match ← Node.parse text.toList with
  | none => return .null
  | some node => Value.ofNode node

end LuaTypes.Yaml
