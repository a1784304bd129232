import LuaTypes.Yaml.Tag
import LuaTypes.Yaml.Token.Scan

/-!
The tree of nodes that the tokens of a text describe. An alias is replaced by the node that it stands
for; within that node itself it marks a recursion.
-/

namespace LuaTypes.Yaml

inductive Node where
  | scalar (tag : Tag) (text : List Char)
  | sequence (tag : Tag) (items : List Node)
  | mapping (tag : Tag) (entries : List (Node × Node))
  | recursive

namespace Node

instance : Inhabited Node := ⟨.recursive⟩

def empty : Node := .scalar .null []

def tag : Node → Tag
  | .scalar tag _ | .sequence tag _ | .mapping tag _ => tag
  | .recursive => .sequence

/-! Reading -/

/--
The tokens that are left, and the anchors so far with their nodes. The node of an anchor is missing as
long as it is being read.
-/
structure Pending where
  tokens : List Token
  anchors : List (List Char × Option Node) := []

abbrev Reading := StateT Pending (Except Error)

abbrev Handles := List (List Char × List Char)

namespace Reading

def peek : Reading Token := do
  match (← get).tokens with
  | [] => throw .malformed
  | .fault e :: _ => throw e
  | t :: _ => return t

def skip : Reading Unit :=
  modify fun p => { p with tokens := p.tokens.tail }

def skipIf (t : Token) : Reading Bool := do
  if (← peek) = t then
    skip
    return true
  else return false

def expect (t : Token) : Reading Unit := do
  if ! (← skipIf t) then throw .malformed

def isBefore (ts : List Token) : Reading Bool := do
  return ts.contains (← peek)

end Reading

open Reading

/--
Where a node stands. Only the values of a mapping in a block may be sequences without indentation.
-/
inductive Place where
  | block
  | blockValue
  | flow
  deriving DecidableEq, Repr

structure Properties where
  anchor : Option (List Char) := none
  tag : Option (List Char) := none

def resolveHandle (handles : Handles) (handle : Option (List Char)) (suffix : List Char)
    : Reading (List Char) :=
  match handle with
  | none => return suffix
  | some handle =>
    match handles.lookup handle with
    | none => throw .malformed
    | some uri => return uri ++ suffix

def readAnchor : Reading (Option (List Char)) := do
  match ← peek with
  | .anchor name =>
    skip
    return some name
  | _ => return none

def readTag (handles : Handles) : Reading (Option (List Char)) := do
  match ← peek with
  | .tag handle suffix =>
    skip
    return some (← resolveHandle handles handle suffix)
  | _ => return none

def readProperties (handles : Handles) : Reading Properties := do
  match ← readAnchor with
  | some name => return ⟨some name, ← readTag handles⟩
  | none =>
    match ← readTag handles with
    | none => return {}
    | some tag => return ⟨← readAnchor, some tag⟩

namespace Properties

def collectionTag (p : Properties) (implied : Tag) : Tag :=
  match p.tag with
  | none | some ['!'] => implied
  | some uri => Tag.ofUri uri

/--
The tag of a scalar. The exclamation mark alone makes a scalar plain.
-/
def scalarTag (p : Properties) (text : List Char) (plain : Bool) : Tag :=
  match p.tag with
  | none => if plain then Tag.ofPlain text else .string
  | some ['!'] => Tag.ofPlain text
  | some uri => Tag.ofUri uri

def areEmpty (p : Properties) : Bool :=
  p.anchor.isNone && p.tag.isNone

end Properties

def anchored (anchor : Option (List Char)) (read : Reading Node) : Reading Node :=
  match anchor with
  | none => read
  | some name => do
    if (← get).anchors.any (·.1 = name) then throw .malformed
    -- The anchor is known inside of its own node, which has no end there.
    modify fun p => { p with anchors := (name, none) :: p.anchors }
    let node ← read
    modify fun p => { p with anchors := (name, some node) :: p.anchors }
    return node

def aliased (name : List Char) : Reading Node := do
  match (← get).anchors.lookup name with
  | none => throw .malformed
  | some node => return node.getD .recursive

mutual

def read (handles : Handles) (place : Place) : Nat → Reading Node
  | 0 => throw .malformed
  | fuel + 1 => do
    match ← peek with
    | .alias name =>
      skip
      aliased name
    | _ =>
      let properties ← readProperties handles
      anchored properties.anchor (readContent handles place properties fuel)

def readContent (handles : Handles) (place : Place) (p : Properties) : Nat → Reading Node
  | 0 => throw .malformed
  | fuel + 1 => do
    let t ← peek
    if place = .blockValue ∧ t = .blockEntry then
      return sequence (p.collectionTag .sequence) (← readItems handles [.key, .value] fuel)
    match t with
    | .scalar text plain =>
      skip
      return scalar (p.scalarTag text plain) text
    | .openSequence =>
      skip
      return sequence (p.collectionTag .sequence) (← readFlowItems handles true fuel)
    | .openMapping =>
      skip
      return mapping (p.collectionTag .mapping) (← readFlowEntries handles true fuel)
    | .blockSequence =>
      -- Collections of the block cannot stand between brackets.
      if place = .flow then throw .malformed
      skip
      let items ← readItems handles [] fuel
      expect .blockEnd
      return sequence (p.collectionTag .sequence) items
    | .blockMapping =>
      if place = .flow then throw .malformed
      skip
      return mapping (p.collectionTag .mapping) (← readEntries handles fuel)
    | _ => if p.areEmpty then throw .malformed else return scalar (p.scalarTag [] true) []

/--
Reads the items of a sequence in a block, each after its indicator. An item is empty before the next one,
the end of the block and the further tokens `ends`.
-/
def readItems (handles : Handles) (ends : List Token) : Nat → Reading (List Node)
  | 0 => throw .malformed
  | fuel + 1 => do
    if ← skipIf .blockEntry then
      let item ←
        if ← isBefore (.blockEntry :: .blockEnd :: ends) then pure empty
        else read handles .block fuel
      return item :: (← readItems handles ends fuel)
    else return []

def readEntries (handles : Handles) : Nat → Reading (List (Node × Node))
  | 0 => throw .malformed
  | fuel + 1 => do
    if ← skipIf .key then
      let ends := [.key, .value, .blockEnd]
      let key ← if ← isBefore ends then pure empty else read handles .blockValue fuel
      let value ←
        if ← skipIf .value then
          if ← isBefore ends then pure empty else read handles .blockValue fuel
        else pure empty
      return (key, value) :: (← readEntries handles fuel)
    else
      expect .blockEnd
      return []

def readFlowItems (handles : Handles) (first : Bool) : Nat → Reading (List Node)
  | 0 => throw .malformed
  | fuel + 1 => do
    if ← skipIf .closeSequence then return []
    if ! first then
      expect .flowEntry
      if ← skipIf .closeSequence then return []
    let item ←
      if ← skipIf .key then
        let key ←
          if ← isBefore [.value, .flowEntry, .closeSequence] then pure empty
          else read handles .flow fuel
        let value ← readFlowValue handles .closeSequence fuel
        pure (mapping .mapping [(key, value)])
      else read handles .flow fuel
    return item :: (← readFlowItems handles false fuel)

def readFlowEntries (handles : Handles) (first : Bool) : Nat → Reading (List (Node × Node))
  | 0 => throw .malformed
  | fuel + 1 => do
    if ← skipIf .closeMapping then return []
    if ! first then
      expect .flowEntry
      if ← skipIf .closeMapping then return []
    let entry ←
      if ← skipIf .key then
        let key ←
          if ← isBefore [.value, .flowEntry, .closeMapping] then pure empty
          else read handles .flow fuel
        pure (key, ← readFlowValue handles .closeMapping fuel)
      else pure (← read handles .flow fuel, empty)
    return entry :: (← readFlowEntries handles false fuel)

def readFlowValue (handles : Handles) (close : Token) : Nat → Reading Node
  | 0 => throw .malformed
  | fuel + 1 => do
    if ← skipIf .value then
      if ← isBefore [.flowEntry, close] then return empty else read handles .flow fuel
    else return empty

end

/-! Documents -/

def readDirectives (versioned : Bool) (handles : Handles) : Nat → Reading Handles
  | 0 => throw .malformed
  | fuel + 1 => do
    match ← peek with
    | .directive d =>
      skip
      match d with
      | .version major =>
        if versioned || major ≠ 1 then throw .malformed
        readDirectives true handles fuel
      | .tag handle uri =>
        if (handles.lookup handle).isSome then throw .malformed
        readDirectives versioned ((handle, uri) :: handles) fuel
      | .unknown => readDirectives versioned handles fuel
    | _ => return handles

def defaultHandles : Handles := [(['!'], ['!']), (['!', '!'], Tag.common)]

def readDocument (fuel : Nat) : Reading Node := do
  match ← peek with
  | .directive _ | .documentStart =>
    let handles ← readDirectives false [] fuel
    expect .documentStart
    match ← peek with
    | .directive _ | .documentStart | .documentEnd | .endOfText => return empty
    | _ => read (handles ++ defaultHandles) .block fuel
  | _ => read defaultHandles .block fuel

def readEnd : Nat → Reading Unit
  | 0 => throw .malformed
  | fuel + 1 => do
    if ← skipIf .documentEnd then readEnd fuel else expect .endOfText

def readText (fuel : Nat) : Reading (Option Node) := do
  if ← isBefore [.endOfText] then return none
  let node ← readDocument fuel
  readEnd fuel
  return some node

def parse (text : List Char) : Except Error (Option Node) :=
  let tokens := Token.scan text
  match readText (4 * tokens.length + 4) |>.run ⟨tokens, []⟩ with
  | .ok (node, _) => .ok node
  | .error e => .error e

end Node

end LuaTypes.Yaml
