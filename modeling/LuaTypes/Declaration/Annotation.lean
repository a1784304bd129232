import LuaTypes.Declaration
import LuaTypes.Declaration.Source
import LuaTypes.Declaration.Statement
import LuaTypes.TypeExpr.Parser

/-!
Annotations: what the lines of a block of documentation declare. A line that starts with `@` outside of
fenced code carries a tag, one that starts with a bar below an alias adds an alternative to it, and every
other line is prose.
-/

namespace LuaTypes.Declaration

inductive Problem where
  | type (problem : TypeExpr.Problem)
  | unterminatedComment
  | unsupportedStatement (text : String)
  | noFunction
  | unknownTag (tag : String)
  | className (text : String)
  | fieldOutsideClass
  | field (text : String)
  | keyNotClosed
  | aliasWithoutName
  | param (text : String)
  | paramWithoutType (name : String)
  | returnWithoutType
  | linkWithoutTarget
  deriving DecidableEq, Repr

namespace Problem

def message : Problem → String
  | .type problem => problem.message
  | .unterminatedComment => "Unterminated block comment"
  | .unsupportedStatement text => "Unsupported statement " ++ Text.quoted text
  | .noFunction => "Function annotation is not followed by a function declaration"
  | .unknownTag tag => "Unknown annotation tag '@" ++ tag ++ "'"
  | .className text => "Invalid class name " ++ Text.quoted text
  | .fieldOutsideClass => "'@field' outside of a class declaration"
  | .field text => "Invalid field declaration " ++ Text.quoted text
  | .keyNotClosed => "Expected ']' after field key type"
  | .aliasWithoutName => "'@alias' requires a name"
  | .param text => "Invalid parameter declaration " ++ Text.quoted text
  | .paramWithoutType name => "Parameter '" ++ name ++ "' has no type"
  | .returnWithoutType => "'@return' requires a type"
  | .linkWithoutTarget => "'@see' requires a target"

end Problem

abbrev Error := ReadError Problem

namespace DocLine

/--
The place of a fragment of the line: its first occurrence, or the end of the line for an empty one.
-/
def positionOf (doc : DocLine) (fragment : List Char) : Position :=
  if fragment.isEmpty then doc.position.shift doc.text.length
  else doc.position.shift ((Text.indexOf? fragment doc.text).getD 0)

def fail {α : Type} (doc : DocLine) (problem : Problem) : Except Error α :=
  .error (.grammar problem doc.position)

def parseType (doc : DocLine) (fragment : List Char) : Except Error (TypeExpr × List Char) :=
  match TypeExpr.parsePrefix fragment (doc.positionOf fragment) with
  | .ok r => .ok r
  | .error e => .error (e.map .type)

end DocLine

def nonEmpty? (s : List Char) : Option String :=
  if s.isEmpty then none else some (String.ofList s)

def description? (s : List Char) : Option String :=
  nonEmpty? <| match Text.strip s with
    | '#' :: s => Text.strip s
    | '-' :: '-' :: s => Text.strip s
    | s => s

def splitMemberName? : List Char → Option (List Char × List Char)
  | '.' :: '.' :: '.' :: s => some (['.', '.', '.'], s)
  | s => splitName? inDottedName s

def splitOptional : List Char → Bool × List Char
  | '?' :: s => (true, s)
  | s => (false, s)

def splitMember? (s : List Char) : Option (List Char × Bool × List Char) :=
  match splitMemberName? s with
  | none => none
  | some (name, s) =>
    let (optional, s) := splitOptional s
    if s.head?.all Text.isBlank then some (name, optional, Text.strip s) else none

def parseClass (doc : DocLine) (rest : List Char) : Except Error ClassType :=
  let name := Text.strip (rest.takeWhile (· ≠ ':'))
  if name.isEmpty || name.any Text.isBlank then doc.fail (.className (String.ofList name))
  else
    let parents := ((rest.dropWhile (· ≠ ':')).drop 1).takeWhile (· ≠ '#')
    .ok { name := String.ofList name, parents := nonBlankParts parents }

/--
`@field name? type description` or `@field [key] type description`
-/
def parseField (doc : DocLine) (rest : List Char) : Except Error Field :=
  match rest with
  | '[' :: inner => do
    let (key, after) ← doc.parseType inner
    match after with
    | ']' :: after =>
      let (type, description) ← doc.parseType (Text.strip after)
      return { key, type, description := description? description }
    | _ => .error (.grammar .keyNotClosed (doc.positionOf after))
  | _ =>
    match splitMember? rest with
    | none => doc.fail (.field (String.ofList rest))
    | some (name, optional, text) => do
      let (type, description) ← doc.parseType text
      return { name := String.ofList name, type, optional, description := description? description }

def parseAlias (doc : DocLine) (rest : List Char) : Except Error Alias := do
  let (name, text) := Text.splitWord rest
  if name.isEmpty then doc.fail .aliasWithoutName
  else if text.isEmpty then return { name := String.ofList name }
  else
    let (base, description) ← doc.parseType text
    return { name := String.ofList name, base, description := description? description }

def parseAliasMember (doc : DocLine) (rest : List Char) : Except Error AliasMember := do
  let (type, description) ← doc.parseType rest
  return { type, description := description? description }

def parseParam (doc : DocLine) (rest : List Char) : Except Error Param :=
  match splitMember? rest with
  | none => doc.fail (.param (String.ofList rest))
  | some (name, optional, text) =>
    if text.isEmpty then doc.fail (.paramWithoutType (String.ofList name))
    else do
      let (type, description) ← doc.parseType text
      return { name := String.ofList name, type, optional, description := description? description }

def isIdentifier : List Char → Bool
  | [] => false
  | c :: cs => Text.isIdentifierStart c && cs.all Text.isWordChar

/--
A returned type with the name and the description in the text behind it. A description with a mark may
follow the type directly.
-/
def Return.ofText (type : TypeExpr) (after : List Char) : Return :=
  let (word, description) := Text.splitWord after
  match after with
  | '#' :: _ => { type, description := description? after }
  | '-' :: '-' :: _ => { type, description := description? after }
  | _ =>
    if word = ['.', '.', '.'] then { type, variadic := true, description := description? description }
    else if isIdentifier word then
      { type, name := String.ofList word, description := description? description }
    else { type, description := description? after }

/--
`@return type name description` or `@return type ... description`
-/
def parseReturn (doc : DocLine) (rest : List Char) : Except Error Return := do
  if rest.isEmpty then doc.fail .returnWithoutType
  else
    let (type, after) ← doc.parseType rest
    return Return.ofText type after

def parseLink (doc : DocLine) (rest : List Char) : Except Error Link :=
  let (target, text) := Text.splitWord rest
  if target.isEmpty then doc.fail .linkWithoutTarget
  else .ok { target := String.ofList target, description := description? text }

/--
What the lines of a block declare; the prose is kept line by line. `functionTag` is the place of the
first tag that only a function can have.
-/
structure Annotations where
  prose : List (List Char) := []
  marker : Option String := none
  classes : List ClassType := []
  aliases : List Alias := []
  params : List Param := []
  returns : List Return := []
  links : List Link := []
  deprecated : Bool := false
  deprecationReason : Option String := none
  nodiscard : Bool := false
  isAsync : Bool := false
  functionTag : Option Position := none

def updateLast {α : Type} (f : α → α) : List α → List α
  | [] => []
  | [x] => [f x]
  | x :: y :: ys => x :: updateLast f (y :: ys)

def updateFirst {α : Type} (f : α → α) : List α → List α
  | [] => []
  | x :: xs => f x :: xs

namespace Annotations

def functionTags : List String :=
  ["param", "return", "deprecated", "nodiscard", "async", "see"]

def addField (a : Annotations) (f : Field) : Annotations :=
  { a with classes := updateLast (fun c => { c with fields := c.fields ++ [f] }) a.classes }

def noteTag (a : Annotations) (doc : DocLine) (tag : String) : Annotations :=
  if functionTags.contains tag && a.functionTag.isNone then { a with functionTag := some doc.position }
  else a

def addDeclared (a : Annotations) (doc : DocLine) (tag : String) (rest : List Char)
    : Except Error Annotations := do
  match tag with
  | "meta" => return { a with marker := some (String.ofList rest) }
  | "class" => return { a with classes := a.classes ++ [← parseClass doc rest] }
  | "field" =>
    if a.classes.isEmpty then doc.fail .fieldOutsideClass
    else return a.addField (← parseField doc rest)
  | "alias" => return { a with aliases := a.aliases ++ [← parseAlias doc rest] }
  | "param" => return { a with params := a.params ++ [← parseParam doc rest] }
  | "return" => return { a with returns := a.returns ++ [← parseReturn doc rest] }
  | "deprecated" => return { a with deprecated := true, deprecationReason := nonEmpty? rest }
  | "nodiscard" => return { a with nodiscard := true }
  | "async" => return { a with isAsync := true }
  | "see" => return { a with links := a.links ++ [← parseLink doc rest] }
  | _ => doc.fail (.unknownTag tag)

def addTag (a : Annotations) (doc : DocLine) (tag : String) (rest : List Char)
    : Except Error Annotations :=
  (a.noteTag doc tag).addDeclared doc tag rest

def addMember (a : Annotations) (doc : DocLine) (rest : List Char) : Except Error Annotations := do
  let m ← parseAliasMember doc rest
  return { a with aliases := updateLast (fun x => { x with members := x.members ++ [m] }) a.aliases }

def addProse (a : Annotations) (doc : DocLine) : Annotations :=
  { a with prose := a.prose ++ [doc.text] }

def isFence (doc : DocLine) : Bool :=
  ['\x60', '\x60', '\x60'].isPrefixOf (Text.stripLeft doc.text)

def ofDocs (a : Annotations) (fenced openAlias : Bool) : List DocLine → Except Error Annotations
  | [] => .ok a
  | doc :: docs =>
    -- The line that closes fenced code is no tag either, since it starts with the fence.
    let fenced := fenced != isFence doc
    let prose := ofDocs (a.addProse doc) fenced openAlias docs
    if fenced then prose
    else match Text.stripLeft doc.text with
      | '@' :: text =>
        let (tag, rest) := Text.splitWord text
        match a.addTag doc (String.ofList tag) rest with
        | .error e => .error e
        -- Every tag closes the alias before it, prose does not.
        | .ok a => ofDocs a fenced (String.ofList tag = "alias") docs
      | '|' :: text =>
        if openAlias then
          match a.addMember doc (Text.stripLeft text) with
          | .error e => .error e
          | .ok a => ofDocs a fenced openAlias docs
        else prose
      | _ => prose

def description? (a : Annotations) : Option String :=
  let lines := ((a.prose.dropWhile (·.isEmpty)).reverse.dropWhile (·.isEmpty)).reverse
  if lines.isEmpty then none else some (Text.join "\n" (lines.map String.ofList))

def describe (a : Annotations) (description : Option String) : Annotations :=
  match description with
  | none => a
  | some d =>
    if a.classes.isEmpty then
      { a with aliases := updateFirst (fun x => { x with description := some d }) a.aliases }
    else { a with classes := updateLast (fun c => { c with description := some d }) a.classes }

end Annotations

end LuaTypes.Declaration
