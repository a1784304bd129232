import LuaTypes.Declaration
import LuaTypes.Json

/-!
The rules by which declarations come back from the stored form. Members that are unknown do not count, and
those with a default value may be missing. Truth values may also be given as numbers and as words; a literal
keeps the kind that its value has in JSON.
-/

namespace LuaTypes

namespace Json

mutual

def depth : Json → Nat
  | .array items => depthOfItems items + 1
  | .object members => depthOfMembers members + 1
  | _ => 0

def depthOfItems : List Json → Nat
  | [] => 0
  | v :: vs => max v.depth (depthOfItems vs)

def depthOfMembers : List (String × Json) → Nat
  | [] => 0
  | (_, v) :: ms => max v.depth (depthOfMembers ms)

end

def string? : Json → Option String
  | .string s => some s
  | _ => none

def trueWords : List String := ["1", "t", "y", "on", "yes", "true"]

def falseWords : List String := ["0", "f", "n", "no", "off", "false"]

/--
A truth value, a number that is zero or one, or a word for a truth value in any case.
-/
def truth? : Json → Option Bool
  | .boolean b => some b
  | .integer n => if n = 0 then some false else if n = 1 then some true else none
  | .float x => if x == 0.0 then some false else if x == 1.0 then some true else none
  | .string s =>
    let word := String.ofList (s.toList.map Char.toLower)
    if trueWords.contains word then some true
    else if falseWords.contains word then some false
    else none
  | _ => none

def nullable? {α : Type} (decode : Json → Option α) : Json → Option (Option α)
  | .null => some none
  | v => (decode v).map some

def list? {α : Type} (decode : Json → Option α) : Json → Option (List α)
  | .array items => items.mapM decode
  | _ => none

def required? {α : Type} (decode : Json → Option α) (key : String) (members : List (String × Json))
    : Option α :=
  (lookup? key members).bind decode

def defaulted? {α : Type} (decode : Json → Option α) (fallback : α) (key : String)
    (members : List (String × Json)) : Option α :=
  match lookup? key members with
  | none => some fallback
  | some v => decode v

def object? : Json → Option (List (String × Json))
  | .object members => some members
  | _ => none

def optionalText? (key : String) (members : List (String × Json)) : Option (Option String) :=
  defaulted? (nullable? string?) none key members

end Json

open Json

def Literal.ofJson? : Json → Option Literal
  | .string value => some (.string value)
  | .integer value => some (.integer value)
  | .float value => some (.float value)
  | .boolean value => some (.boolean value)
  | _ => none

namespace TypeExpr

def Param.ofJson? (decode : Json → Option TypeExpr) (v : Json) : Option (Param TypeExpr) := do
  let ms ← object? v
  return {
    name := ← required? string? "name" ms
    type := ← defaulted? (nullable? decode) none "type" ms
    optional := ← defaulted? truth? false "optional" ms }

def Field.ofJson? (decode : Json → Option TypeExpr) (v : Json) : Option (Field TypeExpr) := do
  let ms ← object? v
  return {
    name := ← optionalText? "name" ms
    key := ← defaulted? (nullable? decode) none "key_type" ms
    type := ← required? decode "type" ms
    optional := ← defaulted? truth? false "optional" ms }

def decode : (fuel : Nat) → Json → Option TypeExpr
  | 0, _ => none
  | fuel + 1, v => do
    let ms ← object? v
    match ← required? string? "kind" ms with
    | "named" => return .named (← required? string? "name" ms)
    | "literal" => return .literal (← required? Literal.ofJson? "value" ms)
    | "union" => return .union (← required? (list? (decode fuel)) "members" ms)
    | "optional" => return .optional (← required? (decode fuel) "inner" ms)
    | "array" => return .array (← required? (decode fuel) "element" ms)
    | "generic" =>
      return .generic (← required? string? "name" ms) (← required? (list? (decode fuel)) "args" ms)
    | "function" =>
      return .function (← defaulted? (list? (Param.ofJson? (decode fuel))) [] "params" ms)
        (← defaulted? (list? (decode fuel)) [] "returns" ms)
        (← defaulted? truth? false "is_async" ms)
    | "table" =>
      return .table (← defaulted? (list? (Field.ofJson? (decode fuel))) [] "fields" ms)
    | "vararg" => return .vararg
    | _ => none

def ofJson? (v : Json) : Option TypeExpr :=
  decode (v.depth + 1) v

end TypeExpr

namespace Declaration

def Namespace.ofJson? (v : Json) : Option Namespace := do
  let ms ← object? v
  return { name := ← required? string? "name" ms, className := ← optionalText? "class_name" ms }

def Field.ofJson? (v : Json) : Option Field := do
  let ms ← object? v
  return {
    name := ← optionalText? "name" ms
    key := ← defaulted? (nullable? TypeExpr.ofJson?) none "key_type" ms
    type := ← required? TypeExpr.ofJson? "type" ms
    optional := ← defaulted? truth? false "optional" ms
    description := ← optionalText? "description" ms }

def ClassType.ofJson? (v : Json) : Option ClassType := do
  let ms ← object? v
  return {
    name := ← required? string? "name" ms
    parents := ← defaulted? (list? string?) [] "parents" ms
    description := ← optionalText? "description" ms
    fields := ← defaulted? (list? Field.ofJson?) [] "fields" ms }

def AliasMember.ofJson? (v : Json) : Option AliasMember := do
  let ms ← object? v
  return {
    type := ← required? TypeExpr.ofJson? "type" ms
    description := ← optionalText? "description" ms }

def Alias.ofJson? (v : Json) : Option Alias := do
  let ms ← object? v
  return {
    name := ← required? string? "name" ms
    base := ← defaulted? (nullable? TypeExpr.ofJson?) none "base" ms
    members := ← defaulted? (list? AliasMember.ofJson?) [] "members" ms
    description := ← optionalText? "description" ms }

def Param.ofJson? (v : Json) : Option Param := do
  let ms ← object? v
  return {
    name := ← required? string? "name" ms
    type := ← required? TypeExpr.ofJson? "type" ms
    optional := ← defaulted? truth? false "optional" ms
    description := ← optionalText? "description" ms }

def Return.ofJson? (v : Json) : Option Return := do
  let ms ← object? v
  return {
    type := ← required? TypeExpr.ofJson? "type" ms
    name := ← optionalText? "name" ms
    variadic := ← defaulted? truth? false "variadic" ms
    description := ← optionalText? "description" ms }

def Link.ofJson? (v : Json) : Option Link := do
  let ms ← object? v
  return {
    target := ← required? string? "target" ms
    description := ← optionalText? "description" ms }

def Function.ofJson? (v : Json) : Option Function := do
  let ms ← object? v
  return {
    owner := ← optionalText? "namespace" ms
    name := ← required? string? "name" ms
    isMethod := ← defaulted? truth? false "is_method" ms
    signature := ← defaulted? (list? string?) [] "signature" ms
    params := ← defaulted? (list? Param.ofJson?) [] "params" ms
    returns := ← defaulted? (list? Return.ofJson?) [] "returns" ms
    description := ← optionalText? "description" ms
    deprecated := ← defaulted? truth? false "deprecated" ms
    deprecationReason := ← optionalText? "deprecation_reason" ms
    nodiscard := ← defaulted? truth? false "nodiscard" ms
    isAsync := ← defaulted? truth? false "is_async" ms
    links := ← defaulted? (list? Link.ofJson?) [] "see" ms }

def File.ofJson? (v : Json) : Option File := do
  let ms ← object? v
  return {
    marker := ← optionalText? "meta" ms
    namespaces := ← defaulted? (list? Namespace.ofJson?) [] "namespaces" ms
    classes := ← defaulted? (list? ClassType.ofJson?) [] "classes" ms
    aliases := ← defaulted? (list? Alias.ofJson?) [] "aliases" ms
    functions := ← defaulted? (list? Function.ofJson?) [] "functions" ms
    moduleReturn := ← optionalText? "module_return" ms }

def filesOfJson? (v : Json) : Option (List (String × File)) := do
  (← object? v).mapM fun m => (File.ofJson? m.2).map (m.1, ·)

def Corpus.ofJson? (v : Json) : Option Corpus := do
  let ms ← object? v
  return ⟨← defaulted? filesOfJson? [] "files" ms⟩

end Declaration

end LuaTypes
