import LuaTypes.Artifact.Encode
import LuaTypes.Json.Printer
import LuaTypes.SymbolTable

/-!
Validation of a corpus: rules of good documentation. Errors make a corpus unfit for use; warnings point
at documentation that is incomplete or misleading.
-/

namespace LuaTypes.Validation

open Declaration

structure Owner where
  kind : Kind
  name : String
  deriving DecidableEq, Repr

namespace Owner

def text (o : Owner) : String :=
  o.kind.text ++ " '" ++ o.name ++ "'"

end Owner

inductive Error where
  | requiredAfterOptional (function required earlier : String)
  | variadicNotLast (function : String)
  | emptyAlias (name : String)
  | repeatedLiterals (name : String) (texts : List String)
  deriving DecidableEq, Repr

namespace Error

def message : Error → String
  | .requiredAfterOptional function required earlier =>
    "Function '" ++ function ++ "' has required parameter '" ++ required ++
      "' after optional parameter '" ++ earlier ++ "'."
  | .variadicNotLast function =>
    "Function '" ++ function ++ "' has a variadic parameter that is not last."
  | .emptyAlias name => "Alias '" ++ name ++ "' declares no members."
  | .repeatedLiterals name texts =>
    "Alias '" ++ name ++ "' repeats literal member(s) " ++ Text.join ", " texts ++ "."

end Error

inductive Warning where
  | deprecatedWithoutReason (function : String)
  | nothingToDiscard (function : String)
  | undocumentedParam (function param : String)
  | variadicReturnNotLast (function : String)
  | repeatedUnionMember (owner : Owner)
  | danglingLink (owner : Owner) (target : String)
  deriving DecidableEq, Repr

namespace Warning

def message : Warning → String
  | .deprecatedWithoutReason function =>
    "Function '" ++ function ++ "' is deprecated without a reason."
  | .nothingToDiscard function =>
    "Function '" ++ function ++ "' is marked @nodiscard but documents no return value."
  | .undocumentedParam function param =>
    "Function '" ++ function ++ "' does not document parameter '" ++ param ++ "'."
  | .variadicReturnNotLast function =>
    "Function '" ++ function ++ "' has a variadic return followed by further returns."
  | .repeatedUnionMember owner => owner.text ++ " uses a union with duplicate members."
  | .danglingLink owner target => owner.text ++ " links to undeclared '" ++ target ++ "'."

end Warning

/-! Functions -/

/--
Required parameters behind an optional one, of which the first counts. Variadic ones stand aside.
-/
def optionalOrder (function : String) (earlier : Option String) : List Param → List Error
  | [] => []
  | p :: ps =>
    -- Any number of arguments may be none, so a variadic parameter neither asks for one nor leaves one out.
    if p.isVariadic then optionalOrder function earlier ps
    else if p.isOptional then
      match earlier with
      | some name =>
        optionalOrder function (some (if name.isEmpty then p.name else name)) ps
      | none => optionalOrder function (some p.name) ps
    else
      match earlier with
      | some name =>
        .requiredAfterOptional function p.name name :: optionalOrder function earlier ps
      | none => optionalOrder function earlier ps

def variadicPosition (f : Function) : List Error :=
  if f.params.dropLast.any (·.isVariadic) then [.variadicNotLast f.qualifiedName] else []

def functionErrors (f : Function) : List Error :=
  optionalOrder f.qualifiedName none f.params ++ variadicPosition f

def functionWarnings (f : Function) : List Warning :=
  let name := f.qualifiedName
  let hasReason := f.deprecationReason.any (! ·.isEmpty)
  (if f.deprecated && ! hasReason then [.deprecatedWithoutReason name] else []) ++
    (if f.nodiscard && f.returns.isEmpty then [.nothingToDiscard name] else []) ++
    (f.signature.filter (! (f.params.map (·.name)).contains ·)).map (.undocumentedParam name) ++
    (if f.returns.dropLast.any (·.variadic) then [.variadicReturnNotLast name] else [])

/-! Aliases -/

/--
Are two values of one kind and equal? Zeros are equal whatever their sign, and so are all values that
are no number.
-/
def sameLiteral : Literal → Literal → Bool
  | .string a, .string b => a = b
  | .integer a, .integer b => a = b
  | .float a, .float b => a == b || (a.isNaN && b.isNaN)
  | .boolean a, .boolean b => a = b
  | _, _ => false

def literalText : Literal → String
  | .string value => Text.quoted value
  | .integer value => Decimal.integerText value
  | .float value => Decimal.floatText ⟨"inf", "nan"⟩ value
  | .boolean value => if value then "True" else "False"

def repeatedLiterals (before : List Literal) : List Literal → List Literal
  | [] => []
  | v :: vs =>
    if before.any (sameLiteral v) then v :: repeatedLiterals (before ++ [v]) vs
    else repeatedLiterals (before ++ [v]) vs

def aliasErrors (a : Alias) : List Error :=
  match a.literalValues? with
  | none => []
  | some [] => [.emptyAlias a.name]
  | some values =>
    match ((repeatedLiterals [] values).map literalText).eraseDups with
    | [] => []
    | texts => [.repeatedLiterals a.name texts]

/-! Unions -/

mutual

/--
The lists of alternatives of all unions in a type, outer ones first. The key types of tables are not
looked into.
-/
def unions : TypeExpr → List (List TypeExpr)
  | .union members => members :: unionsOfList members
  | .optional inner => unions inner
  | .array element => unions element
  | .generic _ args => unionsOfList args
  | .function params returns _ => unionsOfParams params ++ unionsOfList returns
  | .table fields => unionsOfFields fields
  | .named _ => []
  | .literal _ => []
  | .vararg => []

def unionsOfList : List TypeExpr → List (List TypeExpr)
  | [] => []
  | t :: ts => unions t ++ unionsOfList ts

def unionsOfOption : Option TypeExpr → List (List TypeExpr)
  | none => []
  | some t => unions t

def unionsOfParams : List (TypeExpr.Param TypeExpr) → List (List TypeExpr)
  | [] => []
  | ⟨_, type, _⟩ :: ps => unionsOfOption type ++ unionsOfParams ps

def unionsOfFields : List (TypeExpr.Field TypeExpr) → List (List TypeExpr)
  | [] => []
  | ⟨_, _, type, _⟩ :: fs => unions type ++ unionsOfFields fs

end

mutual

def finite : Json → Json
  | .float x => if x.isFinite then .float x else .null
  | .array items => .array (finiteItems items)
  | .object members => .object (finiteMembers members)
  | .null => .null
  | .boolean b => .boolean b
  | .integer n => .integer n
  | .string s => .string s

def finiteItems : List Json → List Json
  | [] => []
  | v :: vs => finite v :: finiteItems vs

def finiteMembers : List (String × Json) → List (String × Json)
  | [] => []
  | (k, v) :: ms => (k, finite v) :: finiteMembers ms

end

/--
The library that writes a type as one line of text, by which alternatives are compared. A type that it
refuses because it is nested too deeply has a text here like any other.
-/
class Dump where
  typeText : TypeExpr → String

instance : Dump := ⟨fun t => (finite t.toJson).compact⟩

def hasRepetition : List String → Bool
  | [] => false
  | x :: xs => xs.contains x || hasRepetition xs

def unionWarnings [Dump] (owner : Owner) (t : TypeExpr) : List Warning :=
  ((unions t).filter fun members => hasRepetition (members.map Dump.typeText)).map fun _ =>
    .repeatedUnionMember owner

/--
The types of a file with what they belong to. The key types of fields are left out.
-/
def typesOf (f : File) : List (Owner × TypeExpr) :=
  f.aliases.map (fun a => (⟨.alias, a.name⟩, a.type)) ++
    f.classes.flatMap (fun c => c.fields.map fun field => (⟨.classType, c.name⟩, field.type)) ++
    f.functions.flatMap fun fn =>
      (fn.params.map (·.type) ++ fn.returns.map (·.type)).map fun t =>
        (⟨.function, fn.qualifiedName⟩, t)

/-! Links -/

def linkScheme : List Char := ['l', 'u', 'a', ':', '/', '/']

def inLink (c : Char) : Bool :=
  Text.isWordChar c || c == '.' || c == ':'

def linksFrom (skip : Nat) : List Char → List String
  | [] => []
  | c :: cs =>
    match skip with
    | skip + 1 => linksFrom skip cs
    | 0 =>
      let rest := (c :: cs).drop linkScheme.length
      if linkScheme.isPrefixOf (c :: cs) && rest.head?.any Text.isIdentifierStart then
        let name := rest.takeWhile inLink
        String.ofList name :: linksFrom (linkScheme.length - 1 + name.length) cs
      else linksFrom 0 cs

def linksIn (description : Option String) : List String :=
  linksFrom 0 (description.getD "").toList

def linksOf (f : File) : List (Owner × String) :=
  f.classes.flatMap (fun c => (linksIn c.description).map (⟨.classType, c.name⟩, ·)) ++
    f.aliases.flatMap (fun a => (linksIn a.description).map (⟨.alias, a.name⟩, ·)) ++
    f.functions.flatMap fun fn =>
      (fn.links.map (·.target) ++ linksIn fn.description).map (⟨.function, fn.qualifiedName⟩, ·)

def isSeparator (c : Char) : Bool :=
  c == '.' || c == ':'

def trimTarget (target : String) : String :=
  String.ofList (target.toList.reverse.dropWhile isSeparator).reverse

def namesField (table : SymbolTable) (target : String) : Bool :=
  let (owner, member) := (Text.splitAtLast? '.' target.toList).getD ([], target.toList)
  match table.class? (String.ofList owner) with
  | none => false
  | some c => c.fields.any (·.name = some (String.ofList member))

def isDeclared (table : SymbolTable) (target : String) : Bool :=
  table.hasNamespace target || (table.resolveType? target).isSome ||
    (table.function? target).isSome || namesField table target

def isInNamespace (table : SymbolTable) (target : String) : Bool :=
  target.toList.any isSeparator &&
    table.hasNamespace (String.ofList (target.toList.takeWhile (! isSeparator ·)))

/--
A warning for a link into a declared table that has nothing of that name. Links elsewhere may be right.
-/
def linkWarnings (table : SymbolTable) (owner : Owner) (target : String) : List Warning :=
  let target := trimTarget target
  if ! isDeclared table target && isInNamespace table target then [.danglingLink owner target]
  else []

/-! Whole corpora -/

def errors (corpus : Corpus) : List Error :=
  corpus.files.flatMap fun (_, f) => f.functions.flatMap functionErrors ++ f.aliases.flatMap aliasErrors

def warnings [Dump] (corpus : Corpus) : List Warning :=
  let table := SymbolTable.ofCorpus corpus
  corpus.functions.flatMap functionWarnings ++
    corpus.files.flatMap (fun (_, f) => (typesOf f).flatMap fun (owner, t) => unionWarnings owner t) ++
    corpus.files.flatMap fun (_, f) =>
      (linksOf f).flatMap fun (owner, target) => linkWarnings table owner target

end LuaTypes.Validation
