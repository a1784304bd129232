import LuaTypes.Decimal.Number
import LuaTypes.SymbolTable

/-!
Analysis of a corpus: whether its declarations fit together. Names are declared once, types and classes
that are referred to exist, functions belong to declared tables, and the documented parameters of a
function are those of its signature, in their order.
-/

namespace LuaTypes.Analysis

open Declaration

inductive Place where
  | alias (name : String)
  | field (className : String) (name : Option String)
  | param (function name : String)
  | result (function : String) (number : Nat)
  deriving DecidableEq, Repr

namespace Place

def text : Place → String
  | .alias name => "Alias '" ++ name ++ "'"
  | .field className name => "Class '" ++ className ++ "' field '" ++ name.getD "index" ++ "'"
  | .param function name => "Function '" ++ function ++ "' parameter '" ++ name ++ "'"
  | .result function number =>
    "Function '" ++ function ++ "' return #" ++ Decimal.integerText number

end Place

inductive Problem where
  | repeated (kind : Kind) (name first again : String)
  | aliasAndClass (name : String)
  | undefinedType (place : Place) (name : String)
  | undefinedParent (className parent : String)
  | undefinedClass (namespace_ className : String)
  | undeclaredOwner (function owner : String)
  | repeatedParam (function param : String)
  | unknownParam (function param : String)
  | paramOrder (function : String) (documented declared : List String)
  deriving DecidableEq, Repr

namespace Problem

def message : Problem → String
  | .repeated kind name first again =>
    kind.text ++ " '" ++ name ++ "' is declared " ++
      (if first = again then "more than once in '" ++ again
        else "in both '" ++ first ++ "' and '" ++ again) ++ "'."
  | .aliasAndClass name => "Name '" ++ name ++ "' is declared as both an alias and a class."
  | .undefinedType place name => place.text ++ " references undefined type '" ++ name ++ "'."
  | .undefinedParent className parent =>
    "Class '" ++ className ++ "' extends undefined class '" ++ parent ++ "'."
  | .undefinedClass namespace_ className =>
    "Namespace '" ++ namespace_ ++ "' is typed by undefined class '" ++ className ++ "'."
  | .undeclaredOwner function owner =>
    "Function '" ++ function ++ "' is declared on undeclared namespace '" ++ owner ++ "'."
  | .repeatedParam function param =>
    "Function '" ++ function ++ "' documents parameter '" ++ param ++ "' more than once."
  | .unknownParam function param =>
    "Function '" ++ function ++ "' documents parameter '" ++ param ++
      "' which is not in its signature."
  | .paramOrder function documented declared =>
    "Function '" ++ function ++ "' documents parameters in order (" ++ Text.join ", " documented ++
      ") but declares them as (" ++ Text.join ", " declared ++ ")."

end Problem

structure Declared where
  kind : Kind
  name : String
  key : String

def declaredNames (key : String) (f : File) : List Declared :=
  f.aliases.map (⟨.alias, ·.name, key⟩) ++ f.classes.map (⟨.classType, ·.name, key⟩) ++
    f.namespaces.map (⟨.globalTable, ·.name, key⟩) ++
    f.functions.map (⟨.function, ·.qualifiedName, key⟩)

def repeatedNames (before : List Declared) : List Declared → List Problem
  | [] => []
  | d :: ds =>
    let rest := repeatedNames (before ++ [d]) ds
    match before.find? fun e => e.kind = d.kind ∧ e.name = d.name with
    | some e => .repeated d.kind d.name e.key d.key :: rest
    | none => rest

def sortedNames (names : List String) : List String :=
  names.eraseDups.mergeSort fun a b => ! (b < a : Bool)

def duplicates (corpus : Corpus) : List Problem :=
  let classes := corpus.classes.map (·.name)
  let shared := (corpus.aliases.map (·.name)).filter (classes.contains ·)
  repeatedNames [] (corpus.files.flatMap fun (key, f) => declaredNames key f) ++
    (sortedNames shared).map .aliasAndClass

def undefinedTypes (table : SymbolTable) (place : Place) (t : TypeExpr) : List Problem :=
  ((t.namedReferences.filter (! table.definesType ·)).eraseDups).map (.undefinedType place)

def aliasProblems (table : SymbolTable) (a : Alias) : List Problem :=
  undefinedTypes table (.alias a.name) a.type

def classProblems (table : SymbolTable) (c : ClassType) : List Problem :=
  (c.parents.filter (! table.hasClass ·)).map (.undefinedParent c.name) ++
    c.fields.flatMap fun f =>
      (f.key.toList ++ [f.type]).flatMap (undefinedTypes table (.field c.name f.name))

def namespaceProblems (table : SymbolTable) (ns : Namespace) : List Problem :=
  match ns.className with
  | none => []
  | some className => if table.hasClass className then [] else [.undefinedClass ns.name className]

def signatureTypeProblems (table : SymbolTable) (f : Function) : List Problem :=
  f.params.flatMap (fun p => undefinedTypes table (.param f.qualifiedName p.name) p.type) ++
    (f.returns.zipIdx 1).flatMap fun (r, number) =>
      undefinedTypes table (.result f.qualifiedName number) r.type

def referenceProblems (table : SymbolTable) (f : File) : List Problem :=
  f.aliases.flatMap (aliasProblems table) ++ f.classes.flatMap (classProblems table) ++
    f.namespaces.flatMap (namespaceProblems table) ++
    f.functions.flatMap (signatureTypeProblems table)

def ownerProblems (table : SymbolTable) (f : Function) : List Problem :=
  match f.owner with
  | none => []
  | some owner =>
    if table.hasNamespace owner || table.hasClass owner then []
    else [.undeclaredOwner f.qualifiedName owner]

def paramProblems (f : Function) (before : List String) : List Param → List Problem
  | [] => []
  | p :: ps =>
    if before.contains p.name then
      .repeatedParam f.qualifiedName p.name :: paramProblems f before ps
    else if f.signature.contains p.name then paramProblems f (p.name :: before) ps
    else .unknownParam f.qualifiedName p.name :: paramProblems f (p.name :: before) ps

/--
Problems of the documented parameters of a function; their order counts once each of them is right.
-/
def signatureProblems (f : Function) : List Problem :=
  match paramProblems f [] f.params with
  | [] =>
    let documented := (f.params.map (·.name)).filter (f.signature.contains ·)
    let declared := f.signature.filter ((f.params.map (·.name)).contains ·)
    if documented = declared then [] else [.paramOrder f.qualifiedName documented declared]
  | problems => problems

def problems (corpus : Corpus) : List Problem :=
  let table := SymbolTable.ofCorpus corpus
  duplicates corpus ++ corpus.files.flatMap (fun (_, f) => referenceProblems table f) ++
    corpus.functions.flatMap fun f => ownerProblems table f ++ signatureProblems f

end LuaTypes.Analysis
