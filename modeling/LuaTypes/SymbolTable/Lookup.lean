import LuaTypes.Declaration
import LuaTypes.Text.Blank

/-!
The global names of a corpus. Where a name is declared more than once, the first declaration counts.
-/

namespace LuaTypes

open Declaration

structure SymbolTable where
  namespaces : List Namespace := []
  classes : List ClassType := []
  aliases : List Alias := []
  functions : List Function := []

namespace SymbolTable

def firstOfEach {α : Type} (name : α → String) : List α → List α
  | [] => []
  | x :: xs => x :: (firstOfEach name xs).filter (name · ≠ name x)

def ofCorpus (corpus : Corpus) : SymbolTable where
  namespaces := firstOfEach (·.name) corpus.namespaces
  classes := firstOfEach (·.name) corpus.classes
  aliases := firstOfEach (·.name) corpus.aliases
  functions := firstOfEach (·.qualifiedName) corpus.functions

variable (table : SymbolTable)

def class? (name : String) : Option ClassType :=
  table.classes.find? (·.name = name)

def alias? (name : String) : Option Alias :=
  table.aliases.find? (·.name = name)

def hasNamespace (name : String) : Bool :=
  table.namespaces.any (·.name = name)

def hasClass (name : String) : Bool :=
  (table.class? name).isSome

def definesType (name : String) : Bool :=
  TypeExpr.builtinNames.contains name || (table.alias? name).isSome || table.hasClass name

def expandAlias? (name : String) : Option TypeExpr :=
  (table.alias? name).map (·.type)

def resolveType? (name : String) : Option (Alias ⊕ ClassType) :=
  match table.alias? name with
  | some a => some (.inl a)
  | none => (table.class? name).map .inr

def pointed (name : String) : Option String :=
  let cs := name.toList
  match cs.dropWhile (· ≠ ':') with
  | [] => none
  | _ :: rest => some (String.ofList (cs.takeWhile (· ≠ ':') ++ '.' :: rest))

def functionNamed? (name : String) : Option Function :=
  table.functions.find? (·.qualifiedName = name)

/--
The function of a qualified name; what is called as a method may be declared with a point.
-/
def function? (name : String) : Option Function :=
  match table.functionNamed? name with
  | some f => some f
  | none => (pointed name).bind table.functionNamed?

def parents (name : String) : List String :=
  match table.class? name with
  | some c => c.parents
  | none => []

def unseen (seen : List String) : Nat :=
  table.classes.countP (! seen.contains ·.name)

def expansion? (expanding : List String) : TypeExpr → Option (String × TypeExpr)
  | .named name =>
    if expanding.contains name then none else (table.expandAlias? name).map (name, ·)
  | _ => none

def unexpanded (expanding : List String) : Nat :=
  table.aliases.countP (! expanding.contains ·.name)

end SymbolTable

end LuaTypes
