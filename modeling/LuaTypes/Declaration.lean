import LuaTypes.TypeExpr.Equality

/-!
Declarations of a library: the tables, classes, aliases and functions that one file declares, and the
corpus of all files.
-/

namespace LuaTypes.Declaration

inductive Kind where
  | alias
  | classType
  | globalTable
  | function
  deriving DecidableEq, Repr

def Kind.text : Kind → String
  | .alias => "Alias"
  | .classType => "Class"
  | .globalTable => "Namespace"
  | .function => "Function"

structure Namespace where
  name : String
  className : Option String := none
  deriving DecidableEq

structure Field where
  name : Option String := none
  key : Option TypeExpr := none
  type : TypeExpr
  optional : Bool := false
  description : Option String := none
  deriving DecidableEq

structure ClassType where
  name : String
  parents : List String := []
  description : Option String := none
  fields : List Field := []
  deriving DecidableEq

structure AliasMember where
  type : TypeExpr
  description : Option String := none
  deriving DecidableEq

/--
A name for a type. The type behind the name and the alternatives on the lines below it are kept apart.
-/
structure Alias where
  name : String
  base : Option TypeExpr := none
  members : List AliasMember := []
  description : Option String := none
  deriving DecidableEq

namespace Alias

def type (a : Alias) : TypeExpr :=
  match a.base.toList ++ a.members.map (·.type) with
  | [t] => t
  | ts => .union ts

def literal? : TypeExpr → Option Literal
  | .literal value => some value
  | _ => none

def literalValues? (a : Alias) : Option (List Literal) :=
  match a.type with
  | .union members => members.mapM literal?
  | t => [t].mapM literal?

end Alias

structure Param where
  name : String
  type : TypeExpr
  optional : Bool := false
  description : Option String := none
  deriving DecidableEq

namespace Param

def isVariadic (p : Param) : Bool :=
  p.name = "..."

/--
May the argument be left out? It may if the name is marked, and if the type has `nil`.
-/
def isOptional (p : Param) : Bool :=
  p.optional || p.type.isNullable

end Param

structure Return where
  type : TypeExpr
  name : Option String := none
  variadic : Bool := false
  description : Option String := none
  deriving DecidableEq

structure Link where
  target : String
  description : Option String := none
  deriving DecidableEq

structure Function where
  owner : Option String := none
  name : String
  isMethod : Bool := false
  signature : List String := []
  params : List Param := []
  returns : List Return := []
  description : Option String := none
  deprecated : Bool := false
  deprecationReason : Option String := none
  nodiscard : Bool := false
  isAsync : Bool := false
  links : List Link := []
  deriving DecidableEq

def Function.qualifiedName (f : Function) : String :=
  match f.owner with
  | none => f.name
  | some owner => owner ++ (if f.isMethod then ":" else ".") ++ f.name

/--
The contents of one file. The marker is the text of its `@meta` line.
-/
structure File where
  marker : Option String := none
  namespaces : List Namespace := []
  classes : List ClassType := []
  aliases : List Alias := []
  functions : List Function := []
  moduleReturn : Option String := none
  deriving DecidableEq

structure Corpus where
  files : List (String × File) := []
  deriving DecidableEq

namespace Corpus

def insertFile (key : String) (file : File) : List (String × File) → List (String × File)
  | [] => [(key, file)]
  | (k, f) :: rest => if k = key then (k, file) :: rest else (k, f) :: insertFile key file rest

def insert (corpus : Corpus) (key : String) (file : File) : Corpus :=
  ⟨insertFile key file corpus.files⟩

def namespaces (corpus : Corpus) : List Namespace :=
  corpus.files.flatMap (·.2.namespaces)

def classes (corpus : Corpus) : List ClassType :=
  corpus.files.flatMap (·.2.classes)

def aliases (corpus : Corpus) : List Alias :=
  corpus.files.flatMap (·.2.aliases)

def functions (corpus : Corpus) : List Function :=
  corpus.files.flatMap (·.2.functions)

end Corpus

end LuaTypes.Declaration
