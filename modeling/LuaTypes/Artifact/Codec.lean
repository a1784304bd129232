import LuaTypes.Artifact.Decode
import LuaTypes.Artifact.Encode

/-!
The library by which records become JSON values and come back. It is a parameter of all that is stored: what
it does with records whose types are nested too deeply is its own affair.
-/

namespace LuaTypes

namespace TypeExpr

mutual

def nesting : TypeExpr → Nat
  | .union members => listNesting members + 1
  | .optional inner => inner.nesting + 1
  | .array element => element.nesting + 1
  | .generic _ args => listNesting args + 1
  | .function params returns _ => max (paramsNesting params) (listNesting returns) + 1
  | .table fields => fieldsNesting fields + 1
  | .named _ => 1
  | .literal _ => 1
  | .vararg => 1

def listNesting : List TypeExpr → Nat
  | [] => 0
  | t :: ts => max t.nesting (listNesting ts)

def optionNesting : Option TypeExpr → Nat
  | none => 0
  | some t => t.nesting

def paramsNesting : List (Param TypeExpr) → Nat
  | [] => 0
  | ⟨_, type, _⟩ :: ps => max (optionNesting type) (paramsNesting ps)

def fieldsNesting : List (Field TypeExpr) → Nat
  | [] => 0
  | ⟨_, key, type, _⟩ :: fs => max (max (optionNesting key) type.nesting) (fieldsNesting fs)

end

end TypeExpr

namespace Declaration

def File.types (f : File) : List TypeExpr :=
  (f.classes.flatMap (·.fields)).flatMap (fun field => field.key.toList ++ [field.type]) ++
    f.aliases.flatMap (fun a => a.base.toList ++ a.members.map (·.type)) ++
    f.functions.flatMap fun fn => fn.params.map (·.type) ++ fn.returns.map (·.type)

def File.nesting (f : File) : Nat :=
  TypeExpr.listNesting f.types

def Corpus.nesting (corpus : Corpus) : Nat :=
  TypeExpr.listNesting (corpus.files.flatMap (·.2.types))

end Declaration

namespace Artifact

open Declaration

/--
Both ways between the records of one kind and JSON values. A record that is refused comes with a text that
says why.
-/
structure Coder (α : Type) where
  encode : α → Except String Json
  decode? : Json → Option α

/--
The coders of what is stored, and how deeply types may be nested for both ways to be open.
-/
class Codec where
  limit : Nat
  file : Coder File
  corpus : Coder Corpus

/--
A coder by given rules that lets no record through whose types are nested up to the limit.
-/
def Coder.guarded {α : Type} (limit : Nat) (nesting : α → Nat) (toJson : α → Json)
    (ofJson? : Json → Option α) : Coder α where
  encode x :=
    if nesting x < limit then .ok (toJson x) else .error "Circular reference detected (depth exceeded)"
  decode? v := (ofJson? v).filter (nesting · < limit)

def Codec.defaultLimit : Nat := 255

instance : Codec where
  limit := Codec.defaultLimit
  file := .guarded Codec.defaultLimit File.nesting File.toJson File.ofJson?
  corpus := .guarded Codec.defaultLimit Corpus.nesting Corpus.toJson Corpus.ofJson?

end Artifact

end LuaTypes
