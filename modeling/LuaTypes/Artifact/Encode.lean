import LuaTypes.Declaration
import LuaTypes.Json

/-!
The rules of the stored form: declarations as JSON values. All members are written, also those with their
default values, and each type names its kind.
-/

namespace LuaTypes

def Literal.toJson : Literal → Json
  | .string value => .string value
  | .integer value => .integer value
  | .float value => .float value
  | .boolean value => .boolean value

namespace TypeExpr

def kindObject (kind : String) (members : List (String × Json)) : Json :=
  .object (("kind", .string kind) :: members)

mutual

def toJson : TypeExpr → Json
  | .named name => kindObject "named" [("name", .string name)]
  | .literal value => kindObject "literal" [("value", value.toJson)]
  | .union members => kindObject "union" [("members", .array (listToJson members))]
  | .optional inner => kindObject "optional" [("inner", inner.toJson)]
  | .array element => kindObject "array" [("element", element.toJson)]
  | .generic name args =>
    kindObject "generic" [("name", .string name), ("args", .array (listToJson args))]
  | .function params returns isAsync =>
    kindObject "function" [("params", .array (paramsToJson params)),
      ("returns", .array (listToJson returns)), ("is_async", .boolean isAsync)]
  | .table fields => kindObject "table" [("fields", .array (fieldsToJson fields))]
  | .vararg => kindObject "vararg" []

def listToJson : List TypeExpr → List Json
  | [] => []
  | t :: ts => t.toJson :: listToJson ts

def optionToJson : Option TypeExpr → Json
  | none => .null
  | some t => t.toJson

def paramsToJson : List (Param TypeExpr) → List Json
  | [] => []
  | ⟨name, type, isOptional⟩ :: ps =>
    .object [("name", .string name), ("type", optionToJson type), ("optional", .boolean isOptional)] ::
      paramsToJson ps

def fieldsToJson : List (Field TypeExpr) → List Json
  | [] => []
  | ⟨name, key, type, isOptional⟩ :: fs =>
    .object [("name", Json.ofOption .string name), ("key_type", optionToJson key),
      ("type", type.toJson), ("optional", .boolean isOptional)] :: fieldsToJson fs

end

end TypeExpr

namespace Declaration

def textToJson : Option String → Json :=
  Json.ofOption .string

def eachToJson {α : Type} (f : α → Json) (xs : List α) : Json :=
  .array (xs.map f)

def Namespace.toJson (ns : Namespace) : Json :=
  .object [("name", .string ns.name), ("class_name", textToJson ns.className)]

def Field.toJson (f : Field) : Json :=
  .object [("name", textToJson f.name), ("key_type", Json.ofOption TypeExpr.toJson f.key),
    ("type", f.type.toJson), ("optional", .boolean f.optional),
    ("description", textToJson f.description)]

def ClassType.toJson (c : ClassType) : Json :=
  .object [("name", .string c.name), ("parents", eachToJson .string c.parents),
    ("description", textToJson c.description), ("fields", eachToJson Field.toJson c.fields)]

def AliasMember.toJson (m : AliasMember) : Json :=
  .object [("type", m.type.toJson), ("description", textToJson m.description)]

def Alias.toJson (a : Alias) : Json :=
  .object [("name", .string a.name), ("base", Json.ofOption TypeExpr.toJson a.base),
    ("members", eachToJson AliasMember.toJson a.members),
    ("description", textToJson a.description)]

def Param.toJson (p : Param) : Json :=
  .object [("name", .string p.name), ("type", p.type.toJson), ("optional", .boolean p.optional),
    ("description", textToJson p.description)]

def Return.toJson (r : Return) : Json :=
  .object [("type", r.type.toJson), ("name", textToJson r.name), ("variadic", .boolean r.variadic),
    ("description", textToJson r.description)]

def Link.toJson (l : Link) : Json :=
  .object [("target", .string l.target), ("description", textToJson l.description)]

def Function.toJson (f : Function) : Json :=
  .object [("namespace", textToJson f.owner), ("name", .string f.name),
    ("is_method", .boolean f.isMethod), ("signature", eachToJson .string f.signature),
    ("params", eachToJson Param.toJson f.params), ("returns", eachToJson Return.toJson f.returns),
    ("description", textToJson f.description), ("deprecated", .boolean f.deprecated),
    ("deprecation_reason", textToJson f.deprecationReason), ("nodiscard", .boolean f.nodiscard),
    ("is_async", .boolean f.isAsync), ("see", eachToJson Link.toJson f.links)]

def File.toJson (f : File) : Json :=
  .object [("meta", textToJson f.marker), ("namespaces", eachToJson Namespace.toJson f.namespaces),
    ("classes", eachToJson ClassType.toJson f.classes), ("aliases", eachToJson Alias.toJson f.aliases),
    ("functions", eachToJson Function.toJson f.functions),
    ("module_return", textToJson f.moduleReturn)]

def Corpus.toJson (corpus : Corpus) : Json :=
  .object [("files", .object (corpus.files.map fun (key, f) => (key, f.toJson)))]

end Declaration

end LuaTypes
