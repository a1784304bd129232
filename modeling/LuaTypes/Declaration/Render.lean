import LuaTypes.Declaration
import LuaTypes.TypeExpr.Render

/-!
The canonical form of a declaration file: the marker, the aliases, the classes, each with the table that
it types, the other tables, the functions and the return, with an empty line between any two of them.
-/

namespace LuaTypes.Declaration

def tagLine (tag : String) (text : String) : String :=
  "--- @" ++ tag ++ (if text.isEmpty then "" else " " ++ text)

def proseLines : Option String → List String
  | none => []
  | some d =>
    (Text.splitAtEach '\n' d.toList).map fun line =>
      if line.isEmpty then "---" else "--- " ++ String.ofList line

def withDescription (text mark : String) : Option String → String
  | none => text
  | some d => if d.isEmpty then text else text ++ mark ++ d

def optionalMark (isOptional : Bool) : String :=
  if isOptional then "?" else ""

namespace Field

def render (f : Field) : String :=
  let key := TypeExpr.renderKey f.name f.optional f.key
  tagLine "field" (withDescription (key ++ " " ++ f.type.render) " # " f.description)

end Field

namespace ClassType

def renderLines (c : ClassType) : List String :=
  let parents := if c.parents.isEmpty then "" else " : " ++ Text.join ", " c.parents
  proseLines c.description ++ tagLine "class" (c.name ++ parents) :: c.fields.map Field.render

end ClassType

namespace Alias

def renderLines (a : Alias) : List String :=
  let base := match a.base with
    | none => ""
    | some t => " " ++ t.render
  proseLines a.description ++ tagLine "alias" (a.name ++ base) ::
    a.members.map fun m => withDescription ("--- | " ++ m.type.render) " # " m.description

end Alias

namespace Param

def render (p : Param) : String :=
  let text := p.name ++ optionalMark p.optional ++ " " ++ p.type.render
  tagLine "param" (withDescription text " # " p.description)

end Param

namespace Return

def render (r : Return) : String :=
  let name :=
    if r.variadic then " ..."
    else match r.name with
      | none => ""
      | some name => " " ++ name
  tagLine "return" (withDescription (r.type.render ++ name) " # " r.description)

end Return

namespace Function

def tagLines (f : Function) : List String :=
  (if f.deprecated then [tagLine "deprecated" (f.deprecationReason.getD "")] else []) ++
    f.links.map (fun l => tagLine "see" (withDescription l.target " " l.description)) ++
    (if f.isAsync then [tagLine "async" ""] else []) ++
    (if f.nodiscard then [tagLine "nodiscard" ""] else []) ++
    f.params.map Param.render ++ f.returns.map Return.render

def renderLines (f : Function) : List String :=
  let prose := proseLines f.description
  let tags := f.tagLines
  prose ++ (if prose.isEmpty || tags.isEmpty then [] else ["---"]) ++ tags ++
    ["function " ++ f.qualifiedName ++ "(" ++ Text.join ", " f.signature ++ ") end"]

end Function

namespace Namespace

def render (name : String) : String :=
  name ++ " = \x7b\x7d"

def boundTo? (namespaces : List Namespace) (className : String) : Option String :=
  (namespaces.reverse.find? fun ns => ns.className = some className).map (·.name)

end Namespace

namespace File

/--
The blocks of classes. The first class of a name takes the table of that type; `named` are the names of
the classes before.
-/
def classBlocks (namespaces : List Namespace) (named : List String)
    : List ClassType → List (List String)
  | [] => []
  | c :: cs =>
    let table := if named.contains c.name then none else Namespace.boundTo? namespaces c.name
    (c.renderLines ++ (table.map Namespace.render).toList) ::
      classBlocks namespaces (c.name :: named) cs

def isFree (classes : List ClassType) (ns : Namespace) : Bool :=
  match ns.className with
  | none => true
  | some name => ! classes.any (·.name = name)

def blocks (f : File) : List (List String) :=
  (f.marker.map fun text => [tagLine "meta" text]).toList ++
    f.aliases.map Alias.renderLines ++
    classBlocks f.namespaces [] f.classes ++
    (f.namespaces.filter (isFree f.classes)).map (fun ns => [Namespace.render ns.name]) ++
    f.functions.map Function.renderLines ++
    (f.moduleReturn.map fun name => ["return " ++ name]).toList

def render (f : File) : String :=
  Text.join "\n\n" (f.blocks.map (Text.join "\n")) ++ "\n"

end File

end LuaTypes.Declaration
