import LuaTypes.Declaration.Annotation

/-!
Reading of declaration files. Blocks are taken in order, and the first that is wrong decides the error.
-/

namespace LuaTypes.Declaration

def splitFunctionName (name : List Char) : Option String × String × Bool :=
  match Text.splitAtLast? ':' name with
  | some (owner, name) => (some (String.ofList owner), String.ofList name, true)
  | none =>
    match Text.splitAtLast? '.' name with
    | some (owner, name) => (some (String.ofList owner), String.ofList name, false)
    | none => (none, String.ofList name, false)

def Annotations.function (a : Annotations) (fullName : List Char) (signature : List String)
    : Function :=
  let (owner, name, isMethod) := splitFunctionName fullName
  { owner, name, isMethod, signature
    params := a.params
    returns := a.returns
    description := a.description?
    deprecated := a.deprecated
    deprecationReason := a.deprecationReason
    nodiscard := a.nodiscard
    isAsync := a.isAsync
    links := a.links }

namespace File

def addAnnotations (f : File) (a : Annotations) : File :=
  { f with
    marker := a.marker.or f.marker
    aliases := f.aliases ++ a.aliases
    classes := f.classes ++ a.classes }

/--
The file with the declarations of one block more. Prose before a function describes the function; other
prose describes what the annotations declare.
-/
def addBlock (f : File) (block : Block) : Except Error File := do
  let a ← Annotations.ofDocs {} false false block.docs
  let statement := block.statement.bind Statement.parse?
  match a.functionTag, statement with
  | some _, some (.function name params) =>
    let f := f.addAnnotations a
    return { f with functions := f.functions ++ [a.function name params] }
  -- A tag without its function is reported before the statement is looked at.
  | some position, _ => .error (.grammar .noFunction position)
  | none, some (.function name params) =>
    let f := f.addAnnotations a
    return { f with functions := f.functions ++ [a.function name params] }
  | none, statement =>
    let a := a.describe a.description?
    let f := f.addAnnotations a
    match block.statement, statement with
    | none, _ => return f
    | some _, some (.table name) =>
      let ns : Namespace :=
        { name := String.ofList name, className := (a.classes.getLast?).map (·.name) }
      return { f with namespaces := f.namespaces ++ [ns] }
    | some _, some (.moduleReturn name) =>
      return { f with moduleReturn := some (String.ofList name) }
    | some text, _ =>
      .error (.grammar (.unsupportedStatement (String.ofList text)) ⟨block.line, 1⟩)

def addBlocks (f : File) : List Block → Except Error File
  | [] => .ok f
  | b :: bs =>
    match f.addBlock b with
    | .ok f => f.addBlocks bs
    | .error e => .error e

def parse (source : String) : Except Error File := do
  let (blocks, comment) := Block.ofLines none [] 1 (Text.lines source.toList)
  -- An error in a block comes first, since it stands above the end of the file.
  let f ← addBlocks {} blocks
  match comment with
  | some c => .error (.grammar .unterminatedComment ⟨c.line, 1⟩)
  | none => return f

end File

end LuaTypes.Declaration
