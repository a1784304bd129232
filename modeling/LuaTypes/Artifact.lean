import LuaTypes.Artifact.Codec
import LuaTypes.Json.Printer
import LuaTypes.Json.Reader

/-!
Artifacts: the stored form of files and of corpora. A JSON object holds the version of the format and,
under a name of its own, what is stored.
-/

namespace LuaTypes.Artifact

open Declaration

def version : String := "1"

inductive Error where
  | malformed
  | number (fault : Decimal.NumberFault)
  | notObject
  | version (found : Json)
  | noPayload (key : String)
  | payload

namespace Error

def message : Error → String
  | .malformed => "Invalid artifact JSON"
  | .number fault => fault.message
  | .notObject => "Artifact must be a JSON object"
  | .version found => "Unsupported artifact format version: " ++ found.display
  | .noPayload key => "Artifact has no " ++ Text.quoted key ++ " payload"
  | .payload => "Invalid artifact payload"

end Error

def envelope (key : String) (payload : Json) : Json :=
  .object [("v", .string version), (key, payload)]

def isVersion : Json → Bool
  | .string v => v = version
  | _ => false

def payload (key : String) (text : String) : Except Error Json :=
  match Json.parse text with
  | .error .malformed => .error .malformed
  | .error (.number fault) => .error (.number fault)
  | .ok (.object members) =>
    let found := (Json.lookup? "v" members).getD .null
    -- The version comes first: artifacts of another one may hold other payloads.
    if isVersion found then
      match Json.lookup? key members with
      | some v => .ok v
      | none => .error (.noPayload key)
    else .error (.version found)
  | .ok _ => .error .notObject

/-! Writing -/

/--
Why there is no artifact: the codec does not let the record through, or the indentation is no index.
-/
inductive Refusal where
  | nested (text : String)
  | indentation
  deriving DecidableEq, Repr

def Refusal.message : Refusal → String
  | .nested text => text
  | .indentation => "cannot fit 'int' into an index-sized integer"

def ofFile (f : File) : String :=
  (envelope "file" f.toJson).compact

def ofCorpus (corpus : Corpus) (indentation : Option Int) : String :=
  (envelope "corpus" corpus.toJson).print (layout indentation) 0
where
  layout : Option Int → Json.Layout
    | none => .compact
    | some n => .indented n.toNat

def isIndex (indentation : Option Int) : Bool :=
  indentation.all fun n => -0x8000000000000000 ≤ n && n < 0x8000000000000000

variable [Codec]

def serialize (f : File) : Except Refusal String := do
  let v ← (Codec.file.encode f).mapError .nested
  return (envelope "file" v).compact

def serializeCorpus (corpus : Corpus) (indentation : Option Int) : Except Refusal String := do
  let v ← (Codec.corpus.encode corpus).mapError .nested
  if isIndex indentation then
    return (envelope "corpus" v).print (ofCorpus.layout indentation) 0
  else throw .indentation

/-! Reading -/

def toFile (text : String) : Except Error File := do
  match Codec.file.decode? (← payload "file" text) with
  | some f => return f
  | none => .error .payload

def toCorpus (text : String) : Except Error Corpus := do
  match Codec.corpus.decode? (← payload "corpus" text) with
  | some corpus => return corpus
  | none => .error .payload

end LuaTypes.Artifact
