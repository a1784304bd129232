import LuaTypes.Declaration

/-!
The types that are written in a file, each at its place.
-/

namespace LuaTypes.Declaration

inductive File.Writes (file : File) : TypeExpr → Prop where
  | base {a t} : a ∈ file.aliases → a.base = some t → Writes file t
  | member {a m} : a ∈ file.aliases → m ∈ a.members → Writes file m.type
  | key {c f t} : c ∈ file.classes → f ∈ c.fields → f.key = some t → Writes file t
  | field {c f} : c ∈ file.classes → f ∈ c.fields → Writes file f.type
  | param {f p} : f ∈ file.functions → p ∈ f.params → Writes file p.type
  | result {f r} : f ∈ file.functions → r ∈ f.returns → Writes file r.type

def Corpus.Writes (corpus : Corpus) (t : TypeExpr) : Prop :=
  ∃ m ∈ corpus.files, m.2.Writes t

end LuaTypes.Declaration
