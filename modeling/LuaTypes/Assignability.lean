import LuaTypes.SymbolTable

/-!
Assignability: whether a value of one type may stand where another type is expected. `any` and `unknown`
go with everything, tables and classes are only compared as far as both are tables, and literals count as
values of their primitive types. Aliases are expanded, but none within its own expansion, so a recursive
alias is compared by its name the second time.
-/

namespace LuaTypes

namespace TypeExpr

mutual

def size : TypeExpr → Nat
  | .union members => sizeOfList members + 1
  | .optional inner => inner.size + 1
  | .array element => element.size + 1
  | _ => 1

def sizeOfList : List TypeExpr → Nat
  | [] => 0
  | t :: ts => t.size + sizeOfList ts + 1

end

theorem size_pos (t : TypeExpr) : 0 < t.size := by
  cases t <;> simp [size]

def isTop : TypeExpr → Bool
  | .named name => name = "any" || name = "unknown"
  | .vararg => true
  | _ => false

def isNil : TypeExpr → Bool
  | .named name => name = "nil"
  | _ => false

end TypeExpr

def Literal.primitives : Literal → List String
  | .string _ => ["string"]
  | .integer _ => ["integer", "number"]
  | .float _ => ["number"]
  | .boolean _ => ["boolean"]

def Literal.equals : Literal → Literal → Bool
  | .string a, .string b => a = b
  | .integer a, .integer b => a = b
  | .float a, .float b => a == b
  | .boolean a, .boolean b => a = b
  | _, _ => false

namespace SymbolTable

variable (table : SymbolTable)

def isTableLike : TypeExpr → Bool
  | .array _ => true
  | .generic .. => true
  | .table _ => true
  | .named name => name = "table" || table.hasClass name
  | _ => false

def fitsName (source : TypeExpr) (name : String) : Bool :=
  match source with
  | .literal value => value.primitives.contains name
  | .named other =>
    other = name || (name = "number" && other = "integer") ||
      (table.ancestors other).contains name || (name = "table" && table.hasClass other)
  | .function .. => name = "function"
  | .array _ => name = "table" || table.hasClass name
  | .generic .. => name = "table" || table.hasClass name
  | .table _ => name = "table" || table.hasClass name
  | _ => false

def fits (source target : TypeExpr) : Bool :=
  match target with
  | .named name => table.fitsName source name
  | .literal value =>
    match source with
    | .literal other => other.equals value
    | _ => false
  | .array _ => table.isTableLike source
  | .generic .. => table.isTableLike source
  | .table _ => table.isTableLike source
  | .function .. =>
    match source with
    | .function .. => true
    | .named name => name = "function"
    | _ => false
  | _ => false

mutual

/--
Does a value of the source type fit the target type, while the aliases in `expanding` are expanded? Every
alternative of the source has to fit, and then one alternative of the target.
-/
def accepts (expanding : List String) (source target : TypeExpr) : Bool :=
  if source.isTop || target.isTop then true
  else match source, target with
    -- The source goes first: a union fits only if each alternative does, wherever that is.
    | .union members, target => allAccepted expanding members target
    | .optional inner, target =>
      accepts expanding TypeExpr.nil target && accepts expanding inner target
    | source, .union members => anyAccepts expanding source members
    | source, .optional inner => source.isNil || accepts expanding source inner
    | source, target =>
      -- Both sides are single alternatives now, so a name can be replaced by what it stands for.
      match _h : table.expansion? expanding target with
      | some (name, t) => accepts (name :: expanding) source t
      | none =>
        match _h : table.expansion? expanding source with
        | some (name, s) => accepts (name :: expanding) s target
        | none =>
          match source, target with
          | .array s, .array t => accepts expanding s t
          | source, target => table.fits source target
termination_by (table.unexpanded expanding, source.size + target.size)
decreasing_by
  · exact Prod.Lex.right _ (by simp only [TypeExpr.size]; omega)
  · have := TypeExpr.size_pos inner
    exact Prod.Lex.right _ (by simp only [TypeExpr.size, TypeExpr.nil]; omega)
  · exact Prod.Lex.right _ (by simp only [TypeExpr.size]; omega)
  · exact Prod.Lex.right _ (by simp only [TypeExpr.size]; omega)
  · exact Prod.Lex.right _ (by simp only [TypeExpr.size]; omega)
  -- An expansion uses an alias up, and what the alias stands for may be of any size.
  · exact Prod.Lex.left _ _ (table.unexpanded_cons_lt _h)
  · exact Prod.Lex.left _ _ (table.unexpanded_cons_lt _h)
  · exact Prod.Lex.right _ (by simp only [TypeExpr.size]; omega)

def allAccepted (expanding : List String) (sources : List TypeExpr) (target : TypeExpr) : Bool :=
  match sources with
  | [] => true
  | s :: ss => accepts expanding s target && allAccepted expanding ss target
termination_by (table.unexpanded expanding, TypeExpr.sizeOfList sources + target.size)
decreasing_by
  all_goals exact Prod.Lex.right _ (by simp only [TypeExpr.sizeOfList]; omega)

def anyAccepts (expanding : List String) (source : TypeExpr) (targets : List TypeExpr) : Bool :=
  match targets with
  | [] => false
  | t :: ts => accepts expanding source t || anyAccepts expanding source ts
termination_by (table.unexpanded expanding, source.size + TypeExpr.sizeOfList targets)
decreasing_by
  all_goals exact Prod.Lex.right _ (by simp only [TypeExpr.sizeOfList]; omega)

end

def assignable (source target : TypeExpr) : Bool :=
  table.accepts [] source target

end SymbolTable

end LuaTypes
