import LuaTypes.Call.Check
import LuaTypes.Proofs.Assignability.Rules
import LuaTypes.Proofs.TypeExpr.Induction

/-!
Arguments that are left out. A call may end before an optional parameter, or have `nil` there. A type may
lack an argument by its form, and takes `nil` by the rules of assignability: the two agree where no alias
gives `nil` another meaning.
-/

namespace LuaTypes

open Declaration

namespace TypeExpr

theorem anyNullable_eq (ts : List TypeExpr) : anyNullable ts = ts.any isNullable := by
  induction ts with
  | nil => simp [anyNullable]
  | cons t ts ih => rw [anyNullable, ih, List.any_cons]

end TypeExpr

namespace SymbolTable

open TypeExpr

variable {table : SymbolTable} {expanding : List String} {t : TypeExpr}

theorem accepts_nil_nil (hnil : table.expandAlias? "nil" = none) : table.accepts expanding .nil .nil = true := by
  have hnone : table.expansion? expanding .nil = none := by
    simp [expansion?, TypeExpr.nil, hnil]
  have hbare : table.Bare expanding .nil .nil :=
    ⟨rfl, rfl, rfl, rfl, hnone, hnone, fun _ _ ha => by cases ha⟩
  rw [hbare.accepts_eq]
  simp [fits, fitsName, TypeExpr.nil]

theorem accepts_nil_of_isNullable (hnil : table.expandAlias? "nil" = none) (h : t.isNullable = true)
    : table.accepts expanding .nil t = true := by
  induction t with
  | named name =>
    obtain rfl : name = "nil" := by simpa [isNullable] using h
    exact accepts_nil_nil hnil
  | union members ih =>
    rw [isNullable, anyNullable_eq, List.any_eq_true] at h
    obtain ⟨t, ht, h⟩ := h
    rw [accepts_union_right rfl rfl, List.any_eq_true]
    exact ⟨t, ht, ih t ht h⟩
  | optional inner => rw [accepts_optional_right rfl]; rfl
  | _ => cases h

end SymbolTable

namespace Call

variable {table : SymbolTable} {f : Function} {p : Param} {params : List Param} {args : List TypeExpr}

theorem takes_nil_of_isOptional (hnil : table.expandAlias? "nil" = none) (h : p.isOptional = true)
    : ((p.optional && TypeExpr.nil.isNil) || table.assignable .nil p.type) = true := by
  rw [Param.isOptional, Bool.or_eq_true] at h
  rw [Bool.or_eq_true, Bool.and_eq_true]
  exact h.imp (fun hmark => ⟨hmark, rfl⟩) (SymbolTable.accepts_nil_of_isNullable hnil)

theorem fixedFaults_append_nil (hnil : table.expandAlias? "nil" = none) (hp : params[args.length]? = some p)
    (hoptional : p.isOptional = true) (function : String) (number : Nat)
    : fixedFaults table function number params (args ++ [.nil]) = fixedFaults table function number params args := by
  induction params generalizing args number with
  | nil => cases hp
  | cons q params ih =>
    cases args with
    | nil =>
      obtain rfl : q = p := by simpa using hp
      rw [List.nil_append, fixedFaults, fixedFaults, if_pos (takes_nil_of_isOptional hnil hoptional), if_pos hoptional]
    | cons arg args =>
      rw [List.cons_append, fixedFaults, fixedFaults, ih (by simpa using hp)]

theorem faultsOf_of_length_le (h : args.length ≤ (splitVariadic (parameters f)).1.length)
    : faultsOf table f args = fixedFaults table f.qualifiedName 1 (splitVariadic (parameters f)).1 args := by
  simp only [faultsOf, List.drop_eq_nil_of_le h]
  cases (splitVariadic (parameters f)).2 with
  | none => simp
  | some p => simp [variadicFaults]

/--
Where a call ends before an optional parameter, a further `nil` makes no difference.
-/
theorem check_append_nil (hnil : table.expandAlias? "nil" = none) {callee : String}
    (hf : table.function? callee = some f) (hp : (splitVariadic (parameters f)).1[args.length]? = some p)
    (hoptional : p.isOptional = true)
    : check table ⟨callee, args ++ [.nil]⟩ = check table ⟨callee, args⟩ := by
  obtain ⟨hlt, -⟩ := List.getElem?_eq_some_iff.1 hp
  have hlength : (args ++ [TypeExpr.nil]).length ≤ (splitVariadic (parameters f)).1.length := by
    rw [List.length_append]
    exact hlt
  simp only [check, hf]
  rw [faultsOf_of_length_le hlength, faultsOf_of_length_le (Nat.le_of_lt hlt),
    fixedFaults_append_nil hnil hp hoptional]

def drawTextColor : Param :=
  { name := "color", type := .union [.named "screen.color", .optional (.named "number")] }

def drawText : Function where
  owner := some "screen"
  name := "drawText"
  signature := ["text", "line", "color", "level", "..."]
  params :=
    [{ name := "text", type := .named "string" },
      { name := "line", type := .named "number", optional := true },
      drawTextColor,
      { name := "level", type := .named "number" }]

def screens : SymbolTable where
  aliases :=
    [{ name := "screen.color", base := some (.union [.literal (.string "red"), .literal (.string "blue")]) }]
  functions := [drawText]

theorem check_append_nil_drawText
    : screens.expandAlias? "nil" = none ∧ screens.function? "screen.drawText" = some drawText ∧
      (splitVariadic (parameters drawText)).1[2]? = some drawTextColor ∧ drawTextColor.isOptional = true ∧
      (check screens ⟨"screen.drawText", [.literal (.integer 3), .literal (.integer 1)]⟩).length = 2 ∧
      check screens ⟨"screen.drawText", [.literal (.integer 3), .literal (.integer 1)] ++ [.nil]⟩
        = check screens ⟨"screen.drawText", [.literal (.integer 3), .literal (.integer 1)]⟩ := by
  have hf : screens.function? "screen.drawText" = some drawText := by
    rfl
  have hcolor : (splitVariadic (parameters drawText)).1[2]? = some drawTextColor := by
    rfl
  have hoptional : drawTextColor.isOptional = true := by
    decide
  exact ⟨rfl, hf, hcolor, hoptional, by cbv, check_append_nil rfl hf hcolor hoptional⟩

end Call

end LuaTypes
