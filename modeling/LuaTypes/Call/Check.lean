import LuaTypes.Assignability
import LuaTypes.Call
import LuaTypes.TypeExpr.Render

/-!
Checking of calls against the declared signature of the function: it has to exist, required arguments have
to be there, arguments have to fit their parameters, and there must not be too many of them.
-/

namespace LuaTypes.Call

open Declaration

inductive Fault where
  | unknownFunction (callee : String)
  | missingArgument (function : String) (number : Nat) (param : String)
  | mismatch (function : String) (number : Nat) (param : String) (expected actual : TypeExpr)
  | tooMany (function : String) (most given : Nat)

namespace Fault

def message : Fault → String
  | .unknownFunction callee => "Unknown function '" ++ callee ++ "'."
  | .missingArgument function number param =>
    "Missing required argument #" ++ Decimal.integerText number ++ " '" ++ param ++ "' in call to '" ++
      function ++ "'."
  | .mismatch function number param expected actual =>
    "Argument #" ++ Decimal.integerText number ++ " '" ++ param ++ "' in call to '" ++ function ++
      "' expects '" ++ expected.render ++ "', got '" ++ actual.render ++ "'."
  | .tooMany function most given =>
    "Too many arguments in call to '" ++ function ++ "': expected at most " ++
      Decimal.integerText most ++ ", got " ++ Decimal.integerText given ++ "."

end Fault

/--
The last documented parameter of a name; one that is not documented may be anything and may be left out.
-/
def documented (f : Function) (name : String) : Param :=
  (f.params.reverse.find? (·.name = name)).getD { name, type := TypeExpr.any, optional := true }

/--
The parameters of a signature with their documentation. Without a signature the documentation counts.
-/
def parameters (f : Function) : List Param :=
  if f.signature.isEmpty then f.params else f.signature.map (documented f)

def splitVariadic (params : List Param) : List Param × Option Param :=
  match params.getLast? with
  | some p => if p.isVariadic then (params.dropLast, some p) else (params, none)
  | none => (params, none)

def fixedFaults (table : SymbolTable) (function : String) (number : Nat)
    : List Param → List TypeExpr → List Fault
  | [], _ => []
  | p :: ps, [] =>
    let rest := fixedFaults table function (number + 1) ps []
    if p.isOptional then rest else .missingArgument function number p.name :: rest
  | p :: ps, arg :: args =>
    let rest := fixedFaults table function (number + 1) ps args
    -- A parameter with a mark may be given `nil` in place of nothing, whatever its type.
    if (p.optional && arg.isNil) || table.assignable arg p.type then rest
    else .mismatch function number p.name p.type arg :: rest

def variadicFaults (table : SymbolTable) (function : String) (p : Param) (number : Nat)
    : List TypeExpr → List Fault
  | [] => []
  | arg :: args =>
    let rest := variadicFaults table function p (number + 1) args
    if table.assignable arg p.type then rest else .mismatch function number "..." p.type arg :: rest

def faultsOf (table : SymbolTable) (f : Function) (args : List TypeExpr) : List Fault :=
  let (fixed, variadic) := splitVariadic (parameters f)
  let extra := args.drop fixed.length
  fixedFaults table f.qualifiedName 1 fixed args ++
    match variadic with
    | some p => variadicFaults table f.qualifiedName p (fixed.length + 1) extra
    | none =>
      if extra.isEmpty then [] else [.tooMany f.qualifiedName fixed.length args.length]

def check (table : SymbolTable) (call : Call) : List Fault :=
  match table.function? call.callee with
  | none => [.unknownFunction call.callee]
  | some f => faultsOf table f call.args

def checkValue (table : SymbolTable) (value : TypeExpr) (type : String)
    : Except (ReadError TypeExpr.Problem) Bool := do
  return table.assignable value (← TypeExpr.parse type)

end LuaTypes.Call
