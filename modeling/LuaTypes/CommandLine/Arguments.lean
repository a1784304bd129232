import LuaTypes.Text.Blank
import LuaTypes.Text.Numeral
import LuaTypes.Text.Quoted

/-!
Arguments of a command: switches with one or two dashes, and operands. A switch may be shortened as long
as its name stays clear, its value may follow it or stand behind an equality sign, and switches with one
dash may stand together. After two dashes alone everything is an operand.
-/

namespace LuaTypes.CommandLine

structure Switch where
  names : List String
  takesValue : Bool := false
  deriving DecidableEq, Repr

inductive Arity where
  | one
  | optional
  | remaining
  deriving DecidableEq, Repr

structure Operand where
  name : String
  arity : Arity
  choices : List String := []
  deriving DecidableEq, Repr

structure Grammar where
  program : String
  usage : String
  help : String
  switches : List Switch
  operands : List Operand

inductive Problem where
  | ambiguous (argument : String) (names : List String)
  | noValue (switch : Switch)
  | unusedValue (switch : Switch) (value : String)
  | invalidChoice (operand : Operand) (value : String)
  | missing (names : List String)
  | unrecognized (arguments : List String)
  deriving DecidableEq, Repr

namespace Problem

def message : Problem → String
  | .ambiguous argument names =>
    "ambiguous option: " ++ argument ++ " could match " ++ Text.join ", " names
  | .noValue switch => "argument " ++ Text.join "/" switch.names ++ ": expected one argument"
  | .unusedValue switch value =>
    "argument " ++ Text.join "/" switch.names ++ ": ignored explicit argument " ++ Text.quoted value
  | .invalidChoice operand value =>
    "argument " ++ operand.name ++ ": invalid choice: " ++ Text.quoted value ++ " (choose from " ++
      Text.join ", " (operand.choices.map Text.quoted) ++ ")"
  | .missing names => "the following arguments are required: " ++ Text.join ", " names
  | .unrecognized arguments => "unrecognized arguments: " ++ Text.join " " arguments

end Problem

inductive Stop where
  | help
  | problem (problem : Problem)
  deriving DecidableEq, Repr

/-! Words -/

structure Attached where
  value : List Char
  behindSign : Bool

inductive Word where
  | operand
  | separator
  | unknown
  | switch (switch : Switch) (name : String) (attached : Option Attached)

namespace Word

def isSwitch : Word → Bool
  | .unknown | .switch .. => true
  | _ => false

def isSeparator : Word → Bool
  | .separator => true
  | _ => false

def isOperand : Word → Bool
  | .operand => true
  | _ => false

end Word

namespace Grammar

def names (g : Grammar) : List (String × Switch) :=
  g.switches.flatMap fun s => s.names.map (·, s)

def switch? (g : Grammar) (name : String) : Option Switch :=
  g.names.lookup name

def splitSign (text : List Char) : List Char × Option (List Char) :=
  let name := text.takeWhile (· ≠ '=')
  (name, (text.drop name.length).tail?)

/--
The switches that an argument may stand for: with two dashes those whose names it shortens, with one
dash also the one of a single letter that it starts with.
-/
def candidates (g : Grammar) (argument : List Char) : List Word :=
  match argument with
  | '-' :: '-' :: _ =>
    let (name, value) := splitSign argument
    (g.names.filter fun n => name.isPrefixOf n.1.toList).map fun (n, s) =>
      .switch s n (value.map (⟨·, true⟩))
  | _ =>
    g.names.filterMap fun (n, s) =>
      if n.toList = argument.take 2 then some (.switch s n (some ⟨argument.drop 2, false⟩))
      else if argument.isPrefixOf n.toList then some (.switch s n none)
      else none

def candidateName : Word → String
  | .switch _ name _ => name
  | _ => ""

def isDigit (c : Char) : Bool :=
  (Text.decimalValue? c).isSome

def isNegativeNumber : List Char → Bool
  | '-' :: cs =>
    let places := cs.dropWhile isDigit
    if places.isEmpty then ! cs.isEmpty
    else match places with
      | '.' :: d :: ds => (d :: ds).all isDigit
      | _ => false
  | _ => false

def classify (g : Grammar) (argument : String) : Except Stop Word :=
  let cs := argument.toList
  let (name, value) := splitSign cs
  if cs.head? ≠ some '-' then .ok .operand
  else
    match g.switch? argument with
    | some s => .ok (.switch s argument none)
    | none =>
      -- A lone dash names a stream, not a switch.
      if cs.length = 1 then .ok .operand
      else
        match g.switch? (String.ofList name), value with
        | some s, some v => .ok (.switch s (String.ofList name) (some ⟨v, true⟩))
        | _, _ =>
          match g.candidates cs with
          | [word] => .ok word
          | w :: ws => .error (.problem (.ambiguous argument ((w :: ws).map candidateName)))
          -- No switch has a name like a number, so what looks like a negative one is an operand.
          | [] => .ok (if isNegativeNumber cs || cs.contains ' ' then .operand else .unknown)

def words (g : Grammar) : List String → Except Stop (List (String × Word))
  | [] => .ok []
  | a :: as =>
    if a = "--" then .ok ((a, .separator) :: as.map (·, .operand))
    else do
      let word ← g.classify a
      return (a, word) :: (← g.words as)

end Grammar

/-! Reading -/

structure Parsed where
  operands : List (String × String) := []
  switches : List (String × Option String) := []
  remaining : List String := []
  extras : List String := []

namespace Parsed

def operand? (p : Parsed) (name : String) : Option String :=
  p.operands.lookup name

def hasSwitch (p : Parsed) (name : String) : Bool :=
  p.switches.any (·.1 = name)

def value? (p : Parsed) (name : String) : Option String :=
  (p.switches.reverse.lookup name).join

end Parsed

def Switch.name (s : Switch) : String :=
  s.names.headD ""

def helpSwitch : Switch := ⟨["-h", "--help"], false⟩

structure Taken where
  switches : List (Switch × Option String) := []
  takesNext : Bool := false
  extras : List String := []

def takeSwitches (g : Grammar) (next : Option String)
    : Nat → Switch → String → Option Attached → Except Stop Taken
  | _, s, _, none =>
    if ! s.takesValue then .ok { switches := [(s, none)] }
    else match next with
      | none => .error (.problem (.noValue s))
      | some v => .ok { switches := [(s, some v)], takesNext := true }
  | 0, s, _, some a => .error (.problem (.unusedValue s (String.ofList a.value)))
  | fuel + 1, s, name, some a =>
    if s.takesValue then .ok { switches := [(s, some (String.ofList a.value))] }
    else
      match a.value, name.toList with
      | c :: cs, _ :: second :: _ =>
        if second = '-' ∨ a.behindSign ∨ c = '-' then
          .error (.problem (.unusedValue s (String.ofList a.value)))
        else
          match g.switch? (String.ofList ['-', c]) with
          | none => .ok { switches := [(s, none)], extras := [String.ofList ('-' :: c :: cs)] }
          | some s' => do
            let attached := match cs with
              | [] => none
              | '=' :: cs => some ⟨cs, true⟩
              | cs => some ⟨cs, false⟩
            let taken ← takeSwitches g next fuel s' (String.ofList ['-', c]) attached
            return { taken with switches := (s, none) :: taken.switches }
      | _, _ => .error (.problem (.unusedValue s (String.ofList a.value)))

def Operand.count? (o : Operand) (words : List Word) : Option Nat :=
  let leading := (words.takeWhile Word.isSeparator).length
  let rest := words.drop leading
  let found := rest.head?.any Word.isOperand
  let trailing := (rest.tail.takeWhile Word.isSeparator).length
  match o.arity with
  | .remaining => if found then some words.length else none
  | .one => if found then some (leading + 1 + trailing) else none
  | .optional => some (if found then leading + 1 + trailing else leading)

def takeOperand (p : Parsed) (o : Operand) (arguments : List String) : Except Stop Parsed :=
  match o.arity with
  | .remaining =>
    let first := arguments.headD ""
    if o.choices.contains first then .ok { p with remaining := arguments }
    else .error (.problem (.invalidChoice o first))
  | _ =>
    match arguments.erase "--" with
    | [] => .ok p
    | a :: _ => .ok { p with operands := (o.name, a) :: p.operands }

def takeOperands (p : Parsed) (words : List (String × Word))
    : List Operand → Except Stop (Parsed × List Operand × Nat)
  | [] => .ok (p, [], 0)
  | o :: os =>
    match o.count? (words.map (·.2)) with
    | none => .ok (p, o :: os, 0)
    | some n => do
      let p ← takeOperand p o ((words.take n).map (·.1))
      let (p, os, more) ← takeOperands p (words.drop n) os
      return (p, os, n + more)

/--
Reads words up to the last one. Words in front of a switch that no operand takes have no meaning.
-/
def takeWords (g : Grammar) (p : Parsed) (operands : List Operand)
    : Nat → List (String × Word) → Except Stop (Parsed × List Operand)
  | 0, words => .ok ({ p with extras := p.extras ++ words.map (·.1) }, operands)
  | fuel + 1, words =>
    match words with
    | (a, .unknown) :: rest => takeWords g { p with extras := p.extras ++ [a] } operands fuel rest
    | (_, .switch s name attached) :: rest => do
      let next := match rest with
        | (a, .operand) :: _ => some a
        | _ => none
      let fuel' := attached.elim 0 (·.value.length) + 1
      let taken ← takeSwitches g next fuel' s name attached
      -- Help is given at once, whatever else is wrong with the arguments.
      if taken.switches.any (·.1 = helpSwitch) then throw .help
      let p := { p with
        switches := p.switches ++ taken.switches.map (fun (s, v) => (s.name, v))
        extras := p.extras ++ taken.extras }
      takeWords g p operands fuel (if taken.takesNext then rest.drop 1 else rest)
    | _ => do
      let (p, operands, n) ← takeOperands p words operands
      if (words.drop n).any (·.2.isSwitch) then
        let skipped := if n = 0 then words.takeWhile (! ·.2.isSwitch) else []
        takeWords g { p with extras := p.extras ++ skipped.map (·.1) } operands fuel
          (words.drop (n + skipped.length))
      else return ({ p with extras := p.extras ++ (words.drop n).map (·.1) }, operands)

def Grammar.parse (g : Grammar) (arguments : List String) : Except Stop Parsed := do
  let words ← g.words arguments
  let (p, left) ← takeWords g {} g.operands (2 * words.length + 2) words
  match (left.filter (·.arity = .one)).map (·.name) with
  | [] => return p
  | names => throw (.problem (.missing names))

end LuaTypes.CommandLine
