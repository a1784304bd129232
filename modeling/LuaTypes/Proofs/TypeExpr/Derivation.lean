import LuaTypes.Proofs.TypeExpr.Reading

/-!
The grammar of types, as relations between words of lexemes and what they stand for. The number is that of
the brackets around a phrase: returned types go on over commas only where it is zero. The grammar is
ambiguous, since what follows a function type can belong to it or to one of the types that it returns.
-/

namespace LuaTypes.TypeExpr.Derives

inductive Separated {α : Type} (Phrase : List Lexeme → Nat → α → Prop) (separator : Symbol)
    : List Lexeme → Nat → List α → Prop where
  | one {w d x} : Phrase w d x → Separated Phrase separator w d [x]
  | cons {v w d x xs} : Phrase v d x → Separated Phrase separator w d xs →
      Separated Phrase separator (v ++ .symbol separator :: w) d (x :: xs)

/--
The marks behind a type, which make the second type of the first one.
-/
inductive Marks : List Lexeme → TypeExpr → TypeExpr → Prop where
  | nil {t} : Marks [] t t
  | array {w t u} : Marks w (.array t) u → Marks (.symbol .brackets :: w) t u
  | optional {w t u} : Marks w (.optional t) u → Marks (.symbol .question :: w) t u

inductive ParamName : Lexeme → String → Prop where
  | name (s : String) : ParamName (.name s) s
  | further : ParamName (.symbol .ellipsis) Symbol.ellipsis.text

def asyncLexemes (isAsync : Bool) : List Lexeme :=
  if isAsync then [.keyword .async] else []

def trailingLexemes (trailing : Bool) : List Lexeme :=
  if trailing then [.symbol .comma] else []

mutual

/--
`postfix ('|' postfix)*`
-/
inductive Union : List Lexeme → Nat → TypeExpr → Prop where
  | mk {w d ts} : Separated Postfix .pipe w d ts → Union w d (Parser.ofMembers ts)

/--
`primary ('[]' | '?')*`
-/
inductive Postfix : List Lexeme → Nat → TypeExpr → Prop where
  | mk {v w d t u} : Primary v d t → Marks w t u → Postfix (v ++ w) d u

/--
`NAME | NAME '<' union (',' union)* '>' | STRING | NUMBER | function | table | '(' union ')'`, where a
truth value takes no arguments and a number has a value.
-/
inductive Primary : List Lexeme → Nat → TypeExpr → Prop where
  | name {d} (s : String) : Primary [.name s] d (Parser.ofName s)
  | generic {w d s ts} : s ≠ "true" → s ≠ "false" → Separated Union .comma w (d + 1) ts →
      Primary (.name s :: .symbol .openAngle :: (w ++ [.symbol .closeAngle])) d (.generic s ts)
  | string {d} (s : String) : Primary [.string s] d (.literal (.string s))
  | number {d s value} : Parser.numberLiteral s = .ok value → Primary [.number s] d (.literal value)
  | function {w d t} : Function w d t → Primary w d t
  | table {w d t} : Table w d t → Primary w d t
  | parens {w d t} : Union w (d + 1) t →
      Primary (.symbol .openParen :: (w ++ [.symbol .closeParen])) d t

/--
`['async'] 'fun' '(' [param (',' param)*] ')' [':' result (',' result)*]`
-/
inductive Function : List Lexeme → Nat → TypeExpr → Prop where
  | mk {v w d ps ts} (isAsync : Bool) : Params v (d + 1) ps → Results w d ts →
      Function (asyncLexemes isAsync ++ (.keyword .function :: .symbol .openParen ::
        (v ++ (.symbol .closeParen :: w)))) d (.function ps ts isAsync)

inductive Params : List Lexeme → Nat → List (TypeExpr.Param TypeExpr) → Prop where
  | none {d} : Params [] d []
  | some {w d ps} : Separated Param .comma w d ps → Params w d ps

/--
Several returned types stand only outside of all brackets.
-/
inductive Results : List Lexeme → Nat → List TypeExpr → Prop where
  | none {d} : Results [] d []
  | some {w d ts} : Separated Result .comma w d ts → (d ≠ 0 → ts.length = 1) →
      Results (.symbol .colon :: w) d ts

/--
`(NAME | '...') ['?'] [':' union]`
-/
inductive Param : List Lexeme → Nat → TypeExpr.Param TypeExpr → Prop where
  | mk {l w d name type} (optional : Bool) : ParamName l name → Typing w d type →
      Param (l :: (optionalLexemes optional ++ w)) d { name, type, optional }

inductive Typing : List Lexeme → Nat → Option TypeExpr → Prop where
  | none {d} : Typing [] d none
  | some {w d t} : Union w d t → Typing (.symbol .colon :: w) d (some t)

/--
`'...' | union`
-/
inductive Result : List Lexeme → Nat → TypeExpr → Prop where
  | vararg {d} : Result [.symbol .ellipsis] d .vararg
  | type {w d t} : Union w d t → Result w d t

/--
`'{' [field (',' field)* [',']] '}'`
-/
inductive Table : List Lexeme → Nat → TypeExpr → Prop where
  | empty {d} : Table [.symbol .openBrace, .symbol .closeBrace] d (.table [])
  | fields {w d fs} (trailing : Bool) : Separated Field .comma w (d + 1) fs →
      Table (.symbol .openBrace :: (w ++ (trailingLexemes trailing ++ [.symbol .closeBrace]))) d (.table fs)

/--
`'[' union ']' ':' union | NAME ['?'] ':' union`
-/
inductive Field : List Lexeme → Nat → TypeExpr.Field TypeExpr → Prop where
  | keyed {v w d key type} : Union v d key → Union w d type →
      Field (.symbol .openBracket :: (v ++ (.symbol .closeBracket :: .symbol .colon :: w))) d
        { key := some key, type }
  | named {w d type} (name : String) (optional : Bool) : Union w d type →
      Field (.name name :: (optionalLexemes optional ++ (.symbol .colon :: w))) d
        { name := some name, type, optional }

end

/-! ### First lexemes -/

open LuaTypes.TypeExpr.Parser (Leading LeadsItem)

variable {w : List Lexeme} {d : Nat} {t : TypeExpr}

theorem Separated.exists_append {α : Type} {Phrase : List Lexeme → Nat → α → Prop} {separator : Symbol}
    {xs : List α} (h : Separated Phrase separator w d xs)
    : ∃ v x rest, w = v ++ rest ∧ Phrase v d x := by
  cases h with
  | one h => exact ⟨w, _, [], (List.append_nil w).symm, h⟩
  | cons h => exact ⟨_, _, _, rfl, h⟩

theorem Function.leading (h : Function w d t) : Leading w := by
  cases h with
  | mk isAsync => cases isAsync <;> exact ⟨_, _, rfl, rfl⟩

theorem Primary.leading (h : Primary w d t) : Leading w := by
  cases h with
  | function h => exact h.leading
  | table h => cases h <;> exact ⟨_, _, rfl, rfl⟩
  | _ => exact ⟨_, _, rfl, rfl⟩

theorem Postfix.leading (h : Postfix w d t) : Leading w := by
  cases h with
  | mk h _ => exact h.leading.append _

theorem Union.leading (h : Union w d t) : Leading w := by
  cases h with
  | mk h =>
    obtain ⟨v, t, rest, rfl, hv⟩ := h.exists_append
    exact hv.leading.append rest

theorem Param.leadsItem {p : TypeExpr.Param TypeExpr} (h : Param w d p) : LeadsItem w := by
  obtain ⟨_, hname, _⟩ := h
  cases hname <;> exact ⟨_, _, rfl, rfl⟩

theorem Field.leadsItem {f : TypeExpr.Field TypeExpr} (h : Field w d f) : LeadsItem w := by
  cases h <;> exact ⟨_, _, rfl, rfl⟩

end LuaTypes.TypeExpr.Derives
