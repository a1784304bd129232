import LuaTypes.Proofs.TypeExpr.Grammar
import LuaTypes.Proofs.TypeExpr.Induction
import LuaTypes.Proofs.TypeExpr.Literal

/-!
The lexemes of written types. A type whose text is read back is canonical, and its text is scanned as its
lexemes, wherever it stands.
-/

namespace LuaTypes

namespace TypeExpr

/-! ### Canonical types -/

def isUnion : TypeExpr → Bool
  | .union _ => true
  | _ => false

/--
The types that are read back from their texts. Of several returned types, all but the first would belong
to something else inside of another type.
-/
inductive Canonical : (root : Bool) → TypeExpr → Prop where
  | named {root name} : IsTypeName name → Canonical root (.named name)
  | literal {root value} : value.Canonical → Canonical root (.literal value)
  | union {root members} : 2 ≤ members.length → (∀ t ∈ members, t.isUnion = false) →
      (∀ t ∈ members, Canonical false t) → Canonical root (.union members)
  | optional {root t} : Canonical false t → Canonical root (.optional t)
  | array {root t} : Canonical false t → Canonical root (.array t)
  | generic {root name args} : IsTypeName name → args ≠ [] → (∀ t ∈ args, Canonical false t) →
      Canonical root (.generic name args)
  | function {root params returns} (isAsync : Bool) : (∀ p ∈ params, p.IsNamed) →
      (∀ p ∈ params, ∀ t, p.type = some t → Canonical false t) →
      (∀ t ∈ returns, t ≠ .vararg → Canonical false t) → (root = false → returns.length ≤ 1) →
      Canonical root (.function params returns isAsync)
  | table {root fields} : (∀ f ∈ fields, f.IsKeyed) →
      (∀ f ∈ fields, ∀ t, f.key = some t → Canonical false t) → (∀ f ∈ fields, Canonical false f.type) →
      Canonical root (.table fields)

theorem Canonical.root {t : TypeExpr} {root : Bool} (h : t.Canonical false) : t.Canonical root := by
  cases h with
  | named h => exact .named h
  | literal h => exact .literal h
  | union hlength hmembers h => exact .union hlength hmembers h
  | optional h => exact .optional h
  | array h => exact .array h
  | generic hname hne h => exact .generic hname hne h
  | function isAsync hnames hparams hreturns hlength =>
    exact .function isAsync hnames hparams hreturns fun _ => hlength rfl
  | table hkeyed hkeys hfields => exact .table hkeyed hkeys hfields

theorem Canonical.of_not_function {t : TypeExpr} {root : Bool} (h : t.Canonical root)
    (hfunction : t.isFunction = false)
    : t.Canonical false := by
  cases h with
  | named h => exact .named h
  | literal h => exact .literal h
  | union hlength hmembers h => exact .union hlength hmembers h
  | optional h => exact .optional h
  | array h => exact .array h
  | generic hname hne h => exact .generic hname hne h
  | function => cases hfunction
  | table hkeyed hkeys hfields => exact .table hkeyed hkeys hfields

/-! ### Lexemes -/

def grouped (wrap : Bool) (lexemes : List Lexeme) : List Lexeme :=
  if wrap then .symbol .openParen :: (lexemes ++ [.symbol .closeParen]) else lexemes

def separated (separator : Symbol) (items : List (List Lexeme)) : List Lexeme :=
  [.symbol separator].intercalate items

def optionalLexemes (isOptional : Bool) : List Lexeme :=
  if isOptional then [.symbol .question] else []

def paramName (name : String) : Lexeme :=
  if name = Symbol.ellipsis.text then .symbol .ellipsis else .name name

mutual

def lexemes : TypeExpr → List Lexeme
  | .named name => [.name name]
  | .literal value => [value.lexeme]
  | .union members => separated .pipe (operandLexemes members)
  | .optional inner => grouped inner.needsParens inner.lexemes ++ [.symbol .question]
  | .array element => grouped element.needsParens element.lexemes ++ [.symbol .brackets]
  | .generic name args =>
    .name name :: .symbol .openAngle :: (separated .comma (eachLexemes args) ++ [.symbol .closeAngle])
  | .function params returns isAsync =>
    (if isAsync then [.keyword .async] else []) ++ (.keyword .function :: .symbol .openParen ::
      (separated .comma (paramLexemes params) ++ (.symbol .closeParen ::
        (if returns.isEmpty then [] else .symbol .colon :: separated .comma (operandLexemes returns)))))
  | .table fields =>
    .symbol .openBrace :: (separated .comma (fieldLexemes fields) ++ [.symbol .closeBrace])
  | .vararg => [.symbol .ellipsis]

def operandLexemes : List TypeExpr → List (List Lexeme)
  | [] => []
  | t :: ts => grouped t.isFunction t.lexemes :: operandLexemes ts

def eachLexemes : List TypeExpr → List (List Lexeme)
  | [] => []
  | t :: ts => t.lexemes :: eachLexemes ts

def typingLexemes : Option TypeExpr → List Lexeme
  | none => []
  | some t => .symbol .colon :: t.lexemes

def paramLexemes : List (Param TypeExpr) → List (List Lexeme)
  | [] => []
  | ⟨name, type, isOptional⟩ :: ps =>
    (paramName name :: (optionalLexemes isOptional ++ typingLexemes type)) :: paramLexemes ps

def keyLexemes (name : Option String) (isOptional : Bool) : Option TypeExpr → List Lexeme
  | some key => .symbol .openBracket :: (key.lexemes ++ [.symbol .closeBracket])
  | none => .name (name.getD "None") :: optionalLexemes isOptional

def fieldLexemes : List (Field TypeExpr) → List (List Lexeme)
  | [] => []
  | ⟨name, key, type, isOptional⟩ :: fs =>
    (keyLexemes name isOptional key ++ (.symbol .colon :: type.lexemes)) :: fieldLexemes fs

end

/-! ### Items -/

def operandText (t : TypeExpr) : String :=
  parenthesize t.isFunction t.render

def operand (t : TypeExpr) : List Lexeme :=
  grouped t.isFunction t.lexemes

theorem renderOperands_eq (ts : List TypeExpr) : renderOperands ts = ts.map operandText := by
  induction ts with
  | nil => rfl
  | cons t ts ih => rw [renderOperands, ih]; rfl

theorem operandLexemes_eq (ts : List TypeExpr) : operandLexemes ts = ts.map operand := by
  induction ts with
  | nil => rfl
  | cons t ts ih => rw [operandLexemes, ih]; rfl

theorem renderEach_eq (ts : List TypeExpr) : renderEach ts = ts.map render := by
  induction ts with
  | nil => rfl
  | cons t ts ih => rw [renderEach, ih]; rfl

theorem eachLexemes_eq (ts : List TypeExpr) : eachLexemes ts = ts.map lexemes := by
  induction ts with
  | nil => rfl
  | cons t ts ih => rw [eachLexemes, ih]; rfl

namespace Param

def render (p : Param TypeExpr) : String :=
  p.name ++ (if p.optional then "?" else "") ++ renderTyping p.type

def lexemes (p : Param TypeExpr) : List Lexeme :=
  paramName p.name :: (optionalLexemes p.optional ++ typingLexemes p.type)

end Param

theorem renderParams_eq (ps : List (Param TypeExpr)) : renderParams ps = ps.map Param.render := by
  induction ps with
  | nil => rfl
  | cons p ps ih => rw [renderParams, ih]; rfl

theorem paramLexemes_eq (ps : List (Param TypeExpr)) : paramLexemes ps = ps.map Param.lexemes := by
  induction ps with
  | nil => rfl
  | cons p ps ih => rw [paramLexemes, ih]; rfl

namespace Field

def render (f : Field TypeExpr) : String :=
  renderKey f.name f.optional f.key ++ ": " ++ f.type.render

def lexemes (f : Field TypeExpr) : List Lexeme :=
  keyLexemes f.name f.optional f.key ++ (.symbol .colon :: f.type.lexemes)

end Field

theorem renderFields_eq (fs : List (Field TypeExpr)) : renderFields fs = fs.map Field.render := by
  induction fs with
  | nil => rfl
  | cons f fs ih => rw [renderFields, ih]; rfl

theorem fieldLexemes_eq (fs : List (Field TypeExpr)) : fieldLexemes fs = fs.map Field.lexemes := by
  induction fs with
  | nil => rfl
  | cons f fs ih => rw [fieldLexemes, ih]; rfl

/-! ### Scanning -/

open Token

def ScansAs (text : String) (lexemes : List Lexeme) : Prop :=
  ∀ tail, Breaks tail → Scans text.toList lexemes tail

def Parts (text : String) : Prop :=
  ∀ tail, Breaks tail → Breaks (text.toList ++ tail)

variable {text text' : String} {lexemes lexemes' : List Lexeme}

theorem parts_empty : Parts "" :=
  fun _ htail => htail

theorem parts_symbol {s : Symbol} (hs : s ≠ .ellipsis) (text : String) : Parts (s.text ++ text) := by
  intro tail _
  rw [String.toList_append, List.append_assoc]
  cases s
  case ellipsis => exact absurd rfl hs
  all_goals exact breaks_cons.2 (by decide)

theorem parts_space (text : String) : Parts (" " ++ text) := by
  intro tail _
  rw [String.toList_append, List.append_assoc]
  exact breaks_cons.2 (by decide)

namespace ScansAs

theorem append (h : ScansAs text lexemes) (h' : ScansAs text' lexemes') (hparts : Parts text')
    : ScansAs (text ++ text') (lexemes ++ lexemes') := by
  intro tail htail
  rw [String.toList_append]
  exact (h _ (hparts tail htail)).append (h' tail htail)

theorem symbol {s : Symbol} (hs : s ≠ .openBracket) (h : ScansAs text lexemes)
    : ScansAs (s.text ++ text) (.symbol s :: lexemes) := by
  intro tail htail
  rw [String.toList_append]
  refine (show Scans s.text.toList [.symbol s] _ from ?_).append (h tail htail)
  cases s
  case openBracket => exact absurd rfl hs
  case ellipsis => exact scans_ellipsis
  case brackets => exact scans_brackets
  all_goals exact scans_symbol rfl (by decide)

theorem space (h : ScansAs text lexemes) : ScansAs (" " ++ text) lexemes := by
  intro tail htail
  rw [String.toList_append]
  exact (scans_space _).append (h tail htail)

theorem empty : ScansAs "" [] :=
  fun tail _ => .nil tail

theorem closing {s : Symbol} (hs : s ≠ .openBracket) : ScansAs s.text [.symbol s] := by
  have := empty.symbol hs
  rwa [String.append_empty] at this

theorem grouped (wrap : Bool) (h : ScansAs text lexemes)
    : ScansAs (parenthesize wrap text) (grouped wrap lexemes) := by
  unfold parenthesize TypeExpr.grouped
  split
  · rw [String.append_assoc]
    apply ScansAs.symbol (s := .openParen) (by decide)
    apply h.append (closing (s := .closeParen) (by decide))
    exact parts_symbol (s := .closeParen) (by decide) ""
  · exact h

end ScansAs

theorem join_cons_cons (separator : String) (text text' : String) (texts : List String)
    : Text.join separator (text :: text' :: texts)
        = text ++ (separator ++ Text.join separator (text' :: texts)) := by
  rw [Text.join, String.intercalate_cons_cons, String.append_assoc]
  rfl

theorem separated_cons_cons (separator : Symbol) (item item' : List Lexeme) (items : List (List Lexeme))
    : separated separator (item :: item' :: items)
        = item ++ (.symbol separator :: separated separator (item' :: items)) := by
  rw [separated, List.intercalate_cons_cons, List.append_assoc]
  rfl

theorem scansAs_separated {α : Type} {separator : String} {symbol : Symbol}
    (hseparator : ∀ {text lexemes}, ScansAs text lexemes → ScansAs (separator ++ text) (.symbol symbol :: lexemes))
    (hparts : ∀ text, Parts (separator ++ text)) {xs : List α} {text : α → String}
    {items : α → List Lexeme} (h : ∀ x ∈ xs, ScansAs (text x) (items x))
    : ScansAs (Text.join separator (xs.map text)) (separated symbol (xs.map items)) := by
  induction xs with
  | nil => exact .empty
  | cons x xs ih =>
    have hx := h x (by simp)
    have hxs := ih fun y hy => h y (by simp [hy])
    cases xs with
    | nil => simpa [Text.join, separated] using hx
    | cons y ys =>
      simp only [List.map_cons] at hxs ⊢
      rw [join_cons_cons, separated_cons_cons]
      exact hx.append (hseparator hxs) (hparts _)

theorem scansAs_commas {α : Type} {xs : List α} {text : α → String} {items : α → List Lexeme}
    (h : ∀ x ∈ xs, ScansAs (text x) (items x))
    : ScansAs (Text.join ", " (xs.map text)) (separated .comma (xs.map items)) := by
  have hcomma : ∀ text, ", " ++ text = Symbol.comma.text ++ (" " ++ text) := by
    intro text
    rw [← String.append_assoc]
    rfl
  refine scansAs_separated ?_ ?_ h
  · intro text lexemes htext
    rw [hcomma]
    exact htext.space.symbol (by decide)
  · intro text
    rw [hcomma]
    exact parts_symbol (by decide) _

theorem scansAs_pipes {ts : List TypeExpr} (h : ∀ t ∈ ts, ScansAs (operandText t) (operand t))
    : ScansAs (Text.join " | " (ts.map operandText)) (separated .pipe (ts.map operand)) := by
  have hpipe : ∀ text, " | " ++ text = " " ++ (Symbol.pipe.text ++ (" " ++ text)) := by
    intro text
    rw [← String.append_assoc, ← String.append_assoc]
    rfl
  refine scansAs_separated ?_ ?_ h
  · intro text lexemes htext
    rw [hpipe]
    exact (htext.space.symbol (by decide)).space
  · intro text
    rw [hpipe]
    exact parts_space _

/-! ### Types -/

def Starts (c : Char) : Prop :=
  Lexeme.isNameStart c = true ∨ c.isDigit = true ∨ c ∈ ['"', '-', '\x7b', '(']

def HasStart (text : String) : Prop :=
  ∃ c cs, text.toList = c :: cs ∧ Starts c

theorem HasStart.append (h : HasStart text) (text' : String) : HasStart (text ++ text') := by
  obtain ⟨c, cs, htext, hstart⟩ := h
  exact ⟨c, cs ++ text'.toList, by rw [String.toList_append, htext, List.cons_append], hstart⟩

theorem HasStart.parenthesize (h : HasStart text) (wrap : Bool) : HasStart (parenthesize wrap text) := by
  unfold TypeExpr.parenthesize
  split
  · rw [String.append_assoc]
    exact ⟨'(', (text ++ ")").toList, by simp, by simp [Starts]⟩
  · exact h

theorem HasStart.join (h : HasStart text) (separator : String) (texts : List String)
    : HasStart (Text.join separator (text :: texts)) := by
  cases texts with
  | nil => simpa [Text.join] using h
  | cons text' texts =>
    rw [join_cons_cons]
    exact h.append _

theorem hasStart_minus (negative : Bool) {whole : List Char} (hne : whole ≠ [])
    (hwhole : ∀ c ∈ whole, c.isDigit) (rest : List Char)
    (htext : text.toList = Decimal.minus negative ++ (whole ++ rest))
    : HasStart text := by
  obtain ⟨d, ds, rfl⟩ := List.exists_cons_of_ne_nil hne
  cases negative with
  | false => exact ⟨d, ds ++ rest, htext, .inr (.inl (hwhole d (by simp)))⟩
  | true => exact ⟨'-', d :: ds ++ rest, htext, .inr (.inr (by simp))⟩

theorem hasStart_name {name : String} (h : Lexeme.IsName name) : HasStart name := by
  obtain ⟨c, cs, hname, hstart, -, -⟩ := h.start
  exact ⟨c, cs, hname, .inl hstart⟩

theorem hasStart_literal {value : Literal} (h : value.Canonical) : HasStart value.render := by
  cases h with
  | string h => exact ⟨'"', _, String.toList_ofList, .inr (.inr (by simp))⟩
  | integer h =>
    exact hasStart_minus _ Nat.toDigits_ne_nil Decimal.isDigit_toDigits _ (Literal.toList_integerText_eq _)
  | float h =>
    obtain ⟨negative, whole, places, hne, -, hwhole, -, htext⟩ := h.exists_places
    exact hasStart_minus negative hne hwhole _ htext
  | boolean value => exact hasStart_name (Literal.isName_render_boolean value)

theorem Canonical.hasStart {t : TypeExpr} {root : Bool} (h : t.Canonical root) : HasStart t.render := by
  induction t generalizing root with
  | named name =>
    cases h with
    | named h => exact hasStart_name h.isName
  | literal value =>
    cases h with
    | literal h => exact hasStart_literal h
  | union members ih =>
    cases h with
    | union hlength _ h =>
      cases members with
      | nil => simp at hlength
      | cons t ts =>
        rw [render, renderOperands]
        exact ((ih t (by simp) (h t (by simp))).parenthesize _).join _ _
  | optional inner ih =>
    cases h with
    | optional h => exact ((ih h).parenthesize _).append _
  | array element ih =>
    cases h with
    | array h => exact ((ih h).parenthesize _).append _
  | generic name args ih =>
    cases h with
    | generic h =>
      rw [render]
      exact (((hasStart_name h.isName).append _).append _).append _
  | function params returns isAsync =>
    rw [render]
    cases isAsync with
    | false => exact (HasStart.append (.append (.append ⟨'f', ['u', 'n', '('], rfl, .inl rfl⟩ _) _) _)
    | true =>
      refine (HasStart.append (.append (.append (.append ?_ _) _) _) _)
      exact ⟨'a', ['s', 'y', 'n', 'c', ' '], rfl, .inl rfl⟩
  | table fields =>
    cases fields with
    | nil => exact ⟨'\x7b', ['\x7d'], rfl, .inr (.inr (by simp))⟩
    | cons f fs =>
      rw [render]
      exact (HasStart.append ⟨'\x7b', [' '], rfl, .inr (.inr (by simp))⟩ _).append _
  | vararg => cases h

theorem ScansAs.openBracket (h : ScansAs text lexemes) (hhead : ∀ tail, (text.toList ++ tail).head? ≠ some ']')
    : ScansAs ("[" ++ text) (.symbol .openBracket :: lexemes) := by
  intro tail htail
  rw [String.toList_append]
  exact (scans_openBracket (hhead tail)).append (h tail htail)

theorem scansAs_optional (isOptional : Bool) (h : ScansAs text lexemes) (hparts : Parts text)
    : ScansAs ((if isOptional then "?" else "") ++ text) (optionalLexemes isOptional ++ lexemes) ∧
        Parts ((if isOptional then "?" else "") ++ text) := by
  cases isOptional with
  | false => simpa using ⟨h, hparts⟩
  | true => exact ⟨h.symbol (s := .question) (by decide), parts_symbol (s := .question) (by decide) text⟩

theorem colon_append (text : String) : ": " ++ text = Symbol.colon.text ++ (" " ++ text) := by
  rw [← String.append_assoc]
  rfl

theorem scansAs_typing {type : Option TypeExpr}
    (h : ∀ t, type = some t → ScansAs t.render t.lexemes)
    : ScansAs (renderTyping type) (typingLexemes type) ∧ Parts (renderTyping type) := by
  cases type with
  | none => exact ⟨.empty, parts_empty⟩
  | some t =>
    rw [renderTyping, colon_append]
    exact ⟨(h t rfl).space.symbol (by decide), parts_symbol (by decide) _⟩

theorem scansAs_name {name : String} (h : Lexeme.IsName name) : ScansAs name [.name name] :=
  fun _ htail => scans_name h htail

theorem scansAs_paramName {name : String} (h : name = Symbol.ellipsis.text ∨ Lexeme.IsName name)
    : ScansAs name [paramName name] := by
  unfold paramName
  split
  next hname =>
    rw [hname]
    exact .closing (by decide)
  next hname => exact scansAs_name (h.resolve_left hname)

theorem Param.scansAs_render {p : Param TypeExpr} (hname : p.IsNamed)
    (h : ∀ t, p.type = some t → ScansAs t.render t.lexemes)
    : ScansAs p.render p.lexemes := by
  have ⟨htyped, hparts⟩ := scansAs_typing h
  have ⟨hoptional, hparts⟩ := scansAs_optional p.optional htyped hparts
  rw [Param.render, String.append_assoc]
  exact (scansAs_paramName hname).append hoptional hparts

theorem Field.scansAs_render {f : Field TypeExpr} (hkeyed : f.IsKeyed)
    (hkey : ∀ t, f.key = some t → ScansAs t.render t.lexemes ∧ HasStart t.render)
    (htype : ScansAs f.type.render f.type.lexemes)
    : ScansAs f.render f.lexemes := by
  have htyped := htype.space.symbol (s := .colon) (by decide)
  have hparts := parts_symbol (s := .colon) (by decide) (" " ++ f.type.render)
  rw [Field.render, Field.lexemes, String.append_assoc, colon_append]
  cases hkeyed with
  | key t type =>
    obtain ⟨hscan, c, cs, hhead, hstart⟩ := hkey t rfl
    have hclosed := hscan.append (htyped.symbol (s := .closeBracket) (by decide))
      (parts_symbol (by decide) _)
    have hopened := hclosed.openBracket ?_
    · simpa [renderKey, keyLexemes, Symbol.text, String.append_assoc] using hopened
    · intro tail htail
      rw [String.toList_append, hhead, List.append_assoc, List.cons_append, List.head?_cons,
        Option.some.injEq] at htail
      rw [htail] at hstart
      exact absurd hstart (by simp [Starts]; decide)
  | name type isOptional hname =>
    have ⟨hoptional, hparts⟩ := scansAs_optional isOptional htyped hparts
    have := (scansAs_name hname).append hoptional hparts
    simpa [renderKey, keyLexemes, String.append_assoc] using this

theorem scansAs_keyword (k : Keyword) : ScansAs k.text [.keyword k] :=
  fun _ htail => scans_keyword k htail

theorem scansAs_function (isAsync : Bool) {params : String} {paramLexemes : List Lexeme}
    (hparams : ScansAs params paramLexemes) (h : ScansAs text lexemes)
    : ScansAs ((if isAsync then "async " else "") ++ "fun(" ++ params ++ ")" ++ text)
        ((if isAsync then [.keyword .async] else []) ++ (.keyword .function :: .symbol .openParen ::
          (paramLexemes ++ (.symbol .closeParen :: lexemes)))) := by
  have hclosed := hparams.append (h.symbol (s := .closeParen) (by decide)) (parts_symbol (by decide) _)
  have hopened := hclosed.symbol (s := .openParen) (by decide)
  have hfunction := (scansAs_keyword .function).append hopened (parts_symbol (by decide) _)
  cases isAsync with
  | false => simpa [Keyword.text, Symbol.text, ← String.append_assoc] using hfunction
  | true =>
    have := (scansAs_keyword .async).append hfunction.space (parts_space _)
    simpa [Keyword.text, Symbol.text, ← String.append_assoc] using this

theorem scansAs_returns {returns : List TypeExpr}
    (h : ∀ t ∈ returns, t ≠ .vararg → ScansAs t.render t.lexemes)
    : ScansAs (if returns.isEmpty then "" else ": " ++ Text.join ", " (renderOperands returns))
        (if returns.isEmpty then [] else .symbol .colon :: separated .comma (operandLexemes returns)) := by
  cases returns with
  | nil => exact .empty
  | cons t ts =>
    have hoperands : ∀ u ∈ t :: ts, ScansAs (operandText u) (operand u) := by
      intro u hu
      by_cases hvararg : u = .vararg
      · rw [hvararg]
        exact .closing (s := .ellipsis) (by decide)
      · exact (h u hu hvararg).grouped _
    rw [renderOperands_eq, operandLexemes_eq, colon_append]
    exact (scansAs_commas hoperands).space.symbol (by decide)

theorem scansAs_table {fields : List (Field TypeExpr)} (h : ∀ f ∈ fields, ScansAs f.render f.lexemes)
    : ScansAs (TypeExpr.table fields).render (TypeExpr.table fields).lexemes := by
  cases fields with
  | nil => exact (ScansAs.closing (s := .closeBrace) (by decide)).symbol (s := .openBrace) (by decide)
  | cons f fs =>
    have hclosed := (scansAs_commas h).append (ScansAs.closing (s := .closeBrace) (by decide)).space
      (parts_space _)
    have := hclosed.space.symbol (s := .openBrace) (by decide)
    rw [render, TypeExpr.lexemes, renderFields_eq, fieldLexemes_eq]
    simpa [Symbol.text, ← String.append_assoc] using this

theorem Canonical.scansAs_render {t : TypeExpr} {root : Bool} (h : t.Canonical root)
    : ScansAs t.render t.lexemes := by
  induction t generalizing root with
  | named name =>
    cases h with
    | named h => exact scansAs_name h.isName
  | literal value =>
    cases h with
    | literal h => exact fun _ htail => h.scans_render htail
  | union members ih =>
    cases h with
    | union _ _ h =>
      rw [render, renderOperands_eq, lexemes, operandLexemes_eq]
      exact scansAs_pipes fun t ht => (ih t ht (h t ht)).grouped _
  | optional inner ih =>
    cases h with
    | optional h =>
      exact ((ih h).grouped _).append (.closing (s := .question) (by decide))
        (parts_symbol (s := .question) (by decide) "")
  | array element ih =>
    cases h with
    | array h =>
      exact ((ih h).grouped _).append (.closing (s := .brackets) (by decide))
        (parts_symbol (s := .brackets) (by decide) "")
  | generic name args ih =>
    cases h with
    | generic hname _ h =>
      have hargs := scansAs_commas fun t ht => ih t ht (h t ht)
      have hclosed := hargs.append (.closing (s := .closeAngle) (by decide))
        (parts_symbol (s := .closeAngle) (by decide) "")
      have := (scansAs_name hname.isName).append (hclosed.symbol (s := .openAngle) (by decide))
        (parts_symbol (by decide) _)
      rw [render, lexemes, renderEach_eq, eachLexemes_eq, String.append_assoc, String.append_assoc]
      exact this
  | function params returns isAsync ihParams ihReturns =>
    cases h with
    | function _ hnames hparams hreturns _ =>
      have hcommas := scansAs_commas fun p hp =>
        Param.scansAs_render (hnames p hp) fun t ht => ihParams p hp t ht (hparams p hp t ht)
      have hscan := scansAs_returns fun t ht hne => ihReturns t ht (hreturns t ht hne)
      rw [render, lexemes, renderParams_eq, paramLexemes_eq]
      exact scansAs_function isAsync hcommas hscan
  | table fields ih =>
    cases h with
    | table hkeyed hkeys htypes =>
      apply scansAs_table
      intro f hf
      apply Field.scansAs_render (hkeyed f hf)
      · intro t ht
        exact ⟨(ih f hf).1 t ht (hkeys f hf t ht), (hkeys f hf t ht).hasStart⟩
      · exact (ih f hf).2 (htypes f hf)
  | vararg => cases h

end TypeExpr

end LuaTypes
