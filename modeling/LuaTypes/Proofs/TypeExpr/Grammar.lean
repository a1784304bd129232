import Mathlib.Algebra.Group.Nat.Defs
import LuaTypes.Proofs.Decimal.Digits
import LuaTypes.Proofs.Token.Known
import LuaTypes.TypeExpr.Parser

/-!
The types of the grammar. Reading a text yields no others: names are names of the text, unions have at
least two members, `...` stands only among returned types, and integers have not too many digits.
-/

namespace LuaTypes

namespace Decimal

theorem lt_of_decimalValue? {c : Char} {d : Nat} (h : Text.decimalValue? c = some d) : d < 10 := by
  unfold Text.decimalValue? at h
  split at h
  · split at h
    next hc =>
      have := toNat_lt_of_isDigit hc
      cases h
      omega
    next => cases h
  · rw [Option.map_eq_some_iff] at h
    obtain ⟨z, hz, rfl⟩ := h
    have := List.find?_some hz
    simp only [Bool.and_eq_true, decide_eq_true_eq] at this
    omega

theorem lt_of_mem_digitRun {cs : List Char} : ∀ d ∈ (digitRun cs).1, d < 10 := by
  induction cs with
  | nil => simp [digitRun]
  | cons c cs ih =>
    unfold digitRun
    split
    next => simp
    next d hd =>
      intro e he
      rw [List.mem_cons] at he
      cases he with
      | inl he =>
        rw [he]
        exact lt_of_decimalValue? hd
      | inr he => exact ih e he

theorem foldl_digits_lt {ds : List Nat} (h : ∀ d ∈ ds, d < 10) (n : Nat)
    : ds.foldl (fun n d => 10 * n + d) n < (n + 1) * 10 ^ ds.length := by
  induction ds generalizing n with
  | nil => simp
  | cons d ds ih =>
    have hd := h d (by simp)
    have hds := ih (fun e he => h e (by simp [he])) (10 * n + d)
    have hle : (10 * n + d + 1) * 10 ^ ds.length ≤ (10 * (n + 1)) * 10 ^ ds.length := by
      apply Nat.mul_le_mul_right
      omega
    rw [List.foldl_cons, List.length_cons, Nat.pow_succ, Nat.mul_comm (10 ^ ds.length),
      ← Nat.mul_assoc, Nat.mul_comm (n + 1)]
    exact Nat.lt_of_lt_of_le hds hle

theorem ofDigits_lt {ds : List Nat} (h : ∀ d ∈ ds, d < 10) : ofDigits ds < 10 ^ ds.length := by
  have := foldl_digits_lt h 0
  rwa [Nat.zero_add, Nat.one_mul] at this

theorem length_toDigits_of_readInteger {text : List Char} {n : Int} (h : readInteger text = .ok n)
    : (Nat.toDigits 10 n.natAbs).length ≤ maxIntegerDigits := by
  simp only [readInteger] at h
  have hlt := ofDigits_lt (@lt_of_mem_digitRun (splitMinus text).2)
  split at h
  · cases h
  next hdigits =>
    split at h
    · cases h
    · have hn : n.natAbs = ofDigits (digitRun (splitMinus text).2).1 := by
        rw [Except.ok.injEq] at h
        rw [← h]
        split <;> simp
      rw [hn, Nat.length_toDigits_le_iff (by omega) (by decide)]
      exact Nat.lt_of_lt_of_le hlt (Nat.pow_le_pow_right (by omega) (by omega))

end Decimal

namespace TypeExpr

open Lexeme

structure IsTypeName (name : String) : Prop where
  isName : IsName name
  ne_true : name ≠ "true"
  ne_false : name ≠ "false"

def Param.IsNamed (p : Param TypeExpr) : Prop :=
  p.name = Symbol.ellipsis.text ∨ IsName p.name

inductive Field.IsKeyed : Field TypeExpr → Prop where
  | key (t type : TypeExpr) : IsKeyed { key := some t, type }
  | name {name : String} (type : TypeExpr) (isOptional : Bool)
      : IsName name → IsKeyed { name := some name, type, optional := isOptional }

/--
The types that can be read from texts. The characters of their strings have the property `P`.
-/
inductive Grammatical (P : Char → Prop) : TypeExpr → Prop where
  | named {name} : IsTypeName name → Grammatical P (.named name)
  | string {content : String} : (∀ c ∈ content.toList, P c) → Grammatical P (.literal (.string content))
  | integer {n} : (Nat.toDigits 10 n.natAbs).length ≤ Decimal.maxIntegerDigits →
      Grammatical P (.literal (.integer n))
  | float (x) : Grammatical P (.literal (.float x))
  | boolean (b) : Grammatical P (.literal (.boolean b))
  | union {members} : 2 ≤ members.length → (∀ t ∈ members, Grammatical P t) → Grammatical P (.union members)
  | optional {t} : Grammatical P t → Grammatical P (.optional t)
  | array {t} : Grammatical P t → Grammatical P (.array t)
  | generic {name args} : IsTypeName name → args ≠ [] → (∀ t ∈ args, Grammatical P t) →
      Grammatical P (.generic name args)
  | function {params returns} (isAsync) : (∀ p ∈ params, p.IsNamed) →
      (∀ p ∈ params, ∀ t, p.type = some t → Grammatical P t) →
      (∀ t ∈ returns, t ≠ .vararg → Grammatical P t) → Grammatical P (.function params returns isAsync)
  | table {fields} : (∀ f ∈ fields, f.IsKeyed) →
      (∀ f ∈ fields, ∀ t, f.key = some t → Grammatical P t) → (∀ f ∈ fields, Grammatical P f.type) →
      Grammatical P (.table fields)

variable {P : Char → Prop}

namespace Parser

open Reader

variable (ctx : Context)

theorem grammatical_ofName {name : String} (h : IsName name) : (ofName name).Grammatical P := by
  unfold ofName
  split
  next => exact .boolean true
  next htrue =>
    split
    next => exact .boolean false
    next hfalse => exact .named ⟨h, htrue, hfalse⟩

theorem grammatical_ofMembers {ts : List TypeExpr} (hne : ts ≠ []) (h : ∀ t ∈ ts, t.Grammatical P)
    : (ofMembers ts).Grammatical P := by
  unfold ofMembers
  split
  · exact h _ (by simp)
  next hsingle =>
    apply Grammatical.union _ h
    match ts with
    | [] => exact absurd rfl hne
    | [t] => exact absurd rfl (hsingle t)
    | _ :: _ :: _ => simp

theorem yields_expect (symbol : Symbol) : Yields P (expect ctx symbol) fun _ => True :=
  yields_take _ _ _

theorem yields_expectKeyword (keyword : Keyword) : Yields P (expectKeyword ctx keyword) fun _ => True :=
  yields_take _ _ _

theorem yields_behind {α : Type} {Q : α → Prop} {symbol : Symbol} {otherwise : α} {read : ParseM α}
    (hotherwise : Q otherwise) (hread : Yields P read Q)
    : Yields P (behind ctx symbol otherwise read) Q := by
  unfold behind
  apply (yields_accept _ _).bind
  intro _ _
  apply Yields.ite
  · intro _
    exact hread
  · intro _
    exact .pure hotherwise

def AllOf {α : Type} (Q : α → Prop) (xs : List α) : Prop :=
  xs ≠ [] ∧ ∀ x ∈ xs, Q x

theorem allOf_singleton {α : Type} {Q : α → Prop} {x : α} (h : Q x) : AllOf Q [x] := by
  constructor
  · simp
  · simpa using h

theorem yields_continued {α : Type} {Q : α → Prop} {separator : Symbol} {item : α}
    {more : ParseM (List α)} (hitem : Q item) (hmore : Yields P more (AllOf Q))
    : Yields P (continued ctx separator item more) (AllOf Q) := by
  unfold continued
  apply (yields_accept _ _).bind
  intro _ _
  apply Yields.ite
  · intro _
    apply hmore.bind
    intro xs hxs
    apply Yields.pure
    constructor
    · simp
    · simpa [hitem] using hxs.2
  · intro _
    exact .pure (allOf_singleton hitem)

theorem yields_number (text : String) : Yields P (ofNumber (π := Problem) (numberLiteral text))
    fun value => (TypeExpr.literal value).Grammatical P := by
  apply (yields_ofNumber _).mono
  intro value h
  unfold numberLiteral at h
  split at h
  · cases hfloat : Decimal.readFloat text.toList with
    | error e => simp [hfloat, Except.map] at h
    | ok x =>
      simp only [hfloat, Except.map, Except.ok.injEq] at h
      rw [← h]
      exact .float x
  · cases hinteger : Decimal.readInteger text.toList with
    | error e => simp [hinteger, Except.map] at h
    | ok n =>
      simp only [hinteger, Except.map, Except.ok.injEq] at h
      rw [← h]
      exact .integer (Decimal.length_toDigits_of_readInteger hinteger)

theorem yields_marks (fuel : Nat) {t : TypeExpr} (h : t.Grammatical P)
    : Yields P (marks ctx fuel t) (Grammatical P) := by
  induction fuel generalizing t with
  | zero => exact .pure h
  | succ fuel ih =>
    unfold marks
    apply (yields_accept _ _).bind
    intro _ _
    apply Yields.ite
    · intro _
      exact ih (.array h)
    · intro _
      apply (yields_accept _ _).bind
      intro _ _
      apply Yields.ite
      · intro _
        exact ih (.optional h)
      · intro _
        exact .pure h

theorem yields_paramName : Yields P (paramName ctx) fun name => name = Symbol.ellipsis.text ∨ IsName name := by
  unfold paramName
  apply yields_peek.bind
  intro found hfound
  split
  next =>
    apply (yields_advance _).bind
    intro _ _
    exact .pure (.inr hfound)
  next =>
    apply (yields_advance _).bind
    intro _ _
    exact .pure (.inl rfl)
  next => exact .fail

theorem yields_orVararg {read : ParseM TypeExpr} (hread : Yields P read (Grammatical P))
    : Yields P (orVararg ctx read) fun t => t ≠ .vararg → t.Grammatical P := by
  unfold orVararg
  apply (yields_accept _ _).bind
  intro _ _
  apply Yields.ite
  · intro _
    exact .pure fun hne => absurd rfl hne
  · intro _
    exact hread.mono fun t ht _ => ht

def ParamGrammatical (P : Char → Prop) (p : Param TypeExpr) : Prop :=
  p.IsNamed ∧ ∀ t, p.type = some t → t.Grammatical P

def FieldGrammatical (P : Char → Prop) (f : Field TypeExpr) : Prop :=
  f.IsKeyed ∧ (∀ t, f.key = some t → t.Grammatical P) ∧ f.type.Grammatical P

structure Sound (P : Char → Prop) (fuel : Nat) : Prop where
  union : ∀ ctx, Yields P (union ctx fuel) (Grammatical P)
  members : ∀ ctx, Yields P (members ctx fuel) (AllOf (Grammatical P))
  primary : ∀ ctx, Yields P (primary ctx fuel) (Grammatical P)
  arguments : ∀ ctx, Yields P (arguments ctx fuel) (AllOf (Grammatical P))
  function : ∀ ctx isAsync, Yields P (function ctx isAsync fuel) (Grammatical P)
  params : ∀ ctx, Yields P (params ctx fuel) (AllOf (ParamGrammatical P))
  returns : ∀ ctx, Yields P (returns ctx fuel) (AllOf fun t => t ≠ .vararg → t.Grammatical P)
  fields : ∀ ctx, Yields P (fields ctx fuel) fun fs => ∀ f ∈ fs, FieldGrammatical P f
  field : ∀ ctx, Yields P (field ctx fuel) (FieldGrammatical P)

theorem yields_fail_peek {α : Type} {Q : α → Prop} {problem : Lexeme → Problem}
    : Yields P (do fail ctx.toFrame (problem (← peek))) Q :=
  yields_peek.bind fun _ _ => .fail

theorem sound_zero : Sound P 0 where
  union ctx := yields_fail_peek ctx
  members ctx := yields_fail_peek ctx
  primary ctx := yields_fail_peek ctx
  arguments ctx := yields_fail_peek ctx
  function ctx _ := yields_fail_peek ctx
  params ctx := yields_fail_peek ctx
  returns ctx := yields_fail_peek ctx
  fields ctx := yields_fail_peek ctx
  field ctx := yields_fail_peek ctx

variable {ctx} {fuel : Nat} (h : Sound P fuel)

include h

theorem Sound.union_succ : Yields P (Parser.union ctx (fuel + 1)) (Grammatical P) := by
  unfold Parser.union
  apply (h.members ctx).bind
  intro ts hts
  exact .pure (grammatical_ofMembers hts.1 hts.2)

theorem Sound.members_succ : Yields P (Parser.members ctx (fuel + 1)) (AllOf (Grammatical P)) := by
  unfold Parser.members
  apply (h.primary ctx).bind
  intro t ht
  apply (yields_marks ctx fuel ht).bind
  intro t ht
  exact yields_continued ctx ht (h.members ctx)

theorem Sound.primary_name_succ {name : String} (hname : IsName name) : Yields P (do
    let _ ← advance ctx.toFrame
    if name = "true" ∨ name = "false" then return ofName name
    else if ← accept ctx .openAngle then
      let args ← Parser.arguments ctx.inside fuel
      expect ctx .closeAngle
      return .generic name args
    else return ofName name) (Grammatical P) := by
  apply (yields_advance _).bind
  intro _ _
  apply Yields.ite
  · intro _
    exact .pure (grammatical_ofName hname)
  · intro hne
    rw [not_or] at hne
    apply (yields_accept _ _).bind
    intro _ _
    apply Yields.ite
    · intro _
      apply (h.arguments ctx.inside).bind
      intro args hargs
      apply (yields_expect ctx _).bind
      intro _ _
      exact .pure (.generic ⟨hname, hne.1, hne.2⟩ hargs.1 hargs.2)
    · intro _
      exact .pure (grammatical_ofName hname)

theorem Sound.primary_succ : Yields P (Parser.primary ctx (fuel + 1)) (Grammatical P) := by
  unfold Parser.primary
  apply yields_peek.bind
  intro found hfound
  split
  next name => exact h.primary_name_succ hfound
  next content =>
    apply (yields_advance _).bind
    intro _ _
    exact .pure (.string hfound)
  next text =>
    apply (yields_advance _).bind
    intro _ _
    apply (yields_number text).bind
    intro value hvalue
    exact .pure hvalue
  next => exact h.function ctx false
  next =>
    apply (yields_advance _).bind
    intro _ _
    exact h.function ctx true
  next =>
    apply (yields_advance _).bind
    intro _ _
    apply (h.fields ctx.inside).bind
    intro fields hfields
    apply (yields_expect ctx _).bind
    intro _ _
    apply Yields.pure
    apply Grammatical.table
    · exact fun f hf => (hfields f hf).1
    · exact fun f hf => (hfields f hf).2.1
    · exact fun f hf => (hfields f hf).2.2
  next =>
    apply (yields_advance _).bind
    intro _ _
    apply (h.union ctx.inside).bind
    intro t ht
    apply (yields_expect ctx _).bind
    intro _ _
    exact .pure ht
  next => exact .fail

theorem Sound.arguments_succ : Yields P (Parser.arguments ctx (fuel + 1)) (AllOf (Grammatical P)) := by
  unfold Parser.arguments
  apply (h.union ctx).bind
  intro t ht
  exact yields_continued ctx ht (h.arguments ctx)

theorem Sound.function_succ (isAsync : Bool)
    : Yields P (Parser.function ctx isAsync (fuel + 1)) (Grammatical P) := by
  unfold Parser.function
  apply (yields_expectKeyword ctx _).bind
  intro _ _
  apply (yields_expect ctx _).bind
  intro _ _
  apply Yields.bind (Q := fun ps => ∀ p ∈ ps, ParamGrammatical P p)
  · unfold paramList
    apply (yields_nextIs _).bind
    intro _ _
    apply Yields.ite
    · intro _
      exact .pure (by simp)
    · intro _
      exact (h.params ctx.inside).mono fun ps hps => hps.2
  intro params hparams
  apply (yields_expect ctx _).bind
  intro _ _
  apply Yields.bind (Q := fun ts => ∀ t ∈ ts, t ≠ .vararg → t.Grammatical P)
  · apply yields_behind
    · simp
    · exact (h.returns ctx).mono fun ts hts => hts.2
  intro returns hreturns
  exact .pure (.function isAsync (fun p hp => (hparams p hp).1) (fun p hp => (hparams p hp).2) hreturns)

theorem Sound.params_succ : Yields P (Parser.params ctx (fuel + 1)) (AllOf (ParamGrammatical P)) := by
  unfold Parser.params
  apply (yields_paramName ctx).bind
  intro name hname
  apply (yields_accept _ _).bind
  intro isOptional _
  apply Yields.bind (Q := fun type => ∀ t, type = some t → t.Grammatical P)
  · apply yields_behind
    · simp
    · apply (h.union ctx).map
      rintro t ht _ ⟨⟩
      exact ht
  intro type htype
  exact yields_continued ctx ⟨hname, htype⟩ (h.params ctx)

theorem Sound.returns_succ
    : Yields P (Parser.returns ctx (fuel + 1)) (AllOf fun t => t ≠ .vararg → t.Grammatical P) := by
  unfold Parser.returns
  apply (yields_orVararg ctx (h.union ctx)).bind
  intro t ht
  apply Yields.ite
  · intro _
    exact .pure (allOf_singleton ht)
  · intro _
    exact yields_continued ctx ht (h.returns ctx)

theorem Sound.fields_succ
    : Yields P (Parser.fields ctx (fuel + 1)) fun fs => ∀ f ∈ fs, FieldGrammatical P f := by
  unfold Parser.fields
  apply yields_peek.bind
  intro _ _
  apply Yields.ite
  · intro _
    exact .pure (by simp)
  · intro _
    apply (h.field ctx).bind
    intro f hf
    unfold continued
    apply (yields_accept _ _).bind
    intro _ _
    apply Yields.ite
    · intro _
      apply (h.fields ctx).bind
      intro fs hfs
      exact .pure (by simpa [hf] using hfs)
    · intro _
      exact .pure (by simpa using hf)

theorem Sound.field_succ : Yields P (Parser.field ctx (fuel + 1)) (FieldGrammatical P) := by
  unfold Parser.field
  apply (yields_accept _ _).bind
  intro _ _
  apply Yields.ite
  · intro _
    apply (h.union ctx).bind
    intro key hkey
    apply (yields_expect ctx _).bind
    intro _ _
    apply (yields_expect ctx _).bind
    intro _ _
    apply (h.union ctx).bind
    intro type htype
    apply Yields.pure
    refine ⟨.key key type, ?_, htype⟩
    rintro _ ⟨⟩
    exact hkey
  · intro _
    apply yields_peek.bind
    intro found hfound
    split
    next name =>
      apply (yields_advance _).bind
      intro _ _
      apply (yields_accept _ _).bind
      intro isOptional _
      apply (yields_expect ctx _).bind
      intro _ _
      apply (h.union ctx).bind
      intro type htype
      apply Yields.pure
      exact ⟨.name type isOptional hfound, by simp, htype⟩
    next => exact .fail

omit h

theorem sound (fuel : Nat) : Sound P fuel := by
  induction fuel with
  | zero => exact sound_zero
  | succ fuel h =>
    constructor
    · exact fun _ => h.union_succ
    · exact fun _ => h.members_succ
    · exact fun _ => h.primary_succ
    · exact fun _ => h.arguments_succ
    · exact fun _ isAsync => h.function_succ isAsync
    · exact fun _ => h.params_succ
    · exact fun _ => h.returns_succ
    · exact fun _ => h.fields_succ
    · exact fun _ => h.field_succ

end Parser

theorem grammatical_of_parsePrefix (hescape : ∀ e c, Lexeme.unescape? e = some c → P c)
    {text : List Char} (htext : ∀ c ∈ text, P c) {origin : Position} {t : TypeExpr} {rest : List Char}
    (h : parsePrefix text origin = .ok (t, rest))
    : t.Grammatical P := by
  have hsound := fun ctx => (Parser.sound (P := P) (8 * ((Token.scan text).length + 1))).union ctx
  unfold parsePrefix Reader.run at h
  dsimp only [bind, Except.bind] at h
  split at h
  · cases h
  next r hrun =>
    obtain ⟨u, tokens⟩ := r
    cases h
    split at hrun
    · cases hrun
    · exact (hsound _ _ _ _ (Token.known_scan hescape htext) hrun).1

end TypeExpr

end LuaTypes
