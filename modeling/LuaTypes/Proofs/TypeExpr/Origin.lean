import LuaTypes.Proofs.Token.Known
import LuaTypes.TypeExpr.Parser

/-!
Where a text stands decides where its errors are, and nothing else: the same text some lines further down is
read in the same way, with each error as many lines further down.
-/

namespace LuaTypes

def Position.down (n : Nat) (p : Position) : Position :=
  { p with line := p.line + n }

namespace ReadError

variable {π ρ : Type}

/--
The error of the same text some lines further down. A number without a value is reported without its place.
-/
def down (n : Nat) : ReadError π → ReadError π
  | .token fault position => .token fault (position.down n)
  | .number fault => .number fault
  | .grammar problem position => .grammar problem (position.down n)

theorem map_down (n : Nat) (f : π → ρ) (e : ReadError π) : (e.down n).map f = (e.map f).down n := by
  cases e <;> rfl

end ReadError

def Frame.down (n : Nat) (frame : Frame) : Frame :=
  { frame with origin := frame.origin.down n }

namespace Reader

variable {π α β : Type} {n : Nat}

def Moved (n : Nat) (r r' : Reader π α) : Prop :=
  ∀ tokens, r' tokens = (r tokens).mapError (·.down n)

theorem guardKnown_down (frame : Frame) (tokens : List Token)
    : guardKnown (π := π) (frame.down n) tokens = (guardKnown frame tokens).mapError (·.down n) := by
  unfold guardKnown
  split
  · by_cases h : frame.strict <;> simp [h, Frame.down] <;> rfl
  · rfl

namespace Moved

theorem pure (x : α) : Moved n (Pure.pure x : Reader π α) (Pure.pure x) :=
  fun _ => rfl

theorem bind {r r' : Reader π α} {f f' : α → Reader π β} (h : Moved n r r') (hf : ∀ x, Moved n (f x) (f' x))
    : Moved n (r >>= f) (r' >>= f') := by
  intro tokens
  rw [bind_apply, bind_apply, h tokens]
  cases r tokens with
  | error e => rfl
  | ok result => exact hf result.1 result.2

theorem map {r r' : Reader π α} (h : Moved n r r') (f : α → β) : Moved n (f <$> r) (f <$> r') := by
  rw [← bind_pure_comp, ← bind_pure_comp]
  exact h.bind fun x => .pure (f x)

theorem ite {c : Prop} [Decidable c] {r r' s s' : Reader π α} (hr : Moved n r r') (hs : Moved n s s')
    : Moved n (if c then r else s) (if c then r' else s') := by
  split
  · exact hr
  · exact hs

theorem fail (frame : Frame) (problem : π)
    : Moved n (Reader.fail frame problem : Reader π α) (Reader.fail (frame.down n) problem) :=
  fun _ => rfl

theorem peek : Moved n (Reader.peek : Reader π Lexeme) Reader.peek :=
  fun _ => rfl

theorem nextIs (l : Lexeme) : Moved n (Reader.nextIs l : Reader π Bool) (Reader.nextIs l) :=
  fun _ => rfl

theorem advance (frame : Frame)
    : Moved n (Reader.advance frame : Reader π Lexeme) (Reader.advance (frame.down n)) := by
  intro tokens
  unfold Reader.advance
  split
  next t u rest =>
    change (guardKnown (frame.down n) (u :: rest) >>= fun _ => _) = _
    rw [guardKnown_down]
    cases guardKnown (π := π) frame (u :: rest) <;> rfl
  next => rfl

theorem accept (frame : Frame) (l : Lexeme)
    : Moved n (Reader.accept frame l : Reader π Bool) (Reader.accept (frame.down n) l) :=
  (nextIs l).bind fun _ => .ite ((advance frame).bind fun _ => .pure true) (.pure false)

theorem ofNumber (e : Except Decimal.NumberFault α) : Moved n (Reader.ofNumber e : Reader π α) (Reader.ofNumber e) := by
  cases e with
  | ok x => exact .pure x
  | error fault => exact fun _ => rfl

end Moved

end Reader

namespace TypeExpr

open Reader

namespace Parser

variable {α : Type} {n fuel : Nat}

def Context.down (n : Nat) (ctx : Context) : Context :=
  { ctx with origin := ctx.origin.down n }

def Movable (n : Nat) (rule : Context → ParseM α) : Prop :=
  ∀ ctx, Moved n (rule ctx) (rule (ctx.down n))

theorem movable_expect (s : Symbol) : Movable n (expect · s) :=
  fun ctx => Moved.peek.bind fun _ => .ite ((Moved.advance ctx.toFrame).bind fun _ => .pure ()) (.fail ctx.toFrame _)

theorem movable_expectKeyword (k : Keyword) : Movable n (expectKeyword · k) :=
  fun ctx => Moved.peek.bind fun _ => .ite ((Moved.advance ctx.toFrame).bind fun _ => .pure ()) (.fail ctx.toFrame _)

theorem movable_accept (s : Symbol) : Movable n (accept · s) :=
  fun ctx => .accept ctx.toFrame (.symbol s)

theorem movable_behind {read : Context → ParseM α} (h : Movable n read) (s : Symbol) (otherwise : α)
    : Movable n fun ctx => behind ctx s otherwise (read ctx) :=
  fun ctx => (movable_accept s ctx).bind fun _ => .ite (h ctx) (.pure otherwise)

theorem movable_continued {more : Context → ParseM (List α)} (h : Movable n more) (s : Symbol) (item : α)
    : Movable n fun ctx => continued ctx s item (more ctx) :=
  fun ctx => (movable_accept s ctx).bind fun _ => .ite ((h ctx).bind fun xs => .pure (item :: xs)) (.pure [item])

theorem movable_paramList {read : Context → ParseM (List (Param TypeExpr))} (h : Movable n read)
    : Movable n fun ctx => paramList (read ctx) :=
  fun ctx => (Moved.nextIs _).bind fun _ => .ite (.pure []) (h ctx)

theorem movable_orVararg {read : Context → ParseM TypeExpr} (h : Movable n read)
    : Movable n fun ctx => orVararg ctx (read ctx) :=
  fun ctx => (movable_accept .ellipsis ctx).bind fun _ => .ite (.pure _) (h ctx)

theorem movable_marks (t : TypeExpr) : Movable n (marks · fuel t) := by
  intro ctx
  induction fuel generalizing t with
  | zero => exact .pure t
  | succ fuel ih =>
    unfold marks
    apply (movable_accept .brackets ctx).bind
    intro _
    apply Moved.ite (ih _)
    apply (movable_accept .question ctx).bind
    exact fun _ => .ite (ih _) (.pure t)

theorem movable_paramName : Movable n paramName := by
  intro ctx
  unfold paramName
  apply Moved.peek.bind
  intro l
  split
  · exact (Moved.advance ctx.toFrame).bind fun _ => .pure _
  · exact (Moved.advance ctx.toFrame).bind fun _ => .pure _
  · exact .fail ctx.toFrame _

structure AllMovable (n fuel : Nat) : Prop where
  union : Movable n (union · fuel)
  members : Movable n (members · fuel)
  primary : Movable n (primary · fuel)
  arguments : Movable n (arguments · fuel)
  function (isAsync : Bool) : Movable n (function · isAsync fuel)
  params : Movable n (params · fuel)
  returns : Movable n (returns · fuel)
  fields : Movable n (fields · fuel)
  field : Movable n (field · fuel)

theorem allMovable_zero : AllMovable n 0 where
  union _ := Moved.peek.bind fun _ => .fail _ _
  members _ := Moved.peek.bind fun _ => .fail _ _
  primary _ := Moved.peek.bind fun _ => .fail _ _
  arguments _ := Moved.peek.bind fun _ => .fail _ _
  function _ _ := Moved.peek.bind fun _ => .fail _ _
  params _ := Moved.peek.bind fun _ => .fail _ _
  returns _ := Moved.peek.bind fun _ => .fail _ _
  fields _ := Moved.peek.bind fun _ => .fail _ _
  field _ := Moved.peek.bind fun _ => .fail _ _

section

variable (h : AllMovable n fuel)

include h

theorem AllMovable.primary_succ : Movable n (Parser.primary · (fuel + 1)) := by
  intro ctx
  unfold Parser.primary
  apply Moved.peek.bind
  intro l
  have hadvance := Moved.advance (n := n) (π := Problem) ctx.toFrame
  split
  next name =>
    apply hadvance.bind
    intro _
    apply Moved.ite (.pure _)
    apply (movable_accept .openAngle ctx).bind
    intro _
    apply Moved.ite _ (.pure _)
    apply (h.arguments ctx.inside).bind
    exact fun _ => (movable_expect .closeAngle ctx).bind fun _ => .pure _
  next => exact hadvance.bind fun _ => .pure _
  next => exact hadvance.bind fun _ => (Moved.ofNumber _).bind fun _ => .pure _
  next => exact h.function false ctx
  next => exact hadvance.bind fun _ => h.function true ctx
  next =>
    apply hadvance.bind
    intro _
    apply (h.fields ctx.inside).bind
    exact fun _ => (movable_expect .closeBrace ctx).bind fun _ => .pure _
  next =>
    apply hadvance.bind
    intro _
    apply (h.union ctx.inside).bind
    exact fun _ => (movable_expect .closeParen ctx).bind fun _ => .pure _
  next => exact .fail ctx.toFrame _

theorem AllMovable.function_succ (isAsync : Bool) : Movable n (Parser.function · isAsync (fuel + 1)) := by
  intro ctx
  unfold Parser.function
  apply (movable_expectKeyword .function ctx).bind
  intro _
  apply (movable_expect .openParen ctx).bind
  intro _
  apply (movable_paramList h.params ctx.inside).bind
  intro _
  apply (movable_expect .closeParen ctx).bind
  intro _
  exact (movable_behind h.returns .colon [] ctx).bind fun _ => .pure _

theorem AllMovable.params_succ : Movable n (Parser.params · (fuel + 1)) := by
  intro ctx
  have htype : Movable n fun ctx => some <$> Parser.union ctx fuel := fun ctx => (h.union ctx).map some
  unfold Parser.params
  apply (movable_paramName ctx).bind
  intro _
  apply (movable_accept .question ctx).bind
  intro _
  apply (movable_behind htype .colon none ctx).bind
  exact fun _ => movable_continued h.params .comma _ ctx

theorem AllMovable.returns_succ : Movable n (Parser.returns · (fuel + 1)) := by
  intro ctx
  unfold Parser.returns
  apply (movable_orVararg h.union ctx).bind
  exact fun _ => .ite (.pure _) (movable_continued h.returns .comma _ ctx)

theorem AllMovable.fields_succ : Movable n (Parser.fields · (fuel + 1)) := by
  intro ctx
  unfold Parser.fields
  apply Moved.peek.bind
  intro _
  apply Moved.ite (.pure _)
  exact (h.field ctx).bind fun _ => movable_continued h.fields .comma _ ctx

theorem AllMovable.field_succ : Movable n (Parser.field · (fuel + 1)) := by
  intro ctx
  have htyped : ∀ f : TypeExpr → Field TypeExpr,
      Moved n (do expect ctx .colon; return f (← Parser.union ctx fuel))
        (do expect (ctx.down n) .colon; return f (← Parser.union (ctx.down n) fuel)) :=
    fun _ => (movable_expect .colon ctx).bind fun _ => (h.union ctx).bind fun _ => .pure _
  unfold Parser.field
  apply (movable_accept .openBracket ctx).bind
  intro _
  apply Moved.ite
  · apply (h.union ctx).bind
    intro _
    apply (movable_expect .closeBracket ctx).bind
    exact fun _ => htyped _
  · apply Moved.peek.bind
    intro l
    split
    next =>
      apply (Moved.advance ctx.toFrame).bind
      intro _
      exact (movable_accept .question ctx).bind fun _ => htyped _
    next => exact .fail ctx.toFrame _

end

theorem allMovable (n fuel : Nat) : AllMovable n fuel := by
  induction fuel with
  | zero => exact allMovable_zero
  | succ fuel ih =>
    exact {
      union := fun ctx => (ih.members ctx).bind fun _ => .pure _
      members := fun ctx => (ih.primary ctx).bind fun _ => (movable_marks _ ctx).bind fun _ =>
        movable_continued ih.members .pipe _ ctx
      primary := ih.primary_succ
      arguments := fun ctx => (ih.union ctx).bind fun _ => movable_continued ih.arguments .comma _ ctx
      function := ih.function_succ
      params := ih.params_succ
      returns := ih.returns_succ
      fields := ih.fields_succ
      field := ih.field_succ }

theorem movable_type : Movable n type :=
  fun ctx tokens => (allMovable n _).union ctx tokens

end Parser

theorem parsePrefix_down (n : Nat) (text : List Char) (origin : Position)
    : parsePrefix text (origin.down n) = (parsePrefix text origin).mapError (·.down n) := by
  let ctx : Parser.Context := { origin, strict := false }
  have hguard := guardKnown_down (π := Problem) (n := n) ctx.toFrame (Token.scan text)
  have htype := Parser.movable_type (n := n) ctx (Token.scan text)
  unfold parsePrefix Reader.run
  dsimp only [Bind.bind, Except.bind, StateT.run]
  rw [show guardKnown (π := Problem) { origin := origin.down n, strict := false } (Token.scan text) = _ from hguard,
    show Parser.type { origin := origin.down n, strict := false } (Token.scan text) = _ from htype]
  cases guardKnown (π := Problem) ctx.toFrame (Token.scan text) with
  | error e => rfl
  | ok _ => cases Parser.type ctx (Token.scan text) <;> rfl

end TypeExpr

end LuaTypes
