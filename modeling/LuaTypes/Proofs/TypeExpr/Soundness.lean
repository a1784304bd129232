import LuaTypes.Proofs.TypeExpr.Runs

/-!
Each rule takes words of its phrase of the grammar, and only those. The rules call each other, so that the
words of all rules with less fuel come first.
-/

namespace LuaTypes.TypeExpr

namespace Derives

def FunctionFrom (isAsync : Bool) (w : List Lexeme) (d : Nat) (t : TypeExpr) : Prop :=
  w ≠ [] ∧ Function (asyncLexemes isAsync ++ w) d t

inductive Fields : List Lexeme → Nat → List (TypeExpr.Field TypeExpr) → Prop where
  | none {d} : Fields [] d []
  | some {w d fs} (trailing : Bool) : Separated Field .comma w d fs → Fields (w ++ trailingLexemes trailing) d fs

variable {v w : List Lexeme} {d : Nat} {t : TypeExpr}

theorem Fields.table {fs : List (TypeExpr.Field TypeExpr)} (h : Fields w (d + 1) fs)
    : Table (.symbol .openBrace :: (w ++ [.symbol .closeBrace])) d (.table fs) := by
  cases h with
  | none => exact .empty
  | some trailing h =>
    rw [List.append_assoc]
    exact .fields trailing h

theorem Fields.cons {f : TypeExpr.Field TypeExpr} {fs : List (TypeExpr.Field TypeExpr)} (hf : Field v d f)
    (h : Fields w d fs)
    : Fields (v ++ .symbol .comma :: w) d (f :: fs) := by
  cases h with
  | none => exact .some true (.one hf)
  | some trailing h =>
    rw [← List.cons_append, ← List.append_assoc]
    exact .some trailing (.cons hf h)

end Derives

namespace Parser

open Reader Derives

variable {α : Type} {need fuel d : Nat} {nested closed : Bool} {S : List Lexeme → α → Prop}

theorem Runs.lookahead {f : Lexeme → Context → Nat → ParseM α} (h : ∀ l, Runs need nested true (f l) fuel S)
    : Runs need nested true (fun ctx n => Reader.peek >>= fun l => f l ctx n) fuel S := by
  intro ctx tokens x rest hctx hended hfuel hrun
  obtain ⟨taken, htaken⟩ := h (first tokens).lexeme ctx tokens x rest hctx hended hfuel hrun
  refine ⟨taken, { htaken with again := ?_ }⟩
  intro ctx' fuel' hctx' hfuel' tokens' rest' htokens' hrest' hnext
  have hfirst : (first (tokens' ++ rest')).lexeme = (first tokens).lexeme := by
    rw [lexeme_first_append htokens', hnext.2.resolve_right fun h => Bool.noConfusion h.1,
      ← lexeme_first_append rfl, ← htaken.split]
  change f (first (tokens' ++ rest')).lexeme ctx' fuel' (tokens' ++ rest') = _
  rw [hfirst]
  exact htaken.again ctx' fuel' hctx' hfuel' tokens' rest' htokens' hrest' hnext

theorem RunsFrom.of_runs {l : Lexeme} {rule : Context → Nat → ParseM α} (h : Runs need nested closed rule fuel S)
    (hS : ∀ w x, S w x → w ≠ [])
    : RunsFrom l need nested closed rule fuel S := by
  intro ctx tokens x rest hctx hended hfuel hfirst hrun
  obtain ⟨taken, htaken⟩ := h ctx tokens x rest hctx hended hfuel hrun
  obtain ⟨t, taken, rfl⟩ := List.exists_cons_of_ne_nil fun h : taken = [] =>
    hS _ x htaken.spec (by rw [h, List.map_nil])
  refine ⟨t, taken, ?_, htaken⟩
  rw [← hfirst, htaken.split]
  rfl

theorem Runs.bind_pure {β : Type} {rule : Context → Nat → ParseM α} {f : α → β} {T : List Lexeme → β → Prop}
    (h : Runs need nested closed rule fuel S) (hT : ∀ w x, S w x → T w (f x))
    : Runs need nested closed (fun ctx n => rule ctx n >>= fun x => return f x) fuel T := by
  apply h.bind
  intro w x hw
  apply Runs.pure
  rw [List.append_nil]
  exact hT w x hw

theorem Runs.close {rule : Context → Nat → ParseM α} (h : Runs need nested false rule fuel S)
    : Runs need nested closed rule fuel S := by
  intro ctx tokens x rest hctx hended hfuel hrun
  obtain ⟨taken, htaken⟩ := h ctx tokens x rest hctx hended hfuel hrun
  refine ⟨taken, { htaken with again := ?_ }⟩
  intro ctx' fuel' hctx' hfuel'
  apply (htaken.again ctx' fuel' hctx' hfuel').mono
  exact fun l hl => ⟨hl.1, hl.2.imp id fun h => ⟨rfl, h.2⟩⟩

theorem Runs.zero {rule : Context → Nat → ParseM α} (hneed : 0 < need) : Runs need nested closed rule 0 S := by
  intro _ tokens _ _ _ hended hfuel
  have := List.length_pos_iff.2 hended.ne_nil
  omega

theorem Runs.congr {rule' : Context → Nat → ParseM α} (rule : Context → Nat → ParseM α)
    (h : Runs need nested closed rule fuel S)
    (heq : ∀ ctx n, ctx.nested = nested → rule' ctx n = rule ctx n)
    : Runs need nested closed rule' fuel S := by
  intro ctx tokens x rest hctx hended hfuel hrun
  rw [heq ctx fuel hctx] at hrun
  obtain ⟨taken, htaken⟩ := h ctx tokens x rest hctx hended hfuel hrun
  refine ⟨taken, { htaken with again := ?_ }⟩
  intro ctx' fuel' hctx' hfuel'
  rw [heq ctx' fuel' hctx']
  exact htaken.again ctx' fuel' hctx' hfuel'

/-! ### Parts of types -/

theorem runs_paramName
    : Runs need nested closed (fun ctx _ => Parser.paramName ctx) fuel
        fun w name => ∃ l, w = [l] ∧ ParamName l name := by
  unfold Parser.paramName
  apply Runs.peek
  intro l
  cases l with
  | name s => exact .advance (by simp) (fun frame => passes_of_leads frame rfl) (.pure ⟨_, rfl, .name s⟩)
  | symbol s =>
    cases s with
    | ellipsis => exact .advance (by simp) (fun frame => passes_symbol frame _) (.pure ⟨_, rfl, .further⟩)
    | _ => exact .fail
  | _ => exact .fail

theorem runs_optional
    : Runs need nested closed (fun ctx _ => accept ctx .question) fuel fun w b => w = optionalLexemes b :=
  runs_accept .question (.inl (by decide))

theorem runs_typing (h : Runs 8 nested closed union fuel (Union · d ·))
    : Runs need nested closed (fun ctx n => behind ctx .colon none (some <$> union ctx n)) fuel (Typing · d ·) := by
  simp only [← bind_pure_comp]
  apply runs_behind (by decide) _ .none
  exact (h.bind_pure fun _ _ => .some).of_le (by omega)

theorem runs_orVararg (h : Runs 8 nested closed union fuel (Union · d ·)) (hneed : 8 ≤ need)
    : Runs need nested closed (fun ctx n => orVararg ctx (union ctx n)) fuel (Result · d ·) := by
  unfold orVararg
  apply Runs.accept_bind (by decide)
  · simpa using .pure .vararg
  · simpa using (h.mono fun _ _ => .type).of_le hneed

/-! ### Lists -/

theorem runs_arguments (h : Runs 8 nested closed union fuel (Union · d ·))
    (hmore : Runs 9 nested closed arguments fuel (Separated Union .comma · d ·))
    : Runs 9 nested closed arguments (fuel + 1) (Separated Union .comma · d ·) := by
  apply Runs.succ _ (.inr (by omega))
  simp only [arguments]
  apply h.bind
  intro w t hw
  apply runs_continued (by decide) _ (by simpa using .one hw)
  exact (hmore.mono fun _ _ => .cons hw).of_le (by omega)

theorem runs_params (h : Runs 8 nested closed union fuel (Union · d ·))
    (hmore : Runs 9 nested closed params fuel (Separated Derives.Param .comma · d ·))
    : Runs 9 nested closed params (fuel + 1) (Separated Derives.Param .comma · d ·) := by
  apply Runs.succ _ (.inr (by omega))
  simp only [params]
  apply runs_paramName.bind
  rintro _ name ⟨l, rfl, hname⟩
  apply runs_optional.bind
  rintro _ optional rfl
  apply (runs_typing h).bind
  intro w type hw
  have hparam := Derives.Param.mk optional hname hw
  apply runs_continued (by decide) _ (by simpa using .one hparam)
  apply (hmore.mono _).of_le (by omega)
  intro v ps hv
  simpa using Separated.cons hparam hv

theorem runs_returns (h : Runs 8 (d != 0) closed union fuel (Union · d ·))
    (hmore : Runs 9 (d != 0) closed returns fuel fun w ts =>
      Separated Result .comma w d ts ∧ (d ≠ 0 → ts.length = 1))
    : Runs 9 (d != 0) closed returns (fuel + 1) fun w ts =>
        Separated Result .comma w d ts ∧ (d ≠ 0 → ts.length = 1) := by
  apply Runs.succ _ (.inr (by omega))
  simp only [returns]
  apply (runs_orVararg h (by omega)).bind
  intro w t hw
  cases d with
  | zero =>
    apply Runs.congr fun ctx n => continued ctx .comma t (returns ctx n)
    · apply runs_continued (by decide) _ (by simpa using .one hw)
      exact (hmore.mono fun _ _ h => ⟨.cons hw h.1, by simp⟩).of_le (by omega)
    · intro ctx n hctx
      rw [hctx]
      rfl
  | succ d =>
    apply Runs.congr fun _ _ => Pure.pure [t]
    · exact .pure (by simpa using .one hw)
    · intro ctx n hctx
      rw [hctx]
      rfl

theorem runs_keyed (h : Runs 8 nested closed union fuel (Union · d ·)) (hneed : 8 ≤ need)
    : Runs need nested closed (fun ctx n => do
        let key ← union ctx n
        expect ctx .closeBracket
        expect ctx .colon
        return ({ key, type := ← union ctx n } : Field TypeExpr)) fuel
        fun w f => Derives.Field (.symbol .openBracket :: w) d f ∧ w ≠ [] := by
  apply (h.of_le hneed).bind
  intro v key hv
  apply Runs.expect_bind
  apply Runs.expect_bind
  apply (h.bind_pure _).of_le (by omega)
  intro w type hw
  exact ⟨by simpa using .keyed hv hw, by simp⟩

theorem runs_named (h : Runs 8 nested closed union fuel (Union · d ·))
    : Runs need nested closed (fun ctx n => do
        match ← Reader.peek with
        | .name name =>
          let _ ← Reader.advance ctx.toFrame
          let optional ← accept ctx .question
          expect ctx .colon
          return ({ name, type := ← union ctx n, optional } : Field TypeExpr)
        | found => Reader.fail ctx.toFrame (.expected [.name] found)) fuel
        fun w f => Derives.Field w d f ∧ w ≠ [] := by
  apply Runs.peek
  intro l
  cases l with
  | name name =>
    apply RunsFrom.advance (by simp) (fun frame => passes_of_leads frame rfl)
    apply runs_optional.bind
    rintro _ optional rfl
    apply Runs.expect_bind
    apply (h.bind_pure _).of_le (by omega)
    intro w type hw
    exact ⟨.named name optional hw, by simp⟩
  | _ => exact .fail

theorem runs_field (h : Runs 8 nested closed union fuel (Union · d ·))
    : Runs 8 nested closed field (fuel + 1) (Derives.Field · d ·) := by
  apply Runs.succ _ (.inl fun _ _ hf => hf.leadsItem.ne_nil)
  simp only [field]
  apply (runs_accept .openBracket (.inr rfl)).bind_of
  rintro _ keyed rfl
  cases keyed with
  | true => exact (runs_keyed h (by simp)).mono fun _ _ hf => ⟨hf.1, .inr hf.2⟩
  | false => exact (runs_named h).mono fun _ _ hf => ⟨hf.1, .inr hf.2⟩

theorem runs_fields (h : Runs 8 nested false field fuel (Derives.Field · d ·))
    (hmore : Runs 9 nested true fields fuel (Fields · d ·))
    : Runs 9 nested true fields (fuel + 1) (Fields · d ·) := by
  apply Runs.succ _ (.inr (by omega))
  simp only [fields]
  apply Runs.lookahead
  intro l
  split
  next => exact .pure .none
  next =>
    apply h.close.bind
    intro v f hf
    apply runs_continued (by decide) _ (by simpa [trailingLexemes] using Fields.some false (.one hf))
    exact (hmore.mono fun _ _ => .cons hf).of_le (by omega)

/-! ### Types -/

theorem runs_paramList (h : Runs 9 true true params fuel (Separated Derives.Param .comma · d ·)) (hneed : 9 ≤ need)
    : Runs need nested true (fun ctx n => paramList (params ctx.inside n)) fuel (Params · d ·) := by
  unfold paramList nextIs
  simp only [bind_assoc, pure_bind]
  apply Runs.lookahead
  intro l
  split
  · exact .pure .none
  · exact (h.inside.mono fun _ _ => .some).of_le hneed

theorem runs_function (hparams : Runs 9 true true params fuel (Separated Derives.Param .comma · (d + 1) ·))
    (hreturns : Runs 9 (d != 0) false returns fuel fun w ts =>
      Separated Result .comma w d ts ∧ (d ≠ 0 → ts.length = 1))
    (isAsync : Bool)
    : Runs 5 (d != 0) false (function · isAsync ·) (fuel + 1) (FunctionFrom isAsync · d ·) := by
  apply Runs.succ _ (.inl fun _ _ h => h.1)
  simp only [function]
  apply (runs_expectKeyword .function).bind
  rintro _ _ rfl
  apply Runs.expect_bind
  apply (runs_paramList hparams (by simp)).bind_of
  intro v ps hps
  apply Runs.expect_bind
  have hresults : Runs 20 (d != 0) false (fun ctx n => behind ctx .colon [] (returns ctx n)) fuel (Results · d ·) := by
    apply runs_behind (by decide) _ .none
    exact (hreturns.mono fun _ _ h => .some h.1 h.2).of_le (by omega)
  apply (hresults.of_le (by omega)).bind_pure
  intro w ts hts
  exact ⟨⟨by simp, by simpa using .mk isAsync hps hts⟩, .inr (by simp)⟩

theorem runs_primary (hargs : Runs 9 true false arguments fuel (Separated Union .comma · (d + 1) ·))
    (hfields : Runs 9 true true fields fuel (Fields · (d + 1) ·))
    (hunion : Runs 8 true false union fuel (Union · (d + 1) ·))
    (hfunction : ∀ isAsync, Runs 5 (d != 0) false (function · isAsync ·) fuel (FunctionFrom isAsync · d ·))
    : Runs 6 (d != 0) false primary (fuel + 1) (Primary · d ·) := by
  apply Runs.succ _ (.inl fun _ _ h => h.leading.ne_nil)
  simp only [primary]
  apply Runs.peek
  intro l
  have hknown : leads l = true → ∀ frame, Passes frame l := fun h frame => passes_of_leads frame h
  cases l with
  | name s =>
    apply RunsFrom.advance (by simp) (hknown rfl)
    split
    next => exact .pure (.name s)
    next hs =>
      rw [not_or] at hs
      apply Runs.accept_bind (by decide)
      · simp only [if_true]
        apply (hargs.inside.of_le (by omega)).closing
        exact fun w ts hts => .generic hs.1 hs.2 hts
      · simpa using .pure (.name s)
  | string s => exact .advance (by simp) (hknown rfl) (.pure (.string s))
  | number s =>
    apply RunsFrom.advance (by simp) (hknown rfl)
    cases hs : numberLiteral s with
    | ok value => exact .pure (.number hs)
    | error => rintro _ _ _ _ _ _ _ ⟨⟩
  | keyword k =>
    cases k with
    | function =>
      apply RunsFrom.of_runs _ fun _ _ h => h.leading.ne_nil
      exact (hfunction false).mono fun _ _ h => .function h.2
    | async =>
      apply RunsFrom.advance (by simp) (hknown rfl)
      exact ((hfunction true).mono fun _ _ h => .function h.2).of_le (by omega)
  | symbol s =>
    cases s with
    | openBrace =>
      apply RunsFrom.advance (by simp) (hknown rfl)
      apply (hfields.inside.of_le (by omega)).closing
      exact fun w fs hfs => .table hfs.table
    | openParen =>
      apply RunsFrom.advance (by simp) (hknown rfl)
      apply (hunion.inside.of_le (by omega)).closing (f := id)
      exact fun w t ht => .parens ht
    | _ => exact .fail
  | _ => exact .fail

theorem runs_members (hprimary : Runs 6 (d != 0) false primary fuel (Primary · d ·))
    (hmore : Runs 7 (d != 0) false members fuel (Separated Postfix .pipe · d ·))
    : Runs 7 (d != 0) false members (fuel + 1) (Separated Postfix .pipe · d ·) := by
  apply Runs.succ _ (.inl fun _ _ h => (Derives.Union.mk h).leading.ne_nil)
  simp only [members]
  apply hprimary.bind
  intro v t hv
  apply (runs_marks t (by omega)).bind
  intro w u hw
  have hpostfix := Postfix.mk hv hw
  apply runs_continued (by decide) _ (by simpa using .one hpostfix)
  apply (hmore.mono _).of_le (by omega)
  intro z us hz
  simpa using Separated.cons hpostfix hz

theorem runs_union (h : Runs 7 (d != 0) false members fuel (Separated Postfix .pipe · d ·))
    : Runs 8 (d != 0) false union (fuel + 1) (Union · d ·) := by
  apply Runs.succ _ (.inl fun _ _ h => h.leading.ne_nil)
  simp only [union]
  exact h.bind_pure fun _ _ => .mk

structure Rules (fuel : Nat) : Prop where
  union (d : Nat) : Runs 8 (d != 0) false union fuel (Union · d ·)
  members (d : Nat) : Runs 7 (d != 0) false members fuel (Separated Postfix .pipe · d ·)
  primary (d : Nat) : Runs 6 (d != 0) false primary fuel (Primary · d ·)
  function (d : Nat) (isAsync : Bool)
    : Runs 5 (d != 0) false (function · isAsync ·) fuel (FunctionFrom isAsync · d ·)
  arguments (d : Nat) : Runs 9 (d != 0) false arguments fuel (Separated Union .comma · d ·)
  params (d : Nat) : Runs 9 (d != 0) true params fuel (Separated Derives.Param .comma · d ·)
  returns (d : Nat) : Runs 9 (d != 0) false returns fuel fun w ts =>
    Separated Result .comma w d ts ∧ (d ≠ 0 → ts.length = 1)
  fields (d : Nat) : Runs 9 (d != 0) true fields fuel (Fields · d ·)
  field (d : Nat) : Runs 8 (d != 0) false field fuel (Derives.Field · d ·)

theorem rules (fuel : Nat) : Rules fuel := by
  induction fuel with
  | zero => constructor <;> intros <;> exact .zero (by omega)
  | succ fuel ih =>
    exact {
      union := fun d => runs_union (ih.members d)
      members := fun d => runs_members (ih.primary d) (ih.members d)
      primary := fun d => runs_primary (ih.arguments (d + 1)) (ih.fields (d + 1)) (ih.union (d + 1)) (ih.function d)
      function := fun d => runs_function (ih.params (d + 1)) (ih.returns d)
      arguments := fun d => runs_arguments (ih.union d) (ih.arguments d)
      params := fun d => runs_params (ih.union d).close (ih.params d)
      returns := fun d => runs_returns (ih.union d) (ih.returns d)
      fields := fun d => runs_fields (ih.field d) (ih.fields d)
      field := fun d => runs_field (ih.union d) }

theorem exists_takes_type {ctx : Context} {tokens rest : List Token} {t : TypeExpr} (hctx : ctx.nested = false)
    (hended : Ended tokens) (hrun : type ctx tokens = .ok (t, rest))
    : ∃ taken, Takes 8 false false union (Union · 0 ·) tokens taken t rest :=
  (rules _).union 0 ctx tokens t rest hctx hended (by omega) hrun

end Parser

/-! ### Texts -/

open Reader

theorem run_eq_ok {α : Type} {frame : Frame} {text : List Char} {r : Parser.ParseM α} {x : α} {rest : List Token}
    : Reader.run frame text r = .ok (x, rest) ↔
        guardKnown (π := Problem) frame (Token.scan text) = .ok () ∧ r (Token.scan text) = .ok (x, rest) := by
  unfold Reader.run
  dsimp only
  cases guardKnown (π := Problem) frame (Token.scan text) with
  | error e =>
    constructor
    · rintro ⟨⟩
    · rintro ⟨⟨⟩, -⟩
  | ok => exact ⟨fun h => ⟨rfl, h⟩, fun h => h.2⟩

theorem parse_eq_ok {text : String} {line : Int} {t : TypeExpr}
    : parse text line = .ok t ↔ ∃ offset,
        Reader.run { origin := { line } } text.toList (Parser.type { origin := { line } })
          = .ok (t, [⟨.endOfText, offset⟩]) := by
  unfold parse
  dsimp only
  constructor
  · intro h
    cases hrun : Reader.run { origin := { line } } text.toList (Parser.type { origin := { line } }) with
    | error e =>
      rw [hrun] at h
      cases h
    | ok result =>
      obtain ⟨u, rest⟩ := result
      rw [hrun] at h
      dsimp only [bind, Except.bind] at h
      split at h
      next hfirst =>
        cases h
        obtain ⟨taken, htaken⟩ := Parser.exists_takes_type rfl (ended_scan _) (run_eq_ok.1 hrun).2
        obtain ⟨offset, rfl⟩ := htaken.ended.eq_of_first hfirst
        exact ⟨offset, rfl⟩
      next => cases h
  · rintro ⟨offset, h⟩
    rw [h]
    rfl

end LuaTypes.TypeExpr
