import LuaTypes.Proofs.TypeExpr.Completeness

/-!
Where a type cannot be read, the reader fails at the first token with which no type goes on: what stands before it
could be completed, with the token there is nothing that completes it.
-/

namespace LuaTypes.TypeExpr

def Problem.found : Problem → Lexeme
  | .expected _ found => found
  | .expectedType found => found
  | .trailing found => found

namespace Parser

open Reader Derives

variable {α β : Type}

/--
The tokens that a rule has taken before the token `t` at which it fails: more lexemes behind them make a word of the
language `L`, and the rule fails again wherever they stand before such a token.
-/
structure Rejects (need : Nat) (nested : Bool) (rule : Context → Nat → ParseM α) (L : List Lexeme → Prop)
    (tokens taken : List Token) (t : Token) : Prop where
  split : ∃ after, tokens = taken ++ t :: after
  viable : ∃ v, L (taken.map (·.lexeme) ++ v)
  again : ∀ ctx fuel before t' after, ctx.nested = nested → ctx.strict = false → 8 * taken.length + need ≤ fuel →
    before.map (·.lexeme) = taken.map (·.lexeme) → t'.lexeme = t.lexeme →
      ∃ e, rule ctx fuel (before ++ t' :: after) = .error e

/--
Does each lenient run of the rule that fails, with enough fuel, fail at such a token?
-/
def Fails (need : Nat) (nested : Bool) (rule : Context → Nat → ParseM α) (fuel : Nat) (L : List Lexeme → Prop)
    : Prop :=
  ∀ ctx tokens problem position, ctx.nested = nested → ctx.strict = false → Ended tokens →
    8 * tokens.length + need ≤ fuel + 8 → rule ctx fuel tokens = .error (.grammar problem position) →
      ∃ taken t, Rejects need nested rule L tokens taken t ∧ problem.found = t.lexeme ∧
        position = ctx.origin.shift t.offset

def FailsFrom (l : Lexeme) (need : Nat) (nested : Bool) (rule : Context → Nat → ParseM α) (fuel : Nat)
    (L : List Lexeme → Prop) : Prop :=
  ∀ ctx tokens problem position, ctx.nested = nested → ctx.strict = false → Ended tokens →
    8 * tokens.length + need ≤ fuel + 8 → (first tokens).lexeme = l →
      rule ctx fuel tokens = .error (.grammar problem position) →
        ∃ taken t, Rejects need nested rule L tokens taken t ∧ problem.found = t.lexeme ∧
          position = ctx.origin.shift t.offset

variable {need fuel : Nat} {nested closed : Bool} {rule : Context → Nat → ParseM α} {L M : List Lexeme → Prop}

theorem Fails.from {l : Lexeme} (h : Fails need nested rule fuel L) : FailsFrom l need nested rule fuel L :=
  fun ctx tokens problem position hctx hlenient hended hfuel _ hrun =>
    h ctx tokens problem position hctx hlenient hended hfuel hrun

namespace Fails

theorem pure {x : α} : Fails need nested (fun _ _ => Pure.pure x) fuel L := by
  rintro _ _ _ _ _ _ _ _ ⟨⟩

theorem mono (h : Fails need nested rule fuel L) (hM : ∀ w, L w → M w) : Fails need nested rule fuel M := by
  intro ctx tokens problem position hctx hlenient hended hfuel hrun
  obtain ⟨taken, t, hrejects, hplace⟩ := h ctx tokens problem position hctx hlenient hended hfuel hrun
  exact ⟨taken, t, { hrejects with viable := hrejects.viable.imp fun _ => hM _ }, hplace⟩

theorem of_le {need' : Nat} (h : Fails need nested rule fuel L) (hle : need ≤ need')
    : Fails need' nested rule fuel L := by
  intro ctx tokens problem position hctx hlenient hended hfuel hrun
  obtain ⟨taken, t, hrejects, hplace⟩ := h ctx tokens problem position hctx hlenient hended (by omega) hrun
  refine ⟨taken, t, { hrejects with again := ?_ }, hplace⟩
  exact fun ctx fuel before t' after hctx hlenient hfuel =>
    hrejects.again ctx fuel before t' after hctx hlenient (by omega)

theorem inside (h : Fails need true rule fuel L) : Fails need nested (fun ctx n => rule ctx.inside n) fuel L := by
  intro ctx tokens problem position _ hlenient hended hfuel hrun
  obtain ⟨taken, t, hrejects, hplace⟩ := h ctx.inside tokens problem position rfl hlenient hended hfuel hrun
  refine ⟨taken, t, { hrejects with again := ?_ }, hplace⟩
  exact fun ctx fuel before t' after _ hlenient hfuel =>
    hrejects.again ctx.inside fuel before t' after rfl hlenient hfuel

theorem zero (hneed : 0 < need) : Fails need nested rule 0 L := by
  intro _ tokens _ _ _ _ hended hfuel
  have := List.length_pos_iff.2 hended.ne_nil
  omega

theorem succ (h : Fails need nested (fun ctx n => rule ctx (n + 1)) fuel L)
    : Fails (need + 1) nested rule (fuel + 1) L := by
  intro ctx tokens problem position hctx hlenient hended hfuel hrun
  obtain ⟨taken, t, hrejects, hplace⟩ := h ctx tokens problem position hctx hlenient hended (by omega) hrun
  refine ⟨taken, t, { hrejects with again := ?_ }, hplace⟩
  intro ctx fuel' before t' after hctx hlenient hfuel'
  obtain ⟨n, rfl⟩ : ∃ n, fuel' = n + 1 := ⟨fuel' - 1, by omega⟩
  exact hrejects.again ctx n before t' after hctx hlenient (by omega)

theorem congr {rule' : Context → Nat → ParseM α} (rule : Context → Nat → ParseM α)
    (h : Fails need nested rule fuel L) (heq : ∀ ctx n, ctx.nested = nested → rule' ctx n = rule ctx n)
    : Fails need nested rule' fuel L := by
  intro ctx tokens problem position hctx hlenient hended hfuel hrun
  rw [heq ctx fuel hctx] at hrun
  obtain ⟨taken, t, hrejects, hplace⟩ := h ctx tokens problem position hctx hlenient hended hfuel hrun
  refine ⟨taken, t, { hrejects with again := ?_ }, hplace⟩
  intro ctx' fuel' before t' after hctx'
  rw [heq ctx' fuel' hctx']
  exact hrejects.again ctx' fuel' before t' after hctx'

/-! ### Sequences -/

section

variable {S : List Lexeme → α → Prop}

theorem bind (closed : Bool) {f : α → Context → Nat → ParseM β} (hruns : Runs need nested closed rule fuel S)
    (h : Fails need nested rule fuel L)
    (hf : ∀ w x, S w x → Fails (need + 8 * w.length) nested (f x) fuel fun v => M (w ++ v))
    (hcomplete : ∀ w, L w → ∃ v, M (w ++ v))
    : Fails need nested (fun ctx n => rule ctx n >>= fun x => f x ctx n) fuel M := by
  -- Either the first rule fails, or it succeeds and what follows fails on the tokens it leaves.
  intro ctx tokens problem position hctx hlenient hended hfuel hrun
  dsimp only at hrun
  rw [bind_apply] at hrun
  split at hrun
  next x mid hx =>
    obtain ⟨v, hv⟩ := hruns ctx tokens x mid hctx hended hfuel hx
    have hlength : tokens.length = v.length + mid.length := by rw [hv.split, List.length_append]
    have hmid : 8 * mid.length + (need + 8 * (v.map (·.lexeme)).length) ≤ fuel + 8 := by
      rw [List.length_map]
      omega
    obtain ⟨u, t, hu, hplace⟩ := hf _ x hv.spec ctx mid problem position hctx hlenient hv.ended hmid hrun
    obtain ⟨after, hafter⟩ := hu.split
    refine ⟨v ++ u, t, ⟨?split, ?viable, ?again⟩, hplace⟩
    case split => exact ⟨after, by rw [hv.split, hafter, List.append_assoc]⟩
    case viable =>
      obtain ⟨z, hz⟩ := hu.viable
      refine ⟨z, ?_⟩
      rw [List.map_append, List.append_assoc]
      exact hz
    case again =>
      intro ctx' fuel' before t' after' hctx' hlenient' hfuel' hbefore ht'
      rw [List.length_append] at hfuel'
      rw [List.map_append] at hbefore
      obtain ⟨before, before', rfl, hv', hu'⟩ := List.map_eq_append_iff.1 hbefore
      have hrest : 8 * u.length + (need + 8 * (v.map (·.lexeme)).length) ≤ fuel' := by
        rw [List.length_map]
        omega
      obtain ⟨e, he⟩ := hu.again ctx' fuel' before' t' after' hctx' hlenient' hrest hu' ht'
      have hnext : (first (before' ++ t' :: after')).lexeme = (first mid).lexeme := by
        rw [hafter, lexeme_first_append hu', lexeme_first_append rfl]
        exact congrArg _ ht'
      refine ⟨e, ?_⟩
      rw [bind_apply, List.append_assoc, hv.again ctx' fuel' hctx' (by omega) before (before' ++ t' :: after') hv'
        (by simp) ⟨fun _ _ _ => hlenient', .inl hnext⟩]
      exact he
  next e he =>
    cases hrun
    obtain ⟨taken, t, hrejects, hplace⟩ := h ctx tokens problem position hctx hlenient hended hfuel he
    refine ⟨taken, t, ⟨hrejects.split, ?viable, ?again⟩, hplace⟩
    case viable =>
      obtain ⟨v, hv⟩ := hrejects.viable
      obtain ⟨z, hz⟩ := hcomplete _ hv
      exact ⟨v ++ z, by rwa [← List.append_assoc]⟩
    case again =>
      intro ctx' fuel' before t' after hctx' hlenient' hfuel' hbefore ht'
      obtain ⟨e, he⟩ := hrejects.again ctx' fuel' before t' after hctx' hlenient' hfuel' hbefore ht'
      exact ⟨e, bind_of_error he⟩

theorem bind_pure {f : α → β} (h : Fails need nested rule fuel L)
    : Fails need nested (fun ctx n => rule ctx n >>= fun x => return f x) fuel L := by
  intro ctx tokens problem position hctx hlenient hended hfuel hrun
  dsimp only at hrun
  rw [bind_apply] at hrun
  split at hrun
  next => cases hrun
  next e he =>
    cases hrun
    obtain ⟨taken, t, hrejects, hplace⟩ := h ctx tokens problem position hctx hlenient hended hfuel he
    refine ⟨taken, t, ⟨hrejects.split, hrejects.viable, ?_⟩, hplace⟩
    intro ctx' fuel' before t' after hctx' hlenient' hfuel' hbefore ht'
    obtain ⟨e, he⟩ := hrejects.again ctx' fuel' before t' after hctx' hlenient' hfuel' hbefore ht'
    exact ⟨e, bind_of_error he⟩

end

/-! ### Single tokens -/

theorem peek {f : Lexeme → Context → Nat → ParseM α} (h : ∀ l, FailsFrom l need nested (f l) fuel L)
    : Fails need nested (fun ctx n => Reader.peek >>= fun l => f l ctx n) fuel L := by
  intro ctx tokens problem position hctx hlenient hended hfuel hrun
  obtain ⟨taken, t, hrejects, hplace⟩ :=
    h (first tokens).lexeme ctx tokens problem position hctx hlenient hended hfuel rfl hrun
  refine ⟨taken, t, { hrejects with again := ?_ }, hplace⟩
  intro ctx' fuel' before t' after hctx' hlenient' hfuel' hbefore ht'
  have hfirst : (first (before ++ t' :: after)).lexeme = (first tokens).lexeme := by
    obtain ⟨after', hsplit⟩ := hrejects.split
    rw [hsplit, lexeme_first_append hbefore, lexeme_first_append rfl]
    exact congrArg _ ht'
  change ∃ e, f (first (before ++ t' :: after)).lexeme ctx' fuel' (before ++ t' :: after) = _
  rw [hfirst]
  exact hrejects.again ctx' fuel' before t' after hctx' hlenient' hfuel' hbefore ht'

end Fails

theorem advance_cons {frame : Frame} (hlenient : frame.strict = false) (t : Token) {rest : List Token}
    (hrest : rest ≠ [])
    : (Reader.advance frame : ParseM Lexeme) (t :: rest) = .ok (t.lexeme, rest) :=
  reads_advance frame t.lexeme [t] rest rfl hrest fun _ _ _ => hlenient

namespace FailsFrom

theorem fail {l : Lexeme} {problem : Problem} (hfound : problem.found = l) (hviable : ∃ v, L v)
    : FailsFrom l need nested (fun ctx _ => (Reader.fail ctx.toFrame problem : ParseM α)) fuel L := by
  rintro ctx tokens _ _ hctx hlenient hended hfuel hfirst ⟨⟩
  obtain ⟨t, rest, rfl⟩ := List.exists_cons_of_ne_nil hended.ne_nil
  exact ⟨[], t, ⟨⟨rest, rfl⟩, hviable, fun _ _ _ _ _ _ _ _ _ _ => ⟨_, rfl⟩⟩, hfound.trans hfirst.symm, rfl⟩

theorem advance {l : Lexeme} {f : Lexeme → Context → Nat → ParseM α} (hne : l ≠ .endOfText)
    (h : Fails (need + 8) nested (f l) fuel fun w => L (l :: w))
    : FailsFrom l need nested (fun ctx n => Reader.advance ctx.toFrame >>= fun l => f l ctx n) fuel L := by
  intro ctx tokens problem position hctx hlenient hended hfuel hfirst hrun
  obtain ⟨t, mid, rfl, hmid⟩ := hended.exists_cons (by rwa [hfirst])
  change t.lexeme = l at hfirst
  subst hfirst
  dsimp only at hrun
  rw [bind_of_ok (advance_cons hlenient t hmid.ne_nil)] at hrun
  rw [List.length_cons] at hfuel
  obtain ⟨taken, u, hrejects, hplace⟩ := h ctx mid problem position hctx hlenient hmid (by omega) hrun
  obtain ⟨after, hafter⟩ := hrejects.split
  refine ⟨t :: taken, u, ⟨⟨after, by rw [hafter, List.cons_append]⟩, hrejects.viable, ?_⟩, hplace⟩
  intro ctx' fuel' before u' after' hctx' hlenient' hfuel' hbefore hu'
  rw [List.length_cons] at hfuel'
  obtain ⟨t', before, rfl, ht', hbefore⟩ := List.map_eq_cons_iff.1 hbefore
  obtain ⟨e, he⟩ := hrejects.again ctx' fuel' before u' after' hctx' hlenient' (by omega) hbefore hu'
  refine ⟨e, ?_⟩
  rw [List.cons_append, bind_of_ok (advance_cons hlenient' t' (by simp)), ht']
  exact he

end FailsFrom

/-! ### Symbols -/

theorem fails_take {l : Lexeme} {problem : Lexeme → Problem} (hne : l ≠ .endOfText)
    (hfound : ∀ found, (problem found).found = found)
    : Fails need nested (fun ctx _ => do
        let found ← Reader.peek
        if found = l then
          let _ ← Reader.advance ctx.toFrame
        else Reader.fail ctx.toFrame (problem found)) fuel (· = [l]) := by
  apply Fails.peek
  intro found
  split
  next hl =>
    rw [hl]
    exact .advance hne .pure
  next => exact .fail (hfound found) ⟨_, rfl⟩

theorem fails_expect (s : Symbol) : Fails need nested (fun ctx _ => expect ctx s) fuel (· = [.symbol s]) :=
  fails_take (by simp) fun _ => rfl

theorem fails_expectKeyword (k : Keyword)
    : Fails need nested (fun ctx _ => expectKeyword ctx k) fuel (· = [.keyword k]) :=
  fails_take (by simp) fun _ => rfl

theorem fails_accept (s : Symbol) : Fails need nested (fun ctx _ => accept ctx s) fuel L := by
  intro ctx tokens problem position _ hlenient hended _ hrun
  dsimp only at hrun
  rw [accept_apply] at hrun
  split at hrun
  next hfirst =>
    obtain ⟨t, rest, rfl, hrest⟩ := hended.exists_cons (by simp [hfirst])
    rw [bind_of_ok (advance_cons hlenient t hrest.ne_nil)] at hrun
    cases hrun
  next => cases hrun

theorem Fails.accept_bind {s : Symbol} {f : Bool → Context → Nat → ParseM α}
    (htrue : Fails (need + 8) nested (f true) fuel fun w => L (.symbol s :: w))
    (hfalse : Fails need nested (f false) fuel L)
    : Fails need nested (fun ctx n => accept ctx s >>= fun b => f b ctx n) fuel L := by
  apply bind true (runs_accept s (.inr rfl)) (fails_accept (L := fun _ => False) s) _ fun _ h => h.elim
  rintro _ b rfl
  cases b with
  | true => exact htrue
  | false => exact hfalse

theorem Fails.expect_bind {s : Symbol} {f : Context → Nat → ParseM α}
    (h : Fails (need + 8) nested f fuel fun w => L (.symbol s :: w)) (hviable : ∃ v, L (.symbol s :: v))
    : Fails need nested (fun ctx n => expect ctx s >>= fun _ => f ctx n) fuel L := by
  apply bind true (runs_expect s) (fails_expect s)
  · rintro _ _ rfl
    exact h
  · rintro _ rfl
    exact hviable

/-! ### Phrases -/

def Words (Phrase : List Lexeme → Nat → α → Prop) (d : Nat) (w : List Lexeme) : Prop :=
  ∃ x, Phrase w d x

variable {d : Nat}

theorem words_name (d : Nat) : Words Derives.Union d [.name "a"] :=
  ⟨_, .mk (.one (.mk (.name "a") .nil))⟩

theorem Fails.mono_words {Phrase : List Lexeme → Nat → β → Prop} (h : Fails need nested rule fuel (Words Phrase d))
    (hM : ∀ w x, Phrase w d x → M w)
    : Fails need nested rule fuel M := by
  apply h.mono
  rintro w ⟨x, hx⟩
  exact hM w x hx

theorem fails_continued {s : Symbol} {item : α} {more : Context → Nat → ParseM (List α)}
    (h : Fails (need + 8) nested more fuel fun w => L (.symbol s :: w))
    : Fails need nested (fun ctx n => continued ctx s item (more ctx n)) fuel L := by
  unfold continued
  apply Fails.accept_bind
  · simpa using h.bind_pure
  · simpa using .pure

theorem fails_behind {s : Symbol} {otherwise : α}
    (h : Fails (need + 8) nested rule fuel fun w => L (.symbol s :: w))
    : Fails need nested (fun ctx n => behind ctx s otherwise (rule ctx n)) fuel L := by
  unfold behind
  apply Fails.accept_bind
  · simpa using h
  · simpa using .pure

theorem Fails.closing {Phrase : List Lexeme → Nat → α → Prop} {s : Symbol} {f : α → β}
    (hruns : Runs need nested closed rule fuel (Phrase · d ·)) (h : Fails need nested rule fuel (Words Phrase d))
    (hM : ∀ w x, Phrase w d x → M (w ++ [.symbol s]))
    : Fails need nested (fun ctx n => rule ctx n >>= fun x => do expect ctx s; return f x) fuel M := by
  apply bind closed hruns h
  · exact fun w x hw => .expect_bind .pure ⟨[], hM w x hw⟩
  · rintro w ⟨x, hw⟩
    exact ⟨_, hM w x hw⟩

/-! ### Parts of types -/

theorem fails_paramName
    : Fails need nested (fun ctx _ => Parser.paramName ctx) fuel fun w => ∃ l name, w = [l] ∧ ParamName l name := by
  unfold Parser.paramName
  apply Fails.peek
  intro l
  have hviable : ∃ v, ∃ l name, v = [l] ∧ ParamName l name := ⟨_, _, _, rfl, .further⟩
  cases l with
  | name s => exact .advance (by simp) .pure
  | symbol s =>
    cases s with
    | ellipsis => exact .advance (by simp) .pure
    | _ => exact .fail rfl hviable
  | _ => exact .fail rfl hviable

theorem fails_typing (h : Fails 8 nested union fuel (Words Derives.Union d))
    : Fails need nested (fun ctx n => behind ctx .colon none (some <$> union ctx n)) fuel (Words Typing d) := by
  simp only [← bind_pure_comp]
  apply fails_behind
  apply Fails.of_le _ (by omega : 8 ≤ need + 8)
  exact (h.mono_words fun w t ht => ⟨some t, .some ht⟩).bind_pure

theorem fails_orVararg (h : Fails 8 nested union fuel (Words Derives.Union d)) (hneed : 8 ≤ need)
    : Fails need nested (fun ctx n => orVararg ctx (union ctx n)) fuel (Words Result d) := by
  unfold orVararg
  apply Fails.accept_bind
  · simpa using .pure
  · simpa using (h.mono_words fun w t ht => ⟨t, .type ht⟩).of_le hneed

/-! ### Lists -/

theorem fails_arguments (h : Fails 8 (d != 0) union fuel (Words Derives.Union d))
    (hmore : Fails 9 (d != 0) arguments fuel (Words (Separated Derives.Union .comma) d))
    : Fails 9 (d != 0) arguments (fuel + 1) (Words (Separated Derives.Union .comma) d) := by
  apply Fails.succ
  simp only [arguments]
  apply Fails.bind false ((rules fuel).union d) h
  · intro w t hw
    apply fails_continued
    exact (hmore.mono_words fun v ts hts => ⟨t :: ts, .cons hw hts⟩).of_le (by omega)
  · rintro w ⟨t, hw⟩
    exact ⟨[], [t], by simpa using .one hw⟩

theorem fails_params (h : Fails 8 (d != 0) union fuel (Words Derives.Union d))
    (hmore : Fails 9 (d != 0) params fuel (Words (Separated Derives.Param .comma) d))
    : Fails 9 (d != 0) params (fuel + 1) (Words (Separated Derives.Param .comma) d) := by
  apply Fails.succ
  simp only [params]
  apply Fails.bind true runs_paramName fails_paramName
  · rintro _ name ⟨l, rfl, hname⟩
    apply Fails.bind true runs_optional (fails_accept (L := fun _ => False) _) _ fun _ h => h.elim
    rintro _ optional rfl
    apply Fails.bind false (runs_typing ((rules fuel).union d)) (fails_typing h)
    · intro w type hw
      have hparam := Derives.Param.mk optional hname hw
      apply fails_continued
      apply Fails.of_le _ (by omega : 9 ≤ _)
      apply hmore.mono_words
      intro v ps hv
      exact ⟨_, by simpa using Separated.cons hparam hv⟩
    · rintro w ⟨type, hw⟩
      exact ⟨[], _, by simpa using Separated.one (Derives.Param.mk optional hname hw)⟩
  · rintro _ ⟨l, name, rfl, hname⟩
    exact ⟨[], _, .one (.mk false hname .none)⟩

def ResultList (w : List Lexeme) (d : Nat) (ts : List TypeExpr) : Prop :=
  Separated Result .comma w d ts ∧ (d ≠ 0 → ts.length = 1)

theorem fails_returns (h : Fails 8 (d != 0) union fuel (Words Derives.Union d))
    (hmore : Fails 9 (d != 0) returns fuel (Words ResultList d))
    : Fails 9 (d != 0) returns (fuel + 1) (Words ResultList d) := by
  apply Fails.succ
  simp only [returns]
  apply Fails.bind false (runs_orVararg ((rules fuel).union d) (by omega)) (fails_orVararg h (by omega))
  · intro w t hw
    cases d with
    | zero =>
      apply Fails.congr fun ctx n => continued ctx .comma t (returns ctx n)
      · apply fails_continued
        exact (hmore.mono_words fun v ts hts => ⟨t :: ts, .cons hw hts.1, by simp⟩).of_le (by omega)
      · intro ctx n hctx
        rw [hctx]
        rfl
    | succ d =>
      apply Fails.congr fun _ _ => Pure.pure [t]
      · exact .pure
      · intro ctx n hctx
        rw [hctx]
        rfl
  · rintro w ⟨t, hw⟩
    exact ⟨[], [t], by simpa using .one hw, by simp⟩

theorem fails_keyed (h : Fails 8 (d != 0) union fuel (Words Derives.Union d)) (hneed : 8 ≤ need)
    : Fails need (d != 0) (fun ctx n => do
        let key ← union ctx n
        expect ctx .closeBracket
        expect ctx .colon
        return ({ key, type := ← union ctx n } : Field TypeExpr)) fuel
        fun w => Words Derives.Field d (.symbol .openBracket :: w) := by
  obtain ⟨t, ht⟩ := words_name d
  apply Fails.bind false (((rules fuel).union d).of_le hneed) (h.of_le hneed)
  · intro v key hv
    have hfield : ∀ w type, Derives.Union w d type →
        Words Derives.Field d (.symbol .openBracket :: (v ++ (.symbol .closeBracket :: .symbol .colon :: w))) :=
      fun w type hw => ⟨_, .keyed hv hw⟩
    refine Fails.expect_bind ?_ ⟨_, hfield _ t ht⟩
    refine Fails.expect_bind ?_ ⟨_, hfield _ t ht⟩
    exact ((h.mono_words hfield).of_le (by omega)).bind_pure
  · rintro v ⟨key, hv⟩
    exact ⟨_, _, .keyed hv ht⟩

theorem fails_named (h : Fails 8 (d != 0) union fuel (Words Derives.Union d))
    : Fails need (d != 0) (fun ctx n => do
        match ← Reader.peek with
        | .name name =>
          let _ ← Reader.advance ctx.toFrame
          let optional ← accept ctx .question
          expect ctx .colon
          return ({ name, type := ← union ctx n, optional } : Field TypeExpr)
        | found => Reader.fail ctx.toFrame (.expected [.name] found)) fuel (Words Derives.Field d) := by
  obtain ⟨t, ht⟩ := words_name d
  apply Fails.peek
  intro l
  cases l with
  | name name =>
    apply FailsFrom.advance (by simp)
    apply Fails.bind true runs_optional (fails_accept (L := fun _ => False) _) _ fun _ h => h.elim
    rintro _ optional rfl
    have hfield : ∀ w type, Derives.Union w d type →
        Words Derives.Field d (.name name :: (optionalLexemes optional ++ (.symbol .colon :: w))) :=
      fun w type hw => ⟨_, .named name optional hw⟩
    refine Fails.expect_bind ?_ ⟨_, hfield _ t ht⟩
    exact ((h.mono_words hfield).of_le (by omega)).bind_pure
  | _ => exact .fail rfl ⟨_, _, .named "a" false ht⟩

theorem fails_field (h : Fails 8 (d != 0) union fuel (Words Derives.Union d))
    : Fails 8 (d != 0) field (fuel + 1) (Words Derives.Field d) := by
  apply Fails.succ
  simp only [field]
  apply Fails.accept_bind
  · exact fails_keyed h (by omega)
  · exact fails_named h

theorem fails_fields (h : Fails 8 (d != 0) field fuel (Words Derives.Field d))
    (hmore : Fails 9 (d != 0) fields fuel (Words Fields d))
    : Fails 9 (d != 0) fields (fuel + 1) (Words Fields d) := by
  apply Fails.succ
  simp only [fields]
  apply Fails.peek
  intro l
  apply Fails.from
  split
  next => exact .pure
  next =>
    apply Fails.bind false ((rules fuel).field d) h
    · intro v f hf
      apply fails_continued
      exact (hmore.mono_words fun w fs hfs => ⟨f :: fs, .cons hf hfs⟩).of_le (by omega)
    · rintro v ⟨f, hf⟩
      exact ⟨[], [f], by simpa [trailingLexemes] using Fields.some false (.one hf)⟩

/-! ### Types -/

theorem fails_paramList (h : Fails 9 true params fuel (Words (Separated Derives.Param .comma) d)) (hneed : 9 ≤ need)
    : Fails need nested (fun ctx n => paramList (params ctx.inside n)) fuel (Words Params d) := by
  unfold paramList nextIs
  simp only [bind_assoc, pure_bind]
  apply Fails.peek
  intro l
  apply Fails.from
  split
  · exact .pure
  · exact (h.inside.mono_words fun w ps hps => ⟨ps, .some hps⟩).of_le hneed

theorem fails_function (hparams : Fails 9 true params fuel (Words (Separated Derives.Param .comma) (d + 1)))
    (hreturns : Fails 9 (d != 0) returns fuel (Words ResultList d)) (isAsync : Bool)
    : Fails 5 (d != 0) (function · isAsync ·) (fuel + 1) (Words (FunctionFrom isAsync) d) := by
  apply Fails.succ
  simp only [function]
  have hword : ∀ {v w ps ts}, Params v (d + 1) ps → Results w d ts →
      Words (FunctionFrom isAsync) d (.keyword .function :: .symbol .openParen :: (v ++ (.symbol .closeParen :: w))) :=
    fun hps hts => ⟨_, by simp, .mk isAsync hps hts⟩
  apply Fails.bind true (runs_expectKeyword .function) (fails_expectKeyword .function)
  · rintro _ _ rfl
    refine Fails.expect_bind ?_ ⟨_, hword .none .none⟩
    apply Fails.bind true (runs_paramList ((rules fuel).params (d + 1)) (by simp)) (fails_paramList hparams (by simp))
    · intro v ps hps
      refine Fails.expect_bind ?_ ⟨_, hword hps .none⟩
      apply Fails.bind_pure
      apply fails_behind
      exact (hreturns.mono_words fun w ts hts => hword hps (.some hts.1 hts.2)).of_le (by omega)
    · rintro v ⟨ps, hps⟩
      exact ⟨_, hword hps .none⟩
  · rintro _ rfl
    exact ⟨_, hword .none .none⟩

theorem fails_primary (hargs : Fails 9 true arguments fuel (Words (Separated Derives.Union .comma) (d + 1)))
    (hfields : Fails 9 true fields fuel (Words Fields (d + 1)))
    (hunion : Fails 8 true union fuel (Words Derives.Union (d + 1)))
    (hfunction : ∀ isAsync, Fails 5 (d != 0) (function · isAsync ·) fuel (Words (FunctionFrom isAsync) d))
    : Fails 6 (d != 0) primary (fuel + 1) (Words Primary d) := by
  apply Fails.succ
  simp only [primary]
  apply Fails.peek
  intro l
  have hviable : ∃ v, Words Primary d v := ⟨_, _, .name "a"⟩
  cases l with
  | name s =>
    apply FailsFrom.advance (by simp)
    split
    next => exact .pure
    next hs =>
      rw [not_or] at hs
      apply Fails.accept_bind
      · simp only [if_true]
        apply Fails.closing (((rules fuel).arguments (d + 1)).inside.of_le (by omega)) (hargs.inside.of_le (by omega))
        exact fun w ts hts => ⟨_, .generic hs.1 hs.2 hts⟩
      · simpa using .pure
  | string s => exact .advance (by simp) .pure
  | number s =>
    apply FailsFrom.advance (by simp)
    cases numberLiteral s with
    | ok value => exact .pure
    | error fault => rintro _ _ _ _ _ _ _ _ ⟨⟩
  | keyword k =>
    cases k with
    | function => exact ((hfunction false).mono_words fun w t ht => ⟨t, .function ht.2⟩).from
    | async =>
      apply FailsFrom.advance (by simp)
      exact ((hfunction true).mono_words fun w t ht => ⟨t, .function ht.2⟩).of_le (by omega)
  | symbol s =>
    cases s with
    | openBrace =>
      apply FailsFrom.advance (by simp)
      apply Fails.closing (((rules fuel).fields (d + 1)).inside.of_le (by omega)) (hfields.inside.of_le (by omega))
      exact fun w fs hfs => ⟨_, .table hfs.table⟩
    | openParen =>
      apply FailsFrom.advance (by simp)
      apply Fails.closing (f := id) (((rules fuel).union (d + 1)).inside.of_le (by omega))
        (hunion.inside.of_le (by omega))
      exact fun w t ht => ⟨_, .parens ht⟩
    | _ => exact .fail rfl hviable
  | _ => exact .fail rfl hviable

theorem fails_marks (t : TypeExpr) (hneed : 1 ≤ need) : Fails need nested (fun ctx n => marks ctx n t) fuel L := by
  induction fuel generalizing need t L with
  | zero => rintro _ _ _ _ _ _ _ _ ⟨⟩
  | succ fuel ih =>
    obtain ⟨need, rfl⟩ : ∃ n, need = n + 1 := ⟨need - 1, by omega⟩
    apply Fails.succ
    simp only [marks]
    apply Fails.accept_bind
    · simpa using ih (.array t) (by omega)
    · simp only [Bool.false_eq_true, if_false]
      apply Fails.accept_bind
      · simpa using ih (.optional t) (by omega)
      · simpa using .pure

theorem fails_members (hprimary : Fails 6 (d != 0) primary fuel (Words Primary d))
    (hmore : Fails 7 (d != 0) members fuel (Words (Separated Postfix .pipe) d))
    : Fails 7 (d != 0) members (fuel + 1) (Words (Separated Postfix .pipe) d) := by
  apply Fails.succ
  simp only [members]
  apply Fails.bind false ((rules fuel).primary d) hprimary
  · intro v t hv
    apply Fails.bind true (runs_marks t (by omega)) (fails_marks (L := fun _ => False) t (by omega)) _ fun _ h => h.elim
    intro w u hw
    have hpostfix := Postfix.mk hv hw
    apply fails_continued
    apply Fails.of_le _ (by omega : 7 ≤ _)
    apply hmore.mono_words
    intro z us hz
    exact ⟨_, by simpa using Separated.cons hpostfix hz⟩
  · rintro v ⟨t, hv⟩
    exact ⟨[], _, .one (.mk hv .nil)⟩

theorem fails_union (h : Fails 7 (d != 0) members fuel (Words (Separated Postfix .pipe) d))
    : Fails 8 (d != 0) union (fuel + 1) (Words Derives.Union d) := by
  apply Fails.succ
  simp only [union]
  exact (h.mono_words fun w ts hts => ⟨_, .mk hts⟩).bind_pure

structure Failures (fuel : Nat) : Prop where
  union (d : Nat) : Fails 8 (d != 0) union fuel (Words Derives.Union d)
  members (d : Nat) : Fails 7 (d != 0) members fuel (Words (Separated Postfix .pipe) d)
  primary (d : Nat) : Fails 6 (d != 0) primary fuel (Words Primary d)
  function (d : Nat) (isAsync : Bool) : Fails 5 (d != 0) (function · isAsync ·) fuel (Words (FunctionFrom isAsync) d)
  arguments (d : Nat) : Fails 9 (d != 0) arguments fuel (Words (Separated Derives.Union .comma) d)
  params (d : Nat) : Fails 9 (d != 0) params fuel (Words (Separated Derives.Param .comma) d)
  returns (d : Nat) : Fails 9 (d != 0) returns fuel (Words ResultList d)
  fields (d : Nat) : Fails 9 (d != 0) fields fuel (Words Fields d)
  field (d : Nat) : Fails 8 (d != 0) field fuel (Words Derives.Field d)

theorem failures (fuel : Nat) : Failures fuel := by
  induction fuel with
  | zero => constructor <;> intros <;> exact .zero (by omega)
  | succ fuel ih =>
    exact {
      union := fun d => fails_union (ih.members d)
      members := fun d => fails_members (ih.primary d) (ih.members d)
      primary := fun d => fails_primary (ih.arguments (d + 1)) (ih.fields (d + 1)) (ih.union (d + 1)) (ih.function d)
      function := fun d => fails_function (ih.params (d + 1)) (ih.returns d)
      arguments := fun d => fails_arguments (ih.union d) (ih.arguments d)
      params := fun d => fails_params (ih.union d) (ih.params d)
      returns := fun d => fails_returns (ih.union d) (ih.returns d)
      fields := fun d => fails_fields (ih.field d) (ih.fields d)
      field := fun d => fails_field (ih.union d) }

end Parser

/-! ### Texts -/

open Reader

/--
Is `t` the first of the tokens with which no type goes on? Types go on with those before it.
-/
structure FirstMisfit (tokens taken : List Token) (t : Token) : Prop where
  split : ∃ after, tokens = taken ++ t :: after
  viable : ∃ w u, Derives.Union w 0 u ∧ taken.map (·.lexeme) <+: w
  misfit : ∀ w u, Derives.Union w 0 u → ¬ taken.map (·.lexeme) ++ [t.lexeme] <+: w ++ [.endOfText]

namespace FirstMisfit

variable {tokens taken taken' : List Token} {t t' : Token}

theorem length_le (h : FirstMisfit tokens taken t) (h' : FirstMisfit tokens taken' t')
    : taken'.length ≤ taken.length := by
  by_contra hlt
  obtain ⟨after, hafter⟩ := h.split
  obtain ⟨after', hafter'⟩ := h'.split
  obtain ⟨w, u, hw, hviable⟩ := h'.viable
  have htaken : taken ++ [t] <+: taken' := by
    have hstart : taken ++ [t] <+: tokens := ⟨after, by simp [hafter]⟩
    have hstart' : taken' <+: tokens := ⟨_, hafter'.symm⟩
    apply List.prefix_of_prefix_length_le hstart hstart'
    rw [List.length_append, List.length_singleton]
    omega
  apply h.misfit w u hw
  have := (htaken.map (·.lexeme)).trans hviable
  rw [List.map_append, List.map_singleton] at this
  exact this.trans (List.prefix_append _ _)

theorem eq (h : FirstMisfit tokens taken t) (h' : FirstMisfit tokens taken' t') : taken = taken' ∧ t = t' := by
  obtain ⟨after, hafter⟩ := h.split
  obtain ⟨after', hafter'⟩ := h'.split
  rw [hafter] at hafter'
  obtain ⟨htaken, hrest⟩ := List.append_inj hafter' (Nat.le_antisymm (h'.length_le h) (h.length_le h'))
  exact ⟨htaken, (List.cons.inj hrest).1⟩

end FirstMisfit

theorem Parser.Rejects.firstMisfit {tokens taken : List Token} {t : Token}
    (h : Rejects 8 false union (Words Derives.Union 0) tokens taken t)
    : FirstMisfit tokens taken t := by
  refine ⟨h.split, ?viable, ?misfit⟩
  case viable =>
    obtain ⟨v, u, hv⟩ := h.viable
    exact ⟨_, u, hv, List.prefix_append _ _⟩
  case misfit =>
    rintro w u hw ⟨z, hz⟩
    obtain ⟨u', hread⟩ := Parser.accepts_derived hw
    -- Tokens with the lexemes of the type, which is read up to its end, begin with those at which the rule fails.
    let ts : List Token := w.map fun l => ⟨l, 0⟩
    have hts : ts.map (·.lexeme) = w := by
      rw [List.map_map]
      exact List.map_id w
    have hall : (ts ++ [(⟨.endOfText, 0⟩ : Token)]).map (·.lexeme) = taken.map (·.lexeme) ++ t.lexeme :: z := by
      rw [List.map_append, hts, List.append_cons, hz]
      rfl
    obtain ⟨before, rest, hsplit, hbefore, hrest⟩ := List.map_eq_append_iff.1 hall
    obtain ⟨t', after, rfl, ht', -⟩ := List.map_eq_cons_iff.1 hrest
    let ctx : Parser.Context := { strict := false }
    let fuel := 8 * (w.length + taken.length + 1)
    have hok := hread ctx fuel rfl (by omega) ts [⟨.endOfText, 0⟩] hts (by simp) .endOfText
    obtain ⟨e, he⟩ := h.again ctx fuel before t' after rfl rfl (by omega) hbefore ht'
    rw [hsplit, he] at hok
    cases hok

theorem exists_firstMisfit {text : List Char} {origin position : Position} {problem : Problem}
    (h : parsePrefix text origin = .error (.grammar problem position))
    : ∃ taken t, FirstMisfit (Token.scan text) taken t ∧ problem.found = t.lexeme ∧
        position = origin.shift t.offset := by
  unfold parsePrefix at h
  dsimp only at h
  have hguard : guardKnown (π := Problem) { origin, strict := false } (Token.scan text) = .ok () :=
    guardKnown_of_passes fun _ _ _ => rfl
  cases hrun : Reader.run { origin, strict := false } text (Parser.type { origin, strict := false }) with
  | ok r =>
    rw [hrun] at h
    cases h
  | error e =>
    rw [hrun] at h
    cases h
    unfold Reader.run at hrun
    dsimp only at hrun
    rw [hguard] at hrun
    obtain ⟨taken, t, hrejects, hplace⟩ := (Parser.failures _).union 0 { origin, strict := false } _ problem position
      rfl rfl (ended_scan text) (by omega) hrun
    exact ⟨taken, t, hrejects.firstMisfit, hplace⟩

end LuaTypes.TypeExpr
