import LuaTypes.Proofs.Token.Cut
import LuaTypes.Proofs.TypeExpr.Derivation

/-!
What a successful run of the grammar's rules has taken: a word that the grammar derives. The rules take
the same word again in every other run, with any frame and any fuel that suffices for the word, as long as
the lexeme behind it is the same or none that a rule asks for.
-/

namespace LuaTypes

namespace Reader

inductive Ended : List Token → Prop where
  | last (offset : Nat) : Ended [⟨.endOfText, offset⟩]
  | cons {t : Token} {ts : List Token} : t.lexeme ≠ .endOfText → Ended ts → Ended (t :: ts)

theorem Ended.ne_nil {tokens : List Token} (h : Ended tokens) : tokens ≠ [] := by
  cases h <;> simp

theorem Ended.exists_cons {tokens : List Token} (h : Ended tokens) (hne : (first tokens).lexeme ≠ .endOfText)
    : ∃ t rest, tokens = t :: rest ∧ Ended rest := by
  cases h with
  | last => exact absurd rfl hne
  | cons _ h => exact ⟨_, _, rfl, h⟩

theorem Ended.eq_of_first {tokens : List Token} (h : Ended tokens) (hfirst : (first tokens).lexeme = .endOfText)
    : ∃ offset, tokens = [⟨.endOfText, offset⟩] := by
  cases h with
  | last offset => exact ⟨offset, rfl⟩
  | cons hne => exact absurd hfirst hne

theorem ended_scanFrom (skip offset : Nat) (text : List Char) : Ended (Token.scanFrom skip offset text) := by
  induction text generalizing skip offset with
  | nil => exact .last offset
  | cons c cs ih =>
    cases skip with
    | succ skip => exact ih skip (offset + 1)
    | zero =>
      rw [Token.scanFrom]
      split
      · exact ih 0 (offset + 1)
      · exact .cons (Lexeme.read_ne_endOfText c cs) (ih _ (offset + 1))

theorem ended_scan (text : List Char) : Ended (Token.scan text) :=
  ended_scanFrom 0 0 text

end Reader

namespace TypeExpr.Parser

open Reader

variable {α β : Type}

def Inert (closed : Bool) (l : Lexeme) : Prop :=
  closed = false ∧ ∀ s, l = .symbol s → s = .openBracket

theorem Inert.ne {closed : Bool} {l : Lexeme} (h : Inert closed l) {s : Symbol} (hs : s ≠ .openBracket ∨ closed = true)
    : l ≠ .symbol s := by
  rintro rfl
  obtain hs | rfl := hs
  · exact hs (h.2 s rfl)
  · cases h.1

/--
The tokens that a run has taken: their word has the property `S`, and the rule takes it again.
-/
structure Takes (need : Nat) (nested closed : Bool) (rule : Context → Nat → ParseM α)
    (S : List Lexeme → α → Prop) (tokens taken : List Token) (x : α) (rest : List Token) : Prop where
  split : tokens = taken ++ rest
  ended : Ended rest
  known : ∀ t ∈ taken, ∀ frame, Passes frame t.lexeme
  spec : S (taken.map (·.lexeme)) x
  again : ∀ ctx fuel, ctx.nested = nested → 8 * taken.length + need ≤ fuel + 8 →
    Reads (rule ctx fuel) (taken.map (·.lexeme)) x
      fun l => Passes ctx.toFrame l ∧ (l = (first rest).lexeme ∨ Inert closed l)

/--
Does each run of the rule that has enough fuel take such tokens? The rule needs eight times as much fuel as
there are tokens, up to the distance of `need` from eight.
-/
def Runs (need : Nat) (nested closed : Bool) (rule : Context → Nat → ParseM α) (fuel : Nat)
    (S : List Lexeme → α → Prop) : Prop :=
  ∀ ctx tokens x rest, ctx.nested = nested → Ended tokens → 8 * tokens.length + need ≤ fuel + 8 →
    rule ctx fuel tokens = .ok (x, rest) → ∃ taken, Takes need nested closed rule S tokens taken x rest

def RunsFrom (l : Lexeme) (need : Nat) (nested closed : Bool) (rule : Context → Nat → ParseM α) (fuel : Nat)
    (S : List Lexeme → α → Prop) : Prop :=
  ∀ ctx tokens x rest, ctx.nested = nested → Ended tokens → 8 * tokens.length + need ≤ fuel + 8 →
    (first tokens).lexeme = l → rule ctx fuel tokens = .ok (x, rest) →
      ∃ t taken, t.lexeme = l ∧ Takes need nested closed rule S tokens (t :: taken) x rest

variable {need fuel : Nat} {nested closed : Bool} {rule : Context → Nat → ParseM α} {S : List Lexeme → α → Prop}

namespace Runs

theorem pure {x : α} (h : S [] x) : Runs need nested closed (fun _ _ => Pure.pure x) fuel S := by
  rintro ctx tokens _ _ _ hended _ ⟨⟩
  exact ⟨[], rfl, hended, by simp, h, fun _ _ _ _ => .pure x⟩

theorem mono {S' : List Lexeme → α → Prop} (h : Runs need nested closed rule fuel S)
    (hS : ∀ w x, S w x → S' w x)
    : Runs need nested closed rule fuel S' := by
  intro ctx tokens x rest hctx hended hfuel hrun
  obtain ⟨taken, htaken⟩ := h ctx tokens x rest hctx hended hfuel hrun
  exact ⟨taken, { htaken with spec := hS _ _ htaken.spec }⟩

theorem of_le {need' : Nat} (h : Runs need nested closed rule fuel S) (hle : need ≤ need')
    : Runs need' nested closed rule fuel S := by
  intro ctx tokens x rest hctx hended hfuel hrun
  obtain ⟨taken, htaken⟩ := h ctx tokens x rest hctx hended (by omega) hrun
  exact ⟨taken, { htaken with again := fun ctx fuel hctx hfuel => htaken.again ctx fuel hctx (by omega) }⟩

theorem inside (h : Runs need true closed rule fuel S)
    : Runs need nested closed (fun ctx n => rule ctx.inside n) fuel S := by
  intro ctx tokens x rest _ hended hfuel hrun
  obtain ⟨taken, htaken⟩ := h ctx.inside tokens x rest rfl hended hfuel hrun
  exact ⟨taken, { htaken with again := fun ctx fuel _ hfuel => htaken.again ctx.inside fuel rfl hfuel }⟩

theorem succ (h : Runs need nested closed (fun ctx n => rule ctx (n + 1)) fuel S)
    (hneed : (∀ w x, S w x → w ≠ []) ∨ 8 ≤ need)
    : Runs (need + 1) nested closed rule (fuel + 1) S := by
  intro ctx tokens x rest hctx hended hfuel hrun
  obtain ⟨taken, htaken⟩ := h ctx tokens x rest hctx hended (by omega) hrun
  refine ⟨taken, { htaken with again := ?_ }⟩
  intro ctx fuel' hctx hfuel'
  have hpos : 8 ≤ 8 * taken.length + need := by
    obtain hne | hle := hneed
    · have hpos := List.length_pos_iff.2 (hne _ _ htaken.spec)
      rw [List.length_map] at hpos
      omega
    · omega
  obtain ⟨n, rfl⟩ : ∃ n, fuel' = n + 1 := ⟨fuel' - 1, by omega⟩
  exact htaken.again ctx n hctx (by omega)

/-! ### Sequences -/

section

variable {T : List Lexeme → β → Prop} {f : α → Context → Nat → ParseM β}

theorem bind_of {first' : Bool} (h : Runs need nested first' rule fuel S)
    (hf : ∀ w x, S w x → Runs (need + 8 * w.length) nested closed (f x) fuel fun v y =>
      T (w ++ v) y ∧ (first' = closed ∨ v ≠ []))
    : Runs need nested closed (fun ctx n => rule ctx n >>= fun x => f x ctx n) fuel T := by
  intro ctx tokens y rest hctx hended hfuel hrun
  dsimp only at hrun
  rw [bind_apply] at hrun
  split at hrun
  next x mid hx =>
    obtain ⟨v, hv⟩ := h ctx tokens x mid hctx hended hfuel hx
    have hlength : tokens.length = v.length + mid.length := by rw [hv.split, List.length_append]
    have hmid : 8 * mid.length + (need + 8 * (v.map (·.lexeme)).length) ≤ fuel + 8 := by
      rw [List.length_map]
      omega
    obtain ⟨u, hu⟩ := hf _ x hv.spec ctx mid y rest hctx hv.ended hmid hrun
    refine ⟨v ++ u, ?split, hu.ended, ?known, ?spec, ?again⟩
    case split => rw [hv.split, hu.split, List.append_assoc]
    case known => exact List.forall_mem_append.2 ⟨hv.known, hu.known⟩
    case spec =>
      rw [List.map_append]
      exact hu.spec.1
    -- Both rules are run again on their own tokens, the first with the second's behind it.
    case again =>
      intro ctx' fuel' hctx' hfuel'
      rw [List.length_append] at hfuel'
      have hrest : 8 * u.length + (need + 8 * (v.map (·.lexeme)).length) ≤ fuel' + 8 := by
        rw [List.length_map]
        omega
      rw [List.map_append]
      apply (hv.again ctx' fuel' hctx' (by omega)).bind (hu.again ctx' fuel' hctx' hrest)
      rintro l ⟨hpasses, hl⟩
      cases u with
      | nil =>
        have hmid := hu.split
        rw [List.nil_append] at hmid
        rw [hmid, hu.spec.2.resolve_right (by simp)]
        exact ⟨hpasses, hl⟩
      | cons t u =>
        refine ⟨hu.known t (by simp) _, .inl ?_⟩
        rw [hu.split]
        rfl
  next => cases hrun

theorem bind (h : Runs need nested closed rule fuel S)
    (hf : ∀ w x, S w x → Runs (need + 8 * w.length) nested closed (f x) fuel fun v y => T (w ++ v) y)
    : Runs need nested closed (fun ctx n => rule ctx n >>= fun x => f x ctx n) fuel T :=
  h.bind_of fun w x hw => (hf w x hw).mono fun _ _ hv => ⟨hv, .inl rfl⟩

end

/-! ### Single tokens -/

theorem peek {f : Lexeme → Context → Nat → ParseM α} (h : ∀ l, RunsFrom l need nested closed (f l) fuel S)
    : Runs need nested closed (fun ctx n => Reader.peek >>= fun l => f l ctx n) fuel S := by
  intro ctx tokens x rest hctx hended hfuel hrun
  obtain ⟨t, taken, ht, htakes⟩ := h _ ctx tokens x rest hctx hended hfuel rfl hrun
  refine ⟨t :: taken, { htakes with again := ?_ }⟩
  intro ctx' fuel' hctx' hfuel'
  have hread := htakes.again ctx' fuel' hctx' hfuel'
  rw [List.map_cons, ht] at hread ⊢
  exact hread.peek

end Runs

theorem exists_of_advance {frame : Frame} {tokens rest : List Token} {l : Lexeme} (hended : Ended tokens)
    (hne : (Reader.first tokens).lexeme ≠ .endOfText)
    (h : (Reader.advance frame : ParseM Lexeme) tokens = .ok (l, rest))
    : ∃ t, tokens = t :: rest ∧ l = t.lexeme ∧ Ended rest := by
  obtain ⟨t, ts, rfl, hts⟩ := hended.exists_cons hne
  obtain ⟨u, us, rfl⟩ := List.exists_cons_of_ne_nil hts.ne_nil
  change (do guardKnown frame (u :: us); return (t.lexeme, u :: us) : Except _ _) = _ at h
  cases hguard : guardKnown (π := Problem) frame (u :: us) with
  | error e =>
    rw [hguard] at h
    cases h
  | ok =>
    rw [hguard] at h
    cases h
    exact ⟨t, rfl, rfl, hts⟩

theorem RunsFrom.fail {l : Lexeme} {problem : Problem}
    : RunsFrom l need nested closed (fun ctx _ => Reader.fail ctx.toFrame problem) fuel S := by
  rintro _ _ _ _ _ _ _ _ ⟨⟩

theorem RunsFrom.advance {l : Lexeme} {f : Lexeme → Context → Nat → ParseM α} (hne : l ≠ .endOfText)
    (hknown : ∀ frame, Passes frame l)
    (h : Runs (need + 8) nested closed (f l) fuel fun w x => S (l :: w) x)
    : RunsFrom l need nested closed (fun ctx n => Reader.advance ctx.toFrame >>= fun l => f l ctx n) fuel S := by
  intro ctx tokens x rest hctx hended hfuel hfirst hrun
  dsimp only at hrun
  rw [bind_apply] at hrun
  split at hrun
  next l' mid hadvance =>
    obtain ⟨t, rfl, rfl, hmid⟩ := exists_of_advance hended (by rw [hfirst]; exact hne) hadvance
    change t.lexeme = l at hfirst
    subst hfirst
    rw [List.length_cons] at hfuel
    obtain ⟨taken, htaken⟩ := h ctx mid x rest hctx hmid (by omega) hrun
    refine ⟨t, taken, rfl, ?split, htaken.ended, ?known, htaken.spec, ?again⟩
    case split => rw [htaken.split, List.cons_append]
    case known => exact List.forall_mem_cons.2 ⟨hknown, htaken.known⟩
    case again =>
      intro ctx' fuel' hctx' hfuel'
      rw [List.length_cons] at hfuel'
      apply (htaken.again ctx' fuel' hctx' (by omega)).advance
      rintro l ⟨hpasses, -⟩
      cases taken with
      | nil => exact hpasses
      | cons u taken => exact htaken.known u (by simp) _
  next => cases hrun

/-! ### Symbols -/

theorem passes_keyword (frame : Frame) (k : Keyword) : Passes frame (.keyword k) := by
  rintro c failed ⟨⟩

theorem runs_take {l : Lexeme} {problem : Lexeme → Problem} (hne : l ≠ .endOfText) (hknown : ∀ frame, Passes frame l)
    : Runs need nested closed (fun ctx _ => do
        let found ← Reader.peek
        if found = l then
          let _ ← Reader.advance ctx.toFrame
        else Reader.fail ctx.toFrame (problem found)) fuel fun w _ => w = [l] := by
  apply Runs.peek
  intro found
  split
  next hfound =>
    rw [hfound]
    exact .advance hne hknown (.pure rfl)
  next => exact .fail

theorem runs_expect (s : Symbol)
    : Runs need nested closed (fun ctx _ => expect ctx s) fuel fun w _ => w = [.symbol s] :=
  runs_take (by simp) fun frame => passes_symbol frame s

theorem runs_expectKeyword (k : Keyword)
    : Runs need nested closed (fun ctx _ => expectKeyword ctx k) fuel fun w _ => w = [.keyword k] :=
  runs_take (by simp) fun frame => passes_keyword frame k

theorem accept_apply (ctx : Context) (s : Symbol) (tokens : List Token)
    : accept ctx s tokens
        = if (first tokens).lexeme = .symbol s then (do let _ ← Reader.advance ctx.toFrame; return true) tokens
          else .ok (false, tokens) := by
  change (if decide ((first tokens).lexeme = .symbol s) = true then _ else _ : ParseM Bool) tokens = _
  by_cases h : (first tokens).lexeme = .symbol s
  · rw [if_pos h, if_pos (by simpa using h)]
  · rw [if_neg h, if_neg (by simpa using h)]
    rfl

theorem runs_accept (s : Symbol) (hs : s ≠ .openBracket ∨ closed = true)
    : Runs need nested closed (fun ctx _ => accept ctx s) fuel
        fun w b => w = if b then [.symbol s] else [] := by
  intro ctx tokens b rest hctx hended hfuel hrun
  dsimp only at hrun
  rw [accept_apply] at hrun
  split at hrun
  next hfirst =>
    have htake : RunsFrom (.symbol s) need nested closed
        (fun ctx _ => do let _ ← Reader.advance ctx.toFrame; return true) fuel
        (fun w b => w = if b then [.symbol s] else []) :=
      .advance (by simp) (fun frame => passes_symbol frame s) (.pure rfl)
    obtain ⟨t, taken, ht, htakes⟩ := htake ctx tokens b rest hctx hended hfuel hfirst hrun
    refine ⟨t :: taken, { htakes with again := ?_ }⟩
    intro ctx' fuel' hctx' hfuel'
    have hread := htakes.again ctx' fuel' hctx' hfuel'
    rw [List.map_cons, ht] at hread ⊢
    apply hread.congr_of_first
    intro tokens hfirst
    rw [accept_apply, if_pos hfirst]
  next hfirst =>
    cases hrun
    refine ⟨[], rfl, hended, by simp, rfl, ?_⟩
    intro ctx' _ _ _
    apply (reads_accept_of_ne ctx'.toFrame (.symbol s)).mono
    rintro l ⟨-, rfl | hl⟩
    · exact hfirst
    · exact hl.ne hs

section

variable {T : List Lexeme → β → Prop}

theorem Runs.accept_bind {s : Symbol} {f : Bool → Context → Nat → ParseM β} (hs : s ≠ .openBracket)
    (htrue : Runs (need + 8) nested closed (f true) fuel fun w y => T (.symbol s :: w) y)
    (hfalse : Runs need nested closed (f false) fuel T)
    : Runs need nested closed (fun ctx n => accept ctx s >>= fun b => f b ctx n) fuel T := by
  apply (runs_accept s (.inl hs)).bind
  rintro _ b rfl
  cases b with
  | true => exact htrue
  | false => exact hfalse

theorem Runs.expect_bind {s : Symbol} {f : Context → Nat → ParseM β}
    (h : Runs (need + 8) nested closed f fuel fun w y => T (.symbol s :: w) y)
    : Runs need nested closed (fun ctx n => expect ctx s >>= fun _ => f ctx n) fuel T := by
  apply (runs_expect s).bind
  rintro _ _ rfl
  exact h

theorem Runs.closing {s : Symbol} {first' : Bool} {f : α → β} (h : Runs need nested first' rule fuel S)
    (hT : ∀ w x, S w x → T (w ++ [.symbol s]) (f x))
    : Runs need nested closed (fun ctx n => rule ctx n >>= fun x => do expect ctx s; return f x) fuel T := by
  apply h.bind_of
  intro w x hw
  exact Runs.expect_bind (.pure ⟨hT w x hw, .inr (by simp)⟩)

end

theorem runs_behind {s : Symbol} {otherwise : α} (hs : s ≠ .openBracket)
    (h : Runs (need + 8) nested closed rule fuel fun w x => S (.symbol s :: w) x)
    (hotherwise : S [] otherwise)
    : Runs need nested closed (fun ctx n => behind ctx s otherwise (rule ctx n)) fuel S := by
  unfold behind
  exact .accept_bind hs (by simpa using h) (by simpa using .pure hotherwise)

theorem runs_continued {s : Symbol} {item : α} {more : Context → Nat → ParseM (List α)}
    {T : List Lexeme → List α → Prop} (hs : s ≠ .openBracket)
    (h : Runs (need + 8) nested closed more fuel fun w xs => T (.symbol s :: w) (item :: xs)) (hone : T [] [item])
    : Runs need nested closed (fun ctx n => continued ctx s item (more ctx n)) fuel T := by
  unfold continued
  apply Runs.accept_bind hs
  · simp only [if_true]
    apply h.bind
    intro w xs hw
    apply Runs.pure
    rw [List.append_nil]
    exact hw
  · simpa using .pure hone

/-! ### Marks -/

open Derives

theorem passes_headD_marks {w : List Lexeme} {t u : TypeExpr} (h : Marks w t u) {frame : Frame} {l : Lexeme}
    (hl : Passes frame l)
    : Passes frame (w.headD l) := by
  cases h with
  | nil => exact hl
  | array => exact passes_symbol _ _
  | optional => exact passes_symbol _ _

theorem reads_marks {w : List Lexeme} {t u : TypeExpr} (h : Marks w t u) (ctx : Context) (hfuel : w.length ≤ fuel)
    : Reads (marks ctx fuel t) w u
        fun l => Passes ctx.toFrame l ∧ l ≠ .symbol .brackets ∧ l ≠ .symbol .question := by
  induction h generalizing fuel with
  | nil => exact (marks_of_ne fuel _).mono fun _ hl => hl.2
  | @array w t u h ih =>
    rw [List.length_cons] at hfuel
    obtain ⟨fuel, rfl⟩ : ∃ n, fuel = n + 1 := ⟨fuel - 1, by omega⟩
    unfold marks
    apply Reads.accept (by simpa using ih (by omega))
    rintro l ⟨hpasses, -⟩
    exact passes_headD_marks h hpasses
  | @optional w t u h ih =>
    rw [List.length_cons] at hfuel
    obtain ⟨fuel, rfl⟩ : ∃ n, fuel = n + 1 := ⟨fuel - 1, by omega⟩
    unfold marks
    apply Reads.accept_of_ne _ (by simp)
    apply Reads.accept (by simpa using ih (by omega))
    rintro l ⟨hpasses, -⟩
    exact passes_headD_marks h hpasses

theorem accept_eq_ok {ctx : Context} {s : Symbol} {tokens rest : List Token} {b : Bool} (hended : Ended tokens)
    (h : accept ctx s tokens = .ok (b, rest))
    : (b = true ∧ ∃ t, t.lexeme = .symbol s ∧ tokens = t :: rest ∧ Ended rest) ∨
        (b = false ∧ rest = tokens ∧ (first tokens).lexeme ≠ .symbol s) := by
  rw [accept_apply] at h
  split at h
  next hfirst =>
    rw [bind_apply] at h
    split at h
    next hadvance =>
      obtain ⟨t, rfl, -, hrest⟩ := exists_of_advance hended (by rw [hfirst]; simp) hadvance
      cases h
      exact .inl ⟨rfl, t, hfirst, rfl, hrest⟩
    next => cases h
  next hfirst =>
    cases h
    exact .inr ⟨rfl, rfl, hfirst⟩

theorem exists_marks {ctx : Context} {t u : TypeExpr} {tokens rest : List Token} (hended : Ended tokens)
    (hfuel : tokens.length ≤ fuel + 1) (h : marks ctx fuel t tokens = .ok (u, rest))
    : ∃ taken, tokens = taken ++ rest ∧ Ended rest ∧ Marks (taken.map (·.lexeme)) t u ∧
        (first rest).lexeme ≠ .symbol .brackets ∧ (first rest).lexeme ≠ .symbol .question := by
  -- The last token ends the text and needs no fuel.
  induction fuel generalizing t tokens with
  | zero =>
    cases hended with
    | last offset =>
      cases h
      exact ⟨[], rfl, .last offset, .nil, by simp [first], by simp [first]⟩
    | cons _ hended =>
      have := List.length_pos_iff.2 hended.ne_nil
      rw [List.length_cons] at hfuel
      omega
  | succ fuel ih =>
    unfold marks at h
    rw [bind_apply] at h
    split at h
    next b mid hbrackets =>
      obtain ⟨rfl, tok, htok, rfl, hmid⟩ | ⟨rfl, rfl, hbrackets⟩ := accept_eq_ok hended hbrackets
      · rw [if_pos rfl] at h
        obtain ⟨taken, rfl, hrest, hmarks, hnext⟩ := ih hmid (by simpa using hfuel) h
        exact ⟨tok :: taken, rfl, hrest, by rw [List.map_cons, htok]; exact .array hmarks, hnext⟩
      · rw [if_neg (by simp), bind_apply] at h
        split at h
        next b mid hquestion =>
          obtain ⟨rfl, tok, htok, rfl, hmid⟩ | ⟨rfl, rfl, hquestion⟩ := accept_eq_ok hended hquestion
          · rw [if_pos rfl] at h
            obtain ⟨taken, rfl, hrest, hmarks, hnext⟩ := ih hmid (by simpa using hfuel) h
            exact ⟨tok :: taken, rfl, hrest, by rw [List.map_cons, htok]; exact .optional hmarks, hnext⟩
          · cases h
            exact ⟨[], rfl, hended, .nil, hbrackets, hquestion⟩
        next => cases h
    next => cases h

theorem passes_of_mem_marks {w : List Lexeme} {t u : TypeExpr} (h : Marks w t u)
    : ∀ l ∈ w, ∀ frame, Passes frame l := by
  induction h with
  | nil => simp
  | array _ ih => exact List.forall_mem_cons.2 ⟨fun frame => passes_symbol frame _, ih⟩
  | optional _ ih => exact List.forall_mem_cons.2 ⟨fun frame => passes_symbol frame _, ih⟩

theorem runs_marks (t : TypeExpr) (hneed : 1 ≤ need)
    : Runs need nested closed (fun ctx n => marks ctx n t) fuel fun w u => Marks w t u := by
  intro ctx tokens u rest hctx hended hfuel hrun
  obtain ⟨taken, hsplit, hrest, hmarks, hbrackets, hquestion⟩ := exists_marks hended (by omega) hrun
  refine ⟨taken, hsplit, hrest, ?known, hmarks, ?again⟩
  case known => exact fun t ht => passes_of_mem_marks hmarks _ (List.mem_map_of_mem ht)
  case again =>
    intro ctx' fuel' _ hfuel'
    apply (reads_marks hmarks ctx' (by rw [List.length_map]; omega)).mono
    rintro l ⟨hpasses, rfl | hl⟩
    · exact ⟨hpasses, hbrackets, hquestion⟩
    · exact ⟨hpasses, hl.ne (.inl (by decide)), hl.ne (.inl (by decide))⟩

end TypeExpr.Parser

end LuaTypes
