import LuaTypes.Proofs.Token.Reads
import LuaTypes.Proofs.TypeExpr.Lexemes

/-!
Canonical types are read back from their lexemes. A type is read up to the first lexeme that cannot go on
with it; what can go on with a type depends on the brackets around it only for function types.
-/

namespace LuaTypes.TypeExpr

open Reader

namespace Parser

/-! ### Lexemes that follow -/

structure Marked (ctx : Context) (l : Lexeme) : Prop where
  passes : Passes ctx.toFrame l
  ne_openAngle : l ≠ .symbol .openAngle
  ne_brackets : l ≠ .symbol .brackets
  ne_question : l ≠ .symbol .question

structure Closes (ctx : Context) (l : Lexeme) : Prop extends Marked ctx l where
  ne_pipe : l ≠ .symbol .pipe
  ne_colon : l ≠ .symbol .colon

/--
Can the type end before the lexeme? Outside of brackets, a comma goes on with the returned types.
-/
structure Ends (ctx : Context) (t : TypeExpr) (l : Lexeme) : Prop extends Closes ctx l where
  ne_comma : t.isFunction = true → ctx.nested = false → l ≠ .symbol .comma

theorem passes_symbol (frame : Frame) (s : Symbol) : Passes frame (.symbol s) := by
  rintro c failed ⟨⟩

theorem closes_symbol (ctx : Context) {s : Symbol}
    (h : s ∉ [.openAngle, .brackets, .question, .pipe, .colon])
    : Closes ctx (.symbol s) := by
  simp only [List.mem_cons, not_or, List.not_mem_nil, not_false_eq_true, and_true] at h
  refine ⟨⟨passes_symbol _ s, ?_, ?_, ?_⟩, ?_, ?_⟩
  all_goals simp [h]

theorem Closes.ends_inside {ctx : Context} {l : Lexeme} (h : Closes ctx.inside l) (t : TypeExpr)
    : Ends ctx.inside t l where
  toCloses := h
  ne_comma := by
    intro _ hnested
    cases hnested

/-! ### Lexemes that start a type -/

def leads : Lexeme → Bool
  | .name _ => true
  | .string _ => true
  | .number _ => true
  | .keyword _ => true
  | .symbol .openBrace => true
  | .symbol .openParen => true
  | _ => false

def Leading (lexemes : List Lexeme) : Prop :=
  ∃ l ls, lexemes = l :: ls ∧ leads l = true

variable {lexemes : List Lexeme}

theorem Leading.ne_nil (h : Leading lexemes) : lexemes ≠ [] := by
  obtain ⟨l, ls, rfl, -⟩ := h
  simp

theorem Leading.append (h : Leading lexemes) (lexemes' : List Lexeme) : Leading (lexemes ++ lexemes') := by
  obtain ⟨l, ls, rfl, hl⟩ := h
  exact ⟨l, ls ++ lexemes', rfl, hl⟩

theorem Leading.grouped (h : Leading lexemes) (wrap : Bool) : Leading (grouped wrap lexemes) := by
  unfold TypeExpr.grouped
  split
  · exact ⟨_, _, rfl, rfl⟩
  · exact h

theorem Leading.separated (h : Leading lexemes) (separator : Symbol) (items : List (List Lexeme))
    : Leading (separated separator (lexemes :: items)) := by
  cases items with
  | nil => simpa [TypeExpr.separated] using h
  | cons item items =>
    rw [separated_cons_cons]
    exact h.append _

theorem passes_of_leads (frame : Frame) {l : Lexeme} (h : leads l = true) : Passes frame l := by
  rintro c failed rfl
  cases h

theorem Leading.passes (h : Leading lexemes) (frame : Frame) (l : Lexeme)
    : Passes frame (lexemes.headD l) := by
  obtain ⟨l, ls, rfl, hl⟩ := h
  exact passes_of_leads frame hl

theorem leads_lexeme (value : Literal) : leads value.lexeme = true := by
  cases value <;> rfl

theorem leading_lexemes {t : TypeExpr} {root : Bool} (h : t.Canonical root) : Leading t.lexemes := by
  induction t generalizing root with
  | named name => exact ⟨_, _, rfl, rfl⟩
  | literal value => exact ⟨_, _, rfl, leads_lexeme value⟩
  | union members ih =>
    cases h with
    | union hlength _ h =>
      cases members with
      | nil => simp at hlength
      | cons t ts =>
        rw [TypeExpr.lexemes, operandLexemes]
        exact ((ih t (by simp) (h t (by simp))).grouped _).separated _ _
  | optional inner ih =>
    cases h with
    | optional h => exact ((ih h).grouped _).append _
  | array element ih =>
    cases h with
    | array h => exact ((ih h).grouped _).append _
  | generic name args => exact ⟨_, _, rfl, rfl⟩
  | function params returns isAsync => cases isAsync <;> exact ⟨_, _, rfl, rfl⟩
  | table fields => exact ⟨_, _, rfl, rfl⟩
  | vararg => cases h

def leadsItem : Lexeme → Bool
  | .symbol .openBracket => true
  | .symbol .ellipsis => true
  | l => leads l

def LeadsItem (lexemes : List Lexeme) : Prop :=
  ∃ l ls, lexemes = l :: ls ∧ leadsItem l = true

theorem passes_of_leadsItem (frame : Frame) {l : Lexeme} (h : leadsItem l = true) : Passes frame l := by
  rintro c failed rfl
  cases h

theorem LeadsItem.ne_nil (h : LeadsItem lexemes) : lexemes ≠ [] := by
  obtain ⟨l, ls, rfl, -⟩ := h
  simp

theorem LeadsItem.append (h : LeadsItem lexemes) (lexemes' : List Lexeme) : LeadsItem (lexemes ++ lexemes') := by
  obtain ⟨l, ls, rfl, hl⟩ := h
  exact ⟨l, ls ++ lexemes', rfl, hl⟩

theorem LeadsItem.passes (h : LeadsItem lexemes) (frame : Frame) (l : Lexeme) : Passes frame (lexemes.headD l) := by
  obtain ⟨l, ls, rfl, hl⟩ := h
  exact passes_of_leadsItem frame hl

/-! ### Rules -/

variable {α : Type} {ctx : Context} {x : α} {fits : Lexeme → Prop}

theorem reads_expect (ctx : Context) (s : Symbol)
    : Reads (expect ctx s) [.symbol s] () (Passes ctx.toFrame) :=
  reads_take _ _ _

theorem reads_expectKeyword (ctx : Context) (k : Keyword)
    : Reads (expectKeyword ctx k) [.keyword k] () (Passes ctx.toFrame) :=
  reads_take _ _ _

theorem reads_behind {symbol : Symbol} {otherwise : α} {read : ParseM α}
    (h : Reads read lexemes x fits) (hfits : ∀ l, fits l → Passes ctx.toFrame (lexemes.headD l))
    : Reads (behind ctx symbol otherwise read) (.symbol symbol :: lexemes) x fits := by
  unfold behind accept
  apply (reads_accept ctx.toFrame (.symbol symbol)).bind _ hfits
  simpa using h

theorem reads_behind_of_ne {symbol : Symbol} {otherwise : α} {read : ParseM α}
    : Reads (behind ctx symbol otherwise read) [] otherwise (· ≠ .symbol symbol) := by
  unfold behind accept
  apply (reads_accept_of_ne ctx.toFrame (.symbol symbol)).bind _ fun _ hl => hl
  exact .pure otherwise

theorem reads_continued {separator : Symbol} {xs : List α} {more : ParseM (List α)}
    (h : Reads more lexemes xs fits) (hfits : ∀ l, fits l → Passes ctx.toFrame (lexemes.headD l))
    : Reads (continued ctx separator x more) (.symbol separator :: lexemes) (x :: xs) fits := by
  unfold continued accept
  apply (reads_accept ctx.toFrame (.symbol separator)).bind _ hfits
  have := h.bind (f := fun xs => Pure.pure (x :: xs)) (.pure (x :: xs)) fun _ hl => hl
  simpa using this

theorem reads_continued_of_ne {separator : Symbol} {more : ParseM (List α)}
    : Reads (continued ctx separator x more) [] [x] (· ≠ .symbol separator) := by
  unfold continued accept
  apply (reads_accept_of_ne ctx.toFrame (.symbol separator)).bind _ fun _ hl => hl
  exact .pure [x]

/-! ### Marks -/

theorem marks_of_ne (fuel : Nat) (t : TypeExpr)
    : Reads (marks ctx fuel t) [] t fun l => l ≠ .symbol .brackets ∧ l ≠ .symbol .question := by
  cases fuel with
  | zero => exact .pure t
  | succ fuel =>
    unfold marks accept
    apply (reads_accept_of_ne ctx.toFrame (.symbol .brackets)).bind _ fun _ hl => hl.1
    apply (reads_accept_of_ne ctx.toFrame (.symbol .question)).bind _ fun _ hl => hl.2
    exact .pure t

/--
Is the type, with the marks that belong to it, read from the lexemes before more marks are looked for?
Each mark takes one of the rounds of the reader of marks.
-/
def ReadsMarked (ctx : Context) (fuel : Nat) (lexemes : List Lexeme) (t : TypeExpr) : Prop :=
  ∀ tokens rest rounds, tokens.map (·.lexeme) = lexemes → rest ≠ [] →
    Passes ctx.toFrame (first rest).lexeme → (first rest).lexeme ≠ .symbol .openAngle →
    lexemes.length ≤ rounds →
    ∃ rounds', rounds ≤ rounds' + lexemes.length ∧
      (primary ctx fuel >>= marks ctx rounds) (tokens ++ rest) = marks ctx rounds' t rest

theorem ReadsMarked.of_reads {fuel : Nat} {t : TypeExpr}
    (h : Reads (primary ctx fuel) lexemes t fun l => Passes ctx.toFrame l ∧ l ≠ .symbol .openAngle)
    : ReadsMarked ctx fuel lexemes t := by
  intro tokens rest rounds htokens hrest hpasses hangle _
  refine ⟨rounds, by omega, ?_⟩
  rw [bind_apply, h tokens rest htokens hrest ⟨hpasses, hangle⟩]

def IsMark (ctx : Context) (s : Symbol) (t u : TypeExpr) : Prop :=
  ∀ rounds tok rest, tok.lexeme = .symbol s → rest ≠ [] → Passes ctx.toFrame (first rest).lexeme →
    marks ctx (rounds + 1) t (tok :: rest) = marks ctx rounds u rest

theorem isMark_brackets (ctx : Context) (t : TypeExpr) : IsMark ctx .brackets t (.array t) := by
  intro rounds tok rest htok hrest hpasses
  have haccept := reads_accept (π := Problem) ctx.toFrame (.symbol .brackets) [tok] rest (by simp [htok]) hrest
    hpasses
  rw [marks, bind_apply, accept]
  rw [List.singleton_append] at haccept
  rw [haccept]
  rfl

theorem isMark_question (ctx : Context) (t : TypeExpr) : IsMark ctx .question t (.optional t) := by
  intro rounds tok rest htok hrest hpasses
  have hbrackets := reads_accept_of_ne (π := Problem) ctx.toFrame (.symbol .brackets) [] (tok :: rest) rfl
    (by simp) (by simp [first, htok])
  have haccept := reads_accept (π := Problem) ctx.toFrame (.symbol .question) [tok] rest (by simp [htok]) hrest
    hpasses
  rw [List.nil_append] at hbrackets
  rw [List.singleton_append] at haccept
  rw [marks, bind_apply, accept, hbrackets]
  dsimp only
  rw [if_neg (by simp), bind_apply, accept, haccept]
  rfl

theorem ReadsMarked.mark {fuel : Nat} {t u : TypeExpr} {s : Symbol} (h : ReadsMarked ctx fuel lexemes t)
    (hs : s ≠ .openAngle) (hmark : IsMark ctx s t u)
    : ReadsMarked ctx fuel (lexemes ++ [.symbol s]) u := by
  intro tokens rest rounds htokens hrest hpasses hangle hrounds
  rw [List.map_eq_append_iff] at htokens
  obtain ⟨before, after, rfl, hbefore, hafter⟩ := htokens
  rw [List.map_eq_singleton_iff] at hafter
  obtain ⟨tok, rfl, htok⟩ := hafter
  rw [List.length_append, List.length_singleton] at hrounds
  obtain ⟨rounds', hle, hread⟩ := h before (tok :: rest) rounds hbefore (by simp)
    (by simp [first, htok, passes_symbol]) (by simp [first, htok, hs]) (by omega)
  -- The marks of the type have left at least one round for this one.
  obtain ⟨rounds', rfl⟩ : ∃ n, rounds' = n + 1 := ⟨rounds' - 1, by omega⟩
  refine ⟨rounds', ?_, ?_⟩
  · rw [List.length_append, List.length_singleton]
    omega
  · rw [List.append_assoc, List.singleton_append, hread, hmark rounds' tok rest htok hrest hpasses]

/-! ### Alternatives -/

theorem ReadsMarked.reads {fuel : Nat} {t : TypeExpr} (h : ReadsMarked ctx fuel lexemes t)
    (hfuel : lexemes.length ≤ fuel)
    : Reads (primary ctx fuel >>= marks ctx fuel) lexemes t (Marked ctx) := by
  intro tokens rest htokens hrest hnext
  obtain ⟨rounds, -, hread⟩ := h tokens rest fuel htokens hrest hnext.passes hnext.ne_openAngle hfuel
  rw [hread]
  exact marks_of_ne rounds t [] rest rfl hrest ⟨hnext.ne_brackets, hnext.ne_question⟩

theorem members_succ (ctx : Context) (fuel : Nat)
    : members ctx (fuel + 1)
        = ((primary ctx fuel >>= marks ctx fuel) >>= fun t => continued ctx .pipe t (members ctx fuel)) := by
  rw [members, bind_assoc]

theorem reads_union_of_one {fuel : Nat} {t : TypeExpr}
    (h : Reads (primary ctx fuel >>= marks ctx fuel) lexemes t fits) (hfits : ∀ l, fits l → l ≠ .symbol .pipe)
    : Reads (union ctx (fuel + 2)) lexemes t fits := by
  have hmember := h.bind (f := fun t => continued ctx .pipe t (members ctx fuel))
    (reads_continued_of_ne.mono hfits) fun _ hl => hl
  rw [← members_succ, List.append_nil] at hmember
  have := hmember.bind (f := fun ts => Pure.pure (ofMembers ts)) (.pure (ofMembers [t])) fun _ hl => hl
  rw [List.append_nil] at this
  exact this

theorem ReadsMarked.reads_union {fuel : Nat} {t : TypeExpr} (h : ReadsMarked ctx fuel lexemes t)
    (hfuel : lexemes.length ≤ fuel)
    : Reads (union ctx (fuel + 2)) lexemes t (Closes ctx) := by
  apply reads_union_of_one ((h.reads hfuel).mono fun _ hl => hl.toMarked)
  exact fun _ hl => hl.ne_pipe

/-! ### Lists -/

theorem separated_singleton (separator : Symbol) (item : List Lexeme) : separated separator [item] = item := by
  simp [separated]

theorem passes_separated {item lexemes : List Lexeme} {l : Lexeme} (hitem : item = l :: lexemes)
    (hl : leadsItem l = true) (frame : Frame) (separator : Symbol) (items : List (List Lexeme)) (next : Lexeme)
    : Passes frame ((separated separator (item :: items)).headD next) := by
  rw [hitem]
  cases items with
  | nil =>
    rw [separated_singleton]
    exact passes_of_leadsItem frame hl
  | cons item' items =>
    rw [separated_cons_cons]
    exact passes_of_leadsItem frame hl

theorem reads_separated (ctx : Context) (spare : Nat) (rule : Nat → ParseM (List α)) (item : Nat → ParseM α)
    {items : α → List Lexeme} {separator : Symbol} (hspare : spare ≤ 2)
    (hrule : ∀ fuel tokens, leadsItem (first tokens).lexeme = true →
      rule (fuel + 1) tokens = (item fuel >>= fun x => continued ctx separator x (rule fuel)) tokens)
    (hseparator : fits (.symbol separator)) {xs : List α} (hne : xs ≠ []) {fuel : Nat}
    (hitem : ∀ x ∈ xs, (∃ l ls, items x = l :: ls ∧ leadsItem l = true) ∧
      ∀ fuel, 8 * (items x).length ≤ fuel + spare → Reads (item fuel) (items x) x fits)
    (hfuel : 8 * (separated separator (xs.map items)).length + 1 ≤ fuel + spare)
    : Reads (rule fuel) (separated separator (xs.map items)) xs
        fun l => fits l ∧ l ≠ .symbol separator := by
  induction xs generalizing fuel with
  | nil => exact absurd rfl hne
  | cons x xs ih =>
    obtain ⟨⟨l, ls, hlexemes, hl⟩, hread⟩ := hitem x (by simp)
    cases xs with
    | nil =>
      rw [List.map_singleton, separated_singleton] at hfuel ⊢
      have hlength : (items x).length = ls.length + 1 := by rw [hlexemes, List.length_cons]
      obtain ⟨fuel, rfl⟩ : ∃ n, fuel = n + 1 := ⟨fuel - 1, by omega⟩
      have hlast : Reads (continued ctx separator x (rule fuel)) [] [x]
          fun l => fits l ∧ l ≠ .symbol separator :=
        reads_continued_of_ne.mono fun _ hl => hl.2
      have hx := (hread fuel (by omega)).bind (f := fun x => continued ctx separator x (rule fuel)) hlast
        fun _ hl => hl.1
      rw [List.append_nil, hlexemes] at hx
      rw [hlexemes]
      apply hx.congr_of_first
      intro tokens hfirst
      exact hrule fuel tokens (by rw [hfirst, hl])
    | cons y ys =>
      rw [List.map_cons, List.map_cons, separated_cons_cons] at hfuel ⊢
      rw [List.length_append, List.length_cons] at hfuel
      have hlength : (items x).length = ls.length + 1 := by rw [hlexemes, List.length_cons]
      obtain ⟨fuel, rfl⟩ : ∃ n, fuel = n + 1 := ⟨fuel - 1, by omega⟩
      have hys := @ih (by simp) fuel (fun z hz => hitem z (by simp [hz])) (by rw [List.map_cons]; omega)
      have hmore : ∀ l, Passes ctx.toFrame ((separated separator ((y :: ys).map items)).headD l) := by
        intro next
        obtain ⟨⟨m, ms, hy, hm⟩, -⟩ := hitem y (by simp)
        exact passes_separated hy hm _ _ _ next
      have hx := (hread fuel (by omega)).bind (f := fun x => continued ctx separator x (rule fuel))
        (reads_continued hys fun l _ => hmore l) fun _ _ => hseparator
      rw [hlexemes, List.cons_append] at hx ⊢
      apply hx.congr_of_first
      intro tokens hfirst
      exact hrule fuel tokens (by rw [hfirst, hl])

end Parser

end LuaTypes.TypeExpr
