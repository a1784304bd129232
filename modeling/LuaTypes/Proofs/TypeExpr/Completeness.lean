import LuaTypes.Proofs.TypeExpr.Flow
import LuaTypes.Proofs.TypeExpr.RoundTrip
import LuaTypes.Proofs.TypeExpr.Soundness

/-!
Completeness of the rules, and with it the theorem that the texts of types are those of the grammar. The
rules leave a function type only where nothing can go on with it, so that they read every word; what they
make of it need not be the type that it was derived for.
-/

namespace LuaTypes.TypeExpr

namespace Parser

open Reader Derives

variable {α : Type}

/--
Does the rule read the word, given enough fuel for it?
-/
def Accepts (need : Nat) (nested : Bool) (rule : Context → Nat → ParseM α) (w : List Lexeme) (x : α)
    (fits : Lexeme → Prop) : Prop :=
  ∀ ctx fuel, ctx.nested = nested → 8 * w.length + need ≤ fuel + 8 → Reads (rule ctx fuel) w x fits

inductive Last : Nat → Lexeme → Prop where
  | endOfText : Last 0 .endOfText
  | symbol {d s} : s ∈ [Symbol.comma, .closeAngle, .closeParen, .closeBrace, .closeBracket] → Last (d + 1) (.symbol s)

def Behind (d : Nat) (w : List Lexeme) (l : Lexeme) : Prop :=
  ∃ last, Last d last ∧ l = w.headD last

variable {d n : Nat} {v w z : List Lexeme} {l : Lexeme}

theorem Behind.headD (h : Behind d w l) (v : List Lexeme) : Behind d (v ++ w) (v.headD l) := by
  obtain ⟨last, hlast, rfl⟩ := h
  exact ⟨last, hlast, (headD_append v w last).symm⟩

theorem behind_nil : Behind d [] l ↔ Last d l := by
  simp [Behind]

structure Apart (l : Lexeme) : Prop where
  passes (frame : Frame) : Passes frame l
  ne_openAngle : l ≠ .symbol .openAngle
  ne_colon : l ≠ .symbol .colon

theorem apart_symbol {s : Symbol} (h : s ∉ [Symbol.openAngle, .colon]) : Apart (.symbol s) := by
  simp only [List.mem_cons, not_or, List.not_mem_nil, not_false_eq_true, and_true] at h
  exact ⟨fun frame => passes_symbol frame s, by simp [h], by simp [h]⟩

theorem Last.apart (h : Last d l) : Apart l := by
  cases h with
  | endOfText => exact ⟨by rintro _ _ _ ⟨⟩, by simp, by simp⟩
  | @symbol d s h =>
    apply apart_symbol
    revert h
    cases s <;> decide

theorem Last.ne (h : Last d l) : l ≠ .symbol .brackets ∧ l ≠ .symbol .question ∧ l ≠ .symbol .pipe := by
  cases h with
  | endOfText => simp
  | @symbol d s h =>
    revert h
    cases s <;> decide

theorem Behind.apart (hw : Flow d .behind n w) (h : Behind d w l) : Apart l := by
  obtain ⟨last, hlast, rfl⟩ := h
  cases hw with
  | done => exact hlast.apart
  | _ => exact apart_symbol (by decide)

/-! ### What brackets hold -/

section

variable {N : Nat}

def Inner (N d : Nat) : Prop :=
  ∀ v t, v.length < N → Derives.Union v (d + 1) t → ∃ u, Accepts 8 true union v u (Last (d + 1))

theorem reads_more (ctx : Context) (s : Symbol) (x : α) {xs : List α} {more : ParseM (List α)} {fits : Lexeme → Prop}
    (h : Reads more w xs fits) (hlead : LeadsItem w)
    : Reads (continued ctx s x more) (.symbol s :: w) (x :: xs) fits :=
  reads_continued h fun l _ => hlead.passes _ l

theorem accepts_list {Phrase : List Lexeme → Nat → α → Prop} (rule : Context → Nat → ParseM (List α))
    (item : Context → Nat → ParseM α) {tail : List Lexeme} {s : Symbol} {xs : List α}
    (hrule : ∀ ctx fuel tokens, leadsItem (first tokens).lexeme = true →
      rule ctx (fuel + 1) tokens = (item ctx fuel >>= fun x => continued ctx .comma x (rule ctx fuel)) tokens)
    (hlead : ∀ v x, Phrase v d x → LeadsItem v)
    (hitem : ∀ v x, v.length < N → Phrase v d x → ∃ y, Accepts 8 true item v y (Last d))
    (htail : ∀ y, Accepts 9 true (fun ctx fuel => continued ctx .comma y (rule ctx fuel)) tail [y] (· = .symbol s))
    (hcomma : Last d (.symbol .comma)) (hlast : Last d (tail.headD (.symbol s)))
    (h : Separated Phrase .comma w d xs) (hN : w.length < N)
    : ∃ ys, Accepts 9 true rule (w ++ tail) ys (· = .symbol s) := by
  induction h with
  | @one w d x hx =>
    obtain ⟨y, hy⟩ := hitem w x hN hx
    obtain ⟨l, ls, rfl, hl⟩ := hlead w x hx
    refine ⟨[y], ?_⟩
    intro ctx fuel hctx hfuel
    rw [List.length_append, List.length_cons] at hfuel
    obtain ⟨fuel, rfl⟩ : ∃ n, fuel = n + 1 := ⟨fuel - 1, by omega⟩
    have hread := (hy ctx fuel hctx (by rw [List.length_cons]; omega)).bind
      (f := fun x => continued ctx .comma x (rule ctx fuel)) (htail y ctx fuel hctx (by omega))
      (by rintro _ rfl; exact hlast)
    apply hread.congr_of_first
    exact fun tokens hfirst => hrule ctx fuel tokens (by rw [hfirst, hl])
  | @cons v w d x xs hx hxs ih =>
    rw [List.length_append, List.length_cons] at hN
    obtain ⟨y, hy⟩ := hitem v x (by omega) hx
    obtain ⟨l, ls, rfl, hl⟩ := hlead v x hx
    obtain ⟨ys, hys⟩ := ih hlead hitem hcomma hlast (by omega)
    refine ⟨y :: ys, ?_⟩
    intro ctx fuel hctx hfuel
    rw [List.append_assoc, List.cons_append] at hfuel ⊢
    simp only [List.length_append, List.length_cons] at hfuel
    obtain ⟨fuel, rfl⟩ : ∃ n, fuel = n + 1 := ⟨fuel - 1, by omega⟩
    have hleadMore : LeadsItem (w ++ tail) := by
      obtain ⟨u, z, rest, rfl, hu⟩ := hxs.exists_append
      exact ((hlead u z hu).append _).append _
    have hmore := reads_more ctx .comma y (hys ctx fuel hctx (by rw [List.length_append]; omega)) hleadMore
    have hread := (hy ctx fuel hctx (by rw [List.length_cons]; omega)).bind
      (f := fun x => continued ctx .comma x (rule ctx fuel)) hmore fun _ _ => hcomma
    apply hread.congr_of_first
    exact fun tokens hfirst => hrule ctx fuel tokens (by rw [hfirst, hl])

theorem accepts_end (s : Symbol) (hs : s ≠ .comma) (rule : Context → Nat → ParseM (List α)) (y : α)
    : Accepts 9 true (fun ctx fuel => continued ctx .comma y (rule ctx fuel)) [] [y] (· = .symbol s) := by
  intro ctx fuel _ _
  apply reads_continued_of_ne.mono
  rintro _ rfl
  simpa using hs

theorem accepts_arguments {ts : List TypeExpr} (h : Inner N d) (hts : Separated Derives.Union .comma w (d + 1) ts)
    (hw : w.length < N)
    : ∃ us, Accepts 9 true arguments w us (· = .symbol .closeAngle) := by
  obtain ⟨us, hus⟩ := accepts_list arguments union (fun ctx fuel tokens _ => by rw [arguments])
    (fun v t hv => hv.leading.exists_item) h (accepts_end .closeAngle (by simp) _) (.symbol (by decide))
    (.symbol (by decide)) hts hw
  rw [List.append_nil] at hus
  exact ⟨us, hus⟩

theorem accepts_typing {type : Option TypeExpr} (h : Inner N d) (htype : Typing w (d + 1) type) (hw : w.length < N)
    : ∃ type', Accepts 8 true (fun ctx fuel => behind ctx .colon none (some <$> union ctx fuel)) w type'
        (Last (d + 1)) := by
  cases htype with
  | none => exact ⟨none, fun ctx fuel _ _ => reads_behind_of_ne.mono fun _ hl => hl.apart.ne_colon⟩
  | some ht =>
    rw [List.length_cons] at hw
    obtain ⟨u, hu⟩ := h _ _ (by omega) ht
    refine ⟨u, fun ctx fuel hctx hfuel => ?_⟩
    rw [List.length_cons] at hfuel
    exact reads_behind (hu ctx fuel hctx (by omega)).map fun l _ => ht.leading.passes _ l

theorem accepts_param {p : Param TypeExpr} (h : Inner N d) (hp : Derives.Param w (d + 1) p) (hw : w.length < N)
    : ∃ q, Accepts 8 true param w q (Last (d + 1)) := by
  cases hp with
  | @mk l w d name type isOptional hname htype =>
    rw [List.length_cons, List.length_append] at hw
    obtain ⟨type', htype'⟩ := accepts_typing h htype (by omega)
    refine ⟨{ name, type := type', optional := isOptional }, fun ctx fuel hctx hfuel => ?_⟩
    rw [List.length_cons, List.length_append] at hfuel
    have hread : Reads (Parser.paramName ctx) [l] name (Passes ctx.toFrame) := by
      cases hname with
      | name => exact reads_paramName_name name
      | further => exact reads_paramName_ellipsis
    -- What stands behind the mark starts with a colon or ends the parameter.
    have hnext : ∀ l, Last (d + 1) l → Passes ctx.toFrame (w.headD l) ∧ w.headD l ≠ .symbol .question := by
      intro l hl
      cases htype with
      | none => exact ⟨hl.apart.passes _, hl.ne.2.1⟩
      | some => exact ⟨passes_symbol _ _, by simp⟩
    apply hread.bind_cons
    · exact (reads_optional isOptional).bind ((htype' ctx fuel hctx (by omega)).bind_pure _) hnext
    · intro l hl
      rw [headD_append]
      exact passes_headD_optional isOptional (hnext l hl).1

theorem accepts_params {ps : List (Param TypeExpr)} (h : Inner N d) (hps : Params w (d + 1) ps) (hw : w.length < N)
    : ∃ qs, Accepts 9 true (fun ctx fuel => paramList (params ctx fuel)) w qs (· = .symbol .closeParen) := by
  cases hps with
  | none => exact ⟨[], fun _ _ _ _ => reads_paramList_nil _⟩
  | some hps =>
    obtain ⟨qs, hqs⟩ := accepts_list params param
      (fun ctx fuel tokens _ => by simp only [params, param, bind_assoc, pure_bind]) (fun _ _ h => h.leadsItem)
      (fun v p hv hp => accepts_param h hp hv) (accepts_end .closeParen (by simp) _) (.symbol (by decide))
      (.symbol (by decide)) hps hw
    rw [List.append_nil] at hqs
    refine ⟨qs, fun ctx fuel hctx hfuel => ?_⟩
    have hread := hqs ctx fuel hctx hfuel
    obtain ⟨v, p, rest, rfl, hp⟩ := hps.exists_append
    obtain ⟨l, ls, rfl, hl⟩ := hp.leadsItem
    apply reads_paramList_cons hread
    rintro rfl
    cases hl

theorem accepts_field {f : Field TypeExpr} (h : Inner N d) (hf : Derives.Field w (d + 1) f) (hw : w.length < N)
    : ∃ g, Accepts 8 true field w g (Last (d + 1)) := by
  cases hf with
  | @keyed v w d key type hkey htype =>
    simp only [List.length_cons, List.length_append] at hw
    obtain ⟨key', hkey'⟩ := h v key (by omega) hkey
    obtain ⟨type', htype'⟩ := h w type (by omega) htype
    refine ⟨{ key := some key', type := type' }, fun ctx fuel hctx hfuel => ?_⟩
    simp only [List.length_cons, List.length_append] at hfuel
    obtain ⟨fuel, rfl⟩ : ∃ n, fuel = n + 1 := ⟨fuel - 1, by omega⟩
    exact reads_field_keyed (hkey' ctx fuel hctx (by omega)) (.symbol (by decide)) (htype' ctx fuel hctx (by omega))
      hkey.leading htype.leading
  | @named w d type name isOptional htype =>
    simp only [List.length_cons, List.length_append] at hw
    obtain ⟨type', htype'⟩ := h w type (by omega) htype
    refine ⟨{ name := some name, type := type', optional := isOptional }, fun ctx fuel hctx hfuel => ?_⟩
    simp only [List.length_cons, List.length_append] at hfuel
    obtain ⟨fuel, rfl⟩ : ∃ n, fuel = n + 1 := ⟨fuel - 1, by omega⟩
    exact reads_field_named name isOptional (htype' ctx fuel hctx (by omega)) htype.leading

theorem accepts_trailing (trailing : Bool) (f : Field TypeExpr)
    : Accepts 9 true (fun ctx fuel => continued ctx .comma f (fields ctx fuel)) (trailingLexemes trailing) [f]
        (· = .symbol .closeBrace) := by
  cases trailing with
  | false => exact accepts_end _ (by simp) _ f
  | true =>
    intro ctx fuel _ hfuel
    obtain ⟨fuel, rfl⟩ : ∃ n, fuel = n + 1 := ⟨fuel - 1, by simp [trailingLexemes] at hfuel; omega⟩
    apply reads_continued reads_fields_nil
    rintro _ rfl
    exact passes_symbol _ _

theorem accepts_fields {fs : List (Field TypeExpr)} (h : Inner N d) (trailing : Bool)
    (hfs : Separated Derives.Field .comma w (d + 1) fs) (hw : w.length < N)
    : ∃ gs, Accepts 9 true fields (w ++ trailingLexemes trailing) gs (· = .symbol .closeBrace) := by
  apply accepts_list fields field (fun ctx fuel tokens hlead => fields_succ hlead) (fun _ _ h => h.leadsItem)
    (fun v f hv hf => accepts_field h hf hv) (accepts_trailing trailing) (.symbol (by decide)) _ hfs hw
  cases trailing <;> exact .symbol (by decide)

/-! ### Types without marks -/

theorem accepts_primary {nested : Bool} {t : TypeExpr} (hne : w ≠ [])
    (h : ∀ ctx fuel, 8 * w.length ≤ fuel + 3 → Reads (primary ctx (fuel + 1)) w t (Follows ctx))
    : Accepts 6 nested primary w t Apart := by
  intro ctx fuel _ hfuel
  have hpos := List.length_pos_iff.2 hne
  obtain ⟨fuel, rfl⟩ : ∃ n, fuel = n + 1 := ⟨fuel - 1, by omega⟩
  exact (h ctx fuel (by omega)).mono fun l hl => ⟨hl.passes _, hl.ne_openAngle⟩

theorem accepts_table {t : TypeExpr} (h : Inner N d) (ht : Table w d t) (hw : w.length ≤ N)
    : ∃ u, Accepts 6 (d != 0) primary w u Apart := by
  cases ht with
  | empty =>
    refine ⟨.table [], accepts_primary (by simp) fun ctx fuel hfuel => ?_⟩
    obtain ⟨fuel, rfl⟩ : ∃ n, fuel = n + 1 := ⟨fuel - 1, by simp at hfuel; omega⟩
    exact reads_table reads_fields_nil fun _ => passes_symbol _ _
  | @fields w d fs trailing hfs =>
    simp only [List.length_cons, List.length_append, List.length_nil] at hw
    obtain ⟨gs, hgs⟩ := accepts_fields h trailing hfs (by omega)
    refine ⟨.table gs, accepts_primary (by simp) fun ctx fuel hfuel => ?_⟩
    rw [← List.append_assoc] at hfuel ⊢
    simp only [List.length_cons, List.length_append] at hfuel
    apply reads_table (hgs ctx.inside fuel rfl (by rw [List.length_append]; omega))
    intro l
    obtain ⟨v, f, rest, rfl, hf⟩ := hfs.exists_append
    exact ((hf.leadsItem.append _).append _).append _ |>.passes _ l

theorem accepts_closed {t : TypeExpr} (h : Inner N d) (ht : Primary w d t)
    (hkeyword : ∀ k, w.head? ≠ some (.keyword k)) (hw : w.length ≤ N)
    : ∃ u, Accepts 6 (d != 0) primary w u Apart := by
  cases ht with
  | name s => exact ⟨ofName s, accepts_primary (by simp) fun ctx fuel _ => reads_name s⟩
  | string s => exact ⟨.literal (.string s), accepts_primary (by simp) fun ctx fuel _ => reads_string s⟩
  | @number d s value hs => exact ⟨.literal value, accepts_primary (by simp) fun ctx fuel _ => reads_number hs⟩
  | @generic w d s ts htrue hfalse hts =>
    simp only [List.length_cons, List.length_append, List.length_nil] at hw
    obtain ⟨us, hus⟩ := accepts_arguments h hts (by omega)
    refine ⟨.generic s us, accepts_primary (by simp) fun ctx fuel hfuel => ?_⟩
    simp only [List.length_cons, List.length_append] at hfuel
    apply reads_generic htrue hfalse (hus ctx.inside fuel rfl (by omega)) rfl
    obtain ⟨v, u, rest, rfl, hu⟩ := hts.exists_append
    exact hu.leading.append rest
  | function ht =>
    cases ht with
    | mk isAsync =>
      cases isAsync with
      | false => exact absurd rfl (hkeyword .function)
      | true => exact absurd rfl (hkeyword .async)
  | table ht => exact accepts_table h ht hw
  | @parens w d t ht =>
    simp only [List.length_cons, List.length_append, List.length_nil] at hw
    obtain ⟨u, hu⟩ := h w t (by omega) ht
    refine ⟨u, accepts_primary (by simp) fun ctx fuel hfuel => ?_⟩
    simp only [List.length_cons, List.length_append] at hfuel
    have hread := reads_parens (hu ctx.inside fuel rfl (by omega)) (.symbol (by decide)) ht.leading
    simpa [grouped] using hread

theorem accepts_function {ps : List (Param TypeExpr)} {ts : List TypeExpr} {fits : Lexeme → Prop} (isAsync : Bool)
    (h : Inner N d) (hps : Params v (d + 1) ps) (hv : v.length < N)
    (hresults : Accepts 9 (d != 0) (fun ctx fuel => behind ctx .colon [] (returns ctx fuel)) w ts fits)
    (hfits : ∀ l, fits l → ∀ frame, Passes frame (w.headD l))
    : ∃ t, Accepts 6 (d != 0) primary (functionHead isAsync v ++ w) t fits := by
  obtain ⟨qs, hqs⟩ := accepts_params h hps hv
  refine ⟨.function qs ts isAsync, fun ctx fuel hctx hfuel => ?_⟩
  simp only [functionHead, List.length_append, List.length_cons] at hfuel
  obtain ⟨fuel, rfl⟩ : ∃ n, fuel = n + 2 := ⟨fuel - 2, by omega⟩
  have hpasses : Passes ctx.toFrame (v.headD (.symbol .closeParen)) := by
    cases hps with
    | none => exact passes_symbol _ _
    | some hps =>
      obtain ⟨u, p, rest, rfl, hp⟩ := hps.exists_append
      exact (hp.leadsItem.append rest).passes _ _
  have hread := primary_function isAsync (reads_function_of_parts isAsync (hqs ctx.inside fuel rfl (by omega))
    (hresults ctx fuel hctx (by omega)) hpasses fun l hl => hfits l hl _)
  simpa [functionHead, asyncLexemes] using hread

end

/-! ### From left to right -/

/--
A part of a word that a rule reads, and what is left of the word behind it.
-/
structure Part (need d n : Nat) (rule : Context → Nat → ParseM α) (w v u : List Lexeme) (x : α) : Prop where
  split : w = v ++ u
  lead : LeadsItem v
  reads : Accepts need (d != 0) rule v x (Behind d u)
  flow : Flow d .behind n u

def Alternatives (d n : Nat) (w : List Lexeme) : Prop :=
  ∃ v u ts, Part 7 d n members w v u ts ∧ (u = [] ∨ ∃ z, u = .symbol .comma :: z)

def Returned (d n : Nat) (w : List Lexeme) : Prop :=
  ∃ v u ts, Part 9 d n returns w v u ts ∧ ∀ z, u ≠ .symbol .comma :: z

theorem exists_primary {N : Nat} (h : Inner N d) (hflow : Flow d .start n w) (hw : w.length ≤ N)
    (hreturned : ∀ z, z.length < w.length → Flow d .item (n + 1) z → Returned d n z)
    : ∃ v u t, Part 6 d n primary w v u t := by
  cases hflow with
  | @primary n v u t ht hkeyword hu =>
    rw [List.length_append] at hw
    obtain ⟨t', ht'⟩ := accepts_closed h ht hkeyword (by omega)
    refine ⟨v, u, t', rfl, ht.leading.exists_item, ?_, hu⟩
    exact fun ctx fuel hctx hfuel => (ht' ctx fuel hctx hfuel).mono fun l hl => hl.apart hu
  | @function n v u ps isAsync hps hu =>
    simp only [functionHead, List.length_append, List.length_cons] at hw
    have hresults : Accepts 9 (d != 0) (fun ctx fuel => behind ctx .colon [] (returns ctx fuel)) [] [] (Behind d u) :=
      fun ctx fuel _ _ => reads_behind_of_ne.mono fun l hl => (hl.apart hu).ne_colon
    obtain ⟨t, ht⟩ := accepts_function isAsync h hps (by omega) hresults fun l hl => (hl.apart hu).passes
    rw [List.append_nil] at ht
    exact ⟨functionHead isAsync v, u, t, rfl, (leading_functionHead isAsync v).exists_item, ht, hu⟩
  | @returning n v z ps isAsync hps hz =>
    simp only [functionHead, List.length_append, List.length_cons] at hw
    obtain ⟨w, u, ts, hpart, -⟩ := hreturned z (by simp [functionHead]; omega) hz
    have hresults : Accepts 9 (d != 0) (fun ctx fuel => behind ctx .colon [] (returns ctx fuel))
        (.symbol .colon :: w) ts (Behind d u) := by
      intro ctx fuel hctx hfuel
      rw [List.length_cons] at hfuel
      exact reads_behind (hpart.reads ctx fuel hctx (by omega)) fun l _ => hpart.lead.passes _ l
    obtain ⟨t, ht⟩ := accepts_function isAsync h hps (by omega) hresults fun l _ frame => passes_symbol frame _
    refine ⟨functionHead isAsync v ++ .symbol .colon :: w, u, t, ?_,
      ((leading_functionHead isAsync v).append _).exists_item, ht, hpart.flow⟩
    rw [hpart.split, List.append_assoc, List.cons_append]

theorem exists_append_marks (hflow : Flow d .behind n w)
    : ∃ m u, w = m ++ u ∧ (∀ t, ∃ t', Marks m t t') ∧ Flow d .behind n u ∧
        (∀ z, u ≠ .symbol .brackets :: z) ∧ ∀ z, u ≠ .symbol .question :: z := by
  induction w with
  | nil => exact ⟨[], [], rfl, fun t => ⟨t, .nil⟩, hflow, by simp, by simp⟩
  | cons l w ih =>
    cases hflow with
    | array h =>
      obtain ⟨m, u, rfl, hm, hu⟩ := ih h
      refine ⟨.symbol .brackets :: m, u, rfl, fun t => ?_, hu⟩
      obtain ⟨t', ht'⟩ := hm (.array t)
      exact ⟨t', .array ht'⟩
    | optional h =>
      obtain ⟨m, u, rfl, hm, hu⟩ := ih h
      refine ⟨.symbol .question :: m, u, rfl, fun t => ?_, hu⟩
      obtain ⟨t', ht'⟩ := hm (.optional t)
      exact ⟨t', .optional ht'⟩
    | pipe h => exact ⟨[], _, rfl, fun t => ⟨t, .nil⟩, .pipe h, by simp, by simp⟩
    | comma hd h => exact ⟨[], _, rfl, fun t => ⟨t, .nil⟩, .comma hd h, by simp, by simp⟩

theorem Behind.ne {s : Symbol} (h : Behind d w l) (hs : s ∈ [Symbol.brackets, .question, .pipe])
    (hw : ∀ z, w ≠ .symbol s :: z)
    : l ≠ .symbol s := by
  obtain ⟨last, hlast, rfl⟩ := h
  cases w with
  | nil =>
    simp only [List.mem_cons, List.not_mem_nil, or_false] at hs
    obtain rfl | rfl | rfl := hs
    · exact hlast.ne.1
    · exact hlast.ne.2.1
    · exact hlast.ne.2.2
  | cons l w =>
    rintro rfl
    exact hw w rfl

theorem Part.alternatives {u : List Lexeme} {t : TypeExpr} (h : Part 6 d n primary w v u t)
    (halternatives : ∀ z, z.length < w.length → Flow d .start n z → Alternatives d n z)
    : Alternatives d n w := by
  obtain ⟨m, u, rfl, hm, hu, hbrackets, hquestion⟩ := exists_append_marks h.flow
  obtain ⟨t', ht'⟩ := hm t
  obtain ⟨l, ls, rfl, hl⟩ := h.lead
  have hmarked : ∀ ctx fuel, ctx.nested = (d != 0) → 8 * (l :: ls ++ m).length ≤ fuel + 2 →
      Reads (primary ctx fuel >>= marks ctx fuel) (l :: ls ++ m) t' (Behind d u) := by
    intro ctx fuel hctx hfuel
    rw [List.length_append, List.length_cons] at hfuel
    apply (h.reads ctx fuel hctx (by rw [List.length_cons]; omega)).bind
    · apply (reads_marks ht' ctx (by omega)).mono
      exact fun l hl => ⟨(hl.apart hu).passes _, hl.ne (by decide) hbrackets, hl.ne (by decide) hquestion⟩
    · exact fun l hl => hl.headD m
  -- Without a bar behind it, the operand with its marks is the only alternative.
  have hone : (∀ z, u ≠ .symbol .pipe :: z) → Part 7 d n members w (l :: ls ++ m) u [t'] := by
    intro hpipe
    refine ⟨by rw [h.split, List.append_assoc], ⟨l, ls ++ m, rfl, hl⟩, fun ctx fuel hctx hfuel => ?_, hu⟩
    simp only [List.length_append, List.length_cons] at hfuel
    obtain ⟨fuel, rfl⟩ : ∃ n, fuel = n + 1 := ⟨fuel - 1, by omega⟩
    rw [members_succ]
    have hread := (hmarked ctx fuel hctx (by simp only [List.length_append, List.length_cons]; omega)).bind
      (f := fun t => continued ctx .pipe t (members ctx fuel))
      (reads_continued_of_ne.mono fun l (hl : Behind d u l) => hl.ne (by decide) hpipe) fun _ hl => hl
    rwa [List.append_nil] at hread
  cases hu with
  | done => exact ⟨_, _, _, hone (by simp), .inl rfl⟩
  | array => exact absurd rfl (hbrackets _)
  | optional => exact absurd rfl (hquestion _)
  | comma => exact ⟨_, _, _, hone (by simp), .inr ⟨_, rfl⟩⟩
  | @pipe n z hz =>
    obtain ⟨v', u', ts, hpart, hend⟩ := halternatives z (by rw [h.split]; simp; omega) hz
    refine ⟨(l :: ls ++ m) ++ .symbol .pipe :: v', u', t' :: ts,
      ⟨?_, ⟨l, ls ++ m ++ .symbol .pipe :: v', rfl, hl⟩, fun ctx fuel hctx hfuel => ?_, hpart.flow⟩, hend⟩
    · rw [h.split, hpart.split]
      simp
    · simp only [List.length_append, List.length_cons] at hfuel
      obtain ⟨fuel, rfl⟩ : ∃ n, fuel = n + 1 := ⟨fuel - 1, by omega⟩
      rw [members_succ]
      have hmore := reads_more ctx .pipe t' (hpart.reads ctx fuel hctx (by omega)) hpart.lead
      exact (hmarked ctx fuel hctx (by simp only [List.length_append, List.length_cons]; omega)).bind
        (f := fun t => continued ctx .pipe t (members ctx fuel)) hmore fun l hl => by
          obtain ⟨last, hlast, rfl⟩ := hl
          exact ⟨last, hlast, by simp [hpart.split]⟩

theorem accepts_union {ts : List TypeExpr} {fits : Lexeme → Prop} (hne : w ≠ [])
    (h : Accepts 7 (d != 0) members w ts fits)
    : Accepts 8 (d != 0) union w (ofMembers ts) fits := by
  intro ctx fuel hctx hfuel
  have hpos := List.length_pos_iff.2 hne
  obtain ⟨fuel, rfl⟩ : ∃ n, fuel = n + 1 := ⟨fuel - 1, by omega⟩
  exact (h ctx fuel hctx (by omega)).bind_pure ofMembers

theorem returned_append {u : List Lexeme} {t : TypeExpr} (hlead : LeadsItem v)
    (hread : Accepts 8 (d != 0) (fun ctx fuel => orVararg ctx (union ctx fuel)) v t (Behind d u))
    (hreturned : ∀ z, z.length < (v ++ u).length → Flow d .item (n + 1) z → Returned d n z)
    (h : (∃ z, u = .symbol .comma :: z ∧ d = 0 ∧ Flow d .item (n + 1) z) ∨
      ((∀ z, u ≠ .symbol .comma :: z) ∧ Flow d .behind n u))
    : Returned d n (v ++ u) := by
  -- Behind a comma stands the next result, which there is at depth 0 only.
  obtain ⟨z, rfl, rfl, hz⟩ | ⟨hcomma, hu⟩ := h
  · obtain ⟨w, u, ts, hpart, hend⟩ := hreturned z (by simp; omega) hz
    refine ⟨v ++ .symbol .comma :: w, u, t :: ts, ⟨?_, ?_, ?_, hpart.flow⟩, hend⟩
    · rw [hpart.split, List.append_assoc, List.cons_append]
    · obtain ⟨l, ls, rfl, hl⟩ := hlead
      exact ⟨l, _, rfl, hl⟩
    · intro ctx fuel hctx hfuel
      simp only [List.length_append, List.length_cons] at hfuel
      obtain ⟨fuel, rfl⟩ : ∃ n, fuel = n + 1 := ⟨fuel - 1, by omega⟩
      have hmore := reads_more ctx .comma t (hpart.reads ctx fuel hctx (by omega)) hpart.lead
      rw [returns]
      apply (hread ctx fuel hctx (by omega)).bind
      · rw [hctx]
        exact hmore
      · rintro _ ⟨last, hlast, rfl⟩
        exact ⟨last, hlast, by simp [hpart.split]⟩
  · refine ⟨v, u, [t], ⟨rfl, hlead, fun ctx fuel hctx hfuel => ?_, hu⟩, hcomma⟩
    have hpos := List.length_pos_iff.2 hlead.ne_nil
    obtain ⟨fuel, rfl⟩ : ∃ n, fuel = n + 1 := ⟨fuel - 1, by omega⟩
    rw [returns]
    cases d with
    | zero =>
      have hne : ∀ l, Behind 0 u l → l ≠ .symbol .comma := by
        rintro _ ⟨_, ⟨⟩, rfl⟩
        cases u with
        | nil => simp
        | cons l u =>
          rintro rfl
          exact hcomma u rfl
      have hlast := (hread ctx fuel hctx (by omega)).bind (f := fun t => continued ctx .comma t (returns ctx fuel))
        (reads_continued_of_ne.mono hne) fun _ hl => hl
      rw [List.append_nil] at hlast
      rw [hctx]
      exact hlast
    | succ d =>
      rw [hctx]
      exact (hread ctx fuel hctx (by omega)).bind_pure fun t => [t]

theorem leading_of_flow (h : Flow d .start n w) : Leading w := by
  cases h with
  | primary h => exact h.leading.append _
  | function isAsync => exact (leading_functionHead isAsync _).append _
  | returning isAsync => exact (leading_functionHead isAsync _).append _

theorem accepts_vararg {u : List Lexeme} (h : ∀ l, Behind d u l → Apart l) (rule : Context → Nat → ParseM TypeExpr)
    : Accepts 8 (d != 0) (fun ctx fuel => orVararg ctx (rule ctx fuel)) [.symbol .ellipsis] .vararg (Behind d u) := by
  intro ctx fuel _ _
  unfold orVararg
  apply Reads.accept _ fun l hl => (h l hl).passes _
  rw [if_pos rfl]
  exact .pure _

theorem returned_of_flow (hflow : Flow d .item (n + 1) w)
    (halternatives : Flow d .start (n + 1) w → Alternatives d (n + 1) w)
    (hreturned : ∀ z, z.length < w.length → Flow d .item (n + 1) z → Returned d n z)
    : Returned d n w := by
  cases hflow with
  | type h =>
    obtain ⟨v, u, ts, hpart, hend⟩ := halternatives h
    obtain ⟨l, ls, rfl, -⟩ := hpart.lead
    rw [hpart.split] at hreturned ⊢
    apply returned_append (t := ofMembers ts) hpart.lead _ hreturned
    · obtain rfl | ⟨z, rfl⟩ := hend
      · exact .inr ⟨by simp, .done⟩
      · cases hpart.flow with
        | comma hd hz => exact .inl ⟨z, rfl, hd, hz⟩
    · intro ctx fuel hctx hfuel
      unfold orVararg
      apply Reads.accept_of_ne
      · rw [if_neg (by simp)]
        exact accepts_union (by simp) hpart.reads ctx fuel hctx hfuel
      · obtain ⟨l', ls', heq, hl'⟩ := leading_of_flow h
        rw [hpart.split, List.cons_append, List.cons.injEq] at heq
        rintro _ _ rfl
        rw [← heq.1] at hl'
        cases hl'
  | @vararg n z h =>
    cases h with
    | @next n z hd hz =>
      have hread := accepts_vararg (d := d) (u := .symbol .comma :: z)
        (by rintro _ ⟨_, -, rfl⟩; exact apart_symbol (by decide)) union
      exact returned_append ⟨_, _, rfl, rfl⟩ hread hreturned (.inl ⟨z, rfl, hd, hz⟩)
    | close hz =>
      apply returned_append ⟨_, _, rfl, rfl⟩ (accepts_vararg (fun l hl => hl.apart hz) union) hreturned
      -- A comma here could go on with a function type further out, but it is read as going on with this one.
      cases hz with
      | comma hd hz => exact .inl ⟨_, rfl, hd, hz.succ⟩
      | done => exact .inr ⟨by simp, .done⟩
      | array h => exact .inr ⟨by simp, .array h⟩
      | optional h => exact .inr ⟨by simp, .optional h⟩
      | pipe h => exact .inr ⟨by simp, .pipe h⟩

theorem accepts_of_alternatives {t : TypeExpr} (h : Derives.Union w d t)
    (halternatives : Flow d .start 0 w → Alternatives d 0 w)
    : ∃ u, Accepts 8 (d != 0) union w u (Last d) := by
  have hflow := h.flow (n := 0) .done
  rw [List.append_nil] at hflow
  obtain ⟨v, u, ts, hpart, rfl | ⟨z, rfl⟩⟩ := halternatives hflow
  · have hv := hpart.split
    rw [List.append_nil] at hv
    subst hv
    refine ⟨ofMembers ts, fun ctx fuel hctx hfuel => ?_⟩
    exact (accepts_union hpart.lead.ne_nil hpart.reads ctx fuel hctx hfuel).mono fun _ => behind_nil.2
  · cases hpart.flow

theorem read_of_flow (w : List Lexeme) (d n : Nat)
    : (Flow d .start n w → Alternatives d n w) ∧ (Flow d .item (n + 1) w → Returned d n w) := by
  induction h : w.length using Nat.strong_induction_on generalizing w d n with
  | h m ih =>
    subst h
    have hinner : Inner w.length d := fun v t hv ht =>
      accepts_of_alternatives ht (ih v.length hv v (d + 1) 0 rfl).1
    have hstart : ∀ n, Flow d .start n w → Alternatives d n w := by
      intro n hflow
      obtain ⟨v, u, t, hpart⟩ := exists_primary hinner hflow (Nat.le_refl _) fun z hz => (ih z.length hz z d n rfl).2
      exact hpart.alternatives fun z hz => (ih z.length hz z d n rfl).1
    exact ⟨hstart n, fun hflow =>
      returned_of_flow hflow (hstart (n + 1)) fun z hz => (ih z.length hz z d n rfl).2⟩

theorem accepts_derived {t : TypeExpr} (h : Derives.Union w d t) : ∃ u, Accepts 8 (d != 0) union w u (Last d) :=
  accepts_of_alternatives h (read_of_flow w d 0).1

end Parser

/-! ### Texts -/

open Reader

def Tokenizes (line : Int) (text : String) (w : List Lexeme) : Prop :=
  ∃ tokens, Token.tokenize line text.toList = .ok tokens ∧ tokens.map (·.lexeme) = w ++ [.endOfText]

theorem tokenize_eq_ok {line : Int} {text : List Char} {tokens : List Token}
    (h : Token.tokenize line text = .ok tokens)
    : tokens = Token.scan text ∧ ∀ t ∈ tokens, ∀ frame, Passes frame t.lexeme := by
  unfold Token.tokenize at h
  dsimp only at h
  split at h
  next t hfind =>
    have hunknown := List.find?_some hfind
    split at hunknown
    next hlexeme =>
      simp only [guardKnown, first, List.headD_cons, hlexeme] at h
      cases h
    next => cases hunknown
  next hnone =>
    cases h
    refine ⟨rfl, fun t ht frame c failed hunknown => ?_⟩
    exact absurd (List.find?_eq_none.1 hnone t ht) (by simp [hunknown])

/--
A text of known tokens is read as a type if and only if the grammar derives its lexemes for some type, and it
is read as one of these types.
-/
theorem parse_iff_derives {line : Int} {text : String} {w : List Lexeme} (h : Tokenizes line text w)
    : ((∃ t, parse text line = .ok t) ↔ ∃ t, Derives.Union w 0 t) ∧
        ∀ t, parse text line = .ok t → Derives.Union w 0 t := by
  obtain ⟨tokens, htokens, hlexemes⟩ := h
  obtain ⟨rfl, hknown⟩ := tokenize_eq_ok htokens
  have hderives : ∀ t, parse text line = .ok t → Derives.Union w 0 t := by
    intro t ht
    obtain ⟨offset, hrun⟩ := parse_eq_ok.1 ht
    obtain ⟨taken, htaken⟩ := Parser.exists_takes_type rfl (ended_scan _) (run_eq_ok.1 hrun).2
    have hw : taken.map (·.lexeme) = w := by
      rw [htaken.split, List.map_append] at hlexemes
      exact List.append_cancel_right hlexemes
    rw [← hw]
    exact htaken.spec
  refine ⟨⟨fun ⟨t, ht⟩ => ⟨t, hderives t ht⟩, ?_⟩, hderives⟩
  rintro ⟨t, ht⟩
  obtain ⟨u, hu⟩ := Parser.accepts_derived ht
  obtain ⟨before, last, hscan, hbefore, hlast⟩ := List.map_eq_append_iff.1 hlexemes
  obtain ⟨⟨_, offset⟩, rfl, rfl⟩ := List.map_eq_singleton_iff.1 hlast
  refine ⟨u, parse_eq_ok.2 ⟨offset, run_eq_ok.2 ⟨?_, ?_⟩⟩⟩
  · exact guardKnown_of_passes (hknown _ (by rw [hscan]; cases before <;> simp [first]) _)
  · unfold Parser.type
    rw [hscan]
    apply hu _ _ rfl _ before _ hbefore (by simp)
    · exact .endOfText
    · rw [← hbefore, List.length_map, List.length_append]
      omega

def nestedWord : List Lexeme :=
  [.keyword .function, .symbol .openParen, .symbol .closeParen, .symbol .colon, .keyword .function,
    .symbol .openParen, .symbol .closeParen, .symbol .colon, .name "a", .symbol .comma, .name "b"]

theorem parse_iff_derives_nested
    : Tokenizes 1 "fun(): fun(): a, b" nestedWord ∧
        ∃ t, parse "fun(): fun(): a, b" = .ok t ∧ Derives.Union nestedWord 0 t := by
  have hname : ∀ s, Derives.Union [.name s] 0 (Parser.ofName s) := fun s => .mk (.one (.mk (.name s) .nil))
  have hfunction : ∀ v ts, Derives.Separated Derives.Result .comma v 0 ts → Derives.Union
      (.keyword .function :: .symbol .openParen :: .symbol .closeParen :: .symbol .colon :: v) 0
      (.function [] ts false) := by
    intro v ts hts
    have hprimary := Derives.Postfix.mk (.function (.mk false .none (.some hts (by simp)))) .nil
    rw [List.append_nil] at hprimary
    exact .mk (.one hprimary)
  -- Here it is a result of the outer type, while the reader makes it one of the inner type.
  have hinner := hfunction _ _ (.one (Derives.Result.type (hname "a")))
  have houter := hfunction _ _ (.cons (Derives.Result.type hinner) (.one (Derives.Result.type (hname "b"))))
  have hw : Tokenizes 1 "fun(): fun(): a, b" nestedWord :=
    ⟨Token.scan "fun(): fun(): a, b".toList, by decide +kernel, by decide +kernel⟩
  obtain ⟨t, ht⟩ := (parse_iff_derives hw).1.2 ⟨_, houter⟩
  exact ⟨hw, t, ht, (parse_iff_derives hw).2 t ht⟩

end LuaTypes.TypeExpr
