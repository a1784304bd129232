import LuaTypes.Proofs.TypeExpr.RoundTrip
import LuaTypes.Proofs.TypeExpr.Soundness

/-!
The type at the start of a text is the longest one there: it is all that can be read from the characters
before the place where reading stopped, and with more characters there is no type.
-/

namespace LuaTypes.TypeExpr

open Reader Token

theorem ne_unknown_of_passes {l : Lexeme} (h : ∀ frame, Passes frame l) (c : Char) (failed : FailedToken)
    : l ≠ .unknown c failed := by
  intro hl
  cases h {} c failed hl

/--
Where reading stopped in a text: what it has taken is what there is before that place, wherever the text is
cut off behind it.
-/
structure Stop (text before after : List Char) (t : TypeExpr) (taken : List Token) : Prop where
  split : text = before ++ after
  takes : Parser.Takes 8 false false Parser.union (Derives.Union · 0 ·) (scan text) taken t
    (scanFrom 0 before.length after)
  head : ∀ c ∈ after.head?, isSpace c = false
  scan_append : ∀ after', after' <+: after → scan (before ++ after') = taken ++ scanFrom 0 before.length after'

variable {text before after : List Char} {t : TypeExpr} {taken : List Token}

theorem exists_stop {origin : Position} {rest : List Char} (h : parsePrefix text origin = .ok (t, rest))
    : ∃ before after taken, Stop text before after t taken ∧ rest = Text.strip after := by
  unfold parsePrefix at h
  dsimp only at h
  cases hrun : Reader.run { origin, strict := false } text (Parser.type { origin, strict := false }) with
  | error e =>
    rw [hrun] at h
    cases h
  | ok result =>
    obtain ⟨u, left⟩ := result
    rw [hrun] at h
    cases h
    obtain ⟨taken, htakes⟩ := Parser.exists_takes_type rfl (ended_scan text) (run_eq_ok.1 hrun).2
    have hknown : ∀ t ∈ taken, ∀ c failed, t.lexeme ≠ .unknown c failed :=
      fun t ht => ne_unknown_of_passes (htakes.known t ht)
    obtain ⟨before, after, rfl, rfl, hhead, hscan⟩ := scanFrom_cut htakes.split htakes.ended.ne_nil hknown
    rw [Nat.zero_add] at htakes hscan ⊢
    have hoffset : (first (scanFrom 0 before.length after)).offset = before.length := by
      cases after with
      | nil => rfl
      | cons c cs =>
        rw [scanFrom_cons (hhead c rfl)]
        rfl
    refine ⟨before, after, taken, ⟨rfl, htakes, hhead, hscan⟩, ?_⟩
    rw [hoffset, List.drop_left]

theorem Stop.run {left : List Token} (h : Stop text before after t taken) {text' : List Char} (line : Int)
    (hscan : scan text' = taken ++ left) (hleft : left ≠ []) (hpasses : ∀ frame, Passes frame (first left).lexeme)
    (hnext : (first left).lexeme = (first (scanFrom 0 before.length after)).lexeme ∨
      Parser.Inert false (first left).lexeme)
    : Reader.run { origin := { line } } text' (Parser.type { origin := { line } }) = .ok (t, left) := by
  rw [run_eq_ok, hscan]
  constructor
  · apply guardKnown_of_passes
    cases taken with
    | nil => exact hpasses _
    | cons t taken => exact h.takes.known t List.mem_cons_self _
  · unfold Parser.type
    apply h.takes.again _ _ rfl _ taken left rfl hleft ⟨hpasses _, hnext⟩
    rw [List.length_append]
    omega

theorem Stop.parse_before (h : Stop text before after t taken) (line : Int)
    : parse (String.ofList before) line = .ok t := by
  have hscan := h.scan_append [] List.nil_prefix
  rw [List.append_nil] at hscan
  rw [parse_eq_ok, String.toList_ofList]
  refine ⟨before.length, h.run line hscan (by simp) ?_ (.inr ⟨rfl, ?_⟩)⟩
  · rintro _ _ _ ⟨⟩
  · rintro _ ⟨⟩

theorem Stop.parse_append (h : Stop text before after t taken) (line : Int) {after' : List Char}
    (hafter : after' <+: after) (hne : after' ≠ [])
    : ∃ e, parse (String.ofList (before ++ after')) line = .error e := by
  obtain ⟨c, cs', rfl⟩ := List.exists_cons_of_ne_nil hne
  obtain ⟨cs, rfl⟩ := hafter
  have hspace := h.head c rfl
  have hscan := h.scan_append (c :: cs') (List.prefix_append _ _)
  rw [scanFrom_cons hspace] at hscan
  cases hparse : parse (String.ofList (before ++ c :: cs')) line with
  | error e => exact ⟨e, rfl⟩
  | ok t' =>
    obtain ⟨offset, hrun⟩ := parse_eq_ok.1 hparse
    rw [String.toList_ofList] at hrun
    -- All tokens would have been taken, the one behind the type too.
    obtain ⟨taken', htaken'⟩ := Parser.exists_takes_type rfl (ended_scan _) (run_eq_ok.1 hrun).2
    have hend := Lexeme.read_ne_endOfText c cs'
    have hmem : ⟨(Lexeme.read c cs').1, before.length⟩ ∈ taken' := by
      have hmem : ⟨(Lexeme.read c cs').1, before.length⟩ ∈ scan (before ++ c :: cs') := by simp [hscan]
      rw [htaken'.split, List.mem_append, List.mem_singleton] at hmem
      exact hmem.resolve_right fun heq => hend (congrArg Token.lexeme heq)
    have hread := h.run line hscan (by simp) (htaken'.known _ hmem) (by
      rw [List.cons_append, scanFrom_cons hspace]
      exact (Lexeme.read_of_isPrefix (List.prefix_append cs' cs)).imp id fun h => ⟨rfl, h⟩)
    rw [hrun, Except.ok.injEq, Prod.mk.injEq, List.cons.injEq, Token.mk.injEq] at hread
    exact absurd hread.2.1.1.symm hend

/--
The characters before the place where reading stopped are a type, and with more characters than spaces
behind them there is none.
-/
theorem parsePrefix_longest {origin : Position} {rest : List Char} (h : parsePrefix text origin = .ok (t, rest))
    (line : Int)
    : ∃ n ≤ text.length, parse (String.ofList (text.take n)) line = .ok t ∧ rest = Text.strip (text.drop n) ∧
        ∀ m, n < m → (∃ c ∈ (text.take m).drop n, isSpace c = false) →
          ∃ e, parse (String.ofList (text.take m)) line = .error e := by
  obtain ⟨before, after, taken, hstop, rfl⟩ := exists_stop h
  obtain rfl := hstop.split
  refine ⟨before.length, by simp, ?_, by rw [List.drop_left], fun m hm hc => ?_⟩
  · rw [List.take_left]
    exact hstop.parse_before line
  · have htake : (before ++ after).take m = before ++ after.take (m - before.length) := by
      rw [List.take_append, List.take_of_length_le (by omega)]
    rw [htake, List.drop_left] at hc
    obtain ⟨c, hc, -⟩ := hc
    rw [htake]
    exact hstop.parse_append line (List.take_prefix _ _) (List.ne_nil_of_mem hc)

theorem parsePrefix_longest_described
    : ∃ text, parsePrefix text {} = .ok (callback, "[when done".toList) ∧
        ∃ n ≤ text.length, parse (String.ofList (text.take n)) = .ok callback ∧
          "[when done".toList = Text.strip (text.drop n) ∧
            ∀ m, n < m → (∃ c ∈ (text.take m).drop n, isSpace c = false) →
              ∃ e, parse (String.ofList (text.take m)) = .error e := by
  have hstops : Stops " [when done".toList := ⟨breaks_cons.2 (by decide), by decide⟩
  have hprefix := parsePrefix_render canonical_callback hstops {}
  rw [show Text.strip " [when done".toList = "[when done".toList by decide] at hprefix
  exact ⟨_, hprefix, parsePrefix_longest hprefix 1⟩

end LuaTypes.TypeExpr
