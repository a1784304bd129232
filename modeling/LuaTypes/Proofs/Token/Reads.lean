import LuaTypes.Proofs.Token.Known

/-!
Readers that take just the lexemes that have been written for them. What comes next has a say in where a
reader stops, so it is part of every statement which lexemes may follow.
-/

namespace LuaTypes.Reader

variable {π α β : Type}

/--
Behind the given lexemes, with one that fits next, does the reader take just these and yield `x`?
-/
def Reads (r : Reader π α) (lexemes : List Lexeme) (x : α) (fits : Lexeme → Prop) : Prop :=
  ∀ tokens rest, tokens.map (·.lexeme) = lexemes → rest ≠ [] → fits (first rest).lexeme →
    r (tokens ++ rest) = .ok (x, rest)

def Passes (frame : Frame) (l : Lexeme) : Prop :=
  ∀ c failed, l = .unknown c failed → frame.strict = false

theorem guardKnown_of_passes {frame : Frame} {tokens : List Token}
    (h : Passes frame (first tokens).lexeme)
    : guardKnown (π := π) frame tokens = .ok () := by
  unfold guardKnown
  split
  next c failed hunknown => rw [if_neg (by simp [h c failed hunknown])]
  next => rfl

theorem lexeme_first_append {tokens : List Token} {lexemes : List Lexeme}
    (h : tokens.map (·.lexeme) = lexemes) (rest : List Token)
    : (first (tokens ++ rest)).lexeme = lexemes.headD (first rest).lexeme := by
  rw [← h]
  cases tokens <;> rfl

namespace Reads

variable {r : Reader π α} {lexemes lexemes' : List Lexeme} {x : α} {fits fits' : Lexeme → Prop}

theorem pure (x : α) : Reads (pure x : Reader π α) [] x fits := by
  intro tokens rest htokens _ _
  rw [List.map_eq_nil_iff] at htokens
  rw [htokens]
  rfl

theorem bind {f : α → Reader π β} {y : β} (h : Reads r lexemes x fits)
    (hf : Reads (f x) lexemes' y fits') (hfits : ∀ l, fits' l → fits (lexemes'.headD l))
    : Reads (r >>= f) (lexemes ++ lexemes') y fits' := by
  intro tokens rest htokens hrest hnext
  rw [List.map_eq_append_iff] at htokens
  obtain ⟨before, after, rfl, hbefore, hafter⟩ := htokens
  have hne : after ++ rest ≠ [] := by simp [hrest]
  have hfirst := hfits _ hnext
  rw [← lexeme_first_append hafter] at hfirst
  rw [bind_apply, List.append_assoc, h before (after ++ rest) hbefore hne hfirst]
  exact hf after rest hafter hrest hnext

theorem bind_cons {l : Lexeme} {f : α → Reader π β} {y : β} (h : Reads r [l] x fits)
    (hf : Reads (f x) lexemes' y fits') (hfits : ∀ l, fits' l → fits (lexemes'.headD l))
    : Reads (r >>= f) (l :: lexemes') y fits' :=
  h.bind hf hfits

theorem mono (h : Reads r lexemes x fits) (hfits : ∀ l, fits' l → fits l) : Reads r lexemes x fits' :=
  fun tokens rest htokens hrest hnext => h tokens rest htokens hrest (hfits _ hnext)

theorem bind_pure (f : α → β) (h : Reads r lexemes x fits)
    : Reads (r >>= fun x => Pure.pure (f x)) lexemes (f x) fits := by
  have := h.bind (f := fun x => Pure.pure (f x)) (.pure (f x)) fun _ hl => hl
  rwa [List.append_nil] at this

theorem map {f : α → β} (h : Reads r lexemes x fits) : Reads (f <$> r) lexemes (f x) fits := by
  rw [← bind_pure_comp]
  exact h.bind_pure f

theorem peek {l : Lexeme} {f : Lexeme → Reader π α} (h : Reads (f l) (l :: lexemes) x fits)
    : Reads (Reader.peek >>= f) (l :: lexemes) x fits := by
  intro tokens rest htokens hrest hnext
  have hfirst := lexeme_first_append htokens rest
  rw [List.headD_cons] at hfirst
  change f (first (tokens ++ rest)).lexeme (tokens ++ rest) = _
  rw [hfirst]
  exact h tokens rest htokens hrest hnext

theorem peek_nil {f : Lexeme → Reader π α} (h : ∀ l, fits l → Reads (f l) [] x fits)
    : Reads (Reader.peek >>= f) [] x fits := by
  intro tokens rest htokens hrest hnext
  rw [List.map_eq_nil_iff] at htokens
  rw [htokens]
  exact h _ hnext [] rest rfl hrest hnext

theorem get_bind {f : List Token → Reader π α}
    (h : ∀ tokens, lexemes.length ≤ tokens.length → Reads (f tokens) lexemes x fits)
    : Reads (get >>= f) lexemes x fits := by
  intro tokens rest htokens hrest hnext
  have hlength : lexemes.length ≤ (tokens ++ rest).length := by
    rw [← htokens, List.length_map, List.length_append]
    omega
  exact h _ hlength tokens rest htokens hrest hnext

theorem congr_of_first {r' : Reader π α} {l : Lexeme}
    (hr : ∀ tokens, (first tokens).lexeme = l → r tokens = r' tokens)
    (h : Reads r' (l :: lexemes) x fits)
    : Reads r (l :: lexemes) x fits := by
  intro tokens rest htokens hrest hnext
  rw [hr _ (lexeme_first_append htokens rest)]
  exact h tokens rest htokens hrest hnext

end Reads

variable {frame : Frame}

theorem reads_advance (frame : Frame) (l : Lexeme)
    : Reads (advance frame : Reader π Lexeme) [l] l (Passes frame) := by
  intro tokens rest htokens hrest hnext
  rw [List.map_eq_singleton_iff] at htokens
  obtain ⟨t, rfl, rfl⟩ := htokens
  obtain ⟨u, rest, rfl⟩ := List.exists_cons_of_ne_nil hrest
  change (do guardKnown frame (u :: rest); return (t.lexeme, u :: rest) : Except _ _) = _
  rw [guardKnown_of_passes hnext]
  rfl

theorem reads_take (frame : Frame) (l : Lexeme) (problem : Lexeme → π)
    : Reads (do
        let found ← peek
        if found = l then
          let _ ← advance frame
        else fail frame (problem found)) [l] () (Passes frame) := by
  have hadvance := (reads_advance (π := π) frame l).bind_pure fun _ => ()
  apply Reads.peek
  simpa using hadvance

theorem reads_accept (frame : Frame) (l : Lexeme)
    : Reads (accept frame l : Reader π Bool) [l] true (Passes frame) := by
  have hadvance := (reads_advance (π := π) frame l).bind (f := fun _ => Pure.pure true) (.pure true)
    fun _ hl => hl
  unfold accept nextIs
  rw [bind_assoc]
  apply Reads.peek
  simpa using hadvance

theorem Reads.advance {l : Lexeme} {lexemes : List Lexeme} {f : Lexeme → Reader π α} {x : α}
    {fits : Lexeme → Prop} (h : Reads (f l) lexemes x fits)
    (hfits : ∀ next, fits next → Passes frame (lexemes.headD next))
    : Reads (Reader.advance frame >>= f) (l :: lexemes) x fits :=
  (reads_advance frame l).bind_cons h hfits

theorem Reads.accept {l : Lexeme} {lexemes : List Lexeme} {f : Bool → Reader π α} {x : α}
    {fits : Lexeme → Prop} (h : Reads (f true) lexemes x fits)
    (hfits : ∀ next, fits next → Passes frame (lexemes.headD next))
    : Reads (Reader.accept frame l >>= f) (l :: lexemes) x fits :=
  (reads_accept frame l).bind_cons h hfits

theorem reads_accept_of_ne (frame : Frame) (l : Lexeme)
    : Reads (accept frame l : Reader π Bool) [] false (· ≠ l) := by
  intro tokens rest htokens _ hnext
  rw [List.map_eq_nil_iff] at htokens
  rw [htokens, List.nil_append]
  unfold accept nextIs
  rw [bind_assoc]
  change (if decide ((first rest).lexeme = l) = true then _ else Pure.pure false : Reader π Bool) rest = _
  rw [if_neg (by simpa using hnext)]
  rfl

theorem Reads.accept_of_ne {l : Lexeme} {lexemes : List Lexeme} {f : Bool → Reader π α} {x : α}
    {fits : Lexeme → Prop} (h : Reads (f false) lexemes x fits) (hfits : ∀ next, fits next → lexemes.headD next ≠ l)
    : Reads (Reader.accept frame l >>= f) lexemes x fits :=
  (reads_accept_of_ne frame l).bind h hfits

end LuaTypes.Reader
