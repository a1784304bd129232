import LuaTypes.Proofs.Token.Scan

/-!
Texts that are cut off. A token with all of its characters before the cut stays the same token, and what is
left of a token that the cut goes through is no symbol, except that half of `[]` is a bracket.
-/

namespace LuaTypes

theorem head?_of_isPrefix {α : Type} {cs cs' : List α} (h : cs' <+: cs) : ∀ c ∈ cs'.head?, c ∈ cs.head? := by
  obtain ⟨z, rfl⟩ := h
  intro c hc
  cases cs' with
  | nil => cases hc
  | cons => exact hc

namespace Lexeme

inductive ReadAs (c : Char) (cs : List Char) : Lexeme × Nat → Prop where
  | ellipsis {z} : c = '.' → cs = '.' :: '.' :: z → ReadAs c cs (.symbol .ellipsis, 3)
  | brackets {z} : c = '[' → cs = ']' :: z → ReadAs c cs (.symbol .brackets, 2)
  | symbol {s} : Symbol.ofChar? c = some s → (c = '[' → cs.head? ≠ some ']') → ReadAs c cs (.symbol s, 1)
  | string : c ∈ ['"', '\'', '\x60'] → ReadAs c cs (ofString c cs)
  | number : (Text.isDigit c || (c == '-' && cs.head?.any Text.isDigit)) = true →
      ReadAs c cs (.number (String.ofList (c :: numberRest cs)), (numberRest cs).length + 1)
  | word : isNameStart c = true → ReadAs c cs (ofWord (c :: namePart cs), (namePart cs).length + 1)
  | unknown : ReadAs c cs (.unknown c ⟨.unexpected c, 0, 0⟩, 1)

variable {c : Char} {cs : List Char}

theorem readAs_read (c : Char) (cs : List Char) : ReadAs c cs (read c cs) := by
  unfold read
  split
  next => exact .ellipsis rfl rfl
  next => exact .brackets rfl rfl
  next hbrackets =>
    split
    next hs =>
      apply ReadAs.symbol hs
      rintro rfl hhead
      obtain ⟨z, rfl⟩ := List.head?_eq_some_iff.1 hhead
      exact hbrackets z rfl rfl
    next =>
      split
      next hmark => exact .string (by simpa using hmark)
      next =>
        split
        next hnumber => exact .number hnumber
        next =>
          split
          next hword => exact .word hword
          next => exact .unknown

theorem read_ne_endOfText (c : Char) (cs : List Char) : (read c cs).1 ≠ .endOfText := by
  have h := readAs_read c cs
  generalize read c cs = r at h ⊢
  cases h with
  | string =>
    unfold ofString
    split <;> simp
  | word =>
    unfold ofWord
    split <;> simp
  | _ => simp

/-! ### Characters of a lexeme -/

theorem stringBody_cut {mark : Char} {content : List Char} {length : Nat}
    (h : stringBody mark cs = .ok (content, length))
    : ∃ w z, cs = w ++ z ∧ w.length = length ∧ ∀ z', stringBody mark (w ++ z') = .ok (content, length) := by
  fun_induction stringBody mark cs generalizing content length with
  | case1 => cases h
  | case2 => cases h
  | case3 => cases h
  | case4 e cs d hd rest n hrest ih =>
    cases h
    obtain ⟨w, z, rfl, rfl, hw⟩ := ih hrest
    refine ⟨'\\' :: e :: w, z, rfl, rfl, fun z' => ?_⟩
    simp [stringBody, hd, hw]
  | case5 => cases h
  | case6 cs hne =>
    cases h
    refine ⟨[mark], cs, rfl, rfl, fun z' => ?_⟩
    rw [List.singleton_append, stringBody]
    · simp
    · exact hne
  | case7 d cs hne hmark rest n hrest ih =>
    cases h
    obtain ⟨w, z, rfl, rfl, hw⟩ := ih hrest
    refine ⟨d :: w, z, rfl, rfl, fun z' => ?_⟩
    rw [List.cons_append, stringBody]
    · simp [hmark, hw]
    · exact hne
  | case8 => cases h

theorem any_head?_of_isPrefix {p : Char → Bool} {cs' : List Char} (h : cs' <+: cs) (hany : cs'.head?.any p = true)
    : cs.head?.any p = true := by
  obtain ⟨c, hc, hp⟩ := (Option.any_eq_true p _).1 hany
  exact (Option.any_eq_true p _).2 ⟨c, head?_of_isPrefix h c hc, hp⟩

theorem namePart_cut (cs : List Char)
    : ∃ z, cs = namePart cs ++ z ∧ ∀ z', z' <+: z → namePart (namePart cs ++ z') = namePart cs := by
  induction cs with
  | nil => exact ⟨[], rfl, fun z' hz => by rw [List.prefix_nil.1 hz]; rfl⟩
  | cons c cs ih =>
    rw [namePart]
    split
    next hc =>
      obtain ⟨z, hcs, hz⟩ := ih
      refine ⟨z, by rw [List.cons_append, ← hcs], fun z' hz' => ?_⟩
      rw [List.cons_append, namePart, hz z' hz', if_pos]
      -- The character behind a point belongs to the name too.
      cases cs with
      | nil => simpa [namePart] using .inl (by simpa using hc)
      | cons d ds =>
        rw [Bool.or_eq_true, Bool.and_eq_true] at hc ⊢
        refine hc.imp_right fun hpoint => ⟨hpoint.1, ?_⟩
        have hd : isNameStart d = true := by simpa using hpoint.2
        simp [namePart, isWordChar_of_isNameStart hd, hd]
    next hc =>
      refine ⟨c :: cs, rfl, fun z' hz' => ?_⟩
      rw [List.nil_append]
      cases z' with
      | nil => rfl
      | cons d ds =>
        obtain ⟨rfl, hds⟩ := List.cons_prefix_cons.1 hz'
        rw [namePart, if_neg]
        rw [Bool.or_eq_true, Bool.and_eq_true] at hc ⊢
        exact fun hd => hc (hd.imp_right fun hpoint => ⟨hpoint.1, any_head?_of_isPrefix hds hpoint.2⟩)

def numberPlaces : List Char → List Char
  | '.' :: d :: ds => if Text.isDigit d then '.' :: d :: ds.takeWhile Text.isDigit else []
  | _ => []

theorem numberRest_run {ds : List Char} (hds : ∀ c ∈ ds, Text.isDigit c = true)
    (hcs : ∀ c ∈ cs.head?, Text.isDigit c = false)
    : numberRest (ds ++ cs) = ds ++ numberPlaces cs := by
  obtain ⟨htake, hdrop⟩ := Text.run_append hds hcs
  rw [numberRest, htake, hdrop]
  rfl

theorem takeWhile_dropWhile (p : Char → Bool) (cs : List Char)
    : (∀ c ∈ cs.takeWhile p, p c = true) ∧ (∀ c ∈ (cs.dropWhile p).head?, p c = false) ∧
        cs = cs.takeWhile p ++ cs.dropWhile p := by
  refine ⟨List.all_eq_true.1 List.all_takeWhile, fun c hc => ?_, List.takeWhile_append_dropWhile.symm⟩
  have := List.head?_dropWhile_not p cs
  rwa [Option.mem_def.1 hc] at this

theorem numberPlaces_cut (cs : List Char)
    : ∃ z, cs = numberPlaces cs ++ z ∧ ∀ z', z' <+: z → numberPlaces (numberPlaces cs ++ z') = numberPlaces cs := by
  by_cases h : ∃ d ds, cs = '.' :: d :: ds ∧ Text.isDigit d = true
  · obtain ⟨d, ds, rfl, hd⟩ := h
    obtain ⟨htake, hdrop, hds⟩ := takeWhile_dropWhile Text.isDigit ds
    have hplaces : numberPlaces ('.' :: d :: ds) = '.' :: d :: ds.takeWhile Text.isDigit := by
      rw [numberPlaces, if_pos hd]
    rw [hplaces]
    refine ⟨ds.dropWhile Text.isDigit, by rw [List.cons_append, List.cons_append, ← hds], fun z' hz' => ?_⟩
    have hz := fun c hc => hdrop c (head?_of_isPrefix hz' c hc)
    rw [List.cons_append, List.cons_append, numberPlaces, if_pos hd, (Text.run_append htake hz).1]
  · have hnone : ∀ z', z' <+: cs → numberPlaces z' = [] := by
      intro z' hz'
      unfold numberPlaces
      split
      next d ds =>
        obtain ⟨z, rfl⟩ := hz'
        exact if_neg fun hd => h ⟨d, ds ++ z, rfl, hd⟩
      next => rfl
    rw [hnone cs List.prefix_rfl]
    exact ⟨cs, rfl, hnone⟩

theorem numberRest_cut (cs : List Char)
    : ∃ z, cs = numberRest cs ++ z ∧ ∀ z', z' <+: z → numberRest (numberRest cs ++ z') = numberRest cs := by
  obtain ⟨htake, hdrop, hcs⟩ := takeWhile_dropWhile Text.isDigit cs
  obtain ⟨z, hz, hcut⟩ := numberPlaces_cut (cs.dropWhile Text.isDigit)
  have hrest : numberRest cs = cs.takeWhile Text.isDigit ++ numberPlaces (cs.dropWhile Text.isDigit) := rfl
  refine ⟨z, ?_, fun z' hz' => ?_⟩
  · rw [hrest, List.append_assoc, ← hz]
    exact hcs
  · rw [hrest, List.append_assoc, numberRest_run htake, hcut z' hz']
    have hprefix := (List.prefix_append_right_inj (numberPlaces (cs.dropWhile Text.isDigit))).2 hz'
    rw [← hz] at hprefix
    exact fun c hc => hdrop c (head?_of_isPrefix hprefix c hc)

theorem read_cut (h : ∀ d failed, (read c cs).1 ≠ .unknown d failed)
    : ∃ w z, cs = w ++ z ∧ (read c cs).2 = w.length + 1 ∧ ∀ z', z' <+: z → read c (w ++ z') = read c cs := by
  have hread := readAs_read c cs
  generalize read c cs = r at h hread ⊢
  cases hread with
  | @ellipsis z hc hcs =>
    subst hc hcs
    exact ⟨['.', '.'], z, rfl, rfl, fun z' _ => rfl⟩
  | @brackets z hc hcs =>
    subst hc hcs
    exact ⟨[']'], z, rfl, rfl, fun z' _ => rfl⟩
  | symbol hs hbracket =>
    refine ⟨[], cs, rfl, rfl, fun z' hz' => ?_⟩
    by_cases hc : c = '['
    · subst hc
      cases hs
      exact Token.read_openBracket fun hhead => hbracket rfl (head?_of_isPrefix hz' _ hhead)
    · exact Token.read_of_ofChar? hs hc
  | string hmark =>
    have hstring : ∀ cs, read c cs = ofString c cs := by
      intro cs
      simp only [List.mem_cons, List.not_mem_nil, or_false] at hmark
      obtain rfl | rfl | rfl := hmark <;> rfl
    unfold ofString at h ⊢
    split at h
    next content length hbody =>
      obtain ⟨w, z, rfl, rfl, hw⟩ := stringBody_cut hbody
      exact ⟨w, z, rfl, rfl, fun z' _ => by rw [hstring, ofString, hw]⟩
    next => exact absurd rfl (h _ _)
    next => exact absurd rfl (h _ _)
  | number hnumber =>
    obtain ⟨z, hcs, hz⟩ := numberRest_cut cs
    refine ⟨numberRest cs, z, hcs, rfl, fun z' hz' => ?_⟩
    rw [Token.read_of_isDigit, hz z' hz']
    rw [Bool.or_eq_true, Bool.and_eq_true] at hnumber ⊢
    refine hnumber.imp_right fun hminus => ⟨hminus.1, ?_⟩
    cases cs with
    | nil => simp at hminus
    | cons d ds =>
      have hd : Text.isDigit d = true := by simpa using hminus.2
      simp [numberRest, hd]
  | word hword =>
    obtain ⟨z, hcs, hz⟩ := namePart_cut cs
    refine ⟨namePart cs, z, hcs, rfl, fun z' hz' => ?_⟩
    rw [Token.read_of_isNameStart hword (isDigit_of_isNameStart hword), hz z' hz']
  | unknown => exact absurd rfl (h _ _)

theorem read_of_isPrefix {cs' : List Char} (h : cs' <+: cs)
    : (read c cs').1 = (read c cs).1 ∨ ∀ s, (read c cs').1 = .symbol s → s = .openBracket := by
  have hread := readAs_read c cs'
  generalize read c cs' = r at hread ⊢
  cases hread with
  | ellipsis hc hcs =>
    subst hc hcs
    obtain ⟨z, rfl⟩ := h
    exact .inl rfl
  | brackets hc hcs =>
    subst hc hcs
    obtain ⟨z, rfl⟩ := h
    exact .inl rfl
  | symbol hs =>
    by_cases hc : c = '['
    · subst hc
      cases hs
      right
      rintro _ ⟨⟩
      rfl
    · exact .inl (by rw [Token.read_of_ofChar? hs hc])
  | string =>
    right
    intro s
    unfold ofString
    split <;> rintro ⟨⟩
  | word =>
    right
    intro s
    unfold ofWord
    split <;> rintro ⟨⟩
  | _ =>
    right
    rintro _ ⟨⟩

end Lexeme

/-! ### Tokens of a text -/

namespace Token

theorem scanFrom_spaces {spaces : List Char} (hspaces : ∀ c ∈ spaces, isSpace c = true) (offset : Nat)
    (cs : List Char)
    : scanFrom 0 offset (spaces ++ cs) = scanFrom 0 (offset + spaces.length) cs := by
  induction spaces generalizing offset with
  | nil => rfl
  | cons c spaces ih =>
    rw [List.cons_append, scanFrom, if_pos (hspaces c (by simp)), ih (fun c hc => hspaces c (by simp [hc])),
      List.length_cons]
    congr 1
    omega

theorem scanFrom_cons {c : Char} {cs : List Char} (hc : isSpace c = false) (offset : Nat)
    : scanFrom 0 offset (c :: cs)
        = ⟨(Lexeme.read c cs).1, offset⟩ :: scanFrom ((Lexeme.read c cs).2 - 1) (offset + 1) cs := by
  rw [scanFrom, if_neg (by simp [hc])]

theorem scanFrom_cut {text : List Char} {offset : Nat} {taken rest : List Token}
    (h : scanFrom 0 offset text = taken ++ rest) (hrest : rest ≠ [])
    (hknown : ∀ t ∈ taken, ∀ c failed, t.lexeme ≠ .unknown c failed)
    : ∃ before after, text = before ++ after ∧ rest = scanFrom 0 (offset + before.length) after ∧
        (∀ c ∈ after.head?, isSpace c = false) ∧
        ∀ after', after' <+: after →
          scanFrom 0 offset (before ++ after') = taken ++ scanFrom 0 (offset + before.length) after' := by
  induction taken generalizing text offset with
  | nil =>
    obtain ⟨hspaces, hhead, htext⟩ := Lexeme.takeWhile_dropWhile isSpace text
    refine ⟨_, _, htext, ?_, hhead, fun after' _ => scanFrom_spaces hspaces offset after'⟩
    rw [← scanFrom_spaces hspaces, ← htext, h]
    rfl
  | cons t taken ih =>
    obtain ⟨hspaces, hhead, htext⟩ := Lexeme.takeWhile_dropWhile isSpace text
    generalize text.takeWhile isSpace = spaces at hspaces htext
    generalize text.dropWhile isSpace = cs at hhead htext
    subst htext
    rw [scanFrom_spaces hspaces] at h
    cases cs with
    | nil =>
      rw [scanFrom, List.cons_append, List.cons.injEq] at h
      exact absurd (List.append_eq_nil_iff.1 h.2.symm).2 hrest
    | cons c cs =>
      rw [scanFrom_cons (hhead c rfl), List.cons_append, List.cons.injEq] at h
      obtain ⟨rfl, h⟩ := h
      obtain ⟨w, z, rfl, hlength, hread⟩ := Lexeme.read_cut (hknown _ List.mem_cons_self)
      rw [hlength, Nat.add_sub_cancel, scanFrom_length] at h
      obtain ⟨before, after, rfl, hafter, hnext, hscan⟩ := ih h fun t ht => hknown t (List.mem_cons_of_mem _ ht)
      refine ⟨spaces ++ c :: w ++ before, after, by simp, ?_, hnext, fun after' hprefix => ?_⟩
      · rw [hafter]
        congr 1
        simp only [List.length_append, List.length_cons]
        omega
      · have hcut := hread (before ++ after') ((List.prefix_append_right_inj before).2 hprefix)
        rw [List.append_assoc, List.append_assoc, List.cons_append, scanFrom_spaces hspaces,
          scanFrom_cons (hhead c rfl), hcut, hlength, Nat.add_sub_cancel, scanFrom_length, hscan after' hprefix,
          List.cons_append]
        congr 3
        simp only [List.length_append, List.length_cons]
        omega

end Token

end LuaTypes
