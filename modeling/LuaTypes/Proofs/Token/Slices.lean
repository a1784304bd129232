import LuaTypes.Proofs.Token.Cut

/-!
The tokens of a text lie in it one after the other, each in a slice of its own, and outside of the slices there are only
spaces. A lexer yields these tokens call by call, and from then on the end of the text. A strict one yields the same
tokens up to the first unknown one, where it fails.
-/

namespace LuaTypes

namespace Lexeme

inductive Quotes (mark : Char) : List Char → List Char → Prop where
  | nil : Quotes mark [] []
  | plain {c body content} : c ≠ mark → c ≠ '\\' → Quotes mark body content →
      Quotes mark (c :: body) (c :: content)
  | escaped {e c body content} : unescape? e = some c → Quotes mark body content →
      Quotes mark ('\\' :: e :: body) (c :: content)

inductive Spells : List Char → Lexeme → Prop where
  | symbol (s : Symbol) : Spells s.text.toList (.symbol s)
  | keyword (k : Keyword) : Spells k.text.toList (.keyword k)
  | string {mark body content} : mark ∈ ['"', '\'', '\x60'] → Quotes mark body content →
      Spells (mark :: (body ++ [mark])) (.string (String.ofList content))
  | number (text : List Char) : Spells text (.number (String.ofList text))
  | name (text : List Char) : Spells text (.name (String.ofList text))
  | unknown (c : Char) (failed : FailedToken) : Spells [c] (.unknown c failed)

theorem exists_quotes {mark : Char} {cs content : List Char} {length : Nat}
    (h : stringBody mark cs = .ok (content, length))
    : ∃ body rest, cs = body ++ mark :: rest ∧ length = body.length + 1 ∧ Quotes mark body content := by
  fun_induction stringBody mark cs generalizing content length with
  | case1 => cases h
  | case2 => cases h
  | case3 => cases h
  | case4 e cs c hc content length hbody ih =>
    cases h
    obtain ⟨body, rest, rfl, rfl, hquotes⟩ := ih hbody
    exact ⟨'\\' :: e :: body, rest, rfl, rfl, .escaped hc hquotes⟩
  | case5 => cases h
  | case6 cs =>
    cases h
    exact ⟨[], cs, rfl, rfl, .nil⟩
  | case7 c cs hslash hmark content length hbody ih =>
    cases h
    obtain ⟨body, rest, rfl, rfl, hquotes⟩ := ih hbody
    exact ⟨c :: body, rest, rfl, rfl, .plain hmark hslash hquotes⟩
  | case8 => cases h

theorem spells_ofChar? {c : Char} {s : Symbol} (h : Symbol.ofChar? c = some s) : Spells [c] (.symbol s) := by
  have htext : s.text.toList = [c] := by
    unfold Symbol.ofChar? at h
    split at h <;> cases h
    all_goals rfl
  rw [← htext]
  exact .symbol s

theorem spells_ofWord (word : List Char) : Spells word (ofWord word) := by
  unfold ofWord
  split
  next k hk =>
    have htext : k.text.toList = word := by
      unfold Keyword.ofWord? at hk
      split at hk
      next hword =>
        cases hk
        exact hword.symm
      next =>
        split at hk <;> cases hk
        next hword => exact hword.symm
    rw [← htext]
    exact .keyword k
  next => exact .name word

theorem exists_spells_read (c : Char) (cs : List Char)
    : ∃ w rest, cs = w ++ rest ∧ (read c cs).2 = w.length + 1 ∧ Spells (c :: w) (read c cs).1 := by
  have hread := readAs_read c cs
  generalize read c cs = r at hread ⊢
  cases hread with
  | @ellipsis rest hc hcs =>
    subst hc hcs
    exact ⟨['.', '.'], rest, rfl, rfl, .symbol .ellipsis⟩
  | @brackets rest hc hcs =>
    subst hc hcs
    exact ⟨[']'], rest, rfl, rfl, .symbol .brackets⟩
  | symbol hs => exact ⟨[], cs, rfl, rfl, spells_ofChar? hs⟩
  | string hmark =>
    unfold ofString
    split
    next content length hbody =>
      obtain ⟨body, rest, rfl, rfl, hquotes⟩ := exists_quotes hbody
      exact ⟨body ++ [c], rest, by simp, by simp, .string hmark hquotes⟩
    next => exact ⟨[], cs, rfl, rfl, .unknown c _⟩
    next => exact ⟨[], cs, rfl, rfl, .unknown c _⟩
  | number =>
    obtain ⟨rest, hcs, -⟩ := numberRest_cut cs
    exact ⟨numberRest cs, rest, hcs, rfl, .number _⟩
  | word =>
    obtain ⟨rest, hcs, -⟩ := namePart_cut cs
    exact ⟨namePart cs, rest, hcs, rfl, spells_ofWord _⟩
  | unknown => exact ⟨[], cs, rfl, rfl, .unknown c _⟩

end Lexeme

namespace Token

def known (t : Token) : Except (FailedToken × Nat) Token :=
  match t.lexeme with
  | .unknown _ failed => .error (failed, t.offset)
  | _ => .ok t

def isUnknown (t : Token) : Bool :=
  match t.lexeme with
  | .unknown .. => true
  | _ => false

theorem known_of_isUnknown {t : Token} (h : t.isUnknown = true)
    : ∃ c failed, t.lexeme = .unknown c failed ∧ t.known = .error (failed, t.offset) := by
  obtain ⟨lexeme, offset⟩ := t
  cases lexeme with
  | unknown c failed => exact ⟨c, failed, rfl, rfl⟩
  | _ => cases h

theorem known_of_not_isUnknown {t : Token} (h : t.isUnknown = false) : t.known = .ok t := by
  obtain ⟨lexeme, offset⟩ := t
  cases lexeme with
  | unknown => cases h
  | _ => rfl

theorem mapM_known_of_find? {tokens : List Token} {t : Token} (h : tokens.find? isUnknown = some t)
    : ∃ c failed, t.lexeme = .unknown c failed ∧ tokens.mapM known = .error (failed, t.offset) := by
  induction tokens with
  | nil => cases h
  | cons u us ih =>
    rw [List.mapM_cons]
    cases hu : u.isUnknown with
    | true =>
      rw [List.find?_cons_of_pos hu] at h
      cases h
      obtain ⟨c, failed, hlexeme, hknown⟩ := known_of_isUnknown hu
      exact ⟨c, failed, hlexeme, by rw [hknown]; rfl⟩
    | false =>
      rw [List.find?_cons_of_neg (by simp [hu])] at h
      obtain ⟨c, failed, hlexeme, hmap⟩ := ih h
      exact ⟨c, failed, hlexeme, by rw [known_of_not_isUnknown hu, hmap]; rfl⟩

theorem mapM_known_of_find?_eq_none {tokens : List Token} (h : tokens.find? isUnknown = none)
    : tokens.mapM known = .ok tokens := by
  induction tokens with
  | nil => rfl
  | cons t ts ih =>
    rw [List.find?_cons] at h
    cases ht : t.isUnknown with
    | true => simp [ht] at h
    | false =>
      rw [List.mapM_cons, known_of_not_isUnknown ht, ih (by simpa [ht] using h)]
      rfl

theorem tokenize_eq (line : Int) (text : List Char)
    : tokenize line text
        = ((scan text).mapM known).mapError fun (failed, offset) =>
          .token failed.fault (Position.shift ⟨line, 1⟩ (offset + failed.offset)) := by
  unfold tokenize
  dsimp only
  split
  next t hfind =>
    obtain ⟨c, failed, hlexeme, hmap⟩ := mapM_known_of_find? hfind
    rw [hmap]
    simp only [Reader.guardKnown, Reader.first, List.headD_cons, hlexeme]
    rfl
  next hfind =>
    rw [mapM_known_of_find?_eq_none hfind]
    rfl

structure Slice where
  token : Token
  text : List Char

/--
Do the slices lie in the text one after the other, each from the offset of its token on, with only spaces outside of
them? The text starts at `offset`.
-/
inductive Sliced : (offset : Nat) → List Char → List Slice → Prop where
  | done {offset spaces} : (∀ c ∈ spaces, isSpace c = true) → Sliced offset spaces []
  | slice {offset spaces text lexeme rest slices} : (∀ c ∈ spaces, isSpace c = true) → text ≠ [] →
      Lexeme.Spells text lexeme → Sliced (offset + spaces.length + text.length) rest slices →
      Sliced offset (spaces ++ (text ++ rest)) (⟨⟨lexeme, offset + spaces.length⟩, text⟩ :: slices)

theorem exists_spaces (text : List Char)
    : ∃ spaces, (∀ c ∈ spaces, isSpace c = true) ∧ (text = spaces ∨
        ∃ c w rest lexeme, text = spaces ++ (c :: w ++ rest) ∧ isSpace c = false ∧
          Lexeme.read c (w ++ rest) = (lexeme, w.length + 1) ∧ Lexeme.Spells (c :: w) lexeme) := by
  obtain ⟨hspaces, hhead, htext⟩ := Lexeme.takeWhile_dropWhile isSpace text
  refine ⟨text.takeWhile isSpace, hspaces, ?_⟩
  cases hdrop : text.dropWhile isSpace with
  | nil =>
    rw [hdrop, List.append_nil] at htext
    exact .inl htext
  | cons c cs =>
    rw [hdrop] at htext hhead
    obtain ⟨w, rest, rfl, hlength, hspells⟩ := Lexeme.exists_spells_read c cs
    exact .inr ⟨c, w, rest, _, htext, hhead c rfl, Prod.ext rfl hlength, hspells⟩

variable {spaces w rest : List Char} {c : Char} {lexeme : Lexeme} (hspaces : ∀ c ∈ spaces, isSpace c = true)
  (hc : isSpace c = false) (hread : Lexeme.read c (w ++ rest) = (lexeme, w.length + 1))

include hspaces

theorem scanFrom_done (offset : Nat)
    : scanFrom 0 offset spaces = [⟨.endOfText, offset + spaces.length⟩] := by
  have := scanFrom_spaces hspaces offset []
  rwa [List.append_nil] at this

theorem next_done (offset : Nat)
    : Lexer.next ⟨offset, spaces⟩ = (⟨.endOfText, offset + spaces.length⟩, ⟨offset + spaces.length, []⟩) := by
  have htake : spaces.takeWhile isSpace = spaces := by
    have := (@Text.run_append isSpace spaces [] hspaces (by simp)).1
    rwa [List.append_nil] at this
  simp only [Lexer.next, Lexer.skip, htake, List.drop_length]

include hc hread

theorem scanFrom_slice (offset : Nat)
    : scanFrom 0 offset (spaces ++ (c :: w ++ rest))
        = ⟨lexeme, offset + spaces.length⟩ :: scanFrom 0 (offset + spaces.length + (c :: w).length) rest := by
  rw [scanFrom_spaces hspaces, List.cons_append, scanFrom_cons hc, hread]
  dsimp only
  rw [Nat.add_sub_cancel, scanFrom_length, List.length_cons]
  congr 2
  omega

theorem next_slice (offset : Nat)
    : Lexer.next ⟨offset, spaces ++ (c :: w ++ rest)⟩
        = (⟨lexeme, offset + spaces.length⟩, ⟨offset + spaces.length + (c :: w).length, rest⟩) := by
  have htake : (spaces ++ (c :: w ++ rest)).takeWhile isSpace = spaces :=
    (Text.run_append hspaces (by simpa using hc)).1
  have hdrop : (c :: w ++ rest).drop (w.length + 1) = rest := List.drop_left
  simp only [Lexer.next, Lexer.skip, htake, List.drop_left]
  rw [List.cons_append] at hdrop ⊢
  simp only [hread, hdrop, List.length_cons]

end Token

namespace Lexer

def tokens : (calls : Nat) → Lexer → List Token
  | 0, _ => []
  | calls + 1, l => l.next.1 :: tokens calls l.next.2

def knownTokens : (calls : Nat) → Lexer → Except (FailedToken × Nat) (List Token)
  | 0, _ => return []
  | calls + 1, l => do
    let t ← l.nextKnown.1
    return t :: (← knownTokens calls l.nextKnown.2)

theorem tokens_done (offset n : Nat)
    : tokens n ⟨offset, []⟩ = List.replicate n ⟨.endOfText, offset⟩ := by
  induction n with
  | zero => rfl
  | succ n ih =>
    rw [tokens, Token.next_done (by simp), List.length_nil, Nat.add_zero, ih, List.replicate_succ]

theorem nextKnown_eq (l : Lexer)
    : l.nextKnown.1 = l.next.1.known ∧ (∀ t, l.nextKnown.1 = .ok t → l.nextKnown.2 = l.next.2) := by
  unfold nextKnown Token.known
  generalize l.next = r
  obtain ⟨⟨lexeme, offset⟩, l'⟩ := r
  cases lexeme <;> simp

theorem knownTokens_eq (n : Nat) (l : Lexer) : l.knownTokens n = (l.tokens n).mapM Token.known := by
  induction n generalizing l with
  | zero => rfl
  | succ n ih =>
    obtain ⟨hknown, hnext⟩ := l.nextKnown_eq
    rw [knownTokens, tokens, List.mapM_cons, ← hknown]
    cases h : l.nextKnown.1 with
    | error e => rfl
    | ok t => rw [hnext t h, ih]

end Lexer

open Token

theorem exists_sliced (offset : Nat) (text : List Char)
    : ∃ slices : List Slice, Sliced offset text slices ∧
        scanFrom 0 offset text = slices.map (·.token) ++ [⟨.endOfText, offset + text.length⟩] ∧
        ∀ n, Lexer.tokens (slices.length + n) ⟨offset, text⟩
          = slices.map (·.token) ++ List.replicate n ⟨.endOfText, offset + text.length⟩ := by
  obtain ⟨spaces, hspaces, rfl | ⟨c, w, rest, lexeme, rfl, hc, hread, hspells⟩⟩ := exists_spaces text
  · refine ⟨[], .done hspaces, scanFrom_done hspaces offset, fun n => ?_⟩
    cases n with
    | zero => rfl
    | succ n =>
      rw [List.length_nil, Nat.zero_add, Lexer.tokens, next_done hspaces, Lexer.tokens_done]
      rfl
  · obtain ⟨slices, hsliced, hscan, htokens⟩ :=
      exists_sliced (offset + spaces.length + (c :: w).length) rest
    have hlength : offset + (spaces ++ (c :: w ++ rest)).length
        = offset + spaces.length + (c :: w).length + rest.length := by
      simp only [List.length_append]
      omega
    refine ⟨_, .slice hspaces (List.cons_ne_nil c w) hspells hsliced, ?_, fun n => ?_⟩
    · rw [scanFrom_slice hspaces hc hread, hscan, hlength]
      rfl
    · rw [List.length_cons, Nat.add_right_comm, Lexer.tokens, next_slice hspaces hc hread, htokens, hlength]
      rfl
termination_by text.length

/--
The tokens of a text lie in it one after the other with only spaces outside of them, and a lexer yields them call by
call, and then the end of the text. As far as they are known, a strict lexer yields the same ones; it fails at the
first unknown one, and so does reading them all at once.
-/
theorem Lexer.exists_sliced_tokens (text : List Char)
    : ∃ slices : List Slice, Sliced 0 text slices ∧
        (∀ n, (ofText text).tokens (slices.length + n)
          = slices.map (·.token) ++ List.replicate n ⟨.endOfText, text.length⟩) ∧
        (∀ n, (ofText text).knownTokens n = ((ofText text).tokens n).mapM Token.known) ∧
        ∀ line, Token.tokenize line text
          = (((ofText text).tokens (slices.length + 1)).mapM Token.known).mapError fun (failed, offset) =>
            .token failed.fault (Position.shift ⟨line, 1⟩ (offset + failed.offset)) := by
  obtain ⟨slices, hsliced, hscan, htokens⟩ := exists_sliced 0 text
  rw [Nat.zero_add] at hscan htokens
  refine ⟨slices, hsliced, htokens, fun n => knownTokens_eq n _, fun line => ?_⟩
  have htoken := htokens 1
  rw [List.replicate_one, ← hscan] at htoken
  change tokens (slices.length + 1) (ofText text) = scan text at htoken
  rw [htoken, tokenize_eq]

end LuaTypes
