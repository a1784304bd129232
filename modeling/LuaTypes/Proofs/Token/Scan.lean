import LuaTypes.Proofs.Decimal.Numeral
import LuaTypes.Proofs.Token.Known

/-!
How single lexemes are scanned that stand in a text. A word or a number has to be followed by something
that does not go on with it.
-/

namespace LuaTypes

open Decimal (pointed minus)

structure Lexeme.Numeral where
  negative : Bool
  whole : List Char
  places : List Char
  whole_ne_nil : whole ≠ []
  whole_digits : ∀ c ∈ whole, Text.isDigit c = true
  places_digits : ∀ c ∈ places, Text.isDigit c = true

def Lexeme.Numeral.text (n : Numeral) : List Char :=
  minus n.negative ++ (n.whole ++ pointed n.places)

namespace Token

/--
The text is scanned as lexemes if `tail` follows, which is scanned as if it stood alone.
-/
def Scans (text : List Char) (lexemes : List Lexeme) (tail : List Char) : Prop :=
  ∀ offset, ∃ tokens : List Token, tokens.map (·.lexeme) = lexemes ∧
    scanFrom 0 offset (text ++ tail) = tokens ++ scanFrom 0 (offset + text.length) tail

def Breaks (text : List Char) : Prop :=
  ∀ c ∈ text.head?, Text.isWordChar c = false ∧ Text.isDigit c = false ∧ c ≠ '.'

theorem breaks_nil : Breaks [] := by
  simp [Breaks]

theorem breaks_cons {c : Char} {cs : List Char}
    : Breaks (c :: cs) ↔ Text.isWordChar c = false ∧ Text.isDigit c = false ∧ c ≠ '.' := by
  simp [Breaks]

theorem scanFrom_length (text tail : List Char) (offset : Nat)
    : scanFrom text.length offset (text ++ tail) = scanFrom 0 (offset + text.length) tail := by
  induction text generalizing offset with
  | nil => rfl
  | cons c cs ih =>
    change scanFrom cs.length (offset + 1) (cs ++ tail) = _
    rw [ih, List.length_cons]
    congr 1
    omega

variable {text text' tail : List Char} {lexemes lexemes' : List Lexeme}

theorem Scans.nil (tail : List Char) : Scans [] [] tail := by
  intro offset
  exact ⟨[], rfl, rfl⟩

theorem Scans.append (h : Scans text lexemes (text' ++ tail)) (h' : Scans text' lexemes' tail)
    : Scans (text ++ text') (lexemes ++ lexemes') tail := by
  intro offset
  obtain ⟨tokens, hlexemes, hscan⟩ := h offset
  obtain ⟨tokens', hlexemes', hscan'⟩ := h' (offset + text.length)
  refine ⟨tokens ++ tokens', ?_, ?_⟩
  · rw [List.map_append, hlexemes, hlexemes']
  · rw [List.append_assoc, hscan, hscan', List.append_assoc, List.length_append, Nat.add_assoc]

theorem Scans.exists_tokens (h : Scans text lexemes [])
    : ∃ tokens : List Token, tokens.map (·.lexeme) = lexemes ∧
        scan text = tokens ++ [⟨.endOfText, text.length⟩] := by
  obtain ⟨tokens, hlexemes, hscan⟩ := h 0
  rw [List.append_nil, Nat.zero_add] at hscan
  exact ⟨tokens, hlexemes, hscan⟩

theorem scans_space (tail : List Char) : Scans [' '] [] tail := by
  intro offset
  exact ⟨[], rfl, rfl⟩

theorem scans_of_read {c : Char} {cs : List Char} {l : Lexeme} (hspace : isSpace c = false)
    (h : Lexeme.read c (cs ++ tail) = (l, cs.length + 1))
    : Scans (c :: cs) [l] tail := by
  intro offset
  refine ⟨[⟨l, offset⟩], rfl, ?_⟩
  rw [List.cons_append, scanFrom, hspace, if_neg (by simp), h]
  dsimp only
  rw [Nat.add_sub_cancel, scanFrom_length, List.length_cons, List.cons_append, List.nil_append]
  congr 2
  omega

/-! ### Symbols -/

theorem read_of_ofChar? {c : Char} {s : Symbol} (h : Symbol.ofChar? c = some s) (hc : c ≠ '[')
    : Lexeme.read c tail = (.symbol s, 1) := by
  unfold Lexeme.read
  split
  · cases h
  · exact absurd rfl hc
  · rw [h]

theorem scans_symbol {c : Char} {s : Symbol} (h : Symbol.ofChar? c = some s) (hc : c ≠ '[')
    : Scans [c] [.symbol s] tail := by
  apply scans_of_read
  · unfold Symbol.ofChar? at h
    split at h <;> first | rfl | cases h
  · exact read_of_ofChar? h hc

theorem read_openBracket (h : tail.head? ≠ some ']') : Lexeme.read '[' tail = (.symbol .openBracket, 1) := by
  unfold Lexeme.read
  split
  next hdot => exact absurd hdot (by decide)
  next => exact absurd rfl h
  next => rfl

theorem scans_openBracket (h : tail.head? ≠ some ']') : Scans ['['] [.symbol .openBracket] tail :=
  scans_of_read rfl (read_openBracket h)

theorem scans_brackets : Scans ['[', ']'] [.symbol .brackets] tail := by
  exact scans_of_read rfl rfl

theorem scans_ellipsis : Scans ['.', '.', '.'] [.symbol .ellipsis] tail := by
  exact scans_of_read rfl rfl

/-! ### Words -/

theorem namePart_of_breaks (h : Breaks tail) : Lexeme.namePart tail = [] := by
  cases tail with
  | nil => rfl
  | cons c cs =>
    rw [breaks_cons] at h
    simp [Lexeme.namePart, h.1, h.2.2]

theorem namePart_append {cs : List Char} (h : Lexeme.namePart cs = cs) (htail : Breaks tail)
    : Lexeme.namePart (cs ++ tail) = cs := by
  induction cs with
  | nil => exact namePart_of_breaks htail
  | cons c cs ih =>
    rw [Lexeme.namePart] at h
    split at h
    next hc =>
      rw [List.cons.injEq] at h
      rw [List.cons_append, Lexeme.namePart, ih h.2, if_pos]
      -- A point at the end of the word would not belong to it.
      cases cs with
      | nil => simpa using .inl (by simpa using hc)
      | cons d ds => exact hc
    next => cases h

theorem ofChar?_of_isNameStart {c : Char} (h : Lexeme.isNameStart c = true) : Symbol.ofChar? c = none := by
  unfold Symbol.ofChar?
  split
  all_goals first | rfl | exact absurd h (by decide)

theorem ne_of_isNameStart {c d : Char} (h : Lexeme.isNameStart c = true) (hd : Lexeme.isNameStart d = false)
    : c ≠ d := by
  rintro rfl
  rw [h] at hd
  cases hd

theorem read_of_isNameStart {c : Char} (h : Lexeme.isNameStart c = true) (hdigit : Text.isDigit c = false)
    (cs : List Char)
    : Lexeme.read c cs = (Lexeme.ofWord (c :: Lexeme.namePart cs), (Lexeme.namePart cs).length + 1) := by
  have hdash := ne_of_isNameStart h (d := '-') (by decide)
  have hmark : ¬ (c = '"' ∨ c = '\'' ∨ c = '\x60') := by
    rintro (rfl | rfl | rfl)
    all_goals exact absurd h (by decide)
  have hnumber : ¬ (Text.isDigit c || (c == '-' && cs.head?.any Text.isDigit)) = true := by
    simp [hdigit, hdash]
  unfold Lexeme.read
  split
  next => exact absurd h (by decide)
  next => exact absurd h (by decide)
  next => simp only [ofChar?_of_isNameStart h, if_neg hmark, if_neg hnumber, if_pos h]

theorem scans_word {c : Char} {cs : List Char} (hstart : Lexeme.isNameStart c = true)
    (hdigit : Text.isDigit c = false) (hpart : Lexeme.namePart cs = cs) (htail : Breaks tail)
    : Scans (c :: cs) [Lexeme.ofWord (c :: cs)] tail := by
  apply scans_of_read
  · rw [← Bool.not_eq_true]
    intro hspace
    simp only [isSpace, Bool.or_eq_true, beq_iff_eq] at hspace
    obtain ((rfl | rfl) | rfl) | rfl := hspace
    all_goals exact absurd hstart (by decide)
  · rw [read_of_isNameStart hstart hdigit, namePart_append hpart htail]

theorem scans_name {name : String} (h : Lexeme.IsName name) (htail : Breaks tail)
    : Scans name.toList [.name name] tail := by
  obtain ⟨c, cs, hname, hstart, hdigit, hpart⟩ := h.start
  have hword := scans_word hstart hdigit hpart htail
  rw [← hname, Lexeme.ofWord, h.not_keyword, String.ofList_toList] at hword
  exact hword

theorem scans_keyword (k : Keyword) (htail : Breaks tail) : Scans k.text.toList [.keyword k] tail := by
  cases k with
  | function => exact scans_word rfl rfl rfl htail
  | async => exact scans_word rfl rfl rfl htail

/-! ### Numbers -/

theorem isDigit_of_ascii {c : Char} (h : c.isDigit) : Text.isDigit c = true := by
  rw [Text.isDigit, Decimal.decimalValue?_of_isDigit h]
  rfl

theorem numberRest_append {whole places : List Char} (hwhole : ∀ c ∈ whole, Text.isDigit c = true)
    (hplaces : ∀ c ∈ places, Text.isDigit c = true) (htail : Breaks tail)
    : Lexeme.numberRest (whole ++ (pointed places ++ tail)) = whole ++ pointed places := by
  have hbreaks : ∀ c ∈ tail.head?, Text.isDigit c = false := fun c hc => (htail c hc).2.1
  cases places with
  | nil =>
    obtain ⟨htake, hdrop⟩ := Text.run_append hwhole hbreaks
    rw [pointed, List.nil_append, Lexeme.numberRest, htake, hdrop]
    split
    next => exact absurd rfl (htail '.' rfl).2.2
    next => rfl
  | cons d ds =>
    have hpoint : ∀ c ∈ ('.' :: d :: ds ++ tail).head?, Text.isDigit c = false := by
      rintro c ⟨⟩
      rfl
    obtain ⟨htake, hdrop⟩ := Text.run_append hwhole hpoint
    have hds := Text.run_append (fun c hc => hplaces c (List.mem_cons_of_mem d hc)) hbreaks
    rw [pointed, Lexeme.numberRest, htake, hdrop]
    simp [hplaces d (by simp), hds.1]

theorem read_of_isDigit {c : Char} {cs : List Char}
    (h : (Text.isDigit c || (c == '-' && cs.head?.any Text.isDigit)) = true)
    : Lexeme.read c cs
        = (.number (String.ofList (c :: Lexeme.numberRest cs)), (Lexeme.numberRest cs).length + 1) := by
  have hne : ∀ d, Text.isDigit d = false → d ≠ '-' → c ≠ d := by
    rintro d hd hdash rfl
    simp [hd, hdash] at h
  have hmark : ¬ (c = '"' ∨ c = '\'' ∨ c = '\x60') := by
    simp [hne '"' (by decide) (by decide), hne '\'' (by decide) (by decide),
      hne '\x60' (by decide) (by decide)]
  have hsymbol : Symbol.ofChar? c = none := by
    unfold Symbol.ofChar?
    split
    all_goals first | rfl | exact absurd rfl (hne _ (by decide) (by decide))
  unfold Lexeme.read
  split
  next => exact absurd rfl (hne _ (by decide) (by decide))
  next => exact absurd rfl (hne _ (by decide) (by decide))
  next => simp only [hsymbol, if_neg hmark, if_pos h]

theorem isSpace_of_number {c : Char} {cs : List Char}
    (h : (Text.isDigit c || (c == '-' && cs.head?.any Text.isDigit)) = true)
    : isSpace c = false := by
  rw [← Bool.not_eq_true]
  intro hspace
  simp only [isSpace, Bool.or_eq_true, beq_iff_eq] at hspace
  obtain ((rfl | rfl) | rfl) | rfl := hspace
  all_goals exact absurd h (by simp; decide)

theorem scans_number (n : Lexeme.Numeral) (htail : Breaks tail)
    : Scans n.text [.number (String.ofList n.text)] tail := by
  obtain ⟨negative, whole, places, hne, hwhole, hplaces⟩ := n
  obtain ⟨d, ds, rfl⟩ := List.exists_cons_of_ne_nil hne
  have hd := hwhole d (by simp)
  unfold Lexeme.Numeral.text
  cases negative with
  | false =>
    have hstart : (Text.isDigit d || (d == '-' && (ds ++ (pointed places ++ tail)).head?.any Text.isDigit))
        = true := by
      rw [hd, Bool.true_or]
    apply @scans_of_read tail d (ds ++ pointed places) _ (isSpace_of_number hstart)
    rw [List.append_assoc, read_of_isDigit hstart,
      numberRest_append (fun c hc => hwhole c (List.mem_cons_of_mem d hc)) hplaces htail]
    rfl
  | true =>
    have hstart : (Text.isDigit '-' || ('-' == '-' &&
        (d :: ds ++ (pointed places ++ tail)).head?.any Text.isDigit)) = true := by
      simp [hd]
    apply @scans_of_read tail '-' (d :: ds ++ pointed places) _ (isSpace_of_number hstart)
    rw [List.append_assoc, read_of_isDigit hstart, numberRest_append hwhole hplaces htail]
    rfl

/-! ### Strings -/

theorem scans_string {body content : List Char}
    (h : Lexeme.stringBody '"' (body ++ '"' :: tail) = .ok (content, body.length + 1))
    : Scans ('"' :: (body ++ ['"'])) [.string (String.ofList content)] tail := by
  apply scans_of_read rfl
  rw [List.append_assoc, List.singleton_append]
  change Lexeme.ofString '"' (body ++ '"' :: tail) = _
  unfold Lexeme.ofString
  rw [h]
  simp

end Token

end LuaTypes
