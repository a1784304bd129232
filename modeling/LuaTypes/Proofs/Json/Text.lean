import LuaTypes.Json.Printer
import LuaTypes.Json.Reader

/-!
Strings in JSON: the characters of a string are read back from their escapes, whatever they are.
-/

namespace LuaTypes

namespace Text

theorem hexDigits_succ {width : Nat} (h : 0 < width) (n : Nat)
    : hexDigits (width + 1) n = hexDigits width (n / 16) ++ [Nat.digitChar (n % 16)] := by
  unfold hexDigits
  rw [Nat.toDigits_eq_if (by omega)]
  split
  · have hdiv : n / 16 = 0 := by omega
    have hmod : n % 16 = n := by omega
    have hwidth : width = width - 1 + 1 := by omega
    rw [hdiv, hmod, Nat.toDigits_zero]
    simp only [List.length_singleton, Nat.add_sub_cancel]
    rw [hwidth, List.replicate_succ']
    simp
  · simp only [List.length_append, List.length_singleton, Nat.add_sub_add_right, List.append_assoc]

theorem hexDigits_one {n : Nat} (h : n < 16) : hexDigits 1 n = [Nat.digitChar n] := by
  simp [hexDigits, Nat.toDigits_of_lt_base h]

theorem hexDigits_four {n : Nat} (h : n < 0x10000)
    : hexDigits 4 n = [Nat.digitChar (n / 4096), Nat.digitChar (n / 256 % 16),
        Nat.digitChar (n / 16 % 16), Nat.digitChar (n % 16)] := by
  rw [hexDigits_succ (by omega), hexDigits_succ (by omega), hexDigits_succ (by omega),
    hexDigits_one (by omega)]
  simp only [Nat.div_div_eq_div_mul, List.cons_append, List.nil_append]

theorem toNat_lt (c : Char) : c.toNat < 0xD800 ∨ 0xE000 ≤ c.toNat ∧ c.toNat < 0x110000 := by
  have h := c.valid
  simp only [UInt32.isValidChar, Nat.isValidChar] at h
  show c.val.toNat < _ ∨ _ ≤ c.val.toNat ∧ c.val.toNat < _
  omega

theorem isSurrogate_iff {n : Nat} : isSurrogate n ↔ 0xD800 ≤ n ∧ n < 0xE000 := by
  simp only [isSurrogate, isHighSurrogate, isLowSurrogate, Bool.or_eq_true, Bool.and_eq_true,
    decide_eq_true_eq]
  omega

theorem not_isSurrogate_toNat (c : Char) : ¬ isSurrogate c.toNat := by
  have := toNat_lt c
  rw [isSurrogate_iff]
  omega

theorem standsIn_of_isSurrogate {c : Char} (h : isSurrogate (codePoint c)) : standsIn c := by
  by_cases hc : standsIn c
  · exact hc
  · rw [codePoint_of_not_standsIn hc] at h
    exact absurd h (not_isSurrogate_toNat c)

theorem le_toNat_of_standsIn {c : Char} (h : standsIn c) : standInOffset ≤ c.toNat := by
  rw [standsIn, isSurrogate_iff] at h
  omega

theorem ofCodePoint_codePoint (c : Char) : ofCodePoint (codePoint c) = c := by
  by_cases hc : standsIn c
  · have hsurrogate : isSurrogate (c.toNat - standInOffset) := hc
    rw [codePoint, if_pos hc, ofCodePoint, if_pos hsurrogate,
      Nat.add_sub_cancel' (le_toNat_of_standsIn hc), Char.ofNat_toNat]
  · rw [codePoint, if_neg hc, ofCodePoint, if_neg (not_isSurrogate_toNat c), Char.ofNat_toNat]

end Text

namespace Json

open Text

theorem hexValue?_digitChar : ∀ n < 16, hexValue? (Nat.digitChar n) = some n := by
  decide

theorem codeUnit?_digitChar {n : Nat} (h : n < 0x10000)
    : codeUnit? (Nat.digitChar (n / 4096)) (Nat.digitChar (n / 256 % 16))
        (Nat.digitChar (n / 16 % 16)) (Nat.digitChar (n % 16)) = some n := by
  unfold codeUnit?
  rw [hexValue?_digitChar _ (by omega), hexValue?_digitChar _ (by omega),
    hexValue?_digitChar _ (by omega), hexValue?_digitChar _ (by omega)]
  simp only [Option.bind_eq_bind, Option.bind_some, Option.pure_def, Option.some.injEq]
  omega

def NoLow (cs : List Char) : Prop :=
  ∀ a b c d rest, cs = '\\' :: 'u' :: a :: b :: c :: d :: rest →
    ∃ n, codeUnit? a b c d = some n ∧ ¬ isLowSurrogate n

theorem stringBody_unit {a b c d : Char} {n : Nat} {rest : List Char}
    (hn : codeUnit? a b c d = some n) (h : isHighSurrogate n → NoLow rest)
    : stringBody ('\\' :: 'u' :: a :: b :: c :: d :: rest)
        =
      consChar (ofCodePoint n) (stringBody rest) := by
  rw [stringBody.eq_def]
  simp only [hn]
  split
  · rename_i heq
    cases heq
  · rename_i heq
    cases heq
    split
    · rename_i hhigh
      obtain ⟨low, hlow, hnot⟩ := h hhigh _ _ _ _ _ rfl
      simp [hlow, hnot]
    · rfl
  · rename_i heq _
    cases heq
    rfl

theorem stringBody_pair {a b c d a' b' c' d' : Char} {high low : Nat} {rest : List Char}
    (hhigh : codeUnit? a b c d = some high) (hlow : codeUnit? a' b' c' d' = some low)
    (h : isHighSurrogate high) (h' : isLowSurrogate low)
    : stringBody ('\\' :: 'u' :: a :: b :: c :: d ::
        '\\' :: 'u' :: a' :: b' :: c' :: d' :: rest)
        =
      consChar (Char.ofNat (0x10000 + (high - 0xD800) * 0x400 + (low - 0xDC00))) (stringBody rest) := by
  rw [stringBody.eq_def]
  simp only [hhigh, hlow, h, h', ↓reduceIte]

theorem stringBody_escapePair {c : Char} (hc : 0x10000 ≤ c.toNat) (rest : List Char)
    : stringBody (escapePair c ++ rest) = consChar c (stringBody rest) := by
  have hlt := toNat_lt c
  have hhigh : 0xD800 + (c.toNat - 0x10000) / 0x400 < 0x10000 := by omega
  have hlow : 0xDC00 + (c.toNat - 0x10000) % 0x400 < 0x10000 := by omega
  unfold escapePair escapeUnit
  simp only [hexDigits_four hhigh, hexDigits_four hlow, List.cons_append, List.nil_append]
  rw [stringBody_pair (codeUnit?_digitChar hhigh) (codeUnit?_digitChar hlow)]
  · have hvalue : 0x10000 + (0xD800 + (c.toNat - 0x10000) / 0x400 - 0xD800) * 0x400 +
        (0xDC00 + (c.toNat - 0x10000) % 0x400 - 0xDC00) = c.toNat := by
      omega
    rw [hvalue, Char.ofNat_toNat]
  · simp [isHighSurrogate]
    omega
  · simp [isLowSurrogate]
    omega

theorem stringBody_escapeUnit {c : Char} {rest : List Char} (hc : codePoint c < 0x10000)
    (h : isHighSurrogate (codePoint c) → NoLow rest)
    : stringBody (escapeUnit (codePoint c) ++ rest) = consChar c (stringBody rest) := by
  unfold escapeUnit
  simp only [hexDigits_four hc, List.cons_append, List.nil_append]
  rw [stringBody_unit (codeUnit?_digitChar hc) h, ofCodePoint_codePoint]

theorem stringBody_escapeChar {c : Char} {rest : List Char}
    (h : isHighSurrogate (codePoint c) → NoLow rest)
    : stringBody (escapeChar c ++ rest) = consChar c (stringBody rest) := by
  -- Five short escapes, two by their code points, the characters that stand for themselves, and the
  -- escapes of one unit and of two.
  unfold escapeChar
  split
  · subst c
    rfl
  split
  · subst c
    rfl
  split
  · subst c
    rfl
  split
  · subst c
    rfl
  split
  · subst c
    rfl
  split
  · rename_i hc
    rw [← Char.ofNat_toNat c, hc]
    rfl
  split
  · rename_i hc
    rw [← Char.ofNat_toNat c, hc]
    rfl
  split
  · rename_i hquote hslash _ _ _ _ _ hc
    simp only [List.cons_append, List.nil_append]
    rw [stringBody.eq_def]
    split
    · rename_i heq
      cases heq
      exact absurd rfl hquote
    · rename_i heq
      cases heq
      exact absurd rfl hslash
    · rename_i heq
      cases heq
      exact absurd rfl hslash
    · rename_i heq
      cases heq
      rw [if_neg]
      simp [hslash]
      omega
    · rename_i heq
      cases heq
  split
  · rename_i hc
    exact stringBody_escapeUnit hc h
  · rename_i hc
    apply stringBody_escapePair
    unfold codePoint at hc
    split at hc <;> omega

theorem noLow_escapeUnit {n : Nat} {rest : List Char} (hn : n < 0x10000) (h : ¬ isLowSurrogate n)
    : NoLow (escapeUnit n ++ rest) := by
  intro a b c d rest' heq
  simp only [escapeUnit, hexDigits_four hn, List.cons_append, List.nil_append] at heq
  cases heq
  exact ⟨n, codeUnit?_digitChar hn, h⟩

theorem noLow_escapePair (c : Char) (rest : List Char) : NoLow (escapePair c ++ rest) := by
  have hlt := toNat_lt c
  simp only [escapePair, List.append_assoc]
  apply noLow_escapeUnit
  · omega
  · simp [isLowSurrogate]
    omega

theorem noLow_of_head {c : Char} {rest : List Char} (h : c ≠ '\\' ∨ rest.head? ≠ some 'u')
    : NoLow (c :: rest) := by
  intro _ _ _ _ _ heq
  cases heq
  simp at h

theorem noLow_escapeChar {c : Char} {rest : List Char} (h : ¬ isLowSurrogate (codePoint c))
    : NoLow (escapeChar c ++ rest) := by
  unfold escapeChar
  iterate 7
    split
    · apply noLow_of_head
      simp
  split
  · rename_i hslash _ _ _ _ _ _
    apply noLow_of_head
    simp [hslash]
  split
  · rename_i hc
    exact noLow_escapeUnit hc h
  · exact noLow_escapePair c rest

theorem noLow_escape {c : Char} (cs rest : List Char) (h : ¬ isLowSurrogate (codePoint c))
    : NoLow (escape (c :: cs) ++ rest) := by
  cases cs with
  | nil => exact noLow_escapeChar h
  | cons d cs =>
    rw [escape]
    split
    · simp only [List.append_assoc]
      apply noLow_escapePair
    · rw [List.append_assoc]
      exact noLow_escapeChar h

theorem stringBody_escape (cs rest : List Char)
    : stringBody (escape cs ++ '"' :: rest) = .ok (cs, rest) := by
  fun_induction escape cs with
  | case1 => rfl
  | case2 c =>
    have hquote : NoLow ('"' :: rest) := noLow_of_head (by simp)
    rw [stringBody_escapeChar fun _ => hquote]
    rfl
  | case3 c d cs h ih =>
    simp only [Bool.and_eq_true] at h
    have hc := le_toNat_of_standsIn (standsIn_of_isSurrogate (c := c) (by simp [isSurrogate, h]))
    have hd := le_toNat_of_standsIn (standsIn_of_isSurrogate (c := d) (by simp [isSurrogate, h]))
    unfold standInOffset at hc hd
    rw [List.append_assoc, List.append_assoc, stringBody_escapePair (by omega),
      stringBody_escapePair (by omega), ih]
    rfl
  | case4 c d cs h ih =>
    rw [List.append_assoc, stringBody_escapeChar, ih]
    · rfl
    · intro hc
      apply noLow_escape
      simpa [hc] using h

end Json

end LuaTypes
