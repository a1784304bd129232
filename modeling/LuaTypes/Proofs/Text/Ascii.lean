import LuaTypes.Proofs.Text.Phrase
import LuaTypes.Text.Utf8

/-!
Texts in printable ASCII characters are read back as they have been written.
-/

namespace LuaTypes.Text

def IsPrintableAscii (c : Char) : Prop :=
  0x20 ≤ c.toNat ∧ c.toNat < 0x7F

instance : DecidablePred IsPrintableAscii := fun c =>
  inferInstanceAs (Decidable (0x20 ≤ c.toNat ∧ c.toNat < 0x7F))

theorem utf8EncodeChar_of_lt {c : Char} (h : c.toNat < 0x80)
    : String.utf8EncodeChar c = [UInt8.ofNat c.toNat] := by
  simp only [String.utf8EncodeChar]
  rw [if_pos]
  · rfl
  · exact Nat.le_of_lt_succ h

namespace Utf8

theorem decodeAt_ascii {n : Nat} (hn : n < 0x80) (offset : Nat) (bytes : List UInt8)
    : decodeAt offset (UInt8.ofNat n :: bytes)
        =
      match decodeAt (offset + 1) bytes with
      | .ok cs => .ok (Char.ofNat n :: cs)
      | .error e => .error e := by
  have hbyte : (UInt8.ofNat n).toNat = n := by
    rw [UInt8.toNat_ofNat']
    omega
  have hlead : lead? (UInt8.ofNat n) = some ⟨0, 0x80, 0xBF, n⟩ := by
    simp only [lead?, hbyte, if_pos hn]
  rw [decodeAt]
  split
  next h =>
    rw [hlead] at h
    cases h
  next lead h =>
    rw [hlead] at h
    cases h
    split
    next h => simp [continuation] at h
    next h =>
      simp only [continuation, Except.ok.injEq, Prod.mk.injEq] at h
      obtain ⟨rfl, rfl⟩ := h
      cases hrest : decodeAt (offset + 1) bytes <;> simp only [Nat.sub_self, Nat.add_zero, hrest]

theorem decodeAt_flatMap {s : List Char} (h : ∀ c ∈ s, c.toNat < 0x80) (offset : Nat)
    : decodeAt offset (s.flatMap String.utf8EncodeChar) = .ok s := by
  induction s generalizing offset with
  | nil => simp [decodeAt]
  | cons c s ih =>
    have hc := h c (by simp)
    rw [List.flatMap_cons, utf8EncodeChar_of_lt hc, List.singleton_append, decodeAt_ascii hc,
      ih fun d hd => h d (by simp [hd])]
    simp [Char.ofNat_toNat]

end Utf8

theorem decodeUtf8_encodeUtf8 {s : List Char} (h : ∀ c ∈ s, IsPrintableAscii c)
    : decodeUtf8 (encodeUtf8 s) = .ok s := by
  apply Utf8.decodeAt_flatMap
  intro c hc
  have := (h c hc).2
  omega

theorem unifyLineEnds_of_printableAscii {s : List Char} (h : ∀ c ∈ s, IsPrintableAscii c)
    : unifyLineEnds s = s := by
  fun_induction unifyLineEnds s with
  | case1 => rfl
  | case2 cs ih =>
    have := h '\r' (by simp)
    simp [IsPrintableAscii] at this
  | case3 c cs hne ih =>
    have hc : c ≠ '\r' := by
      rintro rfl
      have := h '\r' (by simp)
      simp [IsPrintableAscii] at this
    rw [if_neg hc, ih fun d hd => h d (by simp [hd])]

end LuaTypes.Text
