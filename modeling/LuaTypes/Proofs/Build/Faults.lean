import LuaTypes.Build
import LuaTypes.Proofs.Call.Faults
import LuaTypes.Proofs.Declaration.Faults
import LuaTypes.Proofs.FileTree.Access

/-!
Which errors leave the readers of types, calls and declaration files. A numeral can be a token and still
have no value; the error that this gives is none of those that the readers announce.
-/

namespace LuaTypes.Build

open Declaration

theorem compileFile_eq_error {t : FileTree} {path : Path} {e : Build.Error} (hpath : path.hasNull = false)
    (h : compileFile t path = .error e)
    : e.isReported = true ∨ ∃ text, t.readText path = .ok text ∧ HasValueless text.toList := by
  unfold compileFile at h
  split at h
  next p hread =>
    exact absurd hread (FileTree.readText_ne_nullCharacter hpath)
  next => cases h; exact .inl rfl
  next text hread =>
    split at h
    next => cases h
    next fault hparse =>
      exact .inr ⟨text, hread, blamed_parse text _ hparse⟩
    next => cases h; exact .inl rfl

theorem compileFile_of_number {t : FileTree} {path : Path} {source : String} {fault : Decimal.NumberFault}
    (hread : t.readText path = .ok source) (h : File.parse source = .error (.number fault))
    : compileFile t path = .error (.number fault) := by
  unfold compileFile
  rw [hread]
  dsimp only
  rw [h]

/--
A file, a type or a call is read, or there is an error as it is announced: of the grammar, for types and
calls also of a token, and for a file on the disk one that is reported. All else is due to a numeral in
the text that has no value; and of the numerals that stand alone, just those with a value are read.
-/
theorem escapes_of_numerals (text : String) (line : Int) (t : FileTree) (path : Path) (n : Lexeme.Numeral)
    : (∀ e, File.parse text = .error e → Reader.Blames false text.toList e) ∧
      (∀ e, TypeExpr.parse text line = .error e → Reader.Blames true text.toList e) ∧
      (∀ e, Call.parse text = .error e → Reader.Blames true text.toList e) ∧
      (∀ e, path.hasNull = false → compileFile t path = .error e →
        e.isReported = true ∨ ∃ text, t.readText path = .ok text ∧ HasValueless text.toList) ∧
      (n.HasValue → ∃ l,
        TypeExpr.parse (String.ofList n.text) line = .ok (.literal l) ∧
        Call.parse ("f(" ++ String.ofList n.text ++ ")") = .ok ⟨"f", [.literal l]⟩ ∧
        File.parse ("--- @alias X " ++ String.ofList n.text ++ "\n")
          = .ok { aliases := [{ name := "X", base := some (.literal l) }] }) ∧
      (¬ n.HasValue → ∃ fault,
        TypeExpr.parse (String.ofList n.text) line = .error (.number fault) ∧
        Call.parse ("f(" ++ String.ofList n.text ++ ")") = .error (.number fault) ∧
        File.parse ("--- @alias X " ++ String.ofList n.text ++ "\n") = .error (.number fault) ∧
        (t.readText path = .ok ("--- @alias X " ++ String.ofList n.text ++ "\n") →
          compileFile t path = .error (.number fault))) := by
  refine ⟨fun e h => blamed_parse text e h, fun e h => TypeExpr.blames_of_parse h,
    fun e h => Call.blames_of_parse h, fun e hpath h => compileFile_eq_error hpath h, ?_, ?_⟩
  all_goals
    intro hvalue
    have htype := TypeExpr.parse_numeral n line
    have hcall := Call.parse_numeral n
    have hfile := Declaration.parse_numeral n
  · obtain ⟨l, hl⟩ := (TypeExpr.Parser.numberLiteral_eq_ok_iff n).2 hvalue
    rw [hl] at htype hcall hfile
    exact ⟨l, htype, hcall, hfile⟩
  · obtain ⟨fault, hfault⟩ := TypeExpr.Parser.exists_fault hvalue
    rw [hfault] at htype hcall hfile
    exact ⟨fault, htype, hcall, hfile, fun hread => compileFile_of_number hread hfile⟩

def superscript : Lexeme.Numeral where
  negative := false
  whole := ['²']
  places := []
  whole_ne_nil := by decide
  whole_digits := List.forall_mem_singleton.2 (by decide)
  places_digits := List.forall_mem_nil _

theorem not_grammar_superscript
    : File.parse "--- @alias X ²\n" = .error (.number (.notInteger "²")) ∧
        ¬ ∀ source e, File.parse source = .error e → ∃ problem position, e = .grammar problem position := by
  have hvalue : TypeExpr.Parser.numberLiteral "²" = .error (.notInteger "²") := by decide
  have hparse : File.parse "--- @alias X ²\n" = .error (.number (.notInteger "²")) := by
    have hfile := Declaration.parse_numeral superscript
    change File.parse "--- @alias X ²\n" = ((TypeExpr.Parser.numberLiteral "²").map _).mapError _ at hfile
    rw [hvalue] at hfile
    exact hfile
  refine ⟨hparse, fun h => ?_⟩
  obtain ⟨problem, position, he⟩ := h _ _ hparse
  cases he

end LuaTypes.Build
