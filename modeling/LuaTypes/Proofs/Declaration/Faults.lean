import LuaTypes.Proofs.Call.Faults
import LuaTypes.Proofs.Declaration.Documentation
import LuaTypes.Proofs.Declaration.Readable
import LuaTypes.Proofs.Text.Lines

/-!
What the reading of a declaration file can fail at. Types in annotations are read leniently, so no token
is to blame: there is a problem of the grammar, or a numeral of the source has no value.
-/

namespace LuaTypes

namespace Declaration

open Text Reader

variable {α β : Type} {text : List Char}

theorem Blames.map {π ρ : Type} {strict : Bool} {e : ReadError π} {f : π → ρ} (h : Blames strict text e)
    : Blames strict text (e.map f) := by
  cases e <;> exact h

/--
If there is an error, it is one of the grammar, or a numeral of the text has no value.
-/
def Blamed (text : List Char) (x : Except Error α) : Prop :=
  ∀ e, x = .error e → Blames false text e

namespace Blamed

theorem ok (x : α) : Blamed text (.ok x) := by
  intro e h
  cases h

theorem grammar {problem : Problem} {position : Position}
    : Blamed text (.error (.grammar problem position) : Except Error α) := by
  rintro _ ⟨⟩
  exact Blames.grammar

theorem bind {x : Except Error α} {f : α → Except Error β} (hx : Blamed text x)
    (hf : ∀ a, x = .ok a → Blamed text (f a))
    : Blamed text (x >>= f) := by
  cases x with
  | ok a => exact hf a rfl
  | error e =>
    rintro _ ⟨⟩
    exact hx e rfl

theorem mono {text' : List Char} {x : Except Error α} (h : Blamed text x) (hinside : text <:+: text')
    : Blamed text' x := by
  intro e he
  have := h e he
  cases e with
  | token => exact this
  | number => exact HasValueless.mono this hinside
  | grammar => trivial

end Blamed

/-! ### Tags -/

variable {doc : DocLine} {rest fragment : List Char}

theorem blamed_fail {problem : Problem} : Blamed text (doc.fail problem : Except Error α) :=
  .grammar

theorem blamed_parseType (doc : DocLine) (fragment : List Char) : Blamed fragment (doc.parseType fragment) := by
  unfold DocLine.parseType
  split
  · exact .ok _
  next hparse =>
    rintro _ ⟨⟩
    exact Blames.map (TypeExpr.blames_of_parsePrefix hparse)

theorem infix_of_parseType {t : TypeExpr} {after : List Char}
    (h : doc.parseType fragment = .ok (t, after))
    : after <:+: fragment := by
  unfold DocLine.parseType at h
  split at h
  next r hr =>
    cases h
    unfold TypeExpr.parsePrefix at hr
    dsimp only [Bind.bind, Except.bind] at hr
    split at hr
    · cases hr
    · cases hr
      exact (strip_isInfix _).trans (List.drop_suffix _ _).isInfix
  next => cases h

theorem infix_of_splitMember? {name s : List Char} {isOptional : Bool}
    (h : splitMember? rest = some (name, isOptional, s))
    : s <:+: rest := by
  unfold splitMember? at h
  split at h
  · cases h
  next _ after hsplit =>
    obtain ⟨-, rfl⟩ := splitMemberName?_eq_some hsplit
    dsimp only at h
    split at h
    · cases h
      exact (strip_isInfix _).trans ((splitOptional_snd_isSuffix after).isInfix.trans
        (List.suffix_append _ _).isInfix)
    · cases h

theorem blamed_parseField (doc : DocLine) (rest : List Char) : Blamed rest (parseField doc rest) := by
  unfold parseField
  split
  next inner =>
    have hinner : inner <:+: '[' :: inner := (List.suffix_cons _ _).isInfix
    apply Blamed.bind ((blamed_parseType doc inner).mono hinner)
    rintro ⟨key, after⟩ hkey
    have hafter := (infix_of_parseType hkey).trans hinner
    dsimp only
    split
    next after =>
      have htype := (strip_isInfix after).trans ((List.suffix_cons ']' after).isInfix.trans hafter)
      exact .bind ((blamed_parseType doc _).mono htype) fun _ _ => .ok _
    next => exact .grammar
  next =>
    split
    next => exact blamed_fail
    next hsplit =>
      exact .bind ((blamed_parseType doc _).mono (infix_of_splitMember? hsplit)) fun _ _ => .ok _

theorem blamed_parseClass (doc : DocLine) (rest : List Char) : Blamed rest (parseClass doc rest) := by
  unfold parseClass
  dsimp only
  split
  · exact blamed_fail
  · exact .ok _

theorem blamed_parseAlias (doc : DocLine) (rest : List Char) : Blamed rest (parseAlias doc rest) := by
  unfold parseAlias
  dsimp only
  split
  · exact blamed_fail
  · split
    · exact .ok _
    · exact .bind ((blamed_parseType doc _).mono (splitWord_snd_isInfix rest)) fun _ _ => .ok _

theorem blamed_parseAliasMember (doc : DocLine) (rest : List Char)
    : Blamed rest (parseAliasMember doc rest) :=
  .bind (blamed_parseType doc rest) fun _ _ => .ok _

theorem blamed_parseParam (doc : DocLine) (rest : List Char) : Blamed rest (parseParam doc rest) := by
  unfold parseParam
  split
  next => exact blamed_fail
  next hsplit =>
    split
    · exact blamed_fail
    · exact .bind ((blamed_parseType doc _).mono (infix_of_splitMember? hsplit)) fun _ _ => .ok _

theorem blamed_parseReturn (doc : DocLine) (rest : List Char) : Blamed rest (parseReturn doc rest) := by
  unfold parseReturn
  split
  · exact blamed_fail
  · exact .bind (blamed_parseType doc rest) fun _ _ => .ok _

theorem blamed_parseLink (doc : DocLine) (rest : List Char) : Blamed rest (parseLink doc rest) := by
  unfold parseLink
  dsimp only
  split
  · exact blamed_fail
  · exact .ok _

theorem blamed_addTag (a : Annotations) (doc : DocLine) (tag : String) (rest : List Char)
    : Blamed rest (a.addTag doc tag rest) := by
  unfold Annotations.addTag Annotations.addDeclared
  split
  · exact .ok _
  · exact .bind (blamed_parseClass doc rest) fun _ _ => .ok _
  · split
    · exact blamed_fail
    · exact .bind (blamed_parseField doc rest) fun _ _ => .ok _
  · exact .bind (blamed_parseAlias doc rest) fun _ _ => .ok _
  · exact .bind (blamed_parseParam doc rest) fun _ _ => .ok _
  · exact .bind (blamed_parseReturn doc rest) fun _ _ => .ok _
  · exact .ok _
  · exact .ok _
  · exact .ok _
  · exact .bind (blamed_parseLink doc rest) fun _ _ => .ok _
  · exact blamed_fail

/-! ### Blocks -/

theorem blamed_ofDocs {docs : List DocLine} (h : ∀ doc ∈ docs, doc.text <:+: text) (a : Annotations)
    (fenced openAlias : Bool)
    : Blamed text (a.ofDocs fenced openAlias docs) := by
  induction docs generalizing a fenced openAlias with
  | nil => exact .ok a
  | cons doc docs ih =>
    have hdocs := fun a fenced openAlias => ih (fun d hd => h d (List.mem_cons_of_mem doc hd)) a fenced openAlias
    have hdoc := (stripLeft_isSuffix doc.text).isInfix.trans (h doc (by simp))
    unfold Annotations.ofDocs
    dsimp only
    split
    · exact hdocs _ _ _
    · split
      next tagged heq =>
        have htagged : tagged <:+: text := (List.suffix_cons '@' tagged).isInfix.trans (heq ▸ hdoc)
        have htag := fun tag =>
          (blamed_addTag a doc tag _).mono ((splitWord_snd_isInfix tagged).trans htagged)
        split
        next e he =>
          rintro _ ⟨⟩
          exact htag _ e he
        next => exact hdocs _ _ _
      next member heq =>
        have hmember : member <:+: text := (List.suffix_cons '|' member).isInfix.trans (heq ▸ hdoc)
        split
        · have hadd : Blamed text (a.addMember doc (stripLeft member)) :=
            .bind ((blamed_parseAliasMember doc _).mono ((stripLeft_isSuffix member).isInfix.trans hmember))
              fun _ _ => .ok _
          split
          next e he =>
            rintro _ ⟨⟩
            exact hadd e he
          next => exact hdocs _ _ _
        · exact hdocs _ _ _
      next => exact hdocs _ _ _

theorem blamed_addBlock {b : Block} (h : ∀ doc ∈ b.docs, doc.text <:+: text) (f : File)
    : Blamed text (f.addBlock b) := by
  unfold File.addBlock
  apply Blamed.bind (blamed_ofDocs h _ _ _)
  intro a _
  dsimp only
  split
  · exact .ok _
  · exact .grammar
  · exact .ok _
  · split
    · exact .ok _
    · exact .ok _
    · exact .ok _
    · exact .grammar

theorem blamed_addBlocks {bs : List Block} (h : ∀ b ∈ bs, ∀ doc ∈ b.docs, doc.text <:+: text) (f : File)
    : Blamed text (f.addBlocks bs) := by
  induction bs generalizing f with
  | nil => exact .ok f
  | cons b bs ih =>
    have hblock := blamed_addBlock (h b (by simp)) f
    unfold File.addBlocks
    split
    next f' _ => exact ih (fun b hb => h b (List.mem_cons_of_mem _ hb)) f'
    next e he =>
      rintro _ ⟨⟩
      exact hblock e he

theorem ofText_eq_doc {line : Nat} {raw : List Char} {doc : DocLine}
    (h : Block.Line.ofText line raw = .doc doc)
    : doc = DocLine.ofLine line raw := by
  unfold Block.Line.ofText at h
  dsimp only at h
  split at h
  · split at h <;> cases h
  · split at h <;> cases h
    rfl

theorem blamed_parse (source : String) : Blamed source.toList (File.parse source) := by
  have hdocs : ∀ b ∈ (Block.ofLines none [] 1 (lines source.toList)).1, ∀ doc ∈ b.docs,
      doc.text <:+: source.toList := by
    intro b hb
    refine (Block.forall_mem_ofLines (S := fun _ => True) (by simp) ?_ b hb).1
    intro l hl line
    refine ⟨?_, fun _ _ => trivial⟩
    intro doc hdoc
    rw [ofText_eq_doc hdoc]
    exact ((stripRight_isPrefix _).isInfix.trans (List.drop_suffix _ _).isInfix).trans
      (infix_of_mem_lines _ l hl)
  unfold File.parse
  generalize Block.ofLines none [] 1 (lines source.toList) = layout at hdocs
  apply Blamed.bind (blamed_addBlocks hdocs {})
  intro f _
  split
  · exact .grammar
  · exact .ok f

/-! ### Single numerals -/

variable (n : Lexeme.Numeral)

theorem isPhrase_aliasName : IsPhrase ('X' :: ' ' :: n.text) :=
  (isPhrase_singleton rfl).around (u := [' ']) (by decide) n.isWord_text.isPhrase

theorem parseAlias_numeral (doc : DocLine)
    : parseAlias doc ('X' :: ' ' :: n.text)
        = ((TypeExpr.Parser.numberLiteral (String.ofList n.text)).map fun l =>
            { name := "X", base := some (.literal l) }).mapError .number := by
  have hname : splitWord ('X' :: ' ' :: n.text) = (['X'], n.text) :=
    splitWord_append (s := ['X']) (by decide) n.isWord_text.isPhrase.toTrimmed
  have hne : n.text.isEmpty = false := by simpa using n.isWord_text.ne_nil
  unfold parseAlias DocLine.parseType
  rw [hname]
  dsimp only
  rw [if_neg (by decide), hne, if_neg (by decide), TypeExpr.parsePrefix_numeral]
  cases TypeExpr.Parser.numberLiteral (String.ofList n.text) <;> rfl

theorem Annotations.ofDocs_numeral {doc : DocLine} (hdoc : doc.text = ['@'] ++ "alias X ".toList ++ n.text)
    : ofDocs {} false false [doc]
        = ((TypeExpr.Parser.numberLiteral (String.ofList n.text)).map fun l =>
            { aliases := [{ name := "X", base := some (.literal l) }] }).mapError .number := by
  have hleft : stripLeft doc.text = '@' :: ("alias".toList ++ ' ' :: 'X' :: ' ' :: n.text) := by
    rw [hdoc]
    exact stripLeft_of_head (by rintro _ ⟨⟩; rfl)
  have htag := splitWord_append (s := "alias".toList) (by decide) (isPhrase_aliasName n).toTrimmed
  rw [ofDocs_tag hleft, htag]
  dsimp only
  rw [String.ofList_toList, addTag]
  unfold addDeclared
  rw [parseAlias_numeral]
  cases TypeExpr.Parser.numberLiteral (String.ofList n.text) <;> rfl

theorem parse_numeral
    : File.parse ("--- @alias X " ++ String.ofList n.text ++ "\n")
        = ((TypeExpr.Parser.numberLiteral (String.ofList n.text)).map fun l =>
            { aliases := [{ name := "X", base := some (.literal l) }] }).mapError .number := by
  let line := ['@'] ++ "alias X ".toList ++ n.text
  have hline : IsPhrase line :=
    (isPhrase_singleton rfl).around (by decide) n.isWord_text.isPhrase
  have hsource : ("--- @alias X " ++ String.ofList n.text ++ "\n").toList = endLines ([line].map docLine) := by
    simp [line, docLine, endLines]
  have hlines : lines (endLines ([line].map docLine)) = [line].map docLine := by
    apply lines_endLines
    intro l hl
    obtain rfl := List.mem_singleton.1 hl
    exact Written.oneLine_docLine hline.oneLine
  have hright : ∀ text ∈ [line], stripRight text = text := by
    simpa using hline.stripRight_eq
  obtain ⟨docs, hdocs, hblocks⟩ := @Block.ofLines_docs [] [] 1 _ hright
  obtain ⟨doc, rfl, hdoc⟩ := List.map_eq_singleton_iff.1 hdocs
  rw [List.append_nil, List.nil_append] at hblocks
  unfold File.parse
  rw [hsource, hlines, hblocks]
  change (File.addBlocks {} [⟨[doc], none, 2⟩] >>= _) = _
  rw [File.addBlocks, File.addBlock, Annotations.ofDocs_numeral n hdoc]
  cases TypeExpr.Parser.numberLiteral (String.ofList n.text) <;> rfl

end Declaration

end LuaTypes
