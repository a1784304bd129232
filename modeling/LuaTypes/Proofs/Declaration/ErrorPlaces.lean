import LuaTypes.Proofs.Declaration.Paragraphs
import LuaTypes.Proofs.Declaration.Placement
import LuaTypes.Proofs.Text.Occurrence
import LuaTypes.Proofs.TypeExpr.Rejection

/-!
Where a source cannot be read because of a type, the error names the line and the lexeme there with which no type
goes on. The column is that of the lexeme just if the text of the type does not occur earlier on the line, since the
first occurrence counts.
-/

namespace LuaTypes

open Text

/-! ### Ends of texts -/

namespace Text

def TrimmedRight (s : List Char) : Prop :=
  ∀ c ∈ s.getLast?, isBlank c = false

variable {s t : List Char}

theorem TrimmedRight.of_suffix (hs : TrimmedRight s) (h : t <:+ s) : TrimmedRight t := by
  obtain ⟨u, rfl⟩ := h
  intro c hc
  apply hs c
  rw [List.getLast?_append, Option.mem_def.1 hc]
  rfl

theorem TrimmedRight.strip_suffix (hs : TrimmedRight s) : strip s <:+ s := by
  rw [strip, stripRight_of_last (hs.of_suffix (stripLeft_isSuffix s))]
  exact stripLeft_isSuffix s

theorem TrimmedRight.splitWord_suffix (hs : TrimmedRight s) : (splitWord s).2 <:+ s := by
  have hdrop : (stripLeft s).dropWhile (! isBlank ·) <:+ s :=
    (List.dropWhile_suffix _).trans (stripLeft_isSuffix s)
  exact (hs.of_suffix hdrop).strip_suffix.trans hdrop

end Text

/-! ### Lexemes of a text -/

def Lexeme.ofHead : List Char → Lexeme
  | [] => .endOfText
  | c :: cs => (read c cs).1

theorem Token.exists_of_mem_scanFrom {skip offset : Nat} {text : List Char} {t : Token}
    (h : t ∈ scanFrom skip offset text)
    : ∃ before after, text = before ++ after ∧ t.offset = offset + before.length ∧ t.lexeme = .ofHead after := by
  induction text generalizing skip offset with
  | nil =>
    obtain rfl := List.mem_singleton.1 h
    exact ⟨[], [], rfl, rfl, rfl⟩
  | cons c cs ih =>
    have hrest : ∀ {skip}, t ∈ scanFrom skip (offset + 1) cs →
        ∃ before after, c :: cs = before ++ after ∧ t.offset = offset + before.length ∧ t.lexeme = .ofHead after := by
      intro skip h
      obtain ⟨before, after, rfl, hoffset, hlexeme⟩ := ih h
      exact ⟨c :: before, after, rfl, by rw [hoffset, List.length_cons]; omega, hlexeme⟩
    cases skip with
    | succ skip => exact hrest h
    | zero =>
      rw [scanFrom] at h
      split at h
      · exact hrest h
      · obtain rfl | h := List.mem_cons.1 h
        · exact ⟨[], c :: cs, rfl, rfl, rfl⟩
        · exact hrest h

namespace Declaration

/-! ### Texts of types -/

theorem splitMember?_suffix {s name text : List Char} {optional : Bool} (hs : TrimmedRight s)
    (h : splitMember? s = some (name, optional, text))
    : text <:+ s := by
  unfold splitMember? at h
  split at h
  next => cases h
  next name' rest hname =>
    have hrest : rest <:+ s := by
      unfold splitMemberName? at hname
      split at hname
      next rest' =>
        cases hname
        exact List.suffix_append ['.', '.', '.'] _
      next =>
        unfold splitName? at hname
        split at hname
        next => cases hname
        next =>
          split at hname
          · cases hname
            exact (List.dropWhile_suffix _).trans (List.suffix_cons _ _)
          · cases hname
    have hmark : (splitOptional rest).2 <:+ rest := by
      unfold splitOptional
      split
      · exact List.suffix_cons _ _
      · exact List.suffix_refl _
    dsimp only at h
    split at h
    · cases h
      have hsuffix := hmark.trans hrest
      exact (hs.of_suffix hsuffix).strip_suffix.trans hsuffix
    · cases h

/--
Does a type stand at the start of the text, for a line in the role? With a key, a field has two types.
-/
inductive Role.HasType : Role → List Char → Prop where
  | member {text} : HasType (.member text) text
  | param {text name optional fragment} : splitMember? text = some (name, optional, fragment) → fragment ≠ [] →
      HasType (.tag "param" text) fragment
  | returned {text} : text ≠ [] → HasType (.tag "return" text) text
  | aliased {text} : (splitWord text).1 ≠ [] → (splitWord text).2 ≠ [] → HasType (.tag "alias" text) (splitWord text).2
  | field {text name optional fragment} : text.head? ≠ some '[' →
      splitMember? text = some (name, optional, fragment) → HasType (.tag "field" text) fragment
  | key {inner} : HasType (.tag "field" ('[' :: inner)) inner
  | value {inner key after} : TypeExpr.parsePrefix inner {} = .ok (key, ']' :: after) →
      HasType (.tag "field" ('[' :: inner)) (strip after)

theorem parsePrefix_suffix {text rest : List Char} {origin : Position} {t : TypeExpr} (hs : TrimmedRight text)
    (h : TypeExpr.parsePrefix text origin = .ok (t, rest))
    : rest <:+ text := by
  unfold TypeExpr.parsePrefix at h
  obtain ⟨⟨u, left⟩, -, hr⟩ := bind_eq_ok_iff.1 h
  cases hr
  exact (hs.of_suffix (List.drop_suffix _ _)).strip_suffix.trans (List.drop_suffix _ _)

def Role.text? : Role → Option (List Char)
  | .tag _ text => some text
  | .member text => some text
  | .prose => none

theorem Role.text?_suffix {text : List Char} (hs : TrimmedRight text) (fenced openAlias : Bool)
    : ∀ rest ∈ (ofText fenced openAlias text).text?, rest <:+ text := by
  have hleft := stripLeft_isSuffix text
  unfold ofText
  split
  · rintro _ ⟨⟩
  · split
    next line heq =>
      have hline := (heq ▸ List.suffix_cons '@' line : line <:+ stripLeft text).trans hleft
      rintro _ ⟨⟩
      exact (hs.of_suffix hline).splitWord_suffix.trans hline
    next line heq =>
      have hline := (heq ▸ List.suffix_cons '|' line : line <:+ stripLeft text).trans hleft
      split
      · rintro _ ⟨⟩
        exact (stripLeft_isSuffix line).trans hline
      · rintro _ ⟨⟩
    next => rintro _ ⟨⟩

theorem Role.HasType.exists_suffix {role : Role} {fragment : List Char} (h : role.HasType fragment)
    : ∃ text ∈ role.text?, TrimmedRight text → fragment <:+ text := by
  cases h with
  | member => exact ⟨fragment, rfl, fun _ => List.suffix_refl fragment⟩
  | param hsplit => exact ⟨_, rfl, fun hs => splitMember?_suffix hs hsplit⟩
  | returned => exact ⟨fragment, rfl, fun _ => List.suffix_refl fragment⟩
  | aliased => exact ⟨_, rfl, TrimmedRight.splitWord_suffix⟩
  | field _ hsplit => exact ⟨_, rfl, fun hs => splitMember?_suffix hs hsplit⟩
  | key => exact ⟨_, rfl, fun _ => List.suffix_cons '[' fragment⟩
  | @value inner key after hkey =>
    refine ⟨_, rfl, fun hs => ?_⟩
    have hinner := List.suffix_cons '[' inner
    have hafter := (List.suffix_cons ']' after).trans ((parsePrefix_suffix (hs.of_suffix hinner) hkey).trans hinner)
    exact (hs.of_suffix hafter).strip_suffix.trans hafter

theorem Role.HasType.suffix {fragment text : List Char} {fenced openAlias : Bool}
    (h : (Role.ofText fenced openAlias text).HasType fragment) (hs : TrimmedRight text)
    : fragment <:+ text := by
  obtain ⟨rest, hrest, hsuffix⟩ := h.exists_suffix
  have hrest := Role.text?_suffix hs fenced openAlias rest hrest
  exact (hsuffix (hs.of_suffix hrest)).trans hrest

/-! ### Errors of lines -/

section

variable {doc : DocLine} {rest fragment : List Char} {problem : TypeExpr.Problem} {position : Position}

theorem parsePrefix_of_parseType_error (h : doc.parseType fragment = .error (.grammar (.type problem) position))
    : TypeExpr.parsePrefix fragment (doc.positionOf fragment) = .error (.grammar problem position) := by
  unfold DocLine.parseType at h
  split at h
  next => cases h
  next e he =>
    rw [he]
    cases e <;> cases h
    rfl

theorem parsePrefix_of_parseType {r : TypeExpr × List Char} (h : doc.parseType fragment = .ok r)
    : TypeExpr.parsePrefix fragment {} = .ok r := by
  unfold DocLine.parseType at h
  split at h
  next r' hr =>
    cases h
    exact TypeExpr.parsePrefix_of_ok hr {}
  next => cases h

def Blames (doc : DocLine) (role : Role) (problem : TypeExpr.Problem) (position : Position) : Prop :=
  ∃ fragment, role.HasType fragment ∧ doc.parseType fragment = .error (.grammar (.type problem) position)

theorem blames_of_parseAliasMember (h : parseAliasMember doc rest = .error (.grammar (.type problem) position))
    : Blames doc (.member rest) problem position :=
  ⟨rest, .member, eq_error_of_bind_pure h⟩

theorem blames_of_parseParam (h : parseParam doc rest = .error (.grammar (.type problem) position))
    : Blames doc (.tag "param" rest) problem position := by
  unfold parseParam at h
  split at h
  next => cases h
  next hsplit =>
    split at h
    next => cases h
    next hne => exact ⟨_, .param hsplit (by simpa using hne), eq_error_of_bind_pure h⟩

theorem blames_of_parseReturn (h : parseReturn doc rest = .error (.grammar (.type problem) position))
    : Blames doc (.tag "return" rest) problem position := by
  unfold parseReturn at h
  split at h
  next => cases h
  next hne => exact ⟨rest, .returned (by simpa using hne), eq_error_of_bind_pure h⟩

theorem blames_of_parseAlias (h : parseAlias doc rest = .error (.grammar (.type problem) position))
    : Blames doc (.tag "alias" rest) problem position := by
  unfold parseAlias at h
  dsimp only at h
  split at h
  next => cases h
  next hname =>
    split at h
    next => cases h
    next hne => exact ⟨_, .aliased (by simpa using hname) (by simpa using hne), eq_error_of_bind_pure h⟩

theorem blames_of_parseField (h : parseField doc rest = .error (.grammar (.type problem) position))
    : Blames doc (.tag "field" rest) problem position := by
  unfold parseField at h
  split at h
  next inner =>
    obtain h | ⟨⟨key, after⟩, hkey, h⟩ := bind_eq_error_iff.1 h
    · exact ⟨inner, .key, h⟩
    · dsimp only at h
      split at h
      next after => exact ⟨_, .value (parsePrefix_of_parseType hkey), eq_error_of_bind_pure h⟩
      next => cases h
  next hbracket =>
    split at h
    next => cases h
    next hsplit =>
      refine ⟨_, .field ?_ hsplit, eq_error_of_bind_pure h⟩
      intro hhead
      obtain ⟨inner, rfl⟩ := List.head?_eq_some_iff.1 hhead
      exact hbracket inner rfl

theorem blames_of_addTag {a : Annotations} {word : String}
    (h : a.addTag doc word rest = .error (.grammar (.type problem) position))
    : Blames doc (.tag word rest) problem position := by
  unfold Annotations.addTag Annotations.addDeclared at h
  split at h
  next => cases h
  next =>
    have hclass := eq_error_of_bind_pure h
    unfold parseClass at hclass
    dsimp only at hclass
    split at hclass <;> cases hclass
  next =>
    split at h
    · cases h
    · exact blames_of_parseField (eq_error_of_bind_pure h)
  next => exact blames_of_parseAlias (eq_error_of_bind_pure h)
  next => exact blames_of_parseParam (eq_error_of_bind_pure h)
  next => exact blames_of_parseReturn (eq_error_of_bind_pure h)
  next => cases h
  next => cases h
  next => cases h
  next =>
    have hlink := eq_error_of_bind_pure h
    unfold parseLink at hlink
    dsimp only at hlink
    split at hlink <;> cases hlink
  next => cases h

theorem blames_of_add {a : Annotations} {e : Entry} (h : a.add e = .error (.grammar (.type problem) position))
    : Blames e.doc e.role problem position := by
  obtain ⟨doc, role⟩ := e
  cases role with
  | tag word text => exact blames_of_addTag h
  | member text => exact blames_of_parseAliasMember (eq_error_of_bind_pure h)
  | prose => cases h

end

/-! ### Errors of files -/

theorem Entry.mem_ofDocs {e : Entry} {fenced openAlias : Bool} {docs : List DocLine}
    (h : e ∈ ofDocs fenced openAlias docs)
    : e.doc ∈ docs ∧ ∃ fenced openAlias, e.role = Role.ofText fenced openAlias e.doc.text := by
  induction docs generalizing fenced openAlias with
  | nil => cases h
  | cons doc docs ih =>
    obtain rfl | h := List.mem_cons.1 h
    · exact ⟨List.mem_cons_self, _, _, rfl⟩
    · exact ⟨List.mem_cons_of_mem doc (ih h).1, (ih h).2⟩

theorem Annotations.exists_add_of_foldlM {a : Annotations} {es : List Entry} {error : Error}
    (h : es.foldlM add a = .error error)
    : ∃ e ∈ es, ∃ b : Annotations, b.add e = .error error := by
  induction es generalizing a with
  | nil => cases h
  | cons e es ih =>
    rw [List.foldlM_cons] at h
    obtain h | ⟨b, -, h⟩ := bind_eq_error_iff.1 h
    · exact ⟨e, List.mem_cons_self, a, h⟩
    · obtain ⟨e', he', hadd⟩ := ih h
      exact ⟨e', List.mem_cons_of_mem e he', hadd⟩

namespace File

variable {f : File} {problem : TypeExpr.Problem} {position : Position}

theorem exists_blames_of_addBlock {b : Block} (h : f.addBlock b = .error (.grammar (.type problem) position))
    : ∃ e ∈ Entry.ofDocs false false b.docs, Blames e.doc e.role problem position := by
  unfold addBlock at h
  obtain h | ⟨a, -, h⟩ := bind_eq_error_iff.1 h
  · rw [Annotations.ofDocs_eq_foldlM] at h
    obtain ⟨e, he, _, hadd⟩ := Annotations.exists_add_of_foldlM h
    exact ⟨e, he, blames_of_add hadd⟩
  · dsimp only at h
    split at h
    · cases h
    · cases h
    · cases h
    · split at h <;> cases h

theorem exists_blames_of_addBlocks {bs : List Block} (h : f.addBlocks bs = .error (.grammar (.type problem) position))
    : ∃ b ∈ bs, ∃ e ∈ Entry.ofDocs false false b.docs, Blames e.doc e.role problem position := by
  induction bs generalizing f with
  | nil => cases h
  | cons b bs ih =>
    rw [addBlocks_cons] at h
    obtain h | ⟨g, -, h⟩ := bind_eq_error_iff.1 h
    · exact ⟨b, List.mem_cons_self, exists_blames_of_addBlock h⟩
    · obtain ⟨b', hb', hblames⟩ := ih h
      exact ⟨b', List.mem_cons_of_mem b hb', hblames⟩

theorem exists_blames_of_parse {source : String} (h : parse source = .error (.grammar (.type problem) position))
    : ∃ p ∈ Paragraph.ofSource source, ∃ e ∈ Entry.ofDocs false false p.block.docs,
        Blames e.doc e.role problem position := by
  obtain ⟨ps, qs, hsource, hdeclare⟩ | ⟨_, hcomment⟩ := exists_declare_of_parse_error h
  · obtain ⟨b, hb, hblames⟩ := exists_blames_of_addBlocks hdeclare
    obtain ⟨p, hp, rfl⟩ := List.mem_map.1 hb
    exact ⟨p, by rw [hsource, List.mem_append]; exact .inl hp, hblames⟩
  · cases hcomment

end File

/-! ### Places -/

theorem getElem?_of_mem_outsideLines {closing : Option (List Char)} {number : Nat} {ls : List (List Char)}
    {l : SourceLine} (h : l ∈ outsideLines closing number ls)
    : number ≤ l.number ∧ ls[l.number - number]? = some l.raw := by
  induction ls generalizing closing number with
  | nil => cases h
  | cons raw ls ih =>
    have hrest : ∀ {closing}, l ∈ outsideLines closing (number + 1) ls →
        number ≤ l.number ∧ (raw :: ls)[l.number - number]? = some l.raw := by
      intro closing h
      obtain ⟨hle, hget⟩ := ih h
      refine ⟨by omega, ?_⟩
      rw [show l.number - number = l.number - (number + 1) + 1 by omega, List.getElem?_cons_succ]
      exact hget
    rw [outsideLines] at h
    split at h
    · obtain rfl | h := List.mem_cons.1 h
      · exact ⟨Nat.le_refl _, by simp⟩
      · exact hrest h
    · exact hrest h

theorem Paragraph.mem_of_mem_docs {ls : List SourceLine} {p : Paragraph} {l : SourceLine} (hp : p ∈ ofLines ls)
    (hl : l ∈ p.docs)
    : l ∈ ls := by
  induction ls generalizing p with
  | nil =>
    rw [ofLines, List.mem_singleton] at hp
    rw [hp] at hl
    exact hl
  | cons m ls ih =>
    have hrest : ∀ {q : Paragraph}, q ∈ ofLines ls → l ∈ q.docs → l ∈ m :: ls :=
      fun hq hl => List.mem_cons_of_mem m (ih hq hl)
    rw [ofLines] at hp
    split at hp
    · obtain ⟨q, qs, hqs⟩ := List.exists_cons_of_ne_nil (ofLines_ne_nil ls)
      rw [hqs, prepend] at hp
      obtain rfl | hp := List.mem_cons.1 hp
      · obtain rfl | hl := List.mem_cons.1 hl
        · exact List.mem_cons_self
        · exact hrest (hqs ▸ List.mem_cons_self) hl
      · exact hrest (hqs ▸ List.mem_cons_of_mem q hp) hl
    · split at hp
      · exact hrest hp hl
      · obtain rfl | hp := List.mem_cons.1 hp
        · cases hl
        · exact hrest hp hl

theorem SourceLine.exists_dashes {l : SourceLine} (h : l.doc.text ≠ [])
    : ∃ dashes, stripRight l.raw = dashes ++ l.doc.text ∧ l.doc.position = ⟨l.number, dashes.length + 1⟩ := by
  unfold doc DocLine.ofLine at h ⊢
  dsimp only at h ⊢
  generalize (if (l.raw.drop ((l.raw.takeWhile isBlank).length + 3)).head? = some ' '
    then (l.raw.takeWhile isBlank).length + 3 + 1 else (l.raw.takeWhile isBlank).length + 3) = start at h ⊢
  have hlt : start < l.raw.length := by
    by_contra hle
    rw [List.drop_eq_nil_of_le (by omega)] at h
    exact h rfl
  refine ⟨l.raw.take start, ?_, ?_⟩
  · rw [← stripRight_append h, List.take_append_drop]
  · rw [List.length_take, Nat.min_eq_left (by omega)]

theorem DocLine.line_positionOf (doc : DocLine) (fragment : List Char)
    : (doc.positionOf fragment).line = doc.position.line := by
  unfold positionOf
  split <;> rfl

theorem DocLine.column_positionOf {doc : DocLine} {u fragment : List Char} (h : doc.text = u ++ fragment)
    : (doc.positionOf fragment).column = doc.position.column + u.length ↔
        fragment ≠ [] → ∀ v w, doc.text = v ++ (fragment ++ w) → w = [] := by
  by_cases hempty : fragment = []
  · subst hempty
    rw [List.append_nil] at h
    simp [positionOf, Position.shift, h]
  · obtain ⟨n, hn⟩ := Option.isSome_iff_exists.1 (indexOf?_isSome_iff.2 ⟨u, [], List.append_nil (u ++ fragment)⟩)
    rw [forall_prop_of_true hempty, h, ← indexOf?_eq_length_iff hn hempty]
    have hposition : doc.positionOf fragment = doc.position.shift n := by
      rw [positionOf, if_neg (by simpa using hempty), h, hn]
      rfl
    simp only [hposition, Position.shift]
    omega

/--
A place in a source at which a type cannot be read: a line, the text on it that starts with the type, and what stands
on the line before and behind the place, without the blanks at its end. What stands behind starts with the first
lexeme with which no type goes on; if nothing stands there, the type ends too early.
-/
structure Misfit (source : String) (l : SourceLine) (fragment before after : List Char) : Prop where
  line : 1 ≤ l.number ∧ (lines source.toList)[l.number - 1]? = some l.raw
  type : ∃ p ∈ Paragraph.ofSource source, l ∈ p.docs ∧
    ∃ role, ⟨l.doc, role⟩ ∈ Entry.ofDocs false false p.block.docs ∧ role.HasType fragment
  raw : stripRight l.raw = before ++ after
  token : ∃ taken t, TypeExpr.FirstMisfit (Token.scan fragment) taken t ∧ after = fragment.drop t.offset

/--
An error in a type names the line, and the lexeme with which no type goes on. Its column is that of the lexeme, or one
past the end of the line if there is none, just if the text of the type occurs nowhere before on the line.
-/
theorem File.exists_misfit_of_parse {source : String} {problem : TypeExpr.Problem} {position : Position}
    (h : parse source = .error (.grammar (.type problem) position))
    : ∃ l fragment before after, Misfit source l fragment before after ∧ position.line = l.number ∧
        problem.found = .ofHead after ∧
        (position.column = before.length + 1 ↔
          fragment ≠ [] → ∀ u v, l.doc.text = u ++ (fragment ++ v) → v = []) := by
  obtain ⟨p, hp, ⟨doc, role⟩, he, fragment, htype, hparse⟩ := exists_blames_of_parse h
  obtain ⟨hdoc, fenced, openAlias, hrole⟩ := Entry.mem_ofDocs he
  obtain ⟨l, hl, rfl⟩ := List.mem_map.1 hdoc
  dsimp only at htype hparse hrole
  obtain ⟨taken, t, hmisfit, hfound, rfl⟩ := TypeExpr.exists_firstMisfit (parsePrefix_of_parseType_error hparse)
  obtain ⟨rest, hrest⟩ := hmisfit.split
  obtain ⟨pre, after, rfl, hoffset, hlexeme⟩ :=
    Token.exists_of_mem_scanFrom (hrest ▸ by simp : t ∈ Token.scan fragment)
  obtain ⟨u, hu⟩ := (hrole ▸ htype).suffix (last_stripRight _)
  have hne : l.doc.text ≠ [] := by
    intro hnil
    have hprose : role = .prose := by
      rw [hrole, hnil]
      cases fenced <;> rfl
    rw [hprose] at htype
    cases htype
  obtain ⟨dashes, hraw, hposition⟩ := SourceLine.exists_dashes hne
  have hbefore : stripRight l.raw = (dashes ++ u ++ pre) ++ after := by
    rw [hraw, ← hu]
    simp
  have hcolumn := DocLine.column_positionOf hu.symm
  refine ⟨l, pre ++ after, dashes ++ u ++ pre, after, ⟨?line, ?type, hbefore, ?token⟩, ?_, ?_, ?_⟩
  case line => exact getElem?_of_mem_outsideLines (Paragraph.mem_of_mem_docs hp hl)
  case type => exact ⟨p, hp, hl, role, he, htype⟩
  case token => exact ⟨taken, t, hmisfit, by rw [hoffset, Nat.zero_add, List.drop_left]⟩
  · exact (DocLine.line_positionOf _ _).trans (congrArg Position.line hposition)
  · exact hfound.trans hlexeme
  · rw [← hcolumn, hposition]
    simp only [Position.shift, List.length_append, hoffset]
    omega

/-! ### A parameter that is optional -/

namespace File

def optionalText : String :=
  "--- @param s? ?\n"

theorem parse_optionalText
    : parse optionalText = .error (.grammar (.type (.expectedType (.symbol .question))) ⟨1, 13⟩) := by
  decide +kernel

theorem exists_misfit_of_parse_optional
    : ∃ problem position, parse optionalText = .error (.grammar (.type problem) position) ∧
        ∃ l fragment before after, Misfit optionalText l fragment before after ∧ position.line = l.number ∧
          problem.found = .ofHead after ∧
          (position.column = before.length + 1 ↔
            fragment ≠ [] → ∀ u v, l.doc.text = u ++ (fragment ++ v) → v = []) :=
  ⟨_, _, parse_optionalText, exists_misfit_of_parse parse_optionalText⟩

theorem not_column_optional
    : ∃ problem position, parse optionalText = .error (.grammar (.type problem) position) ∧
        ¬ ∃ l fragment before after, Misfit optionalText l fragment before after ∧ position.line = l.number ∧
          position.column = before.length + 1 := by
  refine ⟨_, _, parse_optionalText, ?_⟩
  rintro ⟨l, fragment, before, after, ⟨-, ⟨p, hp, hl, role, he, htype⟩, hraw, taken, t, hmisfit, rfl⟩, -, hcolumn⟩
  have hsource : Paragraph.ofSource optionalText = [⟨[⟨1, "--- @param s? ?".toList⟩], none⟩] := rfl
  rw [hsource, List.mem_singleton] at hp
  subst hp
  obtain rfl := List.mem_singleton.1 hl
  have hrole : role = .tag "param" "s? ?".toList := congrArg Entry.role (List.mem_singleton.1 he)
  have hsplit : splitMember? "s? ?".toList = some (['s'], true, ['?']) := by decide
  obtain rfl : fragment = ['?'] := by
    cases htype with
    | param h =>
      cases hrole
      rw [hsplit] at h
      cases h
      rfl
    | _ => simp at hrole
  have hscan : Token.scan ['?'] = [⟨.symbol .question, 0⟩, ⟨.endOfText, 1⟩] := rfl
  obtain ⟨rest, hrest⟩ := hmisfit.split
  rw [hscan] at hrest
  cases taken with
  | nil =>
    obtain rfl : ⟨.symbol .question, 0⟩ = t := (List.cons.inj hrest).1
    have hlength : before.length = 14 := by
      have := congrArg List.length hraw
      rw [List.length_append] at this
      exact Nat.add_right_cancel this.symm
    rw [hlength] at hcolumn
    cases hcolumn
  | cons q taken =>
    obtain rfl : ⟨.symbol .question, 0⟩ = q := (List.cons.inj hrest).1
    obtain ⟨w, u, hw, z, rfl⟩ := hmisfit.viable
    obtain ⟨_, _, hlead, hl⟩ := hw.leading
    cases hlead
    cases hl

end File

end Declaration

end LuaTypes
