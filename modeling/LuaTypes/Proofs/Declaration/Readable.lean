import Mathlib.Data.List.Basic
import LuaTypes.Declaration.Parser
import LuaTypes.Proofs.Text.Phrase
import LuaTypes.Proofs.TypeExpr.Grammar

/-!
What a file can hold that has been read from a text: names without blanks, descriptions that stand on
lines, and types of the grammar. No part of it spans two lines except prose.
-/

namespace LuaTypes.Declaration

open Text

/--
A line feed is the only end of a line that a string on one line can hold.
-/
def InLine (c : Char) : Prop :=
  isLineBreak c = true → c = '\n'

abbrev IsType (t : TypeExpr) : Prop :=
  t.Grammatical InLine

/-! ### Prose -/

def proseOf (description : String) : List (List Char) :=
  splitAtEach '\n' description.toList

def isFenceLine (line : List Char) : Bool :=
  ['\x60', '\x60', '\x60'].isPrefixOf (stripLeft line)

def fenceAfter (fenced : Bool) : List (List Char) → Bool
  | [] => fenced
  | line :: lines => fenceAfter (fenced != isFenceLine line) lines

def NoTags (fenced : Bool) : List (List Char) → Prop
  | [] => True
  | line :: lines =>
    let fenced := fenced != isFenceLine line
    (fenced = false → (stripLeft line).head? ≠ some '@') ∧ NoTags fenced lines

instance decidableNoTags : (fenced : Bool) → (lines : List (List Char)) → Decidable (NoTags fenced lines)
  | _, [] => inferInstanceAs (Decidable True)
  | fenced, line :: lines =>
    have := decidableNoTags (fenced != isFenceLine line) lines
    inferInstanceAs (Decidable (((fenced != isFenceLine line) = false → (stripLeft line).head? ≠ some '@') ∧
      NoTags (fenced != isFenceLine line) lines))

structure IsProse (lines : List (List Char)) : Prop where
  ne_nil : lines ≠ []
  head : lines.head? ≠ some []
  last : lines.getLast? ≠ some []
  oneLine : ∀ line ∈ lines, OneLine line
  stripped : ∀ line ∈ lines, stripRight line = line

/-! ### Names -/

structure IsDottedName (name : List Char) : Prop where
  head : ∃ c cs, name = c :: cs ∧ isIdentifierStart c = true
  tail : ∀ c ∈ name.tail, inDottedName c = true

def IsMemberName (name : List Char) : Prop :=
  name = ['.', '.', '.'] ∨ IsDottedName name

structure IsFunctionName (name : List Char) : Prop where
  head : ∃ c cs, name = c :: cs ∧ isIdentifierStart c = true
  tail : ∀ c ∈ name.tail, inFunctionName c = true

/-! ### Declarations -/

def IsDescription (description : Option String) : Prop :=
  ∀ d, description = some d → IsPhrase d.toList

structure Field.Readable (f : Field) : Prop where
  keyed : (f.key = none ∧ ∃ name, f.name = some name ∧ IsMemberName name.toList) ∨
    ((∃ key, f.key = some key ∧ IsType key) ∧ f.name = none ∧ f.optional = false)
  type : IsType f.type
  description : IsDescription f.description

structure ClassType.Readable (c : ClassType) : Prop where
  name : IsWord c.name.toList
  no_colon : ':' ∉ c.name.toList
  parents : ∀ p ∈ c.parents, IsPhrase p.toList ∧ ',' ∉ p.toList ∧ '#' ∉ p.toList
  description : ∀ d, c.description = some d → IsProse (proseOf d) ∧ NoTags false (proseOf d)
  fields : ∀ f ∈ c.fields, f.Readable

structure AliasMember.Readable (m : AliasMember) : Prop where
  type : IsType m.type
  description : IsDescription m.description

structure Alias.Readable (a : Alias) : Prop where
  name : IsWord a.name.toList
  base : ∀ t, a.base = some t → IsType t
  members : ∀ m ∈ a.members, m.Readable
  description : ∀ d, a.description = some d → IsProse (proseOf d)

structure Param.Readable (p : Param) : Prop where
  name : IsMemberName p.name.toList
  type : IsType p.type
  description : IsDescription p.description

structure Return.Readable (r : Return) : Prop where
  type : IsType r.type
  name : ∀ name, r.name = some name → isIdentifier name.toList = true ∧ r.variadic = false
  description : IsDescription r.description

structure Link.Readable (l : Link) : Prop where
  target : IsWord l.target.toList
  description : IsDescription l.description

structure Function.Readable (f : Function) : Prop where
  name : ∃ full, IsFunctionName full ∧ splitFunctionName full = (f.owner, f.name, f.isMethod)
  signature : ∀ p ∈ f.signature, IsPhrase p.toList ∧ ',' ∉ p.toList ∧ ')' ∉ p.toList
  params : ∀ p ∈ f.params, p.Readable
  returns : ∀ r ∈ f.returns, r.Readable
  links : ∀ l ∈ f.links, l.Readable
  description : ∀ d, f.description = some d → IsProse (proseOf d) ∧ NoTags false (proseOf d)
  deprecationReason : IsDescription f.deprecationReason
  deprecated : f.deprecated = false → f.deprecationReason = none

structure File.Readable (f : File) : Prop where
  marker : ∀ text, f.marker = some text → Trimmed text.toList ∧ OneLine text.toList
  namespaces : ∀ ns ∈ f.namespaces, IsDottedName ns.name.toList
  classNames : ∀ ns ∈ f.namespaces, ∀ name, ns.className = some name → ∃ c ∈ f.classes, c.name = name
  classes : ∀ c ∈ f.classes, c.Readable
  aliases : ∀ a ∈ f.aliases, a.Readable
  functions : ∀ fn ∈ f.functions, fn.Readable
  moduleReturn : ∀ name, f.moduleReturn = some name → IsDottedName name.toList

/-! ### Lines -/

structure DocLine.IsRead (doc : DocLine) : Prop where
  oneLine : OneLine doc.text
  stripped : stripRight doc.text = doc.text

theorem DocLine.isRead_ofLine (line : Nat) {raw : List Char} (h : OneLine raw)
    : (DocLine.ofLine line raw).IsRead := by
  constructor
  · exact h.sublist ((stripRight_sublist _).trans (List.drop_sublist _ _))
  · exact stripRight_of_last (last_stripRight _)

structure Block.IsRead (b : Block) : Prop where
  docs : ∀ doc ∈ b.docs, doc.IsRead
  statement : ∀ s, b.statement = some s → OneLine s

theorem Block.Line.isRead_ofText (line : Nat) {raw : List Char} (h : OneLine raw)
    : (∀ doc, Line.ofText line raw = .doc doc → doc.IsRead) ∧
        ∀ s, Line.ofText line raw = .statement s → OneLine s := by
  unfold Line.ofText
  dsimp only
  split
  · split <;> simp
  · split
    · simp
    · constructor
      · rintro doc ⟨⟩
        exact DocLine.isRead_ofLine line h
      · simp
    · simp
    · constructor
      · simp
      · rintro s ⟨⟩
        exact h.sublist (strip_sublist raw)

theorem Block.forall_mem_ofLines {Q : DocLine → Prop} {S : List Char → Prop} {comment : Option OpenComment}
    {pending : List DocLine} {line : Nat} {ls : List (List Char)} (hpending : ∀ doc ∈ pending, Q doc)
    (hls : ∀ l ∈ ls, ∀ line, (∀ doc, Line.ofText line l = .doc doc → Q doc) ∧
      ∀ s, Line.ofText line l = .statement s → S s)
    : ∀ b ∈ (ofLines comment pending line ls).1,
        (∀ doc ∈ b.docs, Q doc) ∧ ∀ s, b.statement = some s → S s := by
  induction ls generalizing comment pending line with
  | nil =>
    unfold ofLines
    split
    · simp
    · split
      · simp
      · simpa using hpending
  | cons raw rest ih =>
    have hrest := fun l hl => hls l (List.mem_cons_of_mem raw hl)
    have hline := hls raw (by simp) line
    unfold ofLines
    split
    · exact ih hpending hrest
    · split
      next doc hdoc =>
        apply ih _ hrest
        intro d hd
        rw [List.mem_append, List.mem_singleton] at hd
        cases hd with
        | inl hd => exact hpending d hd
        | inr hd => exact hd ▸ hline.1 doc hdoc
      next => exact ih hpending hrest
      next => exact ih hpending hrest
      next =>
        have hblocks := @ih none [] (line + 1) (by simp) hrest
        dsimp only
        split
        · exact hblocks
        · intro b hb
          rw [List.mem_cons] at hb
          cases hb with
          | inl hb => exact hb ▸ ⟨hpending, by simp⟩
          | inr hb => exact hblocks b hb
      next s hs =>
        have hblocks := @ih none [] (line + 1) (by simp) hrest
        intro b hb
        rw [List.mem_cons] at hb
        cases hb with
        | inl hb =>
          rw [hb]
          refine ⟨hpending, ?_⟩
          rintro _ ⟨⟩
          exact hline.2 s hs
        | inr hb => exact hblocks b hb

theorem Block.isRead_of_mem_ofLines {comment : Option OpenComment} {pending : List DocLine} {line : Nat}
    {ls : List (List Char)} (hpending : ∀ doc ∈ pending, doc.IsRead) (hls : ∀ l ∈ ls, OneLine l)
    : ∀ b ∈ (ofLines comment pending line ls).1, b.IsRead := by
  have hlines := fun l hl line => Line.isRead_ofText line (hls l hl)
  intro b hb
  obtain ⟨hdocs, hstatement⟩ := forall_mem_ofLines hpending hlines b hb
  exact ⟨hdocs, hstatement⟩

/-! ### Parts of a line -/

theorem inLine_of_unescape? {e c : Char} (h : Lexeme.unescape? e = some c) : InLine c := by
  unfold Lexeme.unescape? at h
  intro hbreak
  split at h
  all_goals cases h
  all_goals first | rfl | exact absurd hbreak (by decide)

theorem isType_of_parseType {doc : DocLine} {fragment : List Char} {t : TypeExpr} {rest : List Char}
    (hline : OneLine fragment) (h : doc.parseType fragment = .ok (t, rest))
    : IsType t ∧ Trimmed rest ∧ OneLine rest := by
  unfold DocLine.parseType at h
  split at h
  next r hr =>
    cases h
    refine ⟨?_, ?_⟩
    · apply TypeExpr.grammatical_of_parsePrefix (fun _ _ => inLine_of_unescape?) _ hr
      intro c hc hbreak
      rw [hline c hc] at hbreak
      cases hbreak
    · unfold TypeExpr.parsePrefix at hr
      dsimp only [bind, Except.bind] at hr
      split at hr
      · cases hr
      · cases hr
        exact ⟨trimmed_strip _, hline.sublist ((strip_sublist _).trans (List.drop_sublist _ _))⟩
  next => cases h

theorem isPhrase_of_nonEmpty? {s : List Char} {d : String} (htrim : Trimmed s) (hline : OneLine s)
    (h : nonEmpty? s = some d)
    : IsPhrase d.toList := by
  unfold nonEmpty? at h
  split at h
  · cases h
  next hne =>
    cases h
    rw [String.toList_ofList]
    exact ⟨htrim, by simpa using hne, hline⟩

theorem isDescription_description? {s : List Char} (hline : OneLine s) : IsDescription (description? s) := by
  intro d h
  have hstrip := hline.sublist (strip_sublist s)
  unfold description? at h
  split at h
  next rest heq =>
    rw [heq] at hstrip
    apply isPhrase_of_nonEmpty? (trimmed_strip _) _ h
    exact (oneLine_cons.1 hstrip).2.sublist (strip_sublist _)
  next rest heq =>
    rw [heq] at hstrip
    apply isPhrase_of_nonEmpty? (trimmed_strip _) _ h
    exact (oneLine_cons.1 (oneLine_cons.1 hstrip).2).2.sublist (strip_sublist _)
  next => exact isPhrase_of_nonEmpty? (trimmed_strip s) hstrip h

theorem isDescription_none : IsDescription none := by
  simp [IsDescription]

theorem splitName?_eq_some {inName : Char → Bool} {s name rest : List Char}
    (h : splitName? inName s = some (name, rest))
    : (∃ c cs, name = c :: cs ∧ isIdentifierStart c = true ∧ ∀ d ∈ cs, inName d = true) ∧
        s = name ++ rest := by
  unfold splitName? at h
  split at h
  · cases h
  next c cs =>
    split at h
    next hc =>
      cases h
      constructor
      · exact ⟨c, cs.takeWhile inName, rfl, hc, fun d hd => List.mem_takeWhile_imp hd⟩
      · simp
    next => cases h

theorem isDottedName_of_splitName? {s name rest : List Char}
    (h : splitName? inDottedName s = some (name, rest))
    : IsDottedName name := by
  obtain ⟨⟨c, cs, rfl, hc, hcs⟩, -⟩ := splitName?_eq_some h
  exact ⟨⟨c, cs, rfl, hc⟩, hcs⟩

theorem splitMemberName?_eq_some {s name rest : List Char} (h : splitMemberName? s = some (name, rest))
    : IsMemberName name ∧ s = name ++ rest := by
  unfold splitMemberName? at h
  split at h
  · cases h
    exact ⟨.inl rfl, rfl⟩
  · exact ⟨.inr (isDottedName_of_splitName? h), (splitName?_eq_some h).2⟩

theorem splitOptional_snd_isSuffix (s : List Char) : (splitOptional s).2 <:+ s := by
  unfold splitOptional
  split
  · exact List.suffix_cons _ _
  · exact List.suffix_refl _

theorem splitMember?_eq_some {s name text : List Char} {isOptional : Bool} (hline : OneLine s)
    (h : splitMember? s = some (name, isOptional, text))
    : IsMemberName name ∧ Trimmed text ∧ OneLine text := by
  unfold splitMember? at h
  split at h
  · cases h
  next _ rest hsplit =>
    obtain ⟨hname, rfl⟩ := splitMemberName?_eq_some hsplit
    have hrest := (oneLine_append.1 hline).2.sublist (splitOptional_snd_isSuffix rest).sublist
    dsimp only at h
    split at h
    · cases h
      exact ⟨hname, trimmed_strip _, hrest.sublist (strip_sublist _)⟩
    · cases h

theorem isPhrase_of_mem_nonBlankParts {s : List Char} (hline : OneLine s)
    : ∀ p ∈ nonBlankParts s, IsPhrase p.toList ∧ p.toList.Sublist s ∧ ',' ∉ p.toList := by
  intro p hp
  simp only [nonBlankParts, List.mem_filterMap, List.mem_map] at hp
  obtain ⟨-, ⟨q, hq, rfl⟩, hp⟩ := hp
  split at hp
  · cases hp
  next hne =>
    cases hp
    rw [String.toList_ofList]
    have ⟨hsub, hcomma⟩ := forall_mem_splitAtEach s q hq
    have hstrip := strip_sublist q
    refine ⟨?_, hstrip.trans hsub, fun h => hcomma (hstrip.subset h)⟩
    exact isPhrase_strip (hline.sublist hsub) (by simpa using hne)

/-! ### Tags -/

variable {doc : DocLine} {rest : List Char}

theorem readable_parseClass {c : ClassType} (hline : OneLine rest) (h : parseClass doc rest = .ok c)
    : c.Readable := by
  unfold parseClass at h
  dsimp only at h
  split at h
  · cases h
  next hname =>
    rw [Bool.or_eq_true, not_or] at hname
    cases h
    constructor
    · rw [String.toList_ofList]
      constructor
      · simpa using hname.1
      · simpa using hname.2
    · rw [String.toList_ofList]
      intro hcolon
      have := List.mem_takeWhile_imp ((strip_sublist _).subset hcolon)
      simp at this
    · intro p hp
      have hsub : (((rest.dropWhile (· ≠ ':')).drop 1).takeWhile (· ≠ '#')).Sublist rest :=
        (List.takeWhile_sublist _).trans ((List.drop_sublist 1 _).trans (List.dropWhile_sublist _))
      have ⟨hphrase, hp, hcomma⟩ := isPhrase_of_mem_nonBlankParts (hline.sublist hsub) p hp
      refine ⟨hphrase, hcomma, ?_⟩
      intro hhash
      have := List.mem_takeWhile_imp (hp.subset hhash)
      simp at this
    · simp
    · simp

theorem readable_parseField {f : Field} (hline : OneLine rest) (h : parseField doc rest = .ok f)
    : f.Readable := by
  unfold parseField at h
  split at h
  next inner =>
    dsimp only [bind, Except.bind] at h
    split at h
    · cases h
    next r hr =>
      obtain ⟨key, after⟩ := r
      obtain ⟨hkey, -, hafter⟩ := isType_of_parseType (oneLine_cons.1 hline).2 hr
      split at h
      next rest hclose =>
        have hclose : after = ']' :: rest := hclose
        rw [hclose] at hafter
        split at h
        · cases h
        next r hr =>
          obtain ⟨type, description⟩ := r
          cases h
          have hrest := (oneLine_cons.1 hafter).2.sublist (strip_sublist rest)
          obtain ⟨htype, -, hdescription⟩ := isType_of_parseType hrest hr
          exact ⟨.inr ⟨⟨key, rfl, hkey⟩, rfl, rfl⟩, htype, isDescription_description? hdescription⟩
      next => cases h
  next =>
    split at h
    next => cases h
    next name isOptional text hsplit =>
      obtain ⟨hname, -, htext⟩ := splitMember?_eq_some hline hsplit
      dsimp only [bind, Except.bind] at h
      split at h
      · cases h
      next r hr =>
        obtain ⟨type, description⟩ := r
        cases h
        obtain ⟨htype, -, hdescription⟩ := isType_of_parseType htext hr
        refine ⟨.inl ⟨rfl, _, rfl, ?_⟩, htype, isDescription_description? hdescription⟩
        rwa [String.toList_ofList]

theorem proseOf_of_isPhrase {d : String} (h : IsPhrase d.toList) : proseOf d = [d.toList] := by
  have hsplit : ∀ s : List Char, '\n' ∉ s → splitAtEach '\n' s = [s] := by
    intro s hs
    induction s with
    | nil => rfl
    | cons c s ih =>
      rw [List.mem_cons, not_or] at hs
      rw [splitAtEach, if_neg (Ne.symm hs.1), ih hs.2]
  apply hsplit
  intro hbreak
  have := h.oneLine _ hbreak
  cases this

theorem isProse_of_isPhrase {d : String} (h : IsPhrase d.toList) : IsProse (proseOf d) := by
  rw [proseOf_of_isPhrase h]
  constructor
  · simp
  · simpa using h.ne_nil
  · simpa using h.ne_nil
  · simpa using h.oneLine
  · simpa using h.stripRight_eq

theorem readable_parseAlias {a : Alias} (hline : OneLine rest) (h : parseAlias doc rest = .ok a)
    : a.Readable := by
  have hword := isWord_splitWord (s := rest)
  have htext := hline.sublist (splitWord_snd_sublist rest)
  unfold parseAlias at h
  generalize splitWord rest = r at h hword htext
  obtain ⟨name, text⟩ := r
  dsimp only at h hword htext
  split at h
  · cases h
  next hname =>
    have hname : IsWord name := hword (by simpa using hname)
    split at h
    · cases h
      exact ⟨by simpa using hname, by simp, by simp, by simp⟩
    · dsimp only [bind, Except.bind] at h
      split at h
      · cases h
      next r hr =>
        obtain ⟨base, description⟩ := r
        cases h
        obtain ⟨htype, -, hdescription⟩ := isType_of_parseType htext hr
        refine ⟨by simpa using hname, ?_, by simp, ?_⟩
        · rintro _ ⟨⟩
          exact htype
        · intro d hd
          exact isProse_of_isPhrase (isDescription_description? hdescription d hd)

theorem readable_parseAliasMember {m : AliasMember} (hline : OneLine rest)
    (h : parseAliasMember doc rest = .ok m)
    : m.Readable := by
  unfold parseAliasMember at h
  dsimp only [bind, Except.bind] at h
  split at h
  · cases h
  next r hr =>
    obtain ⟨type, description⟩ := r
    cases h
    obtain ⟨htype, -, hdescription⟩ := isType_of_parseType hline hr
    exact ⟨htype, isDescription_description? hdescription⟩

theorem readable_parseParam {p : Param} (hline : OneLine rest) (h : parseParam doc rest = .ok p)
    : p.Readable := by
  unfold parseParam at h
  split at h
  next => cases h
  next name isOptional text hsplit =>
    obtain ⟨hname, -, htext⟩ := splitMember?_eq_some hline hsplit
    split at h
    · cases h
    · dsimp only [bind, Except.bind] at h
      split at h
      · cases h
      next r hr =>
        obtain ⟨type, description⟩ := r
        cases h
        obtain ⟨htype, -, hdescription⟩ := isType_of_parseType htext hr
        refine ⟨?_, htype, isDescription_description? hdescription⟩
        rwa [String.toList_ofList]

theorem readable_ofText {t : TypeExpr} {after : List Char} (ht : IsType t) (hline : OneLine after)
    : (Return.ofText t after).Readable := by
  have hafter := isDescription_description? hline
  have hdescription := isDescription_description? (hline.sublist (splitWord_snd_sublist after))
  unfold Return.ofText
  generalize splitWord after = r at hdescription ⊢
  obtain ⟨word, description⟩ := r
  dsimp only at hdescription ⊢
  split
  · exact ⟨ht, by simp, hafter⟩
  · exact ⟨ht, by simp, hafter⟩
  · split
    · exact ⟨ht, by simp, hdescription⟩
    · split
      next hword => exact ⟨ht, by simpa using hword, hdescription⟩
      next => exact ⟨ht, by simp, hafter⟩

theorem readable_parseReturn {r : Return} (hline : OneLine rest) (h : parseReturn doc rest = .ok r)
    : r.Readable := by
  unfold parseReturn at h
  split at h
  · cases h
  · dsimp only [bind, Except.bind] at h
    split at h
    · cases h
    next p hp =>
      obtain ⟨type, after⟩ := p
      cases h
      obtain ⟨htype, -, hafter⟩ := isType_of_parseType hline hp
      exact readable_ofText htype hafter

theorem readable_parseLink {l : Link} (hline : OneLine rest) (h : parseLink doc rest = .ok l)
    : l.Readable := by
  have hword := isWord_splitWord (s := rest)
  have htext := hline.sublist (splitWord_snd_sublist rest)
  unfold parseLink at h
  generalize splitWord rest = r at h hword htext
  obtain ⟨target, text⟩ := r
  dsimp only at h hword htext
  split at h
  · cases h
  next htarget =>
    cases h
    have htarget : IsWord target := hword (by simpa using htarget)
    exact ⟨by simpa using htarget, isDescription_description? htext⟩

/-! ### Blocks -/

/--
The invariant of reading a block, with fenced code open or not after its lines.
-/
structure Annotations.Readable (a : Annotations) (fenced : Bool) : Prop where
  prose : ∀ line ∈ a.prose, OneLine line ∧ stripRight line = line
  noTags : NoTags false a.prose
  fenced : fenceAfter false a.prose = fenced
  marker : ∀ text, a.marker = some text → Trimmed text.toList ∧ OneLine text.toList
  classes : ∀ c ∈ a.classes, c.Readable
  aliases : ∀ x ∈ a.aliases, x.Readable
  params : ∀ p ∈ a.params, p.Readable
  returns : ∀ r ∈ a.returns, r.Readable
  links : ∀ l ∈ a.links, l.Readable
  deprecationReason : IsDescription a.deprecationReason
  deprecated : a.deprecated = false → a.deprecationReason = none

theorem fenceAfter_append (fenced : Bool) (ls ms : List (List Char))
    : fenceAfter fenced (ls ++ ms) = fenceAfter (fenceAfter fenced ls) ms := by
  induction ls generalizing fenced with
  | nil => rfl
  | cons l ls ih => exact ih _

theorem noTags_append (fenced : Bool) (ls ms : List (List Char))
    : NoTags fenced (ls ++ ms) ↔ NoTags fenced ls ∧ NoTags (fenceAfter fenced ls) ms := by
  induction ls generalizing fenced with
  | nil => simp [NoTags, fenceAfter]
  | cons l ls ih => simp [NoTags, fenceAfter, ih, and_assoc]

theorem forall_mem_updateLast {α : Type} {Q : α → Prop} {f : α → α} {xs : List α} (hxs : ∀ x ∈ xs, Q x)
    (hf : ∀ x, Q x → Q (f x))
    : ∀ x ∈ updateLast f xs, Q x := by
  fun_induction updateLast f xs with
  | case1 => simp
  | case2 x => simpa using hf x (hxs x (by simp))
  | case3 x y ys ih =>
    intro z hz
    rw [List.mem_cons] at hz
    cases hz with
    | inl hz => exact hz ▸ hxs x (by simp)
    | inr hz => exact ih (fun z hz => hxs z (by simp [hz])) z hz

theorem forall_mem_updateFirst {α : Type} {Q : α → Prop} {f : α → α} {xs : List α} (hxs : ∀ x ∈ xs, Q x)
    (hf : ∀ x, Q x → Q (f x))
    : ∀ x ∈ updateFirst f xs, Q x := by
  cases xs with
  | nil => simp [updateFirst]
  | cons x xs =>
    simp only [updateFirst, List.forall_mem_cons] at hxs ⊢
    exact ⟨hf x hxs.1, hxs.2⟩

theorem forall_mem_concat {α : Type} {Q : α → Prop} {xs : List α} {x : α} (hxs : ∀ x ∈ xs, Q x) (hx : Q x)
    : ∀ y ∈ xs ++ [x], Q y := by
  intro y hy
  rw [List.mem_append, List.mem_singleton] at hy
  cases hy with
  | inl hy => exact hxs y hy
  | inr hy => exact hy ▸ hx

namespace Annotations

variable {a b : Annotations} {fenced : Bool}

theorem Readable.noteTag (h : a.Readable fenced) (tag : String) : (a.noteTag doc tag).Readable fenced := by
  unfold Annotations.noteTag
  split
  · exact { h with }
  · exact h

theorem Readable.addDeclared (h : a.Readable fenced) (hline : OneLine rest) (htrim : Trimmed rest)
    {tag : String} (hb : a.addDeclared doc tag rest = .ok b)
    : b.Readable fenced := by
  unfold Annotations.addDeclared at hb
  dsimp only [bind, Except.bind, pure, Except.pure] at hb
  split at hb
  · cases hb
    refine { h with marker := ?_ }
    rintro _ ⟨⟩
    simpa using ⟨htrim, hline⟩
  · split at hb
    · cases hb
    next c hc =>
      cases hb
      exact { h with classes := forall_mem_concat h.classes (readable_parseClass hline hc) }
  · split at hb
    · cases hb
    · split at hb
      · cases hb
      next f hf =>
        cases hb
        refine { h with classes := forall_mem_updateLast h.classes ?_ }
        intro c hc
        exact { hc with fields := forall_mem_concat hc.fields (readable_parseField hline hf) }
  · split at hb
    · cases hb
    next x hx =>
      cases hb
      exact { h with aliases := forall_mem_concat h.aliases (readable_parseAlias hline hx) }
  · split at hb
    · cases hb
    next p hp =>
      cases hb
      exact { h with params := forall_mem_concat h.params (readable_parseParam hline hp) }
  · split at hb
    · cases hb
    next r hr =>
      cases hb
      exact { h with returns := forall_mem_concat h.returns (readable_parseReturn hline hr) }
  · cases hb
    refine { h with deprecationReason := ?_, deprecated := by simp }
    intro d hd
    exact isPhrase_of_nonEmpty? htrim hline hd
  · cases hb
    exact { h with }
  · cases hb
    exact { h with }
  · split at hb
    · cases hb
    next l hl =>
      cases hb
      exact { h with links := forall_mem_concat h.links (readable_parseLink hline hl) }
  · cases hb

theorem Readable.addMember (h : a.Readable fenced) (hline : OneLine rest)
    (hb : a.addMember doc rest = .ok b)
    : b.Readable fenced := by
  unfold Annotations.addMember at hb
  dsimp only [bind, Except.bind, pure, Except.pure] at hb
  split at hb
  · cases hb
  next m hm =>
    cases hb
    refine { h with aliases := forall_mem_updateLast h.aliases ?_ }
    intro x hx
    exact { hx with members := forall_mem_concat hx.members (readable_parseAliasMember hline hm) }

theorem Readable.addProse (h : a.Readable fenced) (hdoc : doc.IsRead)
    (htag : (fenced != isFence doc) = false → (stripLeft doc.text).head? ≠ some '@')
    : (a.addProse doc).Readable (fenced != isFence doc) := by
  unfold Annotations.addProse
  refine { h with prose := ?_, noTags := ?_, fenced := ?_ }
  · exact forall_mem_concat h.prose ⟨hdoc.oneLine, hdoc.stripped⟩
  · rw [noTags_append, h.fenced]
    exact ⟨h.noTags, htag, trivial⟩
  · rw [fenceAfter_append, h.fenced]
    rfl

theorem isFence_eq_false {doc : DocLine} {c : Char} {cs : List Char} (h : stripLeft doc.text = c :: cs)
    (hc : c ≠ '\x60')
    : isFence doc = false := by
  have hfirst : ('\x60' == c) = false := beq_false_of_ne (Ne.symm hc)
  simp [isFence, h, List.isPrefixOf, hfirst]

theorem Readable.ofDocs {docs : List DocLine} (h : a.Readable fenced) (hdocs : ∀ doc ∈ docs, doc.IsRead)
    {openAlias : Bool} (hb : a.ofDocs fenced openAlias docs = .ok b)
    : ∃ fenced, b.Readable fenced := by
  induction docs generalizing a fenced openAlias with
  | nil =>
    cases hb
    exact ⟨fenced, h⟩
  | cons doc docs ih =>
    have hdoc := hdocs doc (by simp)
    have hrest : ∀ doc ∈ docs, doc.IsRead := fun d hd => hdocs d (by simp [hd])
    have hline := hdoc.oneLine.sublist (stripLeft_sublist doc.text)
    unfold Annotations.ofDocs at hb
    dsimp only at hb
    split at hb
    next hfence =>
      apply ih (h.addProse hdoc _) hrest hb
      rw [hfence]
      intro hne
      cases hne
    next hfence =>
      split at hb
      next text htext =>
        rw [htext, oneLine_cons] at hline
        split at hb
        · cases hb
        next c hc =>
          rw [isFence_eq_false htext (by decide), Bool.bne_false] at hb
          have hnoted := @Readable.noteTag doc _ fenced h (String.ofList (splitWord text).1)
          have htag := hnoted.addDeclared (hline.2.sublist (splitWord_snd_sublist text))
            (splitWord_snd_trimmed text) hc
          exact ih htag hrest hb
      next text htext =>
        rw [htext, oneLine_cons] at hline
        have hprose : (fenced != isFence doc) = false → (stripLeft doc.text).head? ≠ some '@' := by
          simp [htext]
        split at hb
        · split at hb
          · cases hb
          next c hc =>
            rw [isFence_eq_false htext (by decide), Bool.bne_false] at hb
            exact ih (h.addMember (hline.2.sublist (stripLeft_sublist text)) hc) hrest hb
        · exact ih (h.addProse hdoc hprose) hrest hb
      next hat _ =>
        apply ih (h.addProse hdoc _) hrest hb
        intro _ hhead
        rw [List.head?_eq_some_iff] at hhead
        obtain ⟨text, htext⟩ := hhead
        exact hat text htext

end Annotations

/-! ### Descriptions -/

theorem fenceAfter_of_empty {ls : List (List Char)} (h : ∀ l ∈ ls, l.isEmpty = true) (fenced : Bool)
    : fenceAfter fenced ls = fenced := by
  induction ls with
  | nil => rfl
  | cons l ls ih =>
    have hl := h l (by simp)
    rw [List.isEmpty_iff] at hl
    have hfence : isFenceLine [] = false := rfl
    rw [fenceAfter, hl, hfence, Bool.bne_false]
    exact ih fun m hm => h m (by simp [hm])

theorem exists_lines_description? {a : Annotations} {d : String} (h : a.description? = some d)
    : ∃ before lines after, a.prose = before ++ lines ++ after ∧
        (∀ l ∈ before, l.isEmpty = true) ∧ (∀ l ∈ after, l.isEmpty = true) ∧ lines ≠ [] ∧
        lines.head? ≠ some [] ∧ lines.getLast? ≠ some [] ∧ d = join "\n" (lines.map String.ofList) := by
  have hhead : ∀ ls : List (List Char), (ls.dropWhile (·.isEmpty)).head? ≠ some [] := by
    intro ls hls
    have := List.head?_dropWhile_not (·.isEmpty) ls
    simp [hls] at this
  unfold Annotations.description? at h
  generalize hrest : a.prose.dropWhile (·.isEmpty) = rest at h
  have hprose := List.takeWhile_append_dropWhile (p := (·.isEmpty)) (l := a.prose)
  have hreverse := List.takeWhile_append_dropWhile (p := (·.isEmpty)) (l := rest.reverse)
  rw [hrest] at hprose
  dsimp only at h
  split at h
  · cases h
  next hne =>
    cases h
    refine ⟨a.prose.takeWhile (·.isEmpty), (rest.reverse.dropWhile (·.isEmpty)).reverse,
      (rest.reverse.takeWhile (·.isEmpty)).reverse, ?_, ?_, ?_, ?_, ?_, ?_, rfl⟩
    · rw [List.append_assoc, ← List.reverse_append, hreverse, List.reverse_reverse, hprose]
    · exact fun l hl => List.mem_takeWhile_imp hl
    · exact fun l hl => List.mem_takeWhile_imp (List.mem_reverse.1 hl)
    · simpa using hne
    · have hfirst := hhead a.prose
      rw [hrest, ← List.getLast?_reverse, ← hreverse, List.getLast?_append_of_ne_nil _ (by simpa using hne)]
        at hfirst
      rwa [List.head?_reverse]
    · rw [List.getLast?_reverse]
      exact hhead _

theorem proseOf_join {lines : List (List Char)} (hne : lines ≠ []) (h : ∀ l ∈ lines, OneLine l)
    : proseOf (join "\n" (lines.map String.ofList)) = lines := by
  apply splitAtEach_join hne
  intro l hl hbreak
  have := h l hl _ hbreak
  cases this

namespace Annotations

variable {a : Annotations} {fenced : Bool}

theorem Readable.description? (h : a.Readable fenced) {d : String} (hd : a.description? = some d)
    : IsProse (proseOf d) ∧ NoTags false (proseOf d) := by
  obtain ⟨before, lines, after, hprose, hbefore, -, hne, hhead, hlast, rfl⟩ :=
    exists_lines_description? hd
  have hlines : ∀ l ∈ lines, OneLine l ∧ stripRight l = l := by
    intro l hl
    apply h.prose
    simp [hprose, hl]
  have hnoTags := h.noTags
  rw [hprose, List.append_assoc, noTags_append, noTags_append, fenceAfter_of_empty hbefore] at hnoTags
  rw [proseOf_join hne fun l hl => (hlines l hl).1]
  exact ⟨⟨hne, hhead, hlast, fun l hl => (hlines l hl).1, fun l hl => (hlines l hl).2⟩, hnoTags.2.1⟩

theorem Readable.describe (h : a.Readable fenced) : (a.describe a.description?).Readable fenced := by
  unfold Annotations.describe
  split
  · exact h
  next d hd =>
    have hprose := h.description? hd
    split
    · refine { h with aliases := forall_mem_updateFirst h.aliases ?_ }
      intro x hx
      refine { hx with description := ?_ }
      rintro _ ⟨⟩
      exact hprose.1
    · refine { h with classes := forall_mem_updateLast h.classes ?_ }
      intro c hc
      refine { hc with description := ?_ }
      rintro _ ⟨⟩
      exact hprose

theorem Readable.function (h : a.Readable fenced) {full : List Char} {signature : List String}
    (hfull : IsFunctionName full)
    (hsignature : ∀ p ∈ signature, IsPhrase p.toList ∧ ',' ∉ p.toList ∧ ')' ∉ p.toList)
    : (a.function full signature).Readable where
  name := ⟨full, hfull, rfl⟩
  signature := hsignature
  params := h.params
  returns := h.returns
  links := h.links
  description := fun _ hd => h.description? hd
  deprecationReason := h.deprecationReason
  deprecated := h.deprecated

theorem readable_empty : Readable {} false := by
  constructor <;> simp [NoTags, fenceAfter, IsDescription]

end Annotations

/-! ### Statements -/

theorem afterWord?_eq_some {word s rest : List Char} (h : afterWord? word s = some rest)
    : rest.Sublist s := by
  unfold afterWord? at h
  split at h
  · cases h
    exact (stripLeft_sublist _).trans (List.drop_sublist _ _)
  · cases h

structure Statement.IsFunction (name : List Char) (params : List String) : Prop where
  name : IsFunctionName name
  params : ∀ p ∈ params, IsPhrase p.toList ∧ ',' ∉ p.toList ∧ ')' ∉ p.toList

namespace Statement

theorem isFunction_of_function? {s : List Char} {statement : Statement} (hline : OneLine s)
    (h : function? s = some statement)
    : ∃ name params, statement = .function name params ∧ IsFunction name params := by
  unfold function? at h
  simp only [Option.bind_eq_bind, Option.bind_eq_some_iff] at h
  obtain ⟨s₁, hs₁, ⟨name, s₂⟩, hsplit, h⟩ := h
  have hlocal : ((afterWord? ['l', 'o', 'c', 'a', 'l'] s).getD s).Sublist s := by
    cases hword : afterWord? ['l', 'o', 'c', 'a', 'l'] s with
    | none => exact .refl s
    | some rest => exact afterWord?_eq_some hword
  have hs₁ := (afterWord?_eq_some hs₁).trans hlocal
  obtain ⟨⟨c, cs, rfl, hc, hcs⟩, rfl⟩ := splitName?_eq_some hsplit
  dsimp only at h
  split at h
  next s₃ hs₃ =>
    split at h
    next =>
      split at h
      · cases h
        refine ⟨_, _, rfl, ⟨⟨c, cs, rfl, hc⟩, hcs⟩, ?_⟩
        intro p hp
        have hsub : s₃.Sublist s := by
          have hparen := stripLeft_sublist s₂
          rw [hs₃] at hparen
          exact (List.sublist_cons_self _ _).trans
            (hparen.trans ((List.sublist_append_right _ _).trans hs₁))
        have hsub := (List.takeWhile_sublist (· ≠ ')')).trans hsub
        have ⟨hphrase, hp, hcomma⟩ := isPhrase_of_mem_nonBlankParts (hline.sublist hsub) p hp
        refine ⟨hphrase, hcomma, ?_⟩
        intro hclose
        have := List.mem_takeWhile_imp (hp.subset hclose)
        simp at this
      · cases h
    next => cases h
  next => cases h

theorem isDottedName_of_assignment? {s : List Char} {statement : Statement}
    (h : assignment? s = some statement)
    : ∃ name, statement = .table name ∧ IsDottedName name := by
  unfold assignment? at h
  simp only [Option.bind_eq_bind, Option.bind_eq_some_iff] at h
  obtain ⟨⟨name, rest⟩, hsplit, h⟩ := h
  dsimp only at h
  split at h
  · split at h
    · split at h
      · cases h
        exact ⟨name, rfl, isDottedName_of_splitName? hsplit⟩
      · cases h
    · cases h
  · cases h

theorem isDottedName_of_table? {s : List Char} {statement : Statement} (h : table? s = some statement)
    : ∃ name, statement = .table name ∧ IsDottedName name := by
  unfold table? at h
  split at h
  next t ht =>
    cases h
    rw [Option.bind_eq_some_iff] at ht
    obtain ⟨s, -, ht⟩ := ht
    exact isDottedName_of_assignment? ht
  next => exact isDottedName_of_assignment? h

theorem isDottedName_of_moduleReturn? {s : List Char} {statement : Statement}
    (h : moduleReturn? s = some statement)
    : ∃ name, statement = .moduleReturn name ∧ IsDottedName name := by
  unfold moduleReturn? at h
  simp only [Option.bind_eq_bind, Option.bind_eq_some_iff] at h
  obtain ⟨_, -, ⟨name, rest⟩, hsplit, h⟩ := h
  dsimp only at h
  split at h
  · cases h
    exact ⟨name, rfl, isDottedName_of_splitName? hsplit⟩
  · cases h

inductive IsRead : Statement → Prop where
  | function {name params} : IsFunction name params → IsRead (.function name params)
  | table {name} : IsDottedName name → IsRead (.table name)
  | moduleReturn {name} : IsDottedName name → IsRead (.moduleReturn name)

theorem isRead_of_parse? {s : List Char} {statement : Statement} (hline : OneLine s)
    (h : parse? s = some statement)
    : statement.IsRead := by
  unfold parse? at h
  split at h
  next hfunction =>
    cases h
    obtain ⟨name, params, rfl, hname⟩ := isFunction_of_function? hline hfunction
    exact .function hname
  next =>
    split at h
    next htable =>
      cases h
      obtain ⟨name, rfl, hname⟩ := isDottedName_of_table? htable
      exact .table hname
    next =>
      obtain ⟨name, rfl, hname⟩ := isDottedName_of_moduleReturn? h
      exact .moduleReturn hname

end Statement

/-! ### Files -/

namespace File

variable {f g : File}

theorem Readable.addAnnotations (h : f.Readable) {a : Annotations} {fenced : Bool} (ha : a.Readable fenced)
    : (f.addAnnotations a).Readable where
  marker := by
    intro text htext
    change a.marker.or f.marker = some text at htext
    cases hmarker : a.marker with
    | none =>
      rw [hmarker, Option.none_or] at htext
      exact h.marker text htext
    | some =>
      rw [hmarker, Option.some_or] at htext
      cases htext
      exact ha.marker text hmarker
  namespaces := h.namespaces
  classNames := by
    intro ns hns name hname
    obtain ⟨c, hc, hcname⟩ := h.classNames ns hns name hname
    exact ⟨c, List.mem_append_left _ hc, hcname⟩
  classes := by
    intro c hc
    cases List.mem_append.1 hc with
    | inl hc => exact h.classes c hc
    | inr hc => exact ha.classes c hc
  aliases := by
    intro x hx
    cases List.mem_append.1 hx with
    | inl hx => exact h.aliases x hx
    | inr hx => exact ha.aliases x hx
  functions := h.functions
  moduleReturn := h.moduleReturn

theorem Readable.addBlock (h : f.Readable) {b : Block} (hb : b.IsRead) (hg : f.addBlock b = .ok g)
    : g.Readable := by
  unfold File.addBlock at hg
  dsimp only [bind, Except.bind, pure, Except.pure] at hg
  split at hg
  · cases hg
  next a ha =>
    obtain ⟨fenced, ha⟩ := Annotations.readable_empty.ofDocs hb.docs ha
    have hstatement : ∀ {statement}, b.statement.bind Statement.parse? = some statement →
        statement.IsRead := by
      intro statement h
      rw [Option.bind_eq_some_iff] at h
      obtain ⟨s, hs, hparse⟩ := h
      exact Statement.isRead_of_parse? (hb.statement s hs) hparse
    have hfunction : ∀ {name params}, b.statement.bind Statement.parse? = some (.function name params) →
        { f.addAnnotations a with
          functions := (f.addAnnotations a).functions ++ [a.function name params] }.Readable := by
      intro name params hname
      cases hstatement hname with
      | function hname =>
        have hf := h.addAnnotations ha
        exact { hf with functions := forall_mem_concat hf.functions (ha.function hname.name hname.params) }
    split at hg
    next hname =>
      cases hg
      exact hfunction hname
    · cases hg
    next hname =>
      cases hg
      exact hfunction hname
    · have hf := h.addAnnotations ha.describe
      split at hg
      · cases hg
        exact hf
      next name hname =>
        cases hg
        cases hstatement hname with
        | table hname =>
          refine { hf with namespaces := forall_mem_concat hf.namespaces ?_, classNames := ?_ }
          · simpa using hname
          · apply forall_mem_concat hf.classNames
            intro className hclass
            rw [Option.map_eq_some_iff] at hclass
            obtain ⟨c, hc, rfl⟩ := hclass
            exact ⟨c, List.mem_append_right _ (List.mem_of_getLast? hc), rfl⟩
      next name hname =>
        cases hg
        cases hstatement hname with
        | moduleReturn hname =>
          refine { hf with moduleReturn := ?_ }
          rintro _ ⟨⟩
          simpa using hname
      · cases hg

theorem Readable.addBlocks {bs : List Block} (h : f.Readable) (hbs : ∀ b ∈ bs, b.IsRead)
    (hg : f.addBlocks bs = .ok g)
    : g.Readable := by
  induction bs generalizing f with
  | nil =>
    cases hg
    exact h
  | cons b bs ih =>
    unfold File.addBlocks at hg
    split at hg
    next f' hf' => exact ih (h.addBlock (hbs b (by simp)) hf') (fun b hb => hbs b (by simp [hb])) hg
    next => cases hg

theorem exists_blocks_of_parse {source : String} (h : parse source = .ok f)
    : ∃ blocks, Block.ofLines none [] 1 (Text.lines source.toList) = (blocks, none) ∧ addBlocks {} blocks = .ok f := by
  unfold parse at h
  cases hlayout : Block.ofLines none [] 1 (Text.lines source.toList) with
  | mk blocks comment =>
    rw [hlayout] at h
    dsimp only [bind, Except.bind] at h
    cases hblocks : addBlocks {} blocks with
    | error e =>
      rw [hblocks] at h
      cases h
    | ok g =>
      rw [hblocks] at h
      cases comment with
      | some c => cases h
      | none =>
        cases h
        exact ⟨blocks, rfl, hblocks⟩

theorem readable_of_parse {source : String} (h : File.parse source = .ok f) : f.Readable := by
  have hempty : ({} : File).Readable := by
    constructor <;> simp
  obtain ⟨blocks, hlayout, hblocks⟩ := exists_blocks_of_parse h
  have hread := @Block.isRead_of_mem_ofLines none [] 1 _ (by simp) (oneLine_of_mem_lines source.toList)
  rw [hlayout] at hread
  exact hempty.addBlocks hread hblocks

end File

end LuaTypes.Declaration
