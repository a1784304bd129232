import LuaTypes.Declaration.Render
import LuaTypes.Proofs.Declaration.Readable
import LuaTypes.Proofs.TypeExpr.Phrase
import LuaTypes.Proofs.TypeExpr.RoundTrip

/-!
Tags that have been written. The text behind each tag is a phrase, and it is read back.
-/

namespace LuaTypes.Declaration

open Text TypeExpr

/-! ### Descriptions -/

def descriptionText : Option String → List Char
  | none => []
  | some d => ' ' :: '#' :: ' ' :: d.toList

variable {s : List Char} {description : Option String}

theorem isEmpty_eq_false_of_isPhrase {text : String} (h : IsPhrase text.toList) : text.isEmpty = false := by
  rw [← Bool.not_eq_true, String.isEmpty_iff]
  rintro rfl
  exact h.ne_nil rfl

theorem toList_withDescription (hd : IsDescription description) (text : String)
    : (withDescription text " # " description).toList = text.toList ++ descriptionText description := by
  cases description with
  | none => simp [withDescription, descriptionText]
  | some d => simp [withDescription, descriptionText, isEmpty_eq_false_of_isPhrase (hd d rfl)]

theorem isPhrase_described (hs : IsPhrase s) (hd : IsDescription description)
    : IsPhrase (s ++ descriptionText description) := by
  cases description with
  | none => simpa [descriptionText] using hs
  | some d =>
    have := hs.around (by decide : OneLine [' ', '#', ' ']) (hd d rfl)
    simpa [descriptionText] using this

theorem isPhrase_spaced {t : List Char} (hs : IsPhrase s) (ht : IsPhrase t) : IsPhrase (s ++ ' ' :: t) := by
  have := hs.around (by decide : OneLine [' ']) ht
  simpa using this

theorem isPhrase_marked {d : String} (h : IsPhrase d.toList) : IsPhrase ('#' :: ' ' :: d.toList) :=
  isPhrase_spaced (isPhrase_singleton rfl : IsPhrase ['#']) h

theorem stripLeft_cons_blank {c : Char} (h : isBlank c = true) (s : List Char) : stripLeft (c :: s) = stripLeft s :=
  List.dropWhile_cons_of_pos h

theorem strip_cons_blank {c : Char} (h : isBlank c = true) (s : List Char) : strip (c :: s) = strip s := by
  rw [strip, stripLeft_cons_blank h, strip]

theorem strip_descriptionText_some {d : String} (h : IsPhrase d.toList)
    : strip (descriptionText (some d)) = '#' :: ' ' :: d.toList := by
  rw [descriptionText, strip_cons_blank rfl, (isPhrase_marked h).strip_eq]

theorem nonEmpty?_toList {d : String} (h : IsPhrase d.toList) : nonEmpty? d.toList = some d := by
  have hne : d.toList.isEmpty = false := by
    rw [← Bool.not_eq_true, List.isEmpty_iff]
    exact h.ne_nil
  simp [nonEmpty?, hne]

theorem description?_strip (s : List Char) : description? (strip s) = description? s := by
  rw [description?, description?, (trimmed_strip s).strip_eq]

theorem description?_descriptionText (hd : IsDescription description)
    : description? (descriptionText description) = description := by
  cases description with
  | none => rfl
  | some d =>
    rw [description?, strip_descriptionText_some (hd d rfl)]
    change nonEmpty? (strip (' ' :: d.toList)) = some d
    rw [strip_cons_blank rfl, (hd d rfl).strip_eq, nonEmpty?_toList (hd d rfl)]

theorem splitWord_described (hs : IsWord s) (hd : IsDescription description)
    : splitWord (s ++ descriptionText description) = (s, strip (descriptionText description)) := by
  cases description with
  | none =>
    rw [descriptionText, List.append_nil, splitWord_of_isWord hs]
    rfl
  | some d =>
    rw [strip_descriptionText_some (hd d rfl)]
    exact splitWord_append hs (isPhrase_marked (hd d rfl)).toTrimmed

/-! ### Types -/

structure IsSettled (t : TypeExpr) : Prop where
  type : IsType t
  canonical : t.Canonical true

theorem IsSettled.isPhrase_render {t : TypeExpr} (h : IsSettled t) : IsPhrase t.render.toList :=
  h.canonical.isPhrase_render (fun _ hc => hc) h.type

theorem stops_descriptionText (description : Option String) : Stops (descriptionText description) := by
  cases description with
  | none => exact stops_nil
  | some d => exact stops_space rfl (by decide) rfl _

variable {doc : DocLine} {t : TypeExpr}

theorem parseType_append (h : IsSettled t) {tail : List Char} (htail : Stops tail)
    : doc.parseType (t.render.toList ++ tail) = .ok (t, strip tail) := by
  rw [DocLine.parseType, parsePrefix_render h.canonical htail]

theorem parseType_described (h : IsSettled t)
    : doc.parseType (t.render.toList ++ descriptionText description)
        = .ok (t, strip (descriptionText description)) :=
  parseType_append h (stops_descriptionText description)

/-! ### Names -/

theorem isWordChar_of_isIdentifierStart {c : Char} (h : isIdentifierStart c = true) : isWordChar c = true := by
  rw [isIdentifierStart, Bool.or_eq_true] at h
  rw [isWordChar, isAlphanumeric, Bool.or_eq_true, Bool.or_eq_true]
  exact h.imp_left fun h => .inl (isLetter_of_isAlpha h)

theorem not_isBlank_of_inDottedName {c : Char} (h : inDottedName c = true) : isBlank c = false := by
  rw [inDottedName, Bool.or_eq_true, beq_iff_eq] at h
  cases h with
  | inl h => exact not_isBlank_of_isWordChar h
  | inr h =>
    rw [h]
    rfl

theorem isWord_of_name {inName : Char → Bool} (hblank : ∀ c, inName c = true → isBlank c = false) {name : List Char}
    (hhead : ∃ c cs, name = c :: cs ∧ isIdentifierStart c = true) (htail : ∀ c ∈ name.tail, inName c = true)
    : IsWord name := by
  obtain ⟨c, cs, rfl, hc⟩ := hhead
  constructor
  · simp
  · intro d hd
    rw [List.mem_cons] at hd
    cases hd with
    | inl hd =>
      rw [hd]
      exact not_isBlank_of_isWordChar (isWordChar_of_isIdentifierStart hc)
    | inr hd => exact hblank d (htail d hd)

theorem IsDottedName.isWord {name : List Char} (h : IsDottedName name) : IsWord name :=
  isWord_of_name (fun _ => not_isBlank_of_inDottedName) h.head h.tail

theorem IsMemberName.isWord {name : List Char} (h : IsMemberName name) : IsWord name := by
  cases h with
  | inl h =>
    rw [h]
    decide
  | inr h => exact h.isWord

theorem splitName?_append {inName : Char → Bool} {name rest : List Char}
    (hhead : ∃ c cs, name = c :: cs ∧ isIdentifierStart c = true) (htail : ∀ c ∈ name.tail, inName c = true)
    (hrest : ∀ c ∈ rest.head?, inName c = false)
    : splitName? inName (name ++ rest) = some (name, rest) := by
  obtain ⟨c, cs, rfl, hc⟩ := hhead
  obtain ⟨htake, hdrop⟩ := run_append htail hrest
  rw [List.tail_cons] at htake hdrop
  rw [List.cons_append, splitName?, if_pos hc, htake, hdrop]

theorem splitMemberName?_append {name rest : List Char} (h : IsMemberName name)
    (hrest : ∀ c ∈ rest.head?, inDottedName c = false)
    : splitMemberName? (name ++ rest) = some (name, rest) := by
  cases h with
  | inl h =>
    rw [h]
    rfl
  | inr h =>
    have hsplit := splitName?_append h.head h.tail hrest
    obtain ⟨c, cs, rfl, hc⟩ := h.head
    rw [List.cons_append] at hsplit ⊢
    unfold splitMemberName?
    split
    next heq =>
      rw [List.cons.injEq] at heq
      rw [heq.1] at hc
      cases hc
    next => exact hsplit

theorem splitMember?_append {name : List Char} (h : IsMemberName name) (isOptional : Bool) (hs : IsPhrase s)
    : splitMember? (name ++ ((optionalMark isOptional).toList ++ ' ' :: s)) = some (name, isOptional, s) := by
  have hrest : ∀ c ∈ ((optionalMark isOptional).toList ++ ' ' :: s).head?, inDottedName c = false := by
    cases isOptional <;> (rintro c ⟨⟩; rfl)
  have hoptional : splitOptional ((optionalMark isOptional).toList ++ ' ' :: s) = (isOptional, ' ' :: s) := by
    cases isOptional <;> rfl
  rw [splitMember?, splitMemberName?_append h hrest]
  dsimp only
  rw [hoptional]
  dsimp only
  rw [strip_cons_blank rfl, hs.strip_eq]
  rfl

/-! ### Fields and parameters -/

def Field.text (f : Field) : String :=
  withDescription (renderKey f.name f.optional f.key ++ " " ++ f.type.render) " # " f.description

def Param.text (p : Param) : String :=
  withDescription (p.name ++ optionalMark p.optional ++ " " ++ p.type.render) " # " p.description

theorem Field.toList_text {f : Field} (hd : IsDescription f.description)
    : f.text.toList
        = (renderKey f.name f.optional f.key).toList ++
            ' ' :: (f.type.render.toList ++ descriptionText f.description) := by
  rw [Field.text, toList_withDescription hd]
  simp

theorem Param.toList_text {p : Param} (hd : IsDescription p.description)
    : p.text.toList
        = p.name.toList ++ ((optionalMark p.optional).toList ++
            ' ' :: (p.type.render.toList ++ descriptionText p.description)) := by
  rw [Param.text, toList_withDescription hd]
  simp

structure Field.IsSettled (f : Field) : Prop where
  type : Declaration.IsSettled f.type
  key : ∀ t, f.key = some t → Declaration.IsSettled t

theorem IsMemberName.isPhrase_optional {name : List Char} (h : IsMemberName name) (isOptional : Bool)
    : IsPhrase (name ++ (optionalMark isOptional).toList) := by
  cases isOptional with
  | false => simpa [optionalMark] using h.isWord.isPhrase
  | true => exact h.isWord.isPhrase.append (isPhrase_singleton rfl)

theorem Field.isPhrase_text {f : Field} (h : f.Readable) (ht : f.IsSettled) : IsPhrase f.text.toList := by
  have hkey : IsPhrase (renderKey f.name f.optional f.key).toList := by
    obtain ⟨hkey, name, hname, hmember⟩ | ⟨⟨key, hkey, -⟩, -, -⟩ := h.keyed
    · rw [hkey, hname, renderKey, String.toList_append]
      exact hmember.isPhrase_optional f.optional
    · rw [hkey, renderKey]
      exact isPhrase_append (isPhrase_append (isPhrase_singleton rfl) (ht.key key hkey).isPhrase_render)
        (isPhrase_singleton rfl)
  rw [Field.toList_text h.description]
  exact isPhrase_spaced hkey (isPhrase_described ht.type.isPhrase_render h.description)

theorem Param.isPhrase_text {p : Param} (h : p.Readable) (ht : IsSettled p.type) : IsPhrase p.text.toList := by
  rw [Param.toList_text h.description, ← List.append_assoc]
  exact isPhrase_spaced (h.name.isPhrase_optional p.optional) (isPhrase_described ht.isPhrase_render h.description)

theorem parseField_of_splitMember? {rest name text : List Char} {isOptional : Bool}
    (h : splitMember? rest = some (name, isOptional, text))
    : parseField doc rest = (do
        let (type, rest) ← doc.parseType text
        return { name := String.ofList name, type, optional := isOptional, description := description? rest }) := by
  unfold parseField
  split
  · cases h
  next =>
    rw [h]

theorem parseField_text {f : Field} (h : f.Readable) (ht : f.IsSettled)
    : parseField doc f.text.toList = .ok f := by
  have hphrase := isPhrase_described ht.type.isPhrase_render h.description
  rw [Field.toList_text h.description]
  obtain ⟨name, key, type, isOptional, description⟩ := f
  obtain ⟨rfl, name, rfl, hname⟩ | ⟨⟨key, rfl, -⟩, rfl, rfl⟩ := h.keyed
  · have hsplit := splitMember?_append hname isOptional hphrase
    rw [← List.append_assoc, ← String.toList_append] at hsplit
    change parseField doc ((name ++ optionalMark isOptional).toList ++ _) = _
    rw [parseField_of_splitMember? hsplit, parseType_described ht.type]
    change Except.ok _ = _
    rw [description?_strip, description?_descriptionText h.description, String.ofList_toList]
  · have htail := stops_closeBracket (' ' :: (type.render.toList ++ descriptionText description))
    have hkey := @parseType_append doc key (ht.key key rfl) _ htail
    have htext : (renderKey none false (some key)).toList = '[' :: (key.render.toList ++ [']']) := by
      simp [renderKey]
    rw [htext, List.cons_append, List.append_assoc, List.singleton_append, parseField, hkey]
    have hstrip : IsPhrase (']' :: ' ' :: (type.render.toList ++ descriptionText description)) :=
      isPhrase_spaced (isPhrase_singleton rfl : IsPhrase [']']) hphrase
    rw [hstrip.strip_eq]
    change (do
      let (type, description) ← doc.parseType (strip (' ' :: (type.render.toList ++ descriptionText description)))
      return ({ key, type, description := description? description } : Field)) = _
    rw [strip_cons_blank rfl, hphrase.strip_eq, parseType_described ht.type]
    change Except.ok _ = _
    rw [description?_strip, description?_descriptionText h.description]

theorem parseParam_text {p : Param} (h : p.Readable) (ht : IsSettled p.type)
    : parseParam doc p.text.toList = .ok p := by
  have hphrase := isPhrase_described ht.isPhrase_render h.description
  rw [Param.toList_text h.description, parseParam, splitMember?_append h.name p.optional hphrase]
  dsimp only
  rw [if_neg (by simpa using hphrase.ne_nil), parseType_described ht]
  change Except.ok _ = _
  rw [description?_strip, description?_descriptionText h.description]
  simp

/-! ### Results -/

def Return.nameText (r : Return) : String :=
  if r.variadic then " ..."
  else match r.name with
    | none => ""
    | some name => " " ++ name

def Return.text (r : Return) : String :=
  withDescription (r.type.render ++ r.nameText) " # " r.description

theorem Return.toList_text {r : Return} (hd : IsDescription r.description)
    : r.text.toList = r.type.render.toList ++ (r.nameText.toList ++ descriptionText r.description) := by
  rw [Return.text, toList_withDescription hd, String.toList_append, List.append_assoc]

theorem isWord_of_isIdentifier {name : List Char} (h : isIdentifier name = true) : IsWord name := by
  cases name with
  | nil => cases h
  | cons c cs =>
    rw [isIdentifier, Bool.and_eq_true, List.all_eq_true] at h
    constructor
    · simp
    · intro d hd
      rw [List.mem_cons] at hd
      apply not_isBlank_of_isWordChar
      cases hd with
      | inl hd =>
        rw [hd]
        exact isWordChar_of_isIdentifierStart h.1
      | inr hd => exact h.2 d hd

theorem Return.isPhrase_text {r : Return} (h : r.Readable) (ht : IsSettled r.type) : IsPhrase r.text.toList := by
  rw [Return.toList_text h.description, ← List.append_assoc]
  apply isPhrase_described _ h.description
  unfold Return.nameText
  split
  · have hdots : IsWord ['.', '.', '.'] := by decide
    simpa using isPhrase_spaced ht.isPhrase_render hdots.isPhrase
  · split
    · simpa using ht.isPhrase_render
    next name hname =>
      rw [String.toList_append]
      exact isPhrase_spaced ht.isPhrase_render (isWord_of_isIdentifier (h.name name hname).1).isPhrase

/--
Can a text of the line start with the character, where a type has ended, and is it no mark of a description?
-/
structure StartsName (c : Char) : Prop where
  ne_bracket : c ≠ '['
  not_symbol : Symbol.ofChar? c = none
  ne_hash : c ≠ '#'
  ne_dash : c ≠ '-'

theorem startsName_of_isIdentifierStart {c : Char} (h : isIdentifierStart c = true) : StartsName c := by
  constructor
  · rintro rfl
    cases h
  · unfold Symbol.ofChar?
    split
    all_goals first | cases h | rfl
  · rintro rfl
    cases h
  · rintro rfl
    cases h

theorem parseType_word (ht : IsSettled t) {word : List Char} (hword : IsWord word)
    (hstart : ∀ c ∈ word.head?, StartsName c) (hd : IsDescription description)
    : doc.parseType (t.render.toList ++ ' ' :: (word ++ descriptionText description))
        = .ok (t, word ++ descriptionText description) := by
  have hphrase := isPhrase_described hword.isPhrase hd
  obtain ⟨c, cs, rfl⟩ := List.exists_cons_of_ne_nil hword.ne_nil
  have hspace : Token.isSpace c = false := by
    rw [← Bool.not_eq_true]
    intro hspace
    have := hword.not_blank c (by simp)
    rw [isBlank_of_isSpace hspace] at this
    cases this
  have hc := hstart c rfl
  rw [List.cons_append] at hphrase ⊢
  rw [parseType_append ht (stops_space hspace hc.ne_bracket hc.not_symbol _), strip_cons_blank rfl, hphrase.strip_eq]

theorem ofText_word {word : List Char} (hword : IsWord word) (hstart : ∀ c ∈ word.head?, StartsName c)
    (hd : IsDescription description) (t : TypeExpr)
    : Return.ofText t (word ++ descriptionText description) =
        if word = ['.', '.', '.'] then { type := t, variadic := true, description }
        else if isIdentifier word then { type := t, name := String.ofList word, description }
        else { type := t, description := description? (word ++ descriptionText description) } := by
  have hsplit := splitWord_described hword hd
  obtain ⟨c, cs, rfl⟩ := List.exists_cons_of_ne_nil hword.ne_nil
  have hc := hstart c rfl
  rw [List.cons_append] at hsplit ⊢
  unfold Return.ofText
  rw [hsplit]
  dsimp only
  rw [description?_strip, description?_descriptionText hd]
  split
  next heq => exact absurd (List.cons.inj heq).1 hc.ne_hash
  next heq => exact absurd (List.cons.inj heq).1 hc.ne_dash
  next => rfl

theorem ofText_descriptionText (hd : IsDescription description) (t : TypeExpr)
    : Return.ofText t (strip (descriptionText description)) = { type := t, description } := by
  have hback := description?_descriptionText hd
  rw [← description?_strip] at hback
  cases description with
  | none => rfl
  | some d =>
    rw [strip_descriptionText_some (hd d rfl)] at hback ⊢
    change ({ type := t, description := description? _ } : Return) = _
    rw [hback]

theorem parseReturn_text {r : Return} (h : r.Readable) (ht : IsSettled r.type)
    : parseReturn doc r.text.toList = .ok r := by
  have hne : (r.type.render.toList ++ (r.nameText.toList ++ descriptionText r.description)).isEmpty = false := by
    rw [← Bool.not_eq_true, List.isEmpty_iff]
    simp [ht.isPhrase_render.ne_nil]
  rw [Return.toList_text h.description, parseReturn, hne, if_neg Bool.false_ne_true]
  obtain ⟨type, name, variadic, description⟩ := r
  have hd : IsDescription description := h.description
  cases name with
  | none =>
    cases variadic with
    | true =>
      have hword : IsWord ['.', '.', '.'] := by decide
      have hstart : ∀ c ∈ ['.', '.', '.'].head?, StartsName c := by
        rintro _ ⟨⟩
        exact ⟨by decide, rfl, by decide, by decide⟩
      have htype := @parseType_word description doc type ht _ hword hstart hd
      have htext : (Return.nameText ⟨type, none, true, description⟩).toList = ' ' :: ['.', '.', '.'] := by
        simp [Return.nameText]
      rw [htext, List.cons_append, htype]
      change Except.ok _ = _
      rw [ofText_word hword hstart hd, if_pos rfl]
    | false =>
      change (do
        let (type, after) ← doc.parseType (type.render.toList ++ descriptionText description)
        return Return.ofText type after) = _
      rw [parseType_described ht]
      change Except.ok _ = _
      rw [ofText_descriptionText hd]
  | some name =>
    obtain ⟨hname, hvariadic⟩ := h.name name rfl
    change variadic = false at hvariadic
    have hword := isWord_of_isIdentifier hname
    have hstart : ∀ c ∈ name.toList.head?, StartsName c := by
      cases htext : name.toList with
      | nil => simp
      | cons c cs =>
        rw [htext, isIdentifier, Bool.and_eq_true] at hname
        rintro _ ⟨⟩
        exact startsName_of_isIdentifierStart hname.1
    have htype := @parseType_word description doc type ht _ hword hstart hd
    have hellipsis : name.toList ≠ ['.', '.', '.'] := by
      intro hdots
      rw [hdots] at hname
      cases hname
    subst hvariadic
    have htext : (Return.nameText ⟨type, some name, false, description⟩).toList = ' ' :: name.toList := by
      simp [Return.nameText]
    rw [htext, List.cons_append, htype]
    change Except.ok _ = _
    rw [ofText_word hword hstart hd, if_neg hellipsis, if_pos hname, String.ofList_toList]

/-! ### Links -/

def Link.text (l : Link) : String :=
  withDescription l.target " " l.description

theorem Link.isPhrase_text {l : Link} (h : l.Readable) : IsPhrase l.text.toList := by
  obtain ⟨target, description⟩ := l
  cases description with
  | none => exact h.target.isPhrase
  | some d =>
    have hd := h.description d rfl
    rw [Link.text, withDescription, isEmpty_eq_false_of_isPhrase hd, if_neg Bool.false_ne_true]
    exact isPhrase_around h.target.isPhrase (by decide) hd

def IsMarked (s : List Char) : Prop :=
  s.head? = some '#' ∨ ['-', '-'] <+: s

theorem description?_of_not_isMarked {d : String} (h : IsPhrase d.toList) (hmark : ¬ IsMarked d.toList)
    : description? d.toList = some d := by
  have hback := nonEmpty?_toList h
  unfold description?
  rw [h.strip_eq]
  split
  next heq => exact absurd (.inl (by rw [heq]; rfl)) hmark
  next heq => exact absurd (.inr ⟨_, heq.symm⟩) hmark
  next => exact hback

theorem parseLink_text {l : Link} (h : l.Readable) (hmark : ∀ d, l.description = some d → ¬ IsMarked d.toList)
    : parseLink doc l.text.toList = .ok l := by
  have hne : l.target.toList.isEmpty = false := by
    rw [← Bool.not_eq_true, List.isEmpty_iff]
    exact h.target.ne_nil
  obtain ⟨target, description⟩ := l
  cases description with
  | none =>
    unfold parseLink Link.text withDescription
    rw [splitWord_of_isWord h.target]
    dsimp only
    rw [hne, if_neg Bool.false_ne_true, String.ofList_toList]
    rfl
  | some d =>
    have hd := h.description d rfl
    have htext : (Link.text ⟨target, some d⟩).toList = target.toList ++ ' ' :: d.toList := by
      simp [Link.text, withDescription, isEmpty_eq_false_of_isPhrase hd]
    unfold parseLink
    rw [htext, splitWord_append h.target hd.toTrimmed]
    dsimp only
    rw [hne, if_neg Bool.false_ne_true, String.ofList_toList, description?_of_not_isMarked hd (hmark d rfl)]

/-! ### Classes -/

def ClassType.text (c : ClassType) : String :=
  c.name ++ (if c.parents.isEmpty then "" else " : " ++ join ", " c.parents)

theorem ClassType.isPhrase_text {c : ClassType} (h : c.Readable) : IsPhrase c.text.toList := by
  unfold ClassType.text
  by_cases hnil : c.parents = []
  · simpa [hnil] using h.name.isPhrase
  · rw [List.isEmpty_eq_false_iff.2 hnil, if_neg Bool.false_ne_true, ← String.append_assoc]
    exact isPhrase_around h.name.isPhrase (by decide) (isPhrase_join (by decide) hnil fun p hp => (h.parents p hp).1)

theorem nonBlankParts_of_notMem (hs : IsPhrase s) (hcomma : ',' ∉ s) {u : List Char} (hu : u = [] ∨ u = [' '])
    (rest : List Char)
    : nonBlankParts (u ++ s) = [String.ofList s] ∧
        nonBlankParts (u ++ s ++ ',' :: rest) = String.ofList s :: nonBlankParts rest := by
  have hnotMem : ',' ∉ u ++ s := by
    obtain rfl | rfl := hu <;> simpa using hcomma
  have hstrip : strip (u ++ s) = s := by
    obtain rfl | rfl := hu
    · exact hs.strip_eq
    · rw [List.singleton_append, strip_cons_blank rfl, hs.strip_eq]
  unfold nonBlankParts
  rw [splitAtEach_of_notMem hnotMem, splitAtEach_append hnotMem]
  simp [hstrip, hs.ne_nil]

theorem nonBlankParts_join {texts : List String} (h : ∀ text ∈ texts, IsPhrase text.toList ∧ ',' ∉ text.toList)
    {u : List Char} (hu : u = [] ∨ u = [' '])
    : nonBlankParts (u ++ (join ", " texts).toList) = texts := by
  induction texts generalizing u with
  | nil => obtain rfl | rfl := hu <;> rfl
  | cons text texts ih =>
    have ⟨hphrase, hcomma⟩ := h text (by simp)
    by_cases hnil : texts = []
    · rw [hnil]
      have := (nonBlankParts_of_notMem hphrase hcomma hu []).1
      rwa [String.ofList_toList] at this
    · have htail := ih (fun t ht => h t (by simp [ht])) (.inr rfl)
      have htext : (join ", " (text :: texts)).toList = text.toList ++ ',' :: ([' '] ++ (join ", " texts).toList) := by
        rw [join_cons_of_ne_nil hnil]
        simp
      rw [htext, ← List.append_assoc, (nonBlankParts_of_notMem hphrase hcomma hu _).2, htail, String.ofList_toList]

theorem forall_mem_join {P : Char → Prop} {separator : String} (hseparator : ∀ c ∈ separator.toList, P c)
    {texts : List String} (h : ∀ text ∈ texts, ∀ c ∈ text.toList, P c)
    : ∀ c ∈ (join separator texts).toList, P c := by
  induction texts with
  | nil => simp [join]
  | cons text texts ih =>
    have htail := ih fun t ht => h t (by simp [ht])
    by_cases hnil : texts = []
    · rw [hnil]
      simpa [join] using h text
    · intro c hc
      rw [join_cons_of_ne_nil hnil, String.toList_append, String.toList_append, List.mem_append, List.mem_append] at hc
      obtain (hc | hc) | hc := hc
      · exact h text (by simp) c hc
      · exact hseparator c hc
      · exact htail c hc

theorem strip_append_space (hs : IsPhrase s) : strip (s ++ [' ']) = s := by
  have hleft : stripLeft (s ++ [' ']) = s ++ [' '] := by
    obtain ⟨c, cs, rfl⟩ := List.exists_cons_of_ne_nil hs.ne_nil
    exact stripLeft_of_head hs.head
  rw [strip, hleft, stripRight_append_blank s rfl, hs.stripRight_eq]

theorem parseClass_of_parts {name : List Char} (h : IsWord name) {rest : List Char}
    (hname : strip (rest.takeWhile (· ≠ ':')) = name)
    : parseClass doc rest = .ok {
        name := String.ofList name
        parents := nonBlankParts (((rest.dropWhile (· ≠ ':')).drop 1).takeWhile (· ≠ '#')) } := by
  have hne : name.isEmpty = false := by
    rw [← Bool.not_eq_true, List.isEmpty_iff]
    exact h.ne_nil
  have hblank : name.any isBlank = false := by
    rw [List.any_eq_false]
    exact fun c hc => by simp [h.not_blank c hc]
  rw [parseClass, hname]
  dsimp only
  rw [hne, hblank, Bool.or_false, if_neg Bool.false_ne_true]

theorem parseClass_text {c : ClassType} (h : c.Readable)
    : parseClass doc c.text.toList = .ok { name := c.name, parents := c.parents } := by
  have hcolon : ∀ d ∈ c.name.toList, (decide (d ≠ ':')) = true := by
    intro d hd
    rw [decide_eq_true_eq]
    rintro rfl
    exact h.no_colon hd
  by_cases hnil : c.parents = []
  · have htext : c.text = c.name := by simp [ClassType.text, hnil]
    have htake : c.name.toList.takeWhile (· ≠ ':') = c.name.toList := List.takeWhile_eq_self_iff.2 hcolon
    have hdrop : c.name.toList.dropWhile (· ≠ ':') = [] := List.dropWhile_eq_nil_iff.2 hcolon
    rw [htext, parseClass_of_parts h.name (by rw [htake, h.name.isPhrase.strip_eq]), hdrop, hnil, String.ofList_toList]
    rfl
  · have htext : c.text.toList = c.name.toList ++ ' ' :: ':' :: ([' '] ++ (join ", " c.parents).toList) := by
      simp [ClassType.text, hnil]
    have htake : c.text.toList.takeWhile (· ≠ ':') = c.name.toList ++ [' '] := by
      rw [htext, List.takeWhile_append_of_pos hcolon]
      simp
    have hdrop : c.text.toList.dropWhile (· ≠ ':') = ':' :: ([' '] ++ (join ", " c.parents).toList) := by
      rw [htext, List.dropWhile_append_of_pos hcolon]
      simp
    have hhash : ∀ d ∈ [' '] ++ (join ", " c.parents).toList, (decide (d ≠ '#')) = true := by
      intro d hd
      rw [List.mem_append] at hd
      rw [decide_eq_true_eq]
      cases hd with
      | inl hd =>
        rw [List.mem_singleton.1 hd]
        decide
      | inr hd =>
        apply forall_mem_join (P := (· ≠ '#')) (by simp) _ d hd
        rintro p hp _ hhash rfl
        exact (h.parents p hp).2.2 hhash
    rw [parseClass_of_parts h.name (by rw [htake, strip_append_space h.name.isPhrase]), hdrop, List.drop_one,
      List.tail_cons, List.takeWhile_eq_self_iff.2 hhash, String.ofList_toList]
    rw [nonBlankParts_join (fun p hp => ⟨(h.parents p hp).1, (h.parents p hp).2.1⟩) (.inr rfl)]

/-! ### Aliases -/

def Alias.text (a : Alias) : String :=
  a.name ++ match a.base with
    | none => ""
    | some t => " " ++ t.render

theorem Alias.isPhrase_text {a : Alias} (h : a.Readable) (hbase : ∀ t, a.base = some t → IsSettled t)
    : IsPhrase a.text.toList := by
  unfold Alias.text
  cases hb : a.base with
  | none => simpa using h.name.isPhrase
  | some t =>
    rw [← String.append_assoc]
    exact isPhrase_around h.name.isPhrase (by decide) (hbase t hb).isPhrase_render

theorem parseAlias_text {a : Alias} (h : a.Readable) (hbase : ∀ t, a.base = some t → IsSettled t)
    : parseAlias doc a.text.toList = .ok { name := a.name, base := a.base } := by
  have hname : a.name.toList.isEmpty = false := by
    rw [← Bool.not_eq_true, List.isEmpty_iff]
    exact h.name.ne_nil
  unfold parseAlias Alias.text
  cases hb : a.base with
  | none =>
    simp only [String.append_empty]
    rw [splitWord_of_isWord h.name]
    dsimp only
    rw [hname, if_neg Bool.false_ne_true, String.ofList_toList]
    rfl
  | some t =>
    have hphrase := (hbase t hb).isPhrase_render
    have htext : (a.name ++ (" " ++ t.render)).toList = a.name.toList ++ ' ' :: t.render.toList := by
      simp
    have htype := @parseType_append doc t (hbase t hb) [] stops_nil
    rw [List.append_nil] at htype
    dsimp only
    rw [htext, splitWord_append h.name hphrase.toTrimmed]
    dsimp only
    rw [hname, if_neg Bool.false_ne_true, if_neg (by simpa using hphrase.ne_nil), htype, String.ofList_toList]
    rfl

def AliasMember.text (m : AliasMember) : List Char :=
  m.type.render.toList ++ descriptionText m.description

theorem AliasMember.isPhrase_text {m : AliasMember} (h : m.Readable) (ht : IsSettled m.type) : IsPhrase m.text :=
  isPhrase_described ht.isPhrase_render h.description

theorem parseAliasMember_text {m : AliasMember} (h : m.Readable) (ht : IsSettled m.type)
    : parseAliasMember doc m.text = .ok m := by
  unfold parseAliasMember AliasMember.text
  rw [parseType_described ht]
  change Except.ok _ = _
  rw [description?_strip, description?_descriptionText h.description]

end LuaTypes.Declaration
