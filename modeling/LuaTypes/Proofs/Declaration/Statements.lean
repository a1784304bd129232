import LuaTypes.Proofs.Declaration.Layout
import LuaTypes.Proofs.Declaration.Tags

/-!
Statements that have been written are read back.
-/

namespace LuaTypes.Declaration

open Text

/-! ### Words -/

theorem takeWhile_word {word : List Char} (h : IsWord word) {c : Char} (hc : isBlank c = true) (rest : List Char)
    : (word ++ c :: rest).takeWhile (! isBlank ·) = word := by
  rw [List.takeWhile_append_of_pos fun d hd => by simp [h.not_blank d hd],
    List.takeWhile_cons_of_neg (by simp [hc]), List.append_nil]

theorem afterWord?_append {word name : List Char} (hword : IsWord word) (hname : IsWord name) (rest : List Char)
    : afterWord? word (name ++ ' ' :: rest) = if word = name then some (stripLeft rest) else none := by
  unfold afterWord?
  split
  next h =>
    rw [Bool.and_eq_true, List.isPrefixOf_iff_prefix] at h
    obtain ⟨⟨after, hafter⟩, hblank⟩ := h
    rw [← hafter, List.drop_left] at hblank
    cases after with
    | nil => cases hblank
    | cons c after =>
      have htake := takeWhile_word hword hblank after
      rw [hafter, takeWhile_word hname rfl] at htake
      rw [if_pos htake.symm, htake, List.drop_left, stripLeft_cons_blank rfl]
  next h =>
    rw [if_neg]
    rintro rfl
    apply h
    rw [Bool.and_eq_true, List.isPrefixOf_iff_prefix, List.drop_left]
    exact ⟨List.prefix_append _ _, rfl⟩

theorem isWord_local : IsWord ['l', 'o', 'c', 'a', 'l'] :=
  by decide

theorem isWord_function : IsWord ['f', 'u', 'n', 'c', 't', 'i', 'o', 'n'] :=
  by decide

theorem isWord_return : IsWord ['r', 'e', 't', 'u', 'r', 'n'] :=
  by decide

theorem not_isBlank_of_inFunctionName {c : Char} (h : inFunctionName c = true) : isBlank c = false := by
  rw [inFunctionName, Bool.or_eq_true, beq_iff_eq] at h
  cases h with
  | inl h => exact not_isBlank_of_inDottedName h
  | inr h =>
    rw [h]
    rfl

theorem IsFunctionName.isWord {name : List Char} (h : IsFunctionName name) : IsWord name :=
  isWord_of_name (fun _ => not_isBlank_of_inFunctionName) h.head h.tail

theorem splitName?_eq_none {inName : Char → Bool} {s : List Char} (h : ∀ c ∈ s.head?, isIdentifierStart c = false)
    : splitName? inName s = none := by
  cases s with
  | nil => rfl
  | cons c s => rw [splitName?, h c rfl, if_neg Bool.false_ne_true]

namespace Statement

variable {name rest : List Char}

/-! ### Tables -/

theorem function?_eq_none (h : IsWord name) (hlocal : name ≠ ['l', 'o', 'c', 'a', 'l'])
    (hfunction : name ≠ ['f', 'u', 'n', 'c', 't', 'i', 'o', 'n'] ∨
      ∀ c ∈ (stripLeft rest).head?, isIdentifierStart c = false)
    : function? (name ++ ' ' :: rest) = none := by
  unfold function?
  rw [afterWord?_append isWord_local h, if_neg hlocal.symm, Option.getD_none]
  dsimp only
  rw [afterWord?_append isWord_function h]
  split
  next heq =>
    have hsplit := @splitName?_eq_none inFunctionName _ (hfunction.resolve_left (· heq.symm))
    simp [hsplit]
  next => rfl

theorem assignment?_table (h : IsDottedName name)
    : assignment? (name ++ ' ' :: ['=', ' ', '{', '}']) = some (.table name) := by
  unfold assignment?
  rw [splitName?_append h.head h.tail (by rintro c ⟨⟩; rfl)]
  rfl

theorem parse?_table (h : IsDottedName name)
    : parse? (name ++ ' ' :: ['=', ' ', '{', '}']) = some (.table name) := by
  have hfunction : function? (name ++ ' ' :: ['=', ' ', '{', '}']) = none := by
    by_cases hlocal : name = ['l', 'o', 'c', 'a', 'l']
    · rw [hlocal]
      rfl
    · exact function?_eq_none h.isWord hlocal (.inr (by rintro c ⟨⟩; rfl))
  have htable : table? (name ++ ' ' :: ['=', ' ', '{', '}']) = some (.table name) := by
    have hlocal : (afterWord? ['l', 'o', 'c', 'a', 'l'] (name ++ ' ' :: ['=', ' ', '{', '}'])).bind assignment?
        = none := by
      rw [afterWord?_append isWord_local h.isWord]
      split <;> rfl
    rw [table?, hlocal, assignment?_table h]
  rw [parse?, hfunction, htable]

/-! ### Functions -/

theorem parse?_function (h : IsFunctionName name) {params : List String}
    (hparams : ∀ p ∈ params, IsPhrase p.toList ∧ ',' ∉ p.toList ∧ ')' ∉ p.toList)
    : parse? (['f', 'u', 'n', 'c', 't', 'i', 'o', 'n'] ++ ' ' ::
        (name ++ '(' :: ((join ", " params).toList ++ [')', ' ', 'e', 'n', 'd']))) = some (.function name params) := by
  have hclose : ∀ c ∈ (join ", " params).toList, (decide (c ≠ ')')) = true := by
    intro c hc
    rw [decide_eq_true_eq]
    apply forall_mem_join (P := (· ≠ ')')) (by simp) _ c hc
    rintro p hp _ hmem rfl
    exact (hparams p hp).2.2 hmem
  have hhead : stripLeft (name ++ '(' :: ((join ", " params).toList ++ [')', ' ', 'e', 'n', 'd']))
      = name ++ '(' :: ((join ", " params).toList ++ [')', ' ', 'e', 'n', 'd']) := by
    obtain ⟨c, cs, rfl, hc⟩ := h.head
    exact stripLeft_of_head h.isWord.isPhrase.head
  have hsignature := @nonBlankParts_join params (fun p hp => ⟨(hparams p hp).1, (hparams p hp).2.1⟩) [] (.inl rfl)
  have hfunction : function? (['f', 'u', 'n', 'c', 't', 'i', 'o', 'n'] ++ ' ' ::
      (name ++ '(' :: ((join ", " params).toList ++ [')', ' ', 'e', 'n', 'd']))) = some (.function name params) := by
    unfold function?
    rw [afterWord?_append isWord_local isWord_function, if_neg (by decide), Option.getD_none]
    dsimp only
    rw [afterWord?_append isWord_function isWord_function, if_pos rfl, hhead]
    change (splitName? inFunctionName _).bind _ = _
    rw [splitName?_append h.head h.tail (by rintro c ⟨⟩; rfl)]
    rw [Option.bind_some]
    dsimp only
    rw [stripLeft_of_head (by rintro c ⟨⟩; rfl)]
    split
    next s hs =>
      obtain ⟨-, rfl⟩ := List.cons.inj hs
      rw [List.dropWhile_append_of_pos hclose, List.takeWhile_append_of_pos hclose]
      change some (Statement.function name (nonBlankParts ((join ", " params).toList ++ []))) = _
      rw [List.append_nil]
      rw [List.nil_append] at hsignature
      rw [hsignature]
    next hne => exact absurd rfl (hne _)
  rw [parse?, hfunction]

/-! ### Returns -/

theorem parse?_moduleReturn (h : IsDottedName name)
    : parse? (['r', 'e', 't', 'u', 'r', 'n'] ++ ' ' :: name) = some (.moduleReturn name) := by
  have hfunction := @function?_eq_none _ name isWord_return (by decide) (.inl (by decide))
  have htable : table? (['r', 'e', 't', 'u', 'r', 'n'] ++ ' ' :: name) = none := by
    have hlocal : (afterWord? ['l', 'o', 'c', 'a', 'l'] (['r', 'e', 't', 'u', 'r', 'n'] ++ ' ' :: name)).bind
        assignment? = none := by
      rw [afterWord?_append isWord_local isWord_return, if_neg (by decide)]
      rfl
    rw [table?, hlocal]
    unfold assignment?
    rw [splitName?_append ⟨_, _, rfl, rfl⟩ (List.all_eq_true.1 (by decide +kernel)) (by rintro c ⟨⟩; rfl)]
    rw [Option.bind_eq_bind, Option.bind_some]
    dsimp only
    rw [stripLeft_cons_blank rfl, h.isWord.isPhrase.stripLeft_eq]
    split
    next =>
      obtain ⟨c, cs, hname, hc⟩ := h.head
      rw [← (List.cons.inj hname).1] at hc
      cases hc
    next => rfl
  have hreturn : moduleReturn? (['r', 'e', 't', 'u', 'r', 'n'] ++ ' ' :: name) = some (.moduleReturn name) := by
    have hsplit := @splitName?_append inDottedName name [] h.head h.tail (by simp)
    rw [List.append_nil] at hsplit
    unfold moduleReturn?
    rw [afterWord?_append isWord_return isWord_return, if_pos rfl, h.isWord.isPhrase.stripLeft_eq]
    change (splitName? inDottedName _).bind _ = _
    rw [hsplit]
    rfl
  rw [parse?, hfunction, htable, hreturn]

end Statement

/-! ### Names of functions -/

theorem toList_qualifiedName {f : Function} {full : List Char}
    (h : splitFunctionName full = (f.owner, f.name, f.isMethod))
    : f.qualifiedName.toList = full := by
  unfold splitFunctionName at h
  unfold Function.qualifiedName
  split at h
  next owner name hsplit =>
    obtain ⟨howner, hname, hmethod⟩ : some (String.ofList owner) = f.owner ∧ String.ofList name = f.name ∧
        true = f.isMethod := by
      simpa using h
    rw [splitAtLast?_eq_some hsplit, ← howner, ← hname, ← hmethod]
    simp
  next =>
    split at h
    next owner name hsplit =>
      obtain ⟨howner, hname, hmethod⟩ : some (String.ofList owner) = f.owner ∧ String.ofList name = f.name ∧
          false = f.isMethod := by
        simpa using h
      rw [splitAtLast?_eq_some hsplit, ← howner, ← hname, ← hmethod]
      simp
    next =>
      obtain ⟨howner, hname, -⟩ : none = f.owner ∧ String.ofList full = f.name ∧ false = f.isMethod := by
        simpa using h
      rw [← howner, ← hname, String.toList_ofList]

end LuaTypes.Declaration
