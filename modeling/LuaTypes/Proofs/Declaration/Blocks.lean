import LuaTypes.Proofs.Declaration.Documentation
import LuaTypes.Proofs.Declaration.Statements

/-!
The blocks of a written file: each declaration has the lines of one block, which can be found again and
add just this declaration to a file.
-/

namespace LuaTypes.Declaration

open Text

namespace Written

/-! ### Blocks of declarations -/

def tableText (name : String) : List Char :=
  name.toList ++ ' ' :: ['=', ' ', '{', '}']

def functionText (f : Function) : List Char :=
  ['f', 'u', 'n', 'c', 't', 'i', 'o', 'n'] ++ ' ' ::
    (f.qualifiedName.toList ++ '(' :: ((join ", " f.signature).toList ++ [')', ' ', 'e', 'n', 'd']))

def returnText (name : String) : List Char :=
  ['r', 'e', 't', 'u', 'r', 'n'] ++ ' ' :: name.toList

def ofMarker (text : String) : Written where
  docs := [tagText "meta" text]

def ofAlias (a : Alias) : Written where
  docs := a.docs

def ofClass (c : ClassType) (table : Option String) : Written where
  docs := c.docs
  statement := table.map tableText

def ofTable (name : String) : Written where
  statement := some (tableText name)

def ofFunction (f : Function) : Written where
  docs := f.docs
  statement := some (functionText f)

def ofReturn (name : String) : Written where
  statement := some (returnText name)

/-! ### Lines -/

def line (text : List Char) : String :=
  String.ofList (docLine text)

theorem lines_eq (w : Written) : w.lines = w.docs.map line ++ w.statement.toList.map String.ofList := by
  rw [lines, List.map_append, List.map_map]
  rfl

theorem ofList_tableText (name : String) : String.ofList (tableText name) = Namespace.render name := by
  rw [← String.toList_inj]
  simp [tableText, Namespace.render]

theorem lines_ofMarker (text : String) : (ofMarker text).lines = [tagLine "meta" text] := by
  rw [tagLine_eq]
  rfl

theorem lines_ofTable (name : String) : (ofTable name).lines = [Namespace.render name] := by
  rw [← ofList_tableText]
  rfl

theorem lines_ofReturn (name : String) : (ofReturn name).lines = ["return " ++ name] := by
  have htext : String.ofList (returnText name) = "return " ++ name := by
    rw [← String.toList_inj]
    simp [returnText]
  rw [← htext]
  rfl

theorem line_member {m : AliasMember} (h : m.Readable)
    : line ('|' :: ' ' :: m.text) = withDescription ("--- | " ++ m.type.render) " # " m.description := by
  rw [← String.toList_inj, toList_withDescription h.description, line, String.toList_ofList]
  simp [docLine, AliasMember.text]

theorem lines_ofAlias {a : Alias} (h : a.Readable) : (ofAlias a).lines = a.renderLines := by
  have hmembers : a.members.map (fun m => line ('|' :: ' ' :: m.text))
      = a.members.map fun m => withDescription ("--- | " ++ m.type.render) " # " m.description :=
    List.map_congr_left fun m hm => line_member (h.members m hm)
  rw [lines_eq, Alias.renderLines, proseLines_eq, ← hmembers]
  change (proseTexts a.description ++ tagText "alias" a.text :: a.members.map _).map line ++ []
    = (proseTexts a.description).map line ++ tagLine "alias" a.text :: _
  rw [List.append_nil, List.map_append, List.map_cons, List.map_map, tagLine_eq]
  rfl

theorem lines_ofClass (c : ClassType) (table : Option String)
    : (ofClass c table).lines = c.renderLines ++ (table.map Namespace.render).toList := by
  have htable : (table.map tableText).toList.map String.ofList = (table.map Namespace.render).toList := by
    cases table with
    | none => rfl
    | some name => exact congrArg (fun text => [text]) (ofList_tableText name)
  have hfields : c.fields.map (fun f => line (tagText "field" f.text)) = c.fields.map Field.render :=
    List.map_congr_left fun f _ => (tagLine_eq "field" f.text).symm
  rw [lines_eq, ClassType.renderLines, proseLines_eq, ← hfields]
  change (proseTexts c.description ++ tagText "class" c.text :: c.fields.map _).map line ++
      (table.map tableText).toList.map _
    = (proseTexts c.description).map line ++ tagLine "class" c.text :: _ ++ _
  rw [htable, List.map_append, List.map_cons, List.map_map, tagLine_eq]
  rfl

theorem map_line_flag (flag : Bool) (tag text : String)
    : (if flag then [tagText tag text] else []).map line = if flag then [tagLine tag text] else [] := by
  rw [tagLine_eq]
  split <;> rfl

theorem map_line_each {α : Type} (xs : List α) (tag : String) (text : α → String)
    : (xs.map fun x => tagText tag (text x)).map line = xs.map fun x => tagLine tag (text x) := by
  rw [List.map_map]
  exact List.map_congr_left fun x _ => (tagLine_eq tag (text x)).symm

theorem map_line_tagTexts (f : Function) : f.tagTexts.map line = f.tagLines := by
  simp only [Function.tagTexts, List.map_append, map_line_flag, map_line_each]
  simp only [Function.tagLines, List.append_assoc]
  rfl

theorem lines_ofFunction (f : Function) : (ofFunction f).lines = f.renderLines := by
  have hstatement : String.ofList (functionText f)
      = "function " ++ f.qualifiedName ++ "(" ++ Text.join ", " f.signature ++ ") end" := by
    rw [← String.toList_inj]
    simp [functionText]
  have hempty : (if (proseTexts f.description).isEmpty || f.tagTexts.isEmpty then [] else [[]]).map line
      = if (proseTexts f.description).isEmpty || f.tagTexts.isEmpty then [] else ["---"] := by
    split <;> rfl
  rw [lines_eq, Function.renderLines, ← map_line_tagTexts, proseLines_eq, ← hstatement]
  change (proseTexts f.description ++ _ ++ f.tagTexts).map line ++ [String.ofList (functionText f)] = _
  rw [List.map_append, List.map_append, hempty]
  simp only [List.isEmpty_map]
  rfl

/-! ### Legible lines -/

theorem isPhrase_tagText {tag text : String} (htag : IsWord tag.toList) (htext : text = "" ∨ IsPhrase text.toList)
    : IsPhrase (tagText tag text) := by
  have hat : IsPhrase ['@'] := isPhrase_singleton rfl
  cases htext with
  | inl htext =>
    rw [htext, tagText]
    simpa using hat.append htag.isPhrase
  | inr htext =>
    rw [tagText, isEmpty_eq_false_of_isPhrase htext, if_neg Bool.false_ne_true]
    exact hat.append (isPhrase_spaced htag.isPhrase htext)

def IsLegible (text : List Char) : Prop :=
  OneLine text ∧ stripRight text = text

theorem isLegible_of_isPhrase {text : List Char} (h : IsPhrase text) : IsLegible text :=
  ⟨h.oneLine, h.stripRight_eq⟩

theorem isLegible_proseTexts {description : Option String} (h : ∀ d, description = some d → IsProse (proseOf d))
    : ∀ text ∈ proseTexts description, IsLegible text := by
  cases description with
  | none => simp [proseTexts]
  | some d => exact fun text htext => ⟨(h d rfl).oneLine text htext, (h d rfl).stripped text htext⟩

theorem isCode_of_name {name : List Char} (hname : ∃ c cs, name = c :: cs ∧ isIdentifierStart c = true)
    {rest : List Char} (h : IsPhrase (name ++ rest))
    : IsCode (name ++ rest) := by
  refine ⟨h, ?_⟩
  obtain ⟨c, cs, rfl, hc⟩ := hname
  rintro ⟨⟩
  cases hc

theorem isCode_tableText {name : String} (h : IsDottedName name.toList) : IsCode (tableText name) := by
  have hrest : IsPhrase ['=', ' ', '{', '}'] := .of_ends rfl rfl rfl rfl (by decide)
  exact isCode_of_name h.head (isPhrase_spaced h.isWord.isPhrase hrest)

theorem legible_ofMarker {text : String} (h : text = "" ∨ IsPhrase text.toList) : (ofMarker text).Legible where
  docs := by
    intro line hline
    rw [List.mem_singleton.1 hline]
    exact isLegible_of_isPhrase (isPhrase_tagText (by decide) h)
  statement := by simp [ofMarker]
  ne_nil := .inl (List.cons_ne_nil _ _)

theorem legible_ofTable {name : String} (h : IsDottedName name.toList) : (ofTable name).Legible where
  docs := by simp [ofTable]
  statement := by
    rintro _ ⟨⟩
    exact isCode_tableText h
  ne_nil := .inr (by simp [ofTable])

theorem legible_ofReturn {name : String} (h : IsDottedName name.toList) : (ofReturn name).Legible where
  docs := by simp [ofReturn]
  statement := by
    rintro _ ⟨⟩
    exact isCode_of_name ⟨_, _, rfl, rfl⟩ (isPhrase_spaced isWord_return.isPhrase h.isWord.isPhrase)
  ne_nil := .inr (by simp [ofReturn])

theorem legible_ofAlias {a : Alias} (h : a.Readable) (hs : a.IsSettled) : (ofAlias a).Legible where
  docs := by
    intro text htext
    change text ∈ proseTexts a.description ++ tagText "alias" a.text :: a.members.map _ at htext
    rw [List.mem_append, List.mem_cons] at htext
    obtain htext | rfl | htext := htext
    · exact isLegible_proseTexts h.description text htext
    · exact isLegible_of_isPhrase (isPhrase_tagText (by decide) (.inr (a.isPhrase_text h hs.base)))
    · obtain ⟨m, hm, rfl⟩ := List.mem_map.1 htext
      have hbar : IsPhrase ['|'] := isPhrase_singleton rfl
      exact isLegible_of_isPhrase (isPhrase_spaced hbar (m.isPhrase_text (h.members m hm) (hs.members m hm)))
  statement := by simp [ofAlias]
  ne_nil := .inl (by simp [ofAlias, Alias.docs])

theorem legible_ofClass {c : ClassType} (h : c.Readable) (hs : c.IsSettled) {table : Option String}
    (htable : ∀ name, table = some name → IsDottedName name.toList)
    : (ofClass c table).Legible where
  docs := by
    intro text htext
    change text ∈ proseTexts c.description ++ tagText "class" c.text :: c.fields.map _ at htext
    rw [List.mem_append, List.mem_cons] at htext
    obtain htext | rfl | htext := htext
    · exact isLegible_proseTexts (fun d hd => (h.description d hd).1) text htext
    · exact isLegible_of_isPhrase (isPhrase_tagText (by decide) (.inr (c.isPhrase_text h)))
    · obtain ⟨f, hf, rfl⟩ := List.mem_map.1 htext
      have hphrase := f.isPhrase_text (h.fields f hf) (hs.fields f hf)
      exact isLegible_of_isPhrase (isPhrase_tagText (by decide) (.inr hphrase))
  statement := by
    intro s hs
    obtain ⟨name, hname, rfl⟩ := Option.map_eq_some_iff.1 hs
    exact isCode_tableText (htable name hname)
  ne_nil := .inl (by simp [ofClass, ClassType.docs])

theorem isLegible_flag {flag : Bool} {tag text : String} (htag : IsWord tag.toList)
    (htext : text = "" ∨ IsPhrase text.toList)
    : ∀ line ∈ if flag then [tagText tag text] else [], IsLegible line := by
  split
  · intro line hline
    rw [List.mem_singleton.1 hline]
    exact isLegible_of_isPhrase (isPhrase_tagText htag htext)
  · simp

theorem isLegible_each {α : Type} {xs : List α} {tag : String} (htag : IsWord tag.toList) {text : α → String}
    (htext : ∀ x ∈ xs, IsPhrase (text x).toList)
    : ∀ line ∈ xs.map fun x => tagText tag (text x), IsLegible line := by
  intro line hline
  obtain ⟨x, hx, rfl⟩ := List.mem_map.1 hline
  exact isLegible_of_isPhrase (isPhrase_tagText htag (.inr (htext x hx)))

theorem isLegible_tagTexts {f : Function} (h : f.Readable) (hs : f.IsSettled)
    : ∀ line ∈ f.tagTexts, IsLegible line := by
  have hreason : f.deprecationReason.getD "" = "" ∨ IsPhrase (f.deprecationReason.getD "").toList := by
    cases hd : f.deprecationReason with
    | none => exact .inl rfl
    | some d => exact .inr (h.deprecationReason d hd)
  unfold Function.tagTexts
  simp only [List.forall_mem_append]
  refine ⟨?deprecated, ?links, ?async, ?nodiscard, ?params, ?returns⟩
  case deprecated => exact isLegible_flag (by decide) hreason
  case links => exact isLegible_each (by decide) fun l hl => l.isPhrase_text (h.links l hl)
  case async => exact isLegible_flag (by decide) (.inl rfl)
  case nodiscard => exact isLegible_flag (by decide) (.inl rfl)
  case params =>
    exact isLegible_each (by decide) fun p hp => p.isPhrase_text (h.params p hp) (hs.params p hp)
  case returns =>
    exact isLegible_each (by decide) fun r hr => r.isPhrase_text (h.returns r hr) (hs.returns r hr)

theorem isCode_functionText {f : Function} (h : f.Readable) : IsCode (functionText f) := by
  obtain ⟨full, hfull, hsplit⟩ := h.name
  have hsignature : OneLine (join ", " f.signature).toList :=
    oneLine_join (by decide) fun p hp => (h.signature p hp).1
  have hopening : IsPhrase (f.qualifiedName.toList ++ ['(']) := by
    rw [toList_qualifiedName hsplit]
    exact hfull.isWord.isPhrase.append (isPhrase_singleton rfl)
  have hclosing : IsPhrase [')', ' ', 'e', 'n', 'd'] := .of_ends rfl rfl rfl rfl (by decide)
  have hname : IsPhrase (f.qualifiedName.toList ++
      '(' :: ((join ", " f.signature).toList ++ [')', ' ', 'e', 'n', 'd'])) := by
    simpa using hopening.around hsignature hclosing
  exact isCode_of_name ⟨_, _, rfl, rfl⟩ (isPhrase_spaced isWord_function.isPhrase hname)

theorem legible_ofFunction {f : Function} (h : f.Readable) (hs : f.IsSettled) : (ofFunction f).Legible where
  docs := by
    intro text htext
    change text ∈ (proseTexts f.description ++ _) ++ f.tagTexts at htext
    rw [List.mem_append, List.mem_append] at htext
    obtain (htext | htext) | htext := htext
    · exact isLegible_proseTexts (fun d hd => (h.description d hd).1) text htext
    · split at htext
      · cases htext
      · rw [List.mem_singleton.1 htext]
        exact ⟨oneLine_nil, rfl⟩
    · exact isLegible_tagTexts h hs text htext
  statement := by
    rintro _ ⟨⟩
    exact isCode_functionText h
  ne_nil := .inr (by simp [ofFunction])

end Written

/-! ### What a block adds to a file -/

namespace File

variable {f g : File} {b : Block} {a : Annotations}

theorem addBlock_alone (h : Annotations.ofDocs {} false false b.docs = .ok a) (htag : a.functionTag = none)
    (hstatement : b.statement = none)
    : f.addBlock b = .ok (f.addAnnotations (a.describe a.description?)) := by
  unfold addBlock
  rw [h, hstatement]
  dsimp only [bind, Except.bind, Option.bind]
  rw [htag]
  rfl

theorem addBlock_table (h : Annotations.ofDocs {} false false b.docs = .ok a) (htag : a.functionTag = none)
    {name : String} (hname : IsDottedName name.toList) (hstatement : b.statement = some (Written.tableText name))
    : f.addBlock b = .ok { f.addAnnotations (a.describe a.description?) with
        namespaces := f.namespaces ++
          [{ name, className := (a.describe a.description?).classes.getLast?.map (·.name) }] } := by
  unfold addBlock
  rw [h, hstatement]
  dsimp only [bind, Except.bind, Option.bind]
  rw [htag, show Statement.parse? (Written.tableText name) = _ from Statement.parse?_table hname]
  dsimp only [pure, Except.pure]
  rw [String.ofList_toList]
  rfl

theorem addBlock_moduleReturn (h : Annotations.ofDocs {} false false b.docs = .ok a) (htag : a.functionTag = none)
    {name : String} (hname : IsDottedName name.toList) (hstatement : b.statement = some (Written.returnText name))
    : f.addBlock b = .ok { f.addAnnotations (a.describe a.description?) with moduleReturn := some name } := by
  unfold addBlock
  rw [h, hstatement]
  dsimp only [bind, Except.bind, Option.bind]
  rw [htag, show Statement.parse? (Written.returnText name) = _ from Statement.parse?_moduleReturn hname]
  dsimp only [pure, Except.pure]
  rw [String.ofList_toList]

theorem addBlock_function (h : Annotations.ofDocs {} false false b.docs = .ok a) {fn : Function}
    (hfn : fn.Readable) (hstatement : b.statement = some (Written.functionText fn))
    : f.addBlock b = .ok { f.addAnnotations a with
        functions := f.functions ++ [a.function fn.qualifiedName.toList fn.signature] } := by
  obtain ⟨full, hfull, hsplit⟩ := hfn.name
  have hname : IsFunctionName fn.qualifiedName.toList := by
    rwa [toList_qualifiedName hsplit]
  unfold addBlock
  rw [h, hstatement]
  dsimp only [bind, Except.bind, Option.bind]
  rw [show Statement.parse? (Written.functionText fn) = _ from Statement.parse?_function hname hfn.signature]
  cases a.functionTag <;> rfl

/-! ### What a declaration adds -/

theorem isPhrase_of_trimmed {text : String} (h : Trimmed text.toList ∧ OneLine text.toList)
    : text = "" ∨ IsPhrase text.toList := by
  by_cases hempty : text = ""
  · exact .inl hempty
  · exact .inr ⟨h.1, fun hnil => hempty (String.toList_eq_nil_iff.1 hnil), h.2⟩

theorem addBlock_ofMarker {text : String} (h : text = "" ∨ IsPhrase text.toList)
    (hb : (Written.ofMarker text).Matches b)
    : f.addBlock b = .ok { f with marker := some text } := by
  have hleads : Annotations.Leads false [tagText "meta" text] {} false { marker := some text } false := by
    apply Annotations.leads_tag (by decide) h fun _ => rfl
    intro doc place
    unfold Annotations.addDeclared
    dsimp only
    rw [String.ofList_toList]
    rfl
  rw [addBlock_alone (hleads.ofDocs_eq hb.docs rfl rfl) rfl hb.statement]
  simp [addAnnotations, Annotations.description?, Annotations.describe]

theorem addBlock_ofAlias {a : Alias} (h : a.Readable) (hs : a.IsSettled) (hb : (Written.ofAlias a).Matches b)
    : f.addBlock b = .ok { f with aliases := f.aliases ++ [a] } := by
  have hdocs := a.ofDocs_eq h hs hb.docs
  rw [addBlock_alone hdocs rfl hb.statement, Annotations.description?_proseTexts h.description rfl]
  obtain ⟨name, base, members, description⟩ := a
  cases description <;> simp [addAnnotations, Annotations.describe, updateFirst]

theorem addBlock_ofClass {c : ClassType} (h : c.Readable) (hs : c.IsSettled) {table : Option String}
    (htable : ∀ name, table = some name → IsDottedName name.toList) (hb : (Written.ofClass c table).Matches b)
    : f.addBlock b = .ok { f with
        classes := f.classes ++ [c]
        namespaces := f.namespaces ++ (table.map fun name => { name, className := some c.name }).toList } := by
  have hdocs := c.ofDocs_eq h hs hb.docs
  have hprose : ∀ d, c.description = some d → IsProse (proseOf d) := fun d hd => (h.description d hd).1
  cases table with
  | none =>
    rw [addBlock_alone hdocs rfl hb.statement, Annotations.description?_proseTexts hprose rfl]
    obtain ⟨name, parents, description, fields⟩ := c
    cases description <;> simp [addAnnotations, Annotations.describe, updateLast]
  | some table =>
    rw [addBlock_table hdocs rfl (htable table rfl) hb.statement, Annotations.description?_proseTexts hprose rfl]
    obtain ⟨name, parents, description, fields⟩ := c
    cases description <;> simp [addAnnotations, Annotations.describe, updateLast]

theorem ofDocs_nil (h : b.docs.map DocLine.text = []) : Annotations.ofDocs {} false false b.docs = .ok {} := by
  rw [List.map_eq_nil_iff.1 h]
  rfl

theorem addBlock_ofTable {name : String} (h : IsDottedName name.toList) (hb : (Written.ofTable name).Matches b)
    : f.addBlock b = .ok { f with namespaces := f.namespaces ++ [{ name }] } := by
  rw [addBlock_table (ofDocs_nil hb.docs) rfl h hb.statement]
  simp [addAnnotations, Annotations.description?, Annotations.describe]

theorem addBlock_ofReturn {name : String} (h : IsDottedName name.toList) (hb : (Written.ofReturn name).Matches b)
    : f.addBlock b = .ok { f with moduleReturn := some name } := by
  rw [addBlock_moduleReturn (ofDocs_nil hb.docs) rfl h hb.statement]
  simp [addAnnotations, Annotations.description?, Annotations.describe]

theorem addBlock_ofFunction {fn : Function} (h : fn.Readable) (hs : fn.IsSettled)
    (hb : (Written.ofFunction fn).Matches b)
    : f.addBlock b = .ok { f with functions := f.functions ++ [fn] } := by
  obtain ⟨place, hdocs⟩ := fn.exists_ofDocs_eq h hs hb.docs
  obtain ⟨full, -, hsplit⟩ := h.name
  have hfunction : (fn.annotations place).function fn.qualifiedName.toList fn.signature = fn := by
    unfold Annotations.function
    rw [toList_qualifiedName hsplit, hsplit, fn.description?_annotations h]
    rfl
  rw [addBlock_function hdocs h hb.statement, hfunction]
  simp [addAnnotations, Function.annotations]

end File

end LuaTypes.Declaration
