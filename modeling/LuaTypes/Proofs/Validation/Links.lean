import LuaTypes.Declaration.Parser
import LuaTypes.Proofs.Analysis.Consistent
import LuaTypes.Proofs.SymbolTable.Lookup
import LuaTypes.Proofs.Text.Phrase
import LuaTypes.Proofs.Token.Cut
import LuaTypes.Validation

/-!
Links that lead nowhere. A link into a declared table is warned about if nothing of its name is declared. But links in
the descriptions of fields, parameters and results are not looked at, and tables with a separator in their names have
nothing within them.
-/

namespace LuaTypes

open Declaration

def Declaration.Corpus.DeclaresFunction (corpus : Corpus) (name : String) : Prop :=
  ∃ f ∈ corpus.functions, f.qualifiedName = name

namespace SymbolTable

variable {corpus : Corpus} {name : String}

theorem resolveType?_isSome_ofCorpus
    : ((ofCorpus corpus).resolveType? name).isSome = true ↔ corpus.DeclaresAlias name ∨ corpus.DeclaresClass name := by
  rw [← alias?_isSome_ofCorpus, ← hasClass_ofCorpus, resolveType?, hasClass]
  cases (ofCorpus corpus).alias? name <;> simp

theorem functionNamed?_isSome_ofCorpus
    : ((ofCorpus corpus).functionNamed? name).isSome = true ↔ corpus.DeclaresFunction name := by
  simp [functionNamed?_ofCorpus, Corpus.DeclaresFunction]

theorem pointed_eq_some_iff {pointedName : String}
    : pointed name = some pointedName ↔
        ∃ owner member, ':' ∉ owner.toList ∧ name = owner ++ ":" ++ member ∧ pointedName = owner ++ "." ++ member := by
  unfold pointed
  dsimp only
  constructor
  · intro h
    obtain ⟨howner, hcolon, hsplit⟩ := Lexeme.takeWhile_dropWhile (· ≠ ':') name.toList
    split at h
    next => cases h
    next c member hdrop =>
      rw [hdrop] at hcolon hsplit
      obtain rfl : c = ':' := by simpa using hcolon c rfl
      refine ⟨.ofList (name.toList.takeWhile (· ≠ ':')), .ofList member, ?_, ?_, ?_⟩
      · rw [String.toList_ofList]
        intro hmem
        simpa using howner ':' hmem
      · apply String.toList_inj.1
        simpa using hsplit
      · apply String.toList_inj.1
        simp [← Option.some.inj h]
  · rintro ⟨owner, member, howner, rfl, rfl⟩
    have hrun : ∀ c ∈ owner.toList, decide (c ≠ ':') = true := by
      intro c hc
      simpa using ne_of_mem_of_not_mem hc howner
    obtain ⟨htake, hdrop⟩ := @Text.run_append (· ≠ ':') owner.toList (':' :: member.toList) hrun (by simp)
    have hname : (owner ++ ":" ++ member).toList = owner.toList ++ ':' :: member.toList := by simp
    rw [hname, hdrop, htake]
    refine congrArg some (String.toList_inj.1 ?_)
    simp

theorem function?_isSome_ofCorpus
    : ((ofCorpus corpus).function? name).isSome = true ↔ corpus.DeclaresFunction name ∨
        ∃ owner member, ':' ∉ owner.toList ∧ name = owner ++ ":" ++ member ∧
          corpus.DeclaresFunction (owner ++ "." ++ member) := by
  rw [← functionNamed?_isSome_ofCorpus, function?]
  cases (ofCorpus corpus).functionNamed? name with
  | some f => simp
  | none =>
    have hpointed : ((pointed name).bind (ofCorpus corpus).functionNamed?).isSome = true ↔
        ∃ pointedName, pointed name = some pointedName ∧ corpus.DeclaresFunction pointedName := by
      cases pointed name <;> simp [functionNamed?_isSome_ofCorpus]
    simp only [Option.isSome_none, Bool.false_eq_true, false_or, hpointed, pointed_eq_some_iff]
    constructor
    · rintro ⟨_, ⟨owner, member, howner, hname, rfl⟩, h⟩
      exact ⟨owner, member, howner, hname, h⟩
    · rintro ⟨owner, member, howner, hname, h⟩
      exact ⟨_, ⟨owner, member, howner, hname, rfl⟩, h⟩

end SymbolTable

namespace Validation

/-! ### Links in texts -/

def StartsLink (s : List Char) : Prop :=
  ∃ c rest, s = linkScheme ++ c :: rest ∧ Text.isIdentifierStart c = true

/--
The names of the links in a text. Characters at which no link begins are passed over, a link goes as far as it can, and
what follows it is read anew.
-/
inductive HasLinks : List Char → List String → Prop where
  | nil : HasLinks [] []
  | skip {c s names} : ¬ StartsLink (c :: s) → HasLinks s names → HasLinks (c :: s) names
  | link {name rest names} : StartsLink (linkScheme ++ (name ++ rest)) → (∀ c ∈ name, inLink c = true) →
      (∀ c ∈ rest.head?, inLink c = false) → HasLinks rest names →
      HasLinks (linkScheme ++ (name ++ rest)) (String.ofList name :: names)

theorem linksFrom_eq_drop (skip : Nat) (s : List Char) : linksFrom skip s = linksFrom 0 (s.drop skip) := by
  induction s generalizing skip with
  | nil => simp [linksFrom]
  | cons c s ih =>
    cases skip with
    | zero => rfl
    | succ skip => rw [linksFrom, ih, List.drop_succ_cons]

theorem startsLink_iff {s : List Char}
    : StartsLink s ↔
        (linkScheme.isPrefixOf s && (s.drop linkScheme.length).head?.any Text.isIdentifierStart) = true := by
  rw [Bool.and_eq_true, List.isPrefixOf_iff_prefix]
  constructor
  · rintro ⟨c, rest, rfl, hc⟩
    simpa using hc
  · rintro ⟨⟨rest, rfl⟩, hstart⟩
    rw [List.drop_left] at hstart
    cases rest with
    | nil => cases hstart
    | cons c rest => exact ⟨c, rest, rfl, by simpa using hstart⟩

theorem linksFrom_of_not_startsLink {c : Char} {s : List Char} (h : ¬ StartsLink (c :: s))
    : linksFrom 0 (c :: s) = linksFrom 0 s := by
  rw [startsLink_iff] at h
  rw [linksFrom]
  exact if_neg h

theorem linksFrom_of_startsLink {name rest : List Char} (h : StartsLink (linkScheme ++ (name ++ rest)))
    (hname : ∀ c ∈ name, inLink c = true) (hrest : ∀ c ∈ rest.head?, inLink c = false)
    : linksFrom 0 (linkScheme ++ (name ++ rest)) = String.ofList name :: linksFrom 0 rest := by
  have htake : (name ++ rest).takeWhile inLink = name := (Text.run_append hname hrest).1
  rw [startsLink_iff] at h
  change linksFrom 0 ('l' :: (linkScheme.tail ++ (name ++ rest))) = _
  rw [linksFrom]
  refine (if_pos h).trans ?_
  change String.ofList ((name ++ rest).takeWhile inLink) ::
    linksFrom (linkScheme.tail.length + ((name ++ rest).takeWhile inLink).length) _ = _
  rw [htake, linksFrom_eq_drop, ← List.append_assoc, ← List.length_append, List.drop_left]

theorem hasLinks_iff {s : List Char} {names : List String} : HasLinks s names ↔ linksFrom 0 s = names := by
  constructor
  · intro h
    induction h with
    | nil => rfl
    | skip hstart _ ih => rw [linksFrom_of_not_startsLink hstart, ih]
    | link hstart hname hrest _ ih => rw [linksFrom_of_startsLink hstart hname hrest, ih]
  · rintro rfl
    -- A link takes away its scheme at least, so what follows it is shorter than the text.
    induction hn : s.length using Nat.strongRecOn generalizing s with
    | ind n ih =>
      by_cases hstart : StartsLink s
      · obtain ⟨c, rest, rfl, -⟩ := id hstart
        obtain ⟨hname, hrest, hsplit⟩ := Lexeme.takeWhile_dropWhile inLink (c :: rest)
        have hlength := (List.dropWhile_suffix inLink (l := c :: rest)).length_le
        have hlt : ((c :: rest).dropWhile inLink).length < n := by
          rw [← hn, List.length_append, linkScheme]
          simp only [List.length_cons] at hlength ⊢
          omega
        rw [hsplit] at hstart ⊢
        rw [linksFrom_of_startsLink hstart hname hrest]
        exact .link hstart hname hrest (ih _ hlt rfl)
      · cases s with
        | nil => exact .nil
        | cons c s =>
          rw [linksFrom_of_not_startsLink hstart]
          exact .skip hstart (ih s.length (by simp [← hn]) rfl)

/-! ### Links of a corpus -/

inductive Site where
  | tag
  | declaration
  | part

inductive Described (corpus : Corpus) : Owner → Site → String → Prop where
  | classText {c d} : c ∈ corpus.classes → c.description = some d →
      Described corpus ⟨.classType, c.name⟩ .declaration d
  | aliasText {a d} : a ∈ corpus.aliases → a.description = some d → Described corpus ⟨.alias, a.name⟩ .declaration d
  | functionText {f d} : f ∈ corpus.functions → f.description = some d →
      Described corpus ⟨.function, f.qualifiedName⟩ .declaration d
  | field {c field d} : c ∈ corpus.classes → field ∈ c.fields → field.description = some d →
      Described corpus ⟨.classType, c.name⟩ .part d
  | param {f p d} : f ∈ corpus.functions → p ∈ f.params → p.description = some d →
      Described corpus ⟨.function, f.qualifiedName⟩ .part d
  | result {f r d} : f ∈ corpus.functions → r ∈ f.returns → r.description = some d →
      Described corpus ⟨.function, f.qualifiedName⟩ .part d

inductive Linked (corpus : Corpus) : Owner → Site → String → Prop where
  | tag {f l} : f ∈ corpus.functions → l ∈ f.links → Linked corpus ⟨.function, f.qualifiedName⟩ .tag l.target
  | text {owner site d names name} : Described corpus owner site d → HasLinks d.toList names → name ∈ names →
      Linked corpus owner site name

theorem mem_linksIn_iff {description : Option String} {name : String}
    : name ∈ linksIn description ↔ ∃ d names, description = some d ∧ HasLinks d.toList names ∧ name ∈ names := by
  cases description with
  | none => simp [linksIn, linksFrom]
  | some d => simp [linksIn, hasLinks_iff]

theorem exists_mem_linksOf_iff {corpus : Corpus} {owner : Owner} {name : String}
    : (∃ m ∈ corpus.files, (owner, name) ∈ linksOf m.2) ↔ ∃ site, site ≠ .part ∧ Linked corpus owner site name := by
  simp only [linksOf, List.mem_append, List.mem_flatMap, List.mem_map, mem_linksIn_iff, Prod.mk.injEq]
  constructor
  · rintro ⟨m, hm, (⟨c, hc, _, ⟨d, names, hd, hlinks, hname⟩, rfl, rfl⟩ |
      ⟨a, ha, _, ⟨d, names, hd, hlinks, hname⟩, rfl, rfl⟩) |
      ⟨f, hf, _, ⟨l, hl, rfl⟩ | ⟨d, names, hd, hlinks, hname⟩, rfl, rfl⟩⟩
    · exact ⟨.declaration, by simp, .text (.classText (List.mem_flatMap.2 ⟨m, hm, hc⟩) hd) hlinks hname⟩
    · exact ⟨.declaration, by simp, .text (.aliasText (List.mem_flatMap.2 ⟨m, hm, ha⟩) hd) hlinks hname⟩
    · exact ⟨.tag, by simp, .tag (List.mem_flatMap.2 ⟨m, hm, hf⟩) hl⟩
    · exact ⟨.declaration, by simp, .text (.functionText (List.mem_flatMap.2 ⟨m, hm, hf⟩) hd) hlinks hname⟩
  · rintro ⟨site, hsite, h⟩
    cases h with
    | tag hf hl =>
      obtain ⟨m, hm, hf⟩ := List.mem_flatMap.1 hf
      exact ⟨m, hm, .inr ⟨_, hf, _, .inl ⟨_, hl, rfl⟩, rfl, rfl⟩⟩
    | text hd hlinks hname =>
      -- What is left of the descriptions are those of parts, at which no link is looked at.
      cases hd with
      | classText hc hd =>
        obtain ⟨m, hm, hc⟩ := List.mem_flatMap.1 hc
        exact ⟨m, hm, .inl (.inl ⟨_, hc, _, ⟨_, _, hd, hlinks, hname⟩, rfl, rfl⟩)⟩
      | aliasText ha hd =>
        obtain ⟨m, hm, ha⟩ := List.mem_flatMap.1 ha
        exact ⟨m, hm, .inl (.inr ⟨_, ha, _, ⟨_, _, hd, hlinks, hname⟩, rfl, rfl⟩)⟩
      | functionText hf hd =>
        obtain ⟨m, hm, hf⟩ := List.mem_flatMap.1 hf
        exact ⟨m, hm, .inr ⟨_, hf, _, .inr ⟨_, _, hd, hlinks, hname⟩, rfl, rfl⟩⟩
      | _ => exact absurd rfl hsite

/-! ### Names of a corpus -/

def HasField (corpus : Corpus) (owner member : String) : Prop :=
  ∃ c ∈ corpus.classes.find? (·.name = owner), ∃ field ∈ c.fields, field.name = some member

inductive Names (corpus : Corpus) : String → Prop where
  | globalTable {target} : corpus.DeclaresNamespace target → Names corpus target
  | aliasName {target} : corpus.DeclaresAlias target → Names corpus target
  | className {target} : corpus.DeclaresClass target → Names corpus target
  | function {target} : corpus.DeclaresFunction target → Names corpus target
  | method {owner name} : ':' ∉ owner.toList → corpus.DeclaresFunction (owner ++ "." ++ name) →
      Names corpus (owner ++ ":" ++ name)
  | field {owner member} : HasField corpus owner member → '.' ∉ member.toList → Names corpus (owner ++ "." ++ member)
  | unowned {member} : HasField corpus "" member → '.' ∉ member.toList → Names corpus member

theorem namesField_iff_hasField {corpus : Corpus} {target : String} {owner member : List Char}
    (h : (Text.splitAtLast? '.' target.toList).getD ([], target.toList) = (owner, member))
    : namesField (.ofCorpus corpus) target = true ↔ HasField corpus (.ofList owner) (.ofList member) := by
  unfold namesField HasField
  rw [h]
  dsimp only
  rw [SymbolTable.class?_ofCorpus]
  cases corpus.classes.find? (·.name = String.ofList owner) <;> simp

theorem namesField_iff {corpus : Corpus} {target : String}
    : namesField (.ofCorpus corpus) target = true ↔
        (∃ owner member, HasField corpus owner member ∧ '.' ∉ member.toList ∧ target = owner ++ "." ++ member) ∨
          HasField corpus "" target ∧ '.' ∉ target.toList := by
  cases hsplit : Text.splitAtLast? '.' target.toList with
  | none =>
    have htarget := Text.splitAtLast?_eq_none_iff.1 hsplit
    rw [namesField_iff_hasField (by rw [hsplit, Option.getD_none]), String.ofList_toList]
    refine ⟨fun h => .inr ⟨h, htarget⟩, ?_⟩
    rintro (⟨owner, member, -, -, rfl⟩ | ⟨h, -⟩)
    · simp at htarget
    · exact h
  | some parts =>
    obtain ⟨before, after⟩ := parts
    obtain ⟨htarget, hafter⟩ := Text.splitAtLast?_eq_some_iff.1 hsplit
    rw [namesField_iff_hasField (by rw [hsplit, Option.getD_some])]
    refine ⟨fun h => .inl ⟨_, _, h, by simpa using hafter, ?_⟩, ?_⟩
    · apply String.toList_inj.1
      simp [htarget]
    · rintro (⟨owner, member, h, hmember, rfl⟩ | ⟨-, hnone⟩)
      · have hparts := Text.splitAtLast?_append hmember owner.toList
        have htoList : (owner ++ "." ++ member).toList = owner.toList ++ '.' :: member.toList := by simp
        rw [htoList, hparts] at hsplit
        cases hsplit
        rwa [String.ofList_toList, String.ofList_toList]
      · rw [htarget] at hnone
        simp at hnone

theorem isDeclared_iff {corpus : Corpus} {target : String}
    : isDeclared (.ofCorpus corpus) target = true ↔ Names corpus target := by
  rw [isDeclared, Bool.or_eq_true, Bool.or_eq_true, Bool.or_eq_true, SymbolTable.hasNamespace_ofCorpus,
    SymbolTable.resolveType?_isSome_ofCorpus, SymbolTable.function?_isSome_ofCorpus, namesField_iff]
  constructor
  · rintro (((h | h | h) | h | ⟨owner, name, howner, rfl, h⟩) | ⟨owner, member, h, hmember, rfl⟩ | ⟨h, hmember⟩)
    · exact .globalTable h
    · exact .aliasName h
    · exact .className h
    · exact .function h
    · exact .method howner h
    · exact .field h hmember
    · exact .unowned h hmember
  · intro h
    cases h with
    | globalTable h => exact .inl (.inl (.inl h))
    | aliasName h => exact .inl (.inl (.inr (.inl h)))
    | className h => exact .inl (.inl (.inr (.inr h)))
    | function h => exact .inl (.inr (.inl h))
    | method howner h => exact .inl (.inr (.inr ⟨_, _, howner, rfl, h⟩))
    | field h hmember => exact .inr (.inl ⟨_, _, h, hmember, rfl⟩)
    | unowned h hmember => exact .inr (.inr ⟨h, hmember⟩)

/-! ### Targets within tables -/

def IsWithin (table target : String) : Prop :=
  ∃ c rest, isSeparator c = true ∧ target.toList = table.toList ++ c :: rest

def IsPlain (name : String) : Prop :=
  ∀ c ∈ name.toList, isSeparator c = false

def Trims (name target : String) : Prop :=
  (∃ tail, name.toList = target.toList ++ tail ∧ ∀ c ∈ tail, isSeparator c = true) ∧
    ∀ c ∈ target.toList.getLast?, isSeparator c = false

theorem trims_iff {name target : String} : Trims name target ↔ trimTarget name = target := by
  constructor
  · rintro ⟨⟨tail, hname, htail⟩, hlast⟩
    have hdrop := (@Text.run_append isSeparator tail.reverse target.toList.reverse (by simpa using htail)
      (by simpa using hlast)).2
    rw [trimTarget, hname, List.reverse_append, hdrop, List.reverse_reverse, String.ofList_toList]
  · rintro rfl
    obtain ⟨htail, hlast, hsplit⟩ := Lexeme.takeWhile_dropWhile isSeparator name.toList.reverse
    refine ⟨⟨(name.toList.reverse.takeWhile isSeparator).reverse, ?_, ?_⟩, ?_⟩
    · rw [trimTarget, String.toList_ofList, ← List.reverse_append, ← hsplit, List.reverse_reverse]
    · simpa using htail
    · simpa [trimTarget] using hlast

theorem isInNamespace_iff {corpus : Corpus} {target : String}
    : isInNamespace (.ofCorpus corpus) target = true ↔
        ∃ table, IsPlain table ∧ corpus.DeclaresNamespace table ∧ IsWithin table target := by
  rw [isInNamespace, Bool.and_eq_true, SymbolTable.hasNamespace_ofCorpus]
  constructor
  · rintro ⟨hany, htable⟩
    obtain ⟨hplain, hhead, hsplit⟩ := Lexeme.takeWhile_dropWhile (! isSeparator ·) target.toList
    refine ⟨_, by simpa [IsPlain] using hplain, htable, ?_⟩
    cases hdrop : target.toList.dropWhile (! isSeparator ·) with
    | nil =>
      rw [hdrop, List.append_nil] at hsplit
      rw [hsplit] at hany
      grind
    | cons c rest =>
      rw [hdrop] at hhead hsplit
      exact ⟨c, rest, by simpa using hhead c rfl, by rwa [String.toList_ofList]⟩
  · rintro ⟨table, hplain, htable, c, rest, hc, htarget⟩
    have htake := (@Text.run_append (! isSeparator ·) table.toList (c :: rest) (by simpa [IsPlain] using hplain)
      (by simpa using hc)).1
    rw [htarget, htake, String.ofList_toList]
    exact ⟨by simp [hc], htable⟩

theorem mem_linkWarnings_iff {corpus : Corpus} {owner owner' : Owner} {name target : String}
    : .danglingLink owner target ∈ linkWarnings (.ofCorpus corpus) owner' name ↔
        owner' = owner ∧ Trims name target ∧ ¬ Names corpus target ∧
          ∃ table, IsPlain table ∧ corpus.DeclaresNamespace table ∧ IsWithin table target := by
  rw [trims_iff, linkWarnings, ← isInNamespace_iff, ← isDeclared_iff]
  split
  next h =>
    rw [Bool.and_eq_true, Bool.not_eq_true'] at h
    simp only [List.mem_singleton, Warning.danglingLink.injEq]
    grind
  next h =>
    grind

/--
Is there a link of the owner at such a site that leads into a declared table, but to nothing that is declared?
-/
def IsDangling (corpus : Corpus) (owner : Owner) (site : Site) (target : String) : Prop :=
  ∃ name, Linked corpus owner site name ∧ Trims name target ∧ ¬ Names corpus target ∧
    ∃ table, corpus.DeclaresNamespace table ∧ IsWithin table target

/--
Each dangling link is warned about, but for those of fields, parameters and results and those into tables whose names
have separators.
-/
theorem danglingLink_mem_warnings_iff [Dump] (corpus : Corpus) (owner : Owner) (target : String)
    : .danglingLink owner target ∈ warnings corpus ↔
        (∃ site, site ≠ .part ∧ IsDangling corpus owner site target) ∧
          ∃ table, IsPlain table ∧ corpus.DeclaresNamespace table ∧ IsWithin table target := by
  have hfunctions : (.danglingLink owner target) ∉ corpus.functions.flatMap functionWarnings := by
    intro h
    obtain ⟨f, -, h⟩ := List.mem_flatMap.1 h
    simp [functionWarnings] at h
  have hunions : (.danglingLink owner target) ∉ corpus.files.flatMap fun m =>
      (typesOf m.2).flatMap fun o => unionWarnings o.1 o.2 := by
    intro h
    obtain ⟨m, -, h⟩ := List.mem_flatMap.1 h
    obtain ⟨o, -, h⟩ := List.mem_flatMap.1 h
    simp [unionWarnings] at h
  rw [warnings]
  dsimp only
  rw [List.mem_append, List.mem_append, or_iff_right hfunctions, or_iff_right hunions]
  simp only [List.mem_flatMap, Prod.exists, mem_linkWarnings_iff]
  constructor
  · rintro ⟨key, f, hf, _, name, hl, rfl, htrims, hnames, hplain⟩
    obtain ⟨site, hsite, hlinked⟩ := exists_mem_linksOf_iff.1 ⟨(key, f), hf, hl⟩
    obtain ⟨table, -, htable⟩ := id hplain
    exact ⟨⟨site, hsite, name, hlinked, htrims, hnames, table, htable⟩, hplain⟩
  · rintro ⟨⟨site, hsite, name, hlinked, htrims, hnames, -⟩, hplain⟩
    obtain ⟨m, hm, hl⟩ := exists_mem_linksOf_iff.2 ⟨site, hsite, hlinked⟩
    exact ⟨m.1, m.2, hm, owner, name, hl, rfl, htrims, hnames, hplain⟩

/-! ### Links that are passed over -/

def osClass : ClassType where
  name := "os"
  fields := [{ name := some "f", type := .named "any", description := some "lua://os.g" }]

def osFile : File where
  namespaces := [{ name := "os", className := some "os" }]
  classes := [osClass]

def osText : String :=
  "--- @class os\n--- @field f any lua://os.g\nos = {}\n"

def dottedFunction : Function where
  name := "f"
  links := [{ target := "a.b.c" }]

def dottedFile : File where
  namespaces := [{ name := "a.b", className := some "a.b" }]
  classes := [{ name := "a.b" }]
  functions := [dottedFunction]

def dottedText : String :=
  "--- @class a.b\na.b = {}\n\n--- @see a.b.c\nfunction f() end\n"

def passedLinks : Corpus where
  files := [("a", osFile), ("b", dottedFile)]

theorem parse_osText : File.parse osText = .ok osFile := by
  decide +kernel

theorem parse_dottedText : File.parse dottedText = .ok dottedFile := by
  decide +kernel

theorem isDangling_os : IsDangling passedLinks ⟨.classType, "os"⟩ .part "os.g" := by
  have hclass : osClass ∈ passedLinks.classes := by simp [passedLinks, Corpus.classes, osFile]
  have hlinks : HasLinks "lua://os.g".toList ["os.g"] := hasLinks_iff.2 (by rfl)
  refine ⟨"os.g", .text (.field hclass (List.mem_singleton.2 rfl) rfl) hlinks (by simp), trims_iff.2 (by rfl), ?_,
    "os", ?_, '.', "g".toList, by rfl, by rfl⟩
  · rw [← isDeclared_iff, Bool.not_eq_true]
    rfl
  · simp [passedLinks, Corpus.DeclaresNamespace, Corpus.namespaces, osFile]

theorem isDangling_dotted : IsDangling passedLinks ⟨.function, "f"⟩ .tag "a.b.c" := by
  have hfunction : dottedFunction ∈ passedLinks.functions := by
    simp [passedLinks, Corpus.functions, dottedFile]
  refine ⟨"a.b.c", .tag hfunction (List.mem_singleton.2 rfl), trims_iff.2 (by rfl), ?_, "a.b", ?_, '.', "c".toList,
    by rfl, by rfl⟩
  · rw [← isDeclared_iff, Bool.not_eq_true]
    rfl
  · simp [passedLinks, Corpus.DeclaresNamespace, Corpus.namespaces, dottedFile]

theorem not_warned_passedLinks
    : File.parse osText = .ok osFile ∧ File.parse dottedText = .ok dottedFile ∧
        IsDangling passedLinks ⟨.classType, "os"⟩ .part "os.g" ∧
        IsDangling passedLinks ⟨.function, "f"⟩ .tag "a.b.c" ∧ warnings passedLinks = [] :=
  ⟨parse_osText, parse_dottedText, isDangling_os, isDangling_dotted, by rfl⟩

end Validation

end LuaTypes
