import LuaTypes.Proofs.Assignability.Rules
import LuaTypes.Proofs.TypeExpr.Occurs

/-!
Types that fit themselves. Every type does whose names do, but an alias is compared as a name with the
alternatives of its definition: it fits itself only where the definition leads back to it, or to a type
that goes with everything.
-/

namespace LuaTypes

namespace TypeExpr

/--
The type `u` is one of the types that a comparison with a type comes to by its form: the members of unions,
the inner types of optionals and the elements of arrays, but no arguments, parameters, results or fields.
-/
inductive Part (u : TypeExpr) : TypeExpr → Prop where
  | refl : Part u u
  | member {t members} : t ∈ members → Part u t → Part u (.union members)
  | inner {t} : Part u t → Part u (.optional t)
  | element {t} : Part u t → Part u (.array t)

def HasValues (t : TypeExpr) : Prop :=
  ∀ x, Part (.literal (.float x)) t → x.isNaN = false

/--
The single alternatives of a type; what is optional may be `nil`.
-/
inductive Choice : TypeExpr → TypeExpr → Prop where
  | refl {t} : t.isChoice = false → Choice t t
  | member {t u members} : t ∈ members → Choice u t → Choice u (.union members)
  | nil {t} : Choice .nil (.optional t)
  | inner {t u} : Choice u t → Choice u (.optional t)

theorem Choice.isChoice_eq_false {t u : TypeExpr} (h : Choice u t) : u.isChoice = false := by
  induction h with
  | refl h => exact h
  | member _ _ ih => exact ih
  | nil => rfl
  | inner _ ih => exact ih

end TypeExpr

theorem beq_self_of_not_isNaN {x : Float} (h : x.isNaN = false) : (x == x) = true := by
  change x.toModel.unpack.isNaN = false at h
  change x.toModel.unpack.beq x.toModel.unpack = true
  cases hx : x.toModel.unpack with
  | notANumber => rw [hx] at h; cases h
  | infinity sign => cases sign <;> rfl
  | zero sign => rfl
  | finite sign m e =>
    have hparts : (compare e e).then (compare m m) = .eq := by simp [Ordering.then]
    cases sign with
    | positive =>
      change (some ((compare e e).then (compare m m)) == some .eq) = true
      rw [hparts]
      rfl
    | negative =>
      change (some ((compare e e).then (compare m m)).swap == some .eq) = true
      rw [hparts]
      rfl

namespace SymbolTable

open TypeExpr

/--
The type `u` is an alternative of a type: a member of a union, what may be missing, or an alternative of the
definition of an alias that is not in `expanding`.
-/
inductive Leads (table : SymbolTable) (expanding : List String) (u : TypeExpr) : TypeExpr → Prop where
  | refl : Leads table expanding u u
  | member {t members} : t ∈ members → Leads table expanding u t → Leads table expanding u (.union members)
  | inner {t} : Leads table expanding u t → Leads table expanding u (.optional t)
  | definition {name t} : name ∉ expanding → table.expandAlias? name = some t → Leads table expanding u t →
      Leads table expanding u (.named name)

/--
Does an alias lead back to itself, or to a type that goes with everything?
-/
def Returns (table : SymbolTable) (name : String) : Prop :=
  ∀ t, table.expandAlias? name = some t → ∃ u, table.Leads [] u t ∧ (u.isTop = true ∨ u = .named name)

variable {table : SymbolTable} {expanding : List String} {s t u : TypeExpr} {name : String}

/-! ### Alternatives -/

theorem accepts_iff_forall_choice
    : table.accepts expanding s t = true ↔ ∀ a, Choice a s → table.accepts expanding a t = true := by
  induction s with
  | union members ih =>
    rw [accepts_union_left, List.all_eq_true]
    constructor
    · intro h a ha
      cases ha with
      | refl h => cases h
      | member hs ha => exact (ih _ hs).1 (h _ hs) a ha
    · exact fun h s hs => (ih s hs).2 fun a ha => h a (.member hs ha)
  | optional inner ih =>
    rw [accepts_optional_left, Bool.and_eq_true]
    constructor
    · intro h a ha
      cases ha with
      | refl h => cases h
      | nil => exact h.1
      | inner ha => exact ih.1 h.2 a ha
    · exact fun h => ⟨h _ .nil, ih.2 fun a ha => h a (.inner ha)⟩
  | _ =>
    constructor
    · intro h a ha
      cases ha
      exact h
    · exact fun h => h _ (.refl rfl)

theorem accepts_of_choice (h : Choice u t)
    (hparts : ∀ v, Part v t → v.isChoice = false → table.accepts expanding v v = true)
    : table.accepts expanding u t = true := by
  induction h with
  | refl h => exact hparts _ .refl h
  | @member t u members ht hu ih =>
    by_cases htop : u.isTop = true
    · exact accepts_of_isTop_left htop
    · rw [accepts_union_right hu.isChoice_eq_false (by simpa using htop), List.any_eq_true]
      exact ⟨t, ht, ih fun v hv => hparts v (.member ht hv)⟩
  | nil =>
    rw [accepts_optional_right rfl]
    rfl
  | inner hu ih =>
    rw [accepts_optional_right hu.isChoice_eq_false, ih fun v hv => hparts v (.inner hv), Bool.or_true]

theorem accepts_self_of_parts
    (hparts : ∀ v, Part v t → v.isChoice = false → table.accepts expanding v v = true)
    : table.accepts expanding t t = true :=
  accepts_iff_forall_choice.2 fun _ hu => accepts_of_choice hu hparts

/-! ### Names -/

theorem Leads.cut (h : table.Leads expanding u t) (name : String)
    : table.Leads (name :: expanding) u t ∨
      ∃ v, table.expandAlias? name = some v ∧ table.Leads (name :: expanding) u v := by
  induction h with
  | refl => exact .inl .refl
  | member ht _ ih => exact ih.imp_left (.member ht)
  | inner _ ih => exact ih.imp_left .inner
  | @definition other t hother ht _ ih =>
    cases ih with
    | inr hlast => exact .inr hlast
    | inl h =>
      by_cases heq : other = name
      · exact .inr ⟨t, heq ▸ ht, h⟩
      · exact .inl (.definition (by simp [heq, hother]) ht h)

theorem Leads.definition_cons (h : table.Leads expanding u t) (ht : table.expandAlias? name = some t)
    : table.Leads (name :: expanding) u t := by
  cases h.cut name with
  | inl h => exact h
  | inr hlast =>
    obtain ⟨v, hv, h⟩ := hlast
    rw [ht] at hv
    cases hv
    exact h

theorem accepts_of_leads (hname : name ∈ expanding) (h : table.Leads expanding u t)
    (hu : u.isTop = true ∨ u = .named name)
    : table.accepts expanding (.named name) t = true := by
  -- The way to `u` says at each rule which alternative to take.
  generalize hs : TypeExpr.named name = s
  induction expanding, s, t using accepts_induction table with
  | top htop => exact accepts_of_isTop htop
  | unionSource => cases hs
  | optionalSource => cases hs
  | unionTarget hchoice htop ih =>
    rw [accepts_union_right hchoice htop, List.any_eq_true]
    cases h with
    | refl => simp at hu
    | member ht h => exact ⟨_, ht, ih _ ht hname h hs⟩
  | optionalTarget hchoice ih =>
    rw [accepts_optional_right hchoice, Bool.or_eq_true]
    cases h with
    | refl => simp at hu
    | inner h => exact .inr (ih hname h hs)
  | @expandTarget expanding s other t hchoice _ htop hother ht ih =>
    rw [accepts_of_expansion_right hchoice htop (expansion?_eq_some_iff.2 ⟨rfl, hother, ht⟩)]
    cases h with
    | refl =>
      cases hu with
      | inl hu => rw [htop] at hu; cases hu
      | inr hu => cases hu; exact absurd hname hother
    | definition _ ht' h =>
      rw [ht] at ht'
      cases ht'
      exact ih (.tail _ hname) (h.definition_cons ht) hs
  | expandSource _ _ _ _ hother =>
    cases hs
    exact absurd hname hother
  | array => cases hs
  | bare hbare =>
    rw [hbare.accepts_eq]
    cases h with
    | refl =>
      cases hu with
      | inl hu => rw [hbare.target_not_top] at hu; cases hu
      | inr hu =>
        subst hs hu
        simp [fits, fitsName]
    | member => cases hbare.target
    | inner => cases hbare.target
    | definition hother ht =>
      have := expansion?_eq_some_iff.2 ⟨rfl, hother, ht⟩
      rw [hbare.target_none] at this
      cases this

/--
Does the name stand for nothing but its definition?
-/
structure Plain (table : SymbolTable) (name : String) : Prop where
  notMem_builtinNames : name ∉ builtinNames
  hasClass_eq_false : table.hasClass name = false

theorem Plain.ne (h : table.Plain name) (other : String) (hother : other ∈ builtinNames) : name ≠ other :=
  fun heq => h.notMem_builtinNames (heq ▸ hother)

theorem Plain.isTop_eq_false (h : table.Plain name) : (TypeExpr.named name).isTop = false := by
  simp [isTop, h.ne "any" (by decide), h.ne "unknown" (by decide)]

theorem ancestors_eq_nil (h : table.hasClass name = false) : table.ancestors name = [] := by
  rw [hasClass, Option.isSome_eq_false_iff, Option.isNone_iff_eq_none] at h
  rw [ancestors, parents, h, ancestorsFrom]

theorem Plain.isTableLike_eq_false (h : table.Plain name) : table.isTableLike (.named name) = false := by
  have hname := h.ne "table" (by decide)
  simp [isTableLike, h.hasClass_eq_false, hname]

theorem Plain.eq_of_fits (h : table.Plain name) (hfits : table.fits (.named name) t = true)
    : t = .named name := by
  cases t with
  | named other =>
    have hname := h.ne "integer" (by decide)
    simpa [fits, fitsName, ancestors_eq_nil h.hasClass_eq_false, h.hasClass_eq_false, hname, eq_comm] using hfits
  | function =>
    have hname := h.ne "function" (by decide)
    simp [fits, hname] at hfits
  | array => rw [fits, h.isTableLike_eq_false] at hfits; cases hfits
  | generic => rw [fits, h.isTableLike_eq_false] at hfits; cases hfits
  | table => rw [fits, h.isTableLike_eq_false] at hfits; cases hfits
  | _ => cases hfits

theorem Plain.exists_leads (hplain : table.Plain name) (hname : name ∈ expanding)
    (h : table.accepts expanding (.named name) t = true)
    : ∃ u, table.Leads [] u t ∧ (u.isTop = true ∨ u = .named name) := by
  -- The rules by which the name is accepted, one after the other, are the way.
  generalize hs : TypeExpr.named name = s at h
  induction expanding, s, t using accepts_induction table with
  | @top _ s t htops =>
    subst hs
    rw [hplain.isTop_eq_false, Bool.false_or] at htops
    exact ⟨t, .refl, .inl htops⟩
  | unionSource => cases hs
  | optionalSource => cases hs
  | unionTarget hchoice hstop ih =>
    rw [accepts_union_right hchoice hstop, List.any_eq_true] at h
    obtain ⟨t, ht, h⟩ := h
    obtain ⟨u, hleads, hu⟩ := ih t ht hname hs h
    exact ⟨u, .member ht hleads, hu⟩
  | @optionalTarget _ s t hchoice ih =>
    have hnil : s.isNil = false := by
      simp [← hs, isNil, hplain.ne "nil" (by decide)]
    rw [accepts_optional_right hchoice, hnil, Bool.false_or] at h
    obtain ⟨u, hleads, hu⟩ := ih hname hs h
    exact ⟨u, .inner hleads, hu⟩
  | expandTarget hchoice _ httop hother ht ih =>
    rw [accepts_of_expansion_right hchoice httop (expansion?_eq_some_iff.2 ⟨rfl, hother, ht⟩)] at h
    obtain ⟨u, hleads, hu⟩ := ih (.tail _ hname) hs h
    exact ⟨u, .definition (by simp) ht hleads, hu⟩
  | expandSource _ _ _ _ hother =>
    cases hs
    exact absurd hname hother
  | array => cases hs
  | @bare _ s t hbare =>
    subst hs
    rw [hbare.accepts_eq] at h
    exact ⟨t, .refl, .inr (hplain.eq_of_fits h)⟩

/-! ### All types -/

theorem assignable_named (htop : (TypeExpr.named name).isTop = false) (ht : table.expandAlias? name = some t)
    : table.assignable (.named name) (.named name) = table.accepts [name] (.named name) t :=
  accepts_of_expansion_right rfl htop (expansion?_eq_some_iff.2 ⟨rfl, by simp, ht⟩)

theorem assignable_named_of_returns (h : (TypeExpr.named name).isTop = false → table.Returns name)
    : table.assignable (.named name) (.named name) = true := by
  by_cases htop : (TypeExpr.named name).isTop = true
  · exact accepts_of_isTop_left htop
  rw [Bool.not_eq_true] at htop
  cases ht : table.expandAlias? name with
  | some t =>
    obtain ⟨u, hleads, hu⟩ := h htop t ht
    rw [assignable_named htop ht]
    exact accepts_of_leads (by simp) (hleads.definition_cons ht) hu
  | none =>
    have hnone : table.expansion? [] (.named name) = none := by
      simp [expansion?, ht]
    have hbare : table.Bare [] (.named name) (.named name) :=
      ⟨rfl, rfl, htop, htop, hnone, hnone, by simp⟩
    rw [assignable, hbare.accepts_eq]
    simp [fits, fitsName]

theorem accepts_part_self (hvalues : t.HasValues)
    (hnames : ∀ name, Part (.named name) t → table.assignable (.named name) (.named name) = true)
    : ∀ u, Part u t → table.accepts [] u u = true := by
  -- Where neither side is taken apart, only `fits` is left to show.
  have hself : ∀ {t : TypeExpr}, t.isChoice = false → t.isTop = false → table.expansion? [] t = none →
      (∀ a, t ≠ .array a) → table.fits t t = true → table.accepts [] t t = true := by
    intro t hchoice htop hnone harray hfits
    rw [Bare.accepts_eq ⟨hchoice, hchoice, htop, htop, hnone, hnone, fun a _ ha => absurd ha (harray a)⟩]
    exact hfits
  induction t with
  | named name =>
    rintro u ⟨⟩
    exact hnames name .refl
  | literal value =>
    rintro u ⟨⟩
    apply hself rfl rfl rfl (by simp)
    cases value with
    | float x => exact beq_self_of_not_isNaN (hvalues x .refl)
    | _ => simp [fits, Literal.equals]
  | vararg =>
    rintro u ⟨⟩
    exact accepts_of_isTop_left rfl
  | union members ih =>
    have hmember : ∀ u, ∀ t ∈ members, Part u t → table.accepts [] u u = true := fun u t ht hu =>
      ih t ht (fun x hx => hvalues x (.member ht hx)) (fun name hname => hnames name (.member ht hname)) u hu
    intro u hu
    cases hu with
    | member ht hu => exact hmember u _ ht hu
    | refl =>
      apply accepts_self_of_parts
      intro v hv hchoice
      cases hv with
      | refl => cases hchoice
      | member ht hv => exact hmember v _ ht hv
  | optional inner ih =>
    have hinner := ih (fun x hx => hvalues x (.inner hx)) fun name hname => hnames name (.inner hname)
    intro u hu
    cases hu with
    | inner hu => exact hinner u hu
    | refl =>
      apply accepts_self_of_parts
      intro v hv hchoice
      cases hv with
      | refl => cases hchoice
      | inner hv => exact hinner v hv
  | array element ih =>
    have helement := ih (fun x hx => hvalues x (.element hx)) fun name hname => hnames name (.element hname)
    intro u hu
    cases hu with
    | element hu => exact helement u hu
    | refl =>
      rw [accepts_array]
      exact helement element .refl
  | generic name args =>
    rintro u ⟨⟩
    exact hself rfl rfl rfl (by simp) rfl
  | function params returns isAsync =>
    rintro u ⟨⟩
    exact hself rfl rfl rfl (by simp) rfl
  | table fields =>
    rintro u ⟨⟩
    exact hself rfl rfl rfl (by simp) rfl

/--
A type fits itself if the aliases among its parts lead back to themselves or to types that go with
everything, and an alias of which only the definition is known does so in no other case.
-/
theorem assignable_self (table : SymbolTable)
    : (∀ t : TypeExpr, t.HasValues →
        (∀ name, Part (.named name) t → (TypeExpr.named name).isTop = false → table.Returns name) →
          table.assignable t t = true) ∧
      ∀ name, table.Plain name → table.assignable (.named name) (.named name) = true → table.Returns name := by
  constructor
  · exact fun t hvalues hnames =>
      accepts_part_self hvalues (fun name hname => assignable_named_of_returns (hnames name hname)) t .refl
  · intro name hplain h t ht
    rw [assignable_named hplain.isTop_eq_false ht] at h
    exact hplain.exists_leads (by simp) h

def texts : SymbolTable where
  aliases := [{ name := "text", base := some (.named "string") },
    { name := "value", base := some (.union [.named "string", .optional (.named "any")]) }]

theorem assignable_self_values
    : texts.Plain "value" ∧ texts.assignable (.array (.named "value")) (.array (.named "value")) = true ∧
      texts.assignable (.named "value") (.named "value") = true ∧ texts.Returns "value" := by
  obtain ⟨hself, hreturns⟩ := assignable_self texts
  have hplain : texts.Plain "value" := ⟨by decide, rfl⟩
  have hvalue : texts.Returns "value" := by
    rintro t ⟨⟩
    exact ⟨.any, .member (.tail _ (.head _)) (.inner .refl), .inl rfl⟩
  have hnamed : texts.assignable (.named "value") (.named "value") = true := by
    apply hself
    · rintro x ⟨⟩
    · rintro name ⟨⟩ _
      exact hvalue
  refine ⟨hplain, ?_, hnamed, hreturns "value" hplain hnamed⟩
  apply hself
  · rintro x (_ | _ | _ | ⟨⟨⟩⟩)
  · rintro name (_ | _ | _ | ⟨⟨⟩⟩) _
    exact hvalue

theorem not_assignable_self_text
    : (∀ x, ¬ Occurs (.literal (.float x)) (.named "text")) ∧
      texts.assignable (.named "text") (.named "text") = false := by
  constructor
  · simp
  · cbv

end SymbolTable

end LuaTypes
