import LuaTypes.CommandLine.Command
import LuaTypes.Proofs.Build.Frame

/-!
What the commands do to the tree of files. Each of them owns some places; no file goes away, and files at
other places are as before, whether the command succeeds, complains or ends with a fault.
-/

namespace LuaTypes

open FileTree Workspace

namespace CommandLine

/-! ### What a request owns -/

structure Configured [Yaml.Library] (t : FileTree) (name : String) (directory : Path) (config : Config) : Prop where
  resolved : t.resolve (.ofString name) = .ok directory
  loaded : Config.load t (directory.child Config.fileName) = .ok config

/--
The places where a request may make files or change those that are there.
-/
def Request.Owns [Yaml.Library] (t : FileTree) : Request → Location → Prop
  | .init _, l => t.file? l = none
  | .check _, l => Build.IsArtifact l
  | .format name onlyCheck, l =>
    onlyCheck = false ∧ ∃ directory config, Configured t name directory config ∧
      ∃ source ∈ Build.sources t (directory.child config.library), l = t.placeOf source
  | .luarc name, l =>
    Build.IsArtifact l ∨ l = t.placeOf ((t.settled (.ofString name)).child LanguageServer.fileName)
  | .dump _ output, l =>
    Build.IsArtifact l ∨ ∃ file, output = some file ∧ l = t.placeOf (.ofString file)
  | .call _ _ bundled, l => bundled = false ∧ Build.IsArtifact l

namespace Command

open Build (remains IsArtifact)

variable {α β : Type} {t t' : FileTree} {P : Location → Prop}

/-! ### Parts that only read -/

def Reads (t : FileTree) (c : Command α) (Q : α → Prop) : Prop :=
  ∀ s, s.tree = t → (remains (c s)).tree = t ∧ ∀ x s', c s = .ok x s' → Q x

namespace Reads

variable {Q : α → Prop} {R : β → Prop}

theorem pure {x : α} (h : Q x) : Reads t (Pure.pure x) Q := by
  intro s hs
  refine ⟨hs, ?_⟩
  rintro _ _ ⟨⟩
  exact h

theorem throw (e : Failure) (Q : α → Prop) : Reads t (MonadExcept.throw e : Command α) Q := by
  intro s hs
  exact ⟨hs, fun _ _ h => by cases h⟩

theorem bind {c : Command α} {f : α → Command β} (hc : Reads t c Q) (hf : ∀ x, Q x → Reads t (f x) R)
    : Reads t (c >>= f) R := by
  intro s hs
  obtain ⟨htree, hyields⟩ := hc s hs
  change (remains (EStateM.bind c f s)).tree = t ∧ ∀ x s', EStateM.bind c f s = .ok x s' → R x
  unfold EStateM.bind
  cases h : c s with
  | ok x s' =>
    rw [h] at htree
    exact hf x (hyields x s' h) s' htree
  | error e s' =>
    rw [h] at htree
    exact ⟨htree, fun _ _ h => by cases h⟩

theorem tree (t : FileTree) : Reads t Command.tree (t = ·) := by
  intro s hs
  refine ⟨hs, ?_⟩
  rintro _ _ ⟨⟩
  exact hs.symm

theorem ask (question : FileTree → Except AccessError α)
    : Reads t (Command.ask question) (question t = .ok ·) := by
  apply bind (tree t)
  rintro _ rfl
  cases h : question t with
  | ok x => exact pure rfl
  | error e => exact throw _ _

theorem say (line : String) : Reads t (Command.say line) fun _ => True := by
  intro s hs
  exact ⟨hs, fun _ _ _ => trivial⟩

theorem complain (line : String) : Reads t (Command.complain line) fun _ => True := by
  intro s hs
  exact ⟨hs, fun _ _ _ => trivial⟩

theorem warn (line : String) : Reads t (Command.warn line) fun _ => True :=
  say _

theorem forM {xs : List β} {f : β → Command PUnit} (h : ∀ x, Reads t (f x) fun _ => True)
    : Reads t (xs.forM f) fun _ => True := by
  induction xs with
  | nil => exact pure trivial
  | cons x xs ih => exact bind (h x) fun _ _ => ih

end Reads

theorem reads_workspace? [Yaml.Library] (t : FileTree) (name : String)
    : Reads t (workspace? name) fun found =>
        ∀ directory config, found = some (directory, config) →
          Configured t name directory config := by
  unfold workspace?
  apply Reads.bind (.ask _)
  intro directory hdirectory
  apply Reads.bind (.ask _)
  intro there _
  split
  · apply Reads.bind (.complain _)
    exact fun _ _ => .pure (by simp)
  · apply Reads.bind (.ask _)
    intro there _
    split
    · apply Reads.bind (.complain _)
      exact fun _ _ => .pure (by simp)
    · apply Reads.bind (.tree t)
      rintro _ rfl
      cases h : Config.load t (directory.child Config.fileName) with
      | ok config =>
        apply Reads.pure
        rintro _ _ ⟨⟩
        exact ⟨hdirectory, h⟩
      | error e =>
        dsimp only
        split
        · exact .bind (.throw _ fun _ => True) fun _ _ => .bind (.complain _) fun _ _ => .pure (by simp)
        · exact .bind (.complain _) fun _ _ => .pure (by simp)

theorem reads_checkCall (t : FileTree) (expression : String) (corpus : Declaration.Corpus)
    : Reads t (checkCall expression corpus) fun _ => True := by
  unfold checkCall
  split
  · exact .throw _ _
  · exact .bind (.complain _) fun _ _ => .pure trivial
  · split
    · exact .bind (.say _) fun _ _ => .pure trivial
    · exact .bind (.forM fun _ => .complain _) fun _ _ => .pure trivial

/-! ### Parts that write -/

def ChangesOnly (P : Location → Prop) (t : FileTree) (c : Command α) : Prop :=
  ∀ s, s.tree = t → Changes P t (remains (c s)).tree

theorem Reads.changesOnly {Q : α → Prop} {c : Command α} (h : Reads t c Q) (P : Location → Prop)
    : ChangesOnly P t c := by
  intro s hs
  rw [(h s hs).1]
  exact .refl P t

namespace ChangesOnly

theorem mono {Q : Location → Prop} {c : Command α} (h : ChangesOnly P t c) (hPQ : ∀ l, P l → Q l)
    : ChangesOnly Q t c := by
  intro s hs
  exact (h s hs).mono hPQ

theorem bind {c : Command α} {f : α → Command β} (hc : ChangesOnly P t c)
    (hf : ∀ x t', Changes P t t' → ChangesOnly P t' (f x))
    : ChangesOnly P t (c >>= f) := by
  rintro s rfl
  apply Build.remains_bind (R := fun s s' : Session => Changes P s.tree s'.tree) Changes.trans
  · exact hc s rfl
  · exact fun x s' h => hf x s'.tree h s' rfl

theorem read {Q : α → Prop} {c : Command α} {f : α → Command β} (hc : Reads t c Q)
    (hf : ∀ x, Q x → ChangesOnly P t (f x))
    : ChangesOnly P t (c >>= f) := by
  rintro s hs
  obtain ⟨htree, hyields⟩ := hc s hs
  change Changes P t (remains (EStateM.bind c f s)).tree
  unfold EStateM.bind
  cases h : c s with
  | ok x s' =>
    rw [h] at htree
    exact hf x (hyields x s' h) s' htree
  | error e s' =>
    rw [h] at htree
    rw [← htree]
    exact .refl P _

theorem pure (x : α) : ChangesOnly P t (Pure.pure x) :=
  (Reads.pure (Q := fun _ => True) trivial).changesOnly P

theorem throw (e : Failure) : ChangesOnly P t (MonadExcept.throw e : Command α) :=
  (Reads.throw e fun _ => True).changesOnly P

theorem attempt {ε : Type} {action : Action ε α} (h : Changes P t (remains (action t)))
    : ChangesOnly P t (Command.attempt action) := by
  rintro s rfl
  unfold Command.attempt
  cases hrun : action s.tree <;> rwa [hrun] at h

theorem act {ε : Type} {failure : ε → Failure} {action : Action ε α}
    (h : Changes P t (remains (action t)))
    : ChangesOnly P t (Command.act failure action) := by
  apply bind (attempt h)
  intro result t' _
  cases result with
  | ok x => exact pure x
  | error e => exact throw _

theorem workspace [Yaml.Library] {name : String} {f : Option (Path × Config) → Command α}
    (hnone : ChangesOnly P t (f none))
    (hsome : ∀ directory config, Configured t name directory config →
      ChangesOnly P t (f (some (directory, config))))
    : ChangesOnly P t (workspace? name >>= f) := by
  apply read (reads_workspace? t name)
  intro found hfound
  match found, hfound with
  | none, _ => exact hnone
  | some (directory, config), hfound => exact hsome directory config (hfound directory config rfl)

theorem corpus [Artifact.Codec] {now : Int} {directory : Path} {config : Config} {f : Option Declaration.Corpus → Command α}
    (hP : ∀ l, IsArtifact l → P l) (hnone : ∀ t', ChangesOnly P t' (f none))
    (hsome : ∀ corpus t', Changes P t t' → ChangesOnly P t' (f (some corpus)))
    : ChangesOnly P t (corpus? now directory config >>= f) := by
  have hload : ChangesOnly P t (corpus? now directory config) := by
    unfold corpus?
    apply bind (attempt ((Build.changes_compileLibrary now _ _ t).mono hP))
    intro result t' _
    cases result with
    | ok corpus => exact pure _
    | error e =>
      dsimp only
      split
      · exact bind (throw _) fun _ _ _ => read (.complain _) fun _ _ => pure _
      · exact read (.complain _) fun _ _ => pure _
  apply bind hload
  intro found t' h
  cases found with
  | none => exact hnone t'
  | some corpus => exact hsome corpus t' h

end ChangesOnly

/-! ### Commands -/

theorem child_fileName (directory : Path)
    : directory.child Config.fileName = directory.descend [Config.fileName] := by
  rfl

theorem changesOnly_copySources (now : Int) (library : Path) (sources : List (String × String))
    (h : Changes (t.file? · = none) t t')
    : ChangesOnly (t.file? · = none) t' (copySources now library sources) := by
  induction sources generalizing t' with
  | nil => exact .pure ()
  | cons source rest ih =>
    obtain ⟨name, text⟩ := source
    unfold copySources
    apply ChangesOnly.bind
    · unfold copySource
      apply ChangesOnly.read (.ask _)
      intro there hthere
      cases there with
      | true => exact (Reads.say _).changesOnly _
      | false =>
        apply ChangesOnly.act
        apply Build.changes_writeText
        intro place hplace
        rw [contains_of_locate hplace] at hthere
        apply h.file?_eq_none
        apply file?_eq_none_of_lookup?
        simpa using hthere
    · intro _ t'' h'
      exact ih (h.trans h')

theorem changesOnly_init [Yaml.Library] (now : Int) (name : String) (t : FileTree)
    : ChangesOnly (t.file? · = none) t (init now name) := by
  unfold init
  apply ChangesOnly.read (.ask _)
  intro directory _
  apply ChangesOnly.read (.ask _)
  intro there hthere
  split
  · exact .read (.complain _) fun _ _ => .pure 1
  next hfound =>
    apply ChangesOnly.read (.ask _)
    intro configured hconfigured
    split
    · exact .read (.complain _) fun _ _ => .pure 1
    next hmissing =>
      apply ChangesOnly.bind (.act ((Build.grows_ensureDirectory now _ t).changes _))
      intro _ t₁ h₁
      apply ChangesOnly.bind (changesOnly_copySources now _ _ h₁)
      intro _ t₂ h₂
      apply ChangesOnly.bind
      · apply ChangesOnly.act
        apply Build.changes_writeText
        intro place hplace
        rw [child_fileName] at hplace hconfigured
        apply file?_eq_none_of_missing (h₁.trans h₂) _ _ hplace
        · rw [hthere, show there = true by simpa using hfound]
        · rw [hconfigured, show configured = false by simpa using hmissing]
      · exact fun _ _ _ => .read (.say _) fun _ _ => .pure 0

theorem changesOnly_check [Artifact.Codec] [Validation.Dump] [Yaml.Library] (now : Int) (name : String) (t : FileTree)
    : ChangesOnly IsArtifact t (check now name) := by
  unfold check
  apply ChangesOnly.workspace (.pure 1)
  intro directory config _
  apply ChangesOnly.read (.ask _)
  intro there _
  apply ChangesOnly.read (.ask _)
  intro sources _
  split
  · exact .read (.say _) fun _ _ => .pure 0
  · apply ChangesOnly.corpus (fun _ h => h) fun _ => .pure 1
    intro corpus t' _
    apply ChangesOnly.read (.say _)
    intro _ _
    apply ChangesOnly.read (.forM fun _ => .complain _)
    intro _ _
    apply ChangesOnly.read (.forM fun _ => .warn _)
    intro _ _
    apply ChangesOnly.read (.forM fun _ => .warn _)
    intro _ _
    apply ChangesOnly.read (.forM fun _ => .complain _)
    intro _ _
    split
    · exact .read (.say _) fun _ _ => .pure 0
    · exact .pure 1

theorem changesOnly_formatSource (now : Int) (onlyCheck : Bool) (directory source : Path) (t : FileTree)
    : ChangesOnly (fun l => onlyCheck = false ∧ l = t.placeOf source) t
        (formatSource now onlyCheck directory source) := by
  unfold formatSource
  apply ChangesOnly.read (.tree t)
  rintro _ rfl
  split
  · exact .pure _
  · dsimp only
    split
    · exact .pure _
    · split
      · exact .throw _
      · cases onlyCheck with
        | true => exact .read (.say _) fun _ _ => .pure _
        | false =>
          apply ChangesOnly.bind
          · apply ChangesOnly.act
            apply Build.changes_writeText
            exact fun place hplace => ⟨rfl, eq_follow_of_locate hplace⟩
          · exact fun _ _ _ => .read (.say _) fun _ _ => .pure _

theorem changesOnly_formatSources (now : Int) (onlyCheck : Bool) (directory : Path) (sources : List Path)
    (t : FileTree)
    : ChangesOnly (fun l => onlyCheck = false ∧ ∃ source ∈ sources, l = t.placeOf source) t
        (formatSources now onlyCheck directory sources) := by
  induction sources generalizing t with
  | nil => exact .pure _
  | cons source rest ih =>
    unfold formatSources
    apply ChangesOnly.bind
    · apply (changesOnly_formatSource now onlyCheck directory source t).mono
      exact fun l h => ⟨h.1, source, by simp, h.2⟩
    · intro result t' h
      cases result with
      | error e =>
        dsimp only
        split
        · exact .bind (.throw _) fun _ _ _ => .read (.complain _) fun _ _ => .pure _
        · exact .read (.complain _) fun _ _ => .pure _
      | ok changed =>
        apply ChangesOnly.bind
        · apply (ih t').mono
          rintro l ⟨hwrites, source, hsource, hl⟩
          exact ⟨hwrites, source, by simp [hsource], by rw [hl, h.placeOf]⟩
        · exact fun _ _ _ => .pure _

theorem changesOnly_format [Yaml.Library] (now : Int) (name : String) (onlyCheck : Bool) (t : FileTree)
    : ChangesOnly ((Request.format name onlyCheck).Owns t) t (format now name onlyCheck) := by
  unfold format
  apply ChangesOnly.workspace (.pure 1)
  intro directory config hconfigured
  apply ChangesOnly.read (.ask _)
  intro there hthere
  split
  · exact .read (.complain _) fun _ _ => .pure 1
  next hlibrary =>
    apply ChangesOnly.read (.ask _)
    intro sources hsources
    have hfound : sources = Build.sources t (directory.child config.library) := by
      unfold Build.sourcesIn at hsources
      rw [hthere, show there = true by simpa using hlibrary] at hsources
      exact (Except.ok.inj hsources).symm
    subst hfound
    apply ChangesOnly.bind
    · apply (changesOnly_formatSources now onlyCheck directory _ t).mono
      exact fun l h => ⟨h.1, directory, config, hconfigured, h.2⟩
    · intro result t' _
      split
      · exact .pure 1
      · exact .read (.say _) fun _ _ => .pure 0
      · split
        · exact .read (.say _) fun _ _ => .pure 1
        · exact .pure 0

theorem changesOnly_luarc [Artifact.Codec] [Yaml.Library] (now : Int) (name : String) (t : FileTree)
    : ChangesOnly ((Request.luarc name).Owns t) t (luarc now name) := by
  unfold luarc
  apply ChangesOnly.workspace (.pure 1)
  intro directory config hconfigured
  apply ChangesOnly.corpus (fun _ h => .inl h) fun _ => .pure 1
  intro corpus t' h
  apply ChangesOnly.read (.forM fun _ => .warn _)
  intro _ _
  apply ChangesOnly.bind
  · apply ChangesOnly.attempt
    apply Build.changes_writeText
    intro place hplace
    right
    have hdirectory : directory = t.settled (.ofString name) := by
      have hresolved := hconfigured.resolved
      unfold resolve at hresolved
      split at hresolved
      · cases hresolved
      · exact (Except.ok.inj hresolved).symm
    rw [← hdirectory, ← h.placeOf]
    exact eq_follow_of_locate hplace
  · intro result t'' _
    cases result with
    | error e => exact .read (.complain _) fun _ _ => .pure 1
    | ok _ => exact .read (.say _) fun _ _ => .pure 0

theorem changesOnly_dump [Artifact.Codec] [Yaml.Library] (now : Int) (name : String) (output : Option String) (t : FileTree)
    : ChangesOnly ((Request.dump name output).Owns t) t (dump now name output) := by
  unfold dump
  apply ChangesOnly.workspace (.pure 1)
  intro directory config _
  apply ChangesOnly.corpus (fun _ h => .inl h) fun _ => .pure 1
  intro corpus t' h
  dsimp only
  cases Artifact.serializeCorpus corpus (some 2) with
  | error refusal => exact .throw _
  | ok data =>
    cases output with
    | none => exact .read (.say _) fun _ _ => .pure 0
    | some file =>
      apply ChangesOnly.bind
      · apply ChangesOnly.attempt
        apply Build.changes_writeText
        intro place hplace
        right
        refine ⟨file, rfl, ?_⟩
        rw [← h.placeOf]
        exact eq_follow_of_locate hplace
      · intro result t'' _
        cases result with
        | error e =>
          dsimp only
          split
          · exact .bind (.throw _) fun _ _ _ => .read (.complain _) fun _ _ => .pure 1
          · exact .read (.complain _) fun _ _ => .pure 1
        | ok _ => exact .read (.say _) fun _ _ => .pure 0

theorem changesOnly_call [Artifact.Codec] [Yaml.Library] (now : Int) (expression name : String) (bundled : Bool) (t : FileTree)
    : ChangesOnly ((Request.call expression name bundled).Owns t) t
        (call now expression name bundled) := by
  unfold call
  split
  next => exact (reads_checkCall t expression Bundled.corpus).changesOnly _
  next hbundled =>
    apply ChangesOnly.workspace (.pure 1)
    intro directory config _
    apply ChangesOnly.corpus (fun _ h => ⟨Bool.eq_false_of_not_eq_true hbundled, h⟩) fun _ => .pure 1
    intro corpus t' _
    exact (reads_checkCall t' expression corpus).changesOnly _

theorem changesOnly_ofRequest [Artifact.Codec] [Validation.Dump] [Yaml.Library] (now : Int) (r : Request) (t : FileTree)
    : ChangesOnly (r.Owns t) t (ofRequest now r) := by
  cases r with
  | init directory => exact changesOnly_init now directory t
  | check directory => exact changesOnly_check now directory t
  | format directory onlyCheck => exact changesOnly_format now directory onlyCheck t
  | luarc directory => exact changesOnly_luarc now directory t
  | dump directory output => exact changesOnly_dump now directory output t
  | call expression directory bundled => exact changesOnly_call now expression directory bundled t

end Command

/-! ### The program -/

/--
Whatever the arguments are and however the program ends, no file goes away, and only files at places that
the request owns are made or changed; without a request, none are.
-/
theorem run_changes [Artifact.Codec] [Validation.Dump] [Yaml.Library] (now : Int) (arguments : List String) (t : FileTree)
    : (∀ l, (t.file? l).isSome → ((run now arguments t).tree.file? l).isSome) ∧
        ∀ l, (∀ r, request arguments = .ok r → ¬ r.Owns t l) →
          (run now arguments t).tree.file? l = t.file? l := by
  cases h : request arguments with
  | error rejection =>
    have hrun : (run now arguments t).tree = t := by
      unfold run
      rw [h]
      obtain ⟨g, stop⟩ := rejection
      cases stop <;> rfl
    rw [hrun]
    exact ⟨fun _ h => h, fun _ _ => rfl⟩
  | ok r =>
    have hrun : (run now arguments t).tree
        = (Build.remains (Command.ofRequest now r { tree := t })).tree := by
      unfold run
      rw [h]
      dsimp only
      cases Command.ofRequest now r { tree := t } <;> rfl
    have hchanges := Command.changesOnly_ofRequest now r t { tree := t } rfl
    rw [hrun]
    exact ⟨hchanges.kept, fun l hl => hchanges.frame l (hl r rfl)⟩

end CommandLine

end LuaTypes
