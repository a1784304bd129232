import LuaTypes.Proofs.Declaration.Layout
import LuaTypes.Proofs.Declaration.Origin
import LuaTypes.Proofs.Declaration.Readable

/-!
Texts behind each other, with two line feeds between them, declare what each of them declares. A text that can be
read leaves no comment open, and the empty line behind it ends its last block.
-/

namespace LuaTypes.Declaration

open Text

/-! ### Layout -/

namespace Block

theorem ofLines_append {comment : Option OpenComment} {pending : List DocLine} {line : Nat} {ls : List (List Char)}
    {blocks : List Block} (h : ofLines comment pending line ls = (blocks, none)) (rest : List (List Char))
    : ofLines comment pending line (ls ++ [] :: rest)
        = (blocks ++ (ofLines none [] (line + ls.length + 1) rest).1,
            (ofLines none [] (line + ls.length + 1) rest).2) := by
  induction ls generalizing comment pending line blocks with
  | nil =>
    cases comment with
    | some c => cases h
    | none =>
      cases h
      exact ofLines_blank
  | cons raw ls ih =>
    have hlength : line + (raw :: ls).length = line + 1 + ls.length := by
      rw [List.length_cons]
      omega
    rw [hlength, List.cons_append]
    cases comment with
    | some c =>
      rw [ofLines] at h ⊢
      exact ih h
    | none =>
      rw [ofLines] at h ⊢
      generalize Line.ofText line raw = kind at h ⊢
      cases hdetached : ofLines none [] (line + 1) ls with
      | mk bs last =>
      cases kind with
      -- These lines leave something open, which the induction hypothesis allows for.
      | doc doc => exact ih h
      | comment => exact ih h
      | opening closing => exact ih h
      | blank =>
        rw [hdetached] at h
        obtain ⟨rfl, rfl⟩ := Prod.mk.inj h
        dsimp only
        rw [ih hdetached]
        split <;> rfl
      | statement text =>
        rw [hdetached] at h
        obtain ⟨rfl, rfl⟩ := Prod.mk.inj h
        dsimp only
        rw [ih hdetached]
        rfl

theorem ofLines_newline {cs : List Char} {blocks : List Block} (h : ofLines none [] 1 (lines cs) = (blocks, none))
    : ofLines none [] 1 (lines (cs ++ ['\n'])) = (blocks, none) := by
  obtain hlines | hlines := lines_newline cs
  · rw [hlines, h]
  · rw [hlines, ofLines_append h]
    simp [ofLines]

theorem ofLines_lines_append {cs : List Char} {blocks : List Block}
    (h : ofLines none [] 1 (lines cs) = (blocks, none)) (rest : List Char)
    : ofLines none [] 1 (lines (cs ++ '\n' :: '\n' :: rest))
        = (blocks ++ (ofLines none [] (1 + (lines (cs ++ ['\n', '\n'])).length) (lines rest)).1,
            (ofLines none [] (1 + (lines (cs ++ ['\n', '\n'])).length) (lines rest)).2) := by
  have hempty : ∀ rest, lines ('\n' :: rest) = [] :: lines rest := fun _ => rfl
  have hlength : 1 + (lines (cs ++ ['\n', '\n'])).length = 1 + (lines (cs ++ ['\n'])).length + 1 := by
    rw [lines_append_newline, hempty]
    simp [lines, Nat.add_assoc]
  rw [lines_append_newline, hempty, hlength]
  exact ofLines_append (ofLines_newline h) (lines rest)

end Block

/-! ### Declarations -/

namespace File

variable (f g : File)

def append : File where
  marker := g.marker.or f.marker
  namespaces := f.namespaces ++ g.namespaces
  classes := f.classes ++ g.classes
  aliases := f.aliases ++ g.aliases
  functions := f.functions ++ g.functions
  moduleReturn := g.moduleReturn.or f.moduleReturn

theorem append_empty : f.append {} = f := by
  simp [append]

theorem addAnnotations_append (a : Annotations)
    : (f.append g).addAnnotations a = f.append (g.addAnnotations a) := by
  simp [append, addAnnotations, Option.or_assoc]

theorem addFunction_append (fn : Function)
    : { f.append g with functions := (f.append g).functions ++ [fn] }
        = f.append { g with functions := g.functions ++ [fn] } := by
  simp [append]

theorem addNamespace_append (ns : Namespace)
    : { f.append g with namespaces := (f.append g).namespaces ++ [ns] }
        = f.append { g with namespaces := g.namespaces ++ [ns] } := by
  simp [append]

theorem addBlock_append (b : Block) : (f.append g).addBlock b = (g.addBlock b).map f.append := by
  unfold addBlock
  cases Annotations.ofDocs {} false false b.docs with
  | error e => rfl
  | ok a =>
    dsimp only [bind, Except.bind]
    rw [addAnnotations_append, addAnnotations_append]
    generalize b.statement.bind Statement.parse? = statement
    cases a.functionTag with
    | some position =>
      cases statement with
      | none => rfl
      | some s =>
        cases s with
        | function name params => exact congrArg Except.ok (addFunction_append f _ _)
        | table name | moduleReturn name => rfl
    | none =>
      cases statement with
      | none => cases b.statement <;> rfl
      | some s =>
        cases s with
        | function name params => exact congrArg Except.ok (addFunction_append f _ _)
        | table name =>
          cases b.statement with
          | none => rfl
          | some _ => exact congrArg Except.ok (addNamespace_append f _ _)
        | moduleReturn name => cases b.statement <;> rfl

theorem addBlocks_append (bs : List Block) : (f.append g).addBlocks bs = (g.addBlocks bs).map f.append := by
  induction bs generalizing g with
  | nil => rfl
  | cons b bs ih =>
    rw [addBlocks, addBlocks, addBlock_append]
    cases g.addBlock b with
    | ok g => exact ih g
    | error e => rfl

theorem addBlocks_eq_map (bs : List Block) : f.addBlocks bs = (addBlocks {} bs).map f.append := by
  rw [← addBlocks_append, append_empty]

theorem addBlocks_of_ok {bs : List Block} (h : f.addBlocks bs = .ok g) (bs' : List Block)
    : f.addBlocks (bs ++ bs') = g.addBlocks bs' := by
  induction bs generalizing f with
  | nil =>
    cases h
    rfl
  | cons b bs ih =>
    rw [List.cons_append, addBlocks]
    rw [addBlocks] at h
    cases hb : f.addBlock b with
    | ok f' =>
      rw [hb] at h
      exact ih f' h
    | error e =>
      rw [hb] at h
      cases h

/-! ### Texts -/

variable {f}

/--
Let a text be read, and another one stand behind it with an empty line between them. The declarations of the second
text come behind those of the first one, and its errors stand as many lines further down as there are lines before it.
-/
theorem parse_concat {source : String} (h : parse source = .ok f) (next : String)
    : parse (source ++ "\n\n" ++ next)
        = ((parse next).map f.append).mapError (·.down (lines (source ++ "\n\n").toList).length) := by
  obtain ⟨blocks, hlayout, hblocks⟩ := exists_blocks_of_parse h
  have hsource : (source ++ "\n\n").toList = source.toList ++ ['\n', '\n'] := by simp
  have htext : (source ++ "\n\n" ++ next).toList = source.toList ++ '\n' :: '\n' :: next.toList := by simp
  unfold parse
  rw [htext, hsource, Block.ofLines_lines_append hlayout]
  generalize (lines (source.toList ++ ['\n', '\n'])).length = k
  have hdown := Block.ofLines_down (n := k) none [] 1 (lines next.toList)
  rw [Option.map_none, List.map_nil] at hdown
  rw [hdown]
  cases Block.ofLines none [] 1 (lines next.toList) with
  | mk bs comment =>
    dsimp only [bind, Except.bind]
    rw [addBlocks_of_ok _ _ hblocks, moved_addBlocks, addBlocks_eq_map]
    cases addBlocks {} bs with
    | error e => rfl
    | ok g => cases comment <;> rfl

theorem parse_concat_carriageReturn
    : ∃ f, parse "--- @class Turtle\rturtle = \x7b\x7d\r" = .ok f ∧
        parse ("--- @class Turtle\rturtle = \x7b\x7d\r" ++ "\n\n" ++ "return turtle")
          = .ok { f with moduleReturn := some "turtle" } ∧
        parse ("--- @class Turtle\rturtle = \x7b\x7d\r" ++ "\n\n" ++ "\n--- @field fuel number")
          = .error (.grammar .fieldOutsideClass ⟨5, 5⟩) :=
  have h : parse "--- @class Turtle\rturtle = \x7b\x7d\r"
      = .ok { classes := [{ name := "Turtle" }], namespaces := [{ name := "turtle", className := "Turtle" }] } :=
    rfl
  ⟨_, h, (parse_concat h "return turtle").trans rfl, (parse_concat h "\n--- @field fuel number").trans rfl⟩

end File

end LuaTypes.Declaration
