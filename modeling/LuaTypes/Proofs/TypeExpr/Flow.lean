import LuaTypes.Proofs.TypeExpr.Derivation

/-!
The words of the grammar from left to right. Behind a type, all that matters is how many function types are
open around it, since what follows can go on with each of them. A reader that leaves as many of them open as
it can never misses a word.
-/

namespace LuaTypes.TypeExpr

open Derives

def functionHead (isAsync : Bool) (params : List Lexeme) : List Lexeme :=
  asyncLexemes isAsync ++ (.keyword .function :: .symbol .openParen :: (params ++ [.symbol .closeParen]))

theorem leading_functionHead (isAsync : Bool) (params : List Lexeme)
    : Parser.Leading (functionHead isAsync params) := by
  cases isAsync <;> exact ⟨_, _, rfl, rfl⟩

inductive Place where
  | start
  | item
  | behind
  | rest

/--
The words that can follow at a place with `n` function types open. A type that is no function type is taken
as a whole, with all that stands between its brackets.
-/
inductive Flow (d : Nat) : Place → Nat → List Lexeme → Prop where
  | primary {n v w t} : Primary v d t → (∀ k, v.head? ≠ some (.keyword k)) → Flow d .behind n w →
      Flow d .start n (v ++ w)
  | function {n v w ps} (isAsync : Bool) : Params v (d + 1) ps → Flow d .behind n w →
      Flow d .start n (functionHead isAsync v ++ w)
  | returning {n v w ps} (isAsync : Bool) : Params v (d + 1) ps → Flow d .item (n + 1) w →
      Flow d .start n (functionHead isAsync v ++ .symbol .colon :: w)
  | type {n w} : Flow d .start n w → Flow d .item n w
  | vararg {n w} : Flow d .rest n w → Flow d .item n (.symbol .ellipsis :: w)
  | done {n} : Flow d .behind n []
  | array {n w} : Flow d .behind n w → Flow d .behind n (.symbol .brackets :: w)
  | optional {n w} : Flow d .behind n w → Flow d .behind n (.symbol .question :: w)
  | pipe {n w} : Flow d .start n w → Flow d .behind n (.symbol .pipe :: w)
  | comma {n w} : d = 0 → Flow d .item (n + 1) w → Flow d .behind (n + 1) (.symbol .comma :: w)
  | next {n w} : d = 0 → Flow d .item (n + 1) w → Flow d .rest (n + 1) (.symbol .comma :: w)
  | close {n w} : Flow d .behind n w → Flow d .rest (n + 1) w

namespace Flow

variable {d n : Nat} {w z : List Lexeme}

theorem succ {p : Place} (h : Flow d p n w) : Flow d p (n + 1) w := by
  induction h with
  | primary h hv _ ih => exact .primary h hv ih
  | function isAsync h _ ih => exact .function isAsync h ih
  | returning isAsync h _ ih => exact .returning isAsync h ih
  | type _ ih => exact .type ih
  | vararg _ ih => exact .vararg ih
  | done => exact .done
  | array _ ih => exact .array ih
  | optional _ ih => exact .optional ih
  | pipe _ ih => exact .pipe ih
  | comma hd _ ih => exact .comma hd ih
  | next hd _ ih => exact .next hd ih
  | close _ ih => exact .close ih

theorem marks {t u : TypeExpr} (h : Marks w t u) (hz : Flow d .behind n z) : Flow d .behind n (w ++ z) := by
  induction h with
  | nil => exact hz
  | array _ ih => exact .array ih
  | optional _ ih => exact .optional ih

def Starts (d : Nat) (w : List Lexeme) : Prop :=
  ∀ n z, Flow d .behind n z → Flow d .start n (w ++ z)

theorem result {t : TypeExpr} (h : Result w d t) (hstarts : ∀ u, Derives.Union w d u → Starts d w)
    (hz : Flow d .behind n z)
    : Flow d .item (n + 1) (w ++ z) := by
  cases h with
  | vararg => exact .vararg (.close hz)
  | type h => exact .type (hstarts t h _ _ hz.succ)

theorem result_comma {t : TypeExpr} (h : Result w d t) (hstarts : ∀ u, Derives.Union w d u → Starts d w)
    (hd : d = 0) (hz : Flow d .item (n + 1) z)
    : Flow d .item (n + 1) (w ++ .symbol .comma :: z) := by
  cases h with
  | vararg => exact .vararg (.next hd hz)
  | type h => exact .type (hstarts t h _ _ (.comma hd hz))

theorem results {ts : List TypeExpr} (h : Separated Result .comma w d ts) (hlength : d ≠ 0 → ts.length = 1)
    (hstarts : ∀ v u, v.length ≤ w.length → Derives.Union v d u → Starts d v) (hz : Flow d .behind n z)
    : Flow d .item (n + 1) (w ++ z) := by
  induction h with
  | one h => exact result h (hstarts _ · (Nat.le_refl _)) hz
  | @cons v w d t ts ht h ih =>
    have hd : d = 0 := by
      by_contra hd
      have hne : ts ≠ [] := by cases h <;> simp
      have := hlength hd
      simp [hne] at this
    rw [List.append_assoc, List.cons_append]
    apply result_comma ht (hstarts v · (by simp)) hd
    exact ih (fun h => absurd hd h) (fun v u hv => hstarts v u (by simp; omega)) hz

theorem function_append {t : TypeExpr} (h : Function w d t)
    (hstarts : ∀ v u, v.length < w.length → Derives.Union v d u → Starts d v)
    : Starts d w := by
  intro n z hz
  cases h with
  | @mk v w d ps ts isAsync hps hts =>
    cases hts with
    | none => simpa [functionHead] using Flow.function isAsync hps hz
    | some hts hlength =>
      have := Flow.returning isAsync hps (results hts hlength (fun v u hv => hstarts v u (by simp; omega)) hz)
      simpa [functionHead] using this

theorem primary_append {t : TypeExpr} (h : Primary w d t)
    (hstarts : ∀ v u, v.length < w.length → Derives.Union v d u → Starts d v)
    : Starts d w := by
  intro n z hz
  cases h with
  | function h => exact function_append h hstarts n z hz
  | table h => exact .primary (.table h) (by cases h <;> simp) hz
  | name s => exact .primary (.name s) (by simp) hz
  | generic htrue hfalse h => exact .primary (.generic htrue hfalse h) (by simp) hz
  | string s => exact .primary (.string s) (by simp) hz
  | number h => exact .primary (.number h) (by simp) hz
  | parens h => exact .primary (.parens h) (by simp) hz

theorem alternatives {ts : List TypeExpr} (h : Separated Postfix .pipe w d ts)
    (hstarts : ∀ v u, v.length < w.length → Derives.Union v d u → Starts d v)
    : Starts d w := by
  have hpostfix : ∀ v t, v.length ≤ w.length → Postfix v d t → Starts d v := by
    intro v t hv h n z hz
    cases h with
    | @mk v m d t u h hm =>
      rw [List.length_append] at hv
      rw [List.append_assoc]
      exact primary_append h (fun v u hlt => hstarts v u (by omega)) n _ (marks hm hz)
  clear hstarts
  induction h with
  | one h => exact hpostfix _ _ (Nat.le_refl _) h
  | @cons v w d t ts h _ ih =>
    intro n z hz
    rw [List.append_assoc, List.cons_append]
    apply hpostfix v t (by simp) h
    exact .pipe (ih (fun v t hv => hpostfix v t (by simp; omega)) n z hz)

end Flow

theorem Derives.Union.flow {w : List Lexeme} {d : Nat} {t : TypeExpr} (h : Derives.Union w d t) {n : Nat}
    {z : List Lexeme} (hz : Flow d .behind n z)
    : Flow d .start n (w ++ z) := by
  suffices ∀ m w, w.length = m → ∀ t, Derives.Union w d t → Flow.Starts d w from
    this _ w rfl t h n z hz
  intro m
  induction m using Nat.strong_induction_on with
  | h m ih =>
    rintro w rfl t ⟨h⟩
    exact Flow.alternatives h fun v u hv => ih v.length hv v rfl u

end LuaTypes.TypeExpr
