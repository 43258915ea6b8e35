import Mathlib.Data.List.Forall2
import Mathlib.Logic.Relation
import SlrKit.Proofs.Grammar.DerivationTree

/-!
# Sentential forms

A row of symbols is rewritten by putting the symbols of a production in place of its rule. What the
rules of a row can be rewritten to may still hold rules, so there are rows that derive no tokens
and yet produce rows that begin with some. A derivation tree stands for one way to rewrite its root
to the terminals of its leaves.
-/

set_option autoImplicit false

namespace SlrKit

namespace Grammar

/-- One rule of the row is replaced by the symbols of one of its productions. -/
inductive Rewrites (grammar : Grammar) : List Symbol → List Symbol → Prop
  | replace (front back : List Symbol) {production : Nat}
      (bound : production < grammar.productionCount) :
      Rewrites grammar (front ++ .rule (grammar.ruleOf production) :: back)
        (front ++ grammar.symbols production ++ back)

/-- Some number of rules is replaced, one after the other. -/
def Produces (grammar : Grammar) : List Symbol → List Symbol → Prop :=
  Relation.ReflTransGen grammar.Rewrites

/-- The terminals are those that the tokens are named for. -/
def Names (grammar : Grammar) : List Nat → List Token → Prop :=
  List.Forall₂ fun terminal token => grammar.tokenName? terminal = some token.name

variable {grammar : Grammar}

theorem Rewrites.frame {left right : List Symbol} (rewrites : grammar.Rewrites left right)
    (front back : List Symbol) :
    grammar.Rewrites (front ++ left ++ back) (front ++ right ++ back) := by
  cases rewrites with
  | replace inner outer bound =>
      have framed := Rewrites.replace (front ++ inner) (outer ++ back) bound
      simpa only [List.append_assoc, List.cons_append] using framed

/-- What a part of a row produces can take its place. -/
theorem Produces.frame {left right : List Symbol} (produces : grammar.Produces left right)
    (front back : List Symbol) :
    grammar.Produces (front ++ left ++ back) (front ++ right ++ back) := by
  induction produces with
  | refl => exact .refl
  | tail _ rewrites ih => exact ih.tail (rewrites.frame front back)

theorem Produces.trans {left middle right : List Symbol} (first : grammar.Produces left middle)
    (second : grammar.Produces middle right) : grammar.Produces left right :=
  Relation.ReflTransGen.trans first second

theorem produces_symbols {production : Nat} (bound : production < grammar.productionCount) :
    grammar.Produces [.rule (grammar.ruleOf production)] (grammar.symbols production) := by
  have rewrites := Rewrites.replace [] [] bound
  rw [List.nil_append, List.nil_append, List.append_nil] at rewrites
  exact .single rewrites

end Grammar

mutual

/-- A tree shows how to rewrite its root to the terminals of its leaves. -/
theorem Tree.Derives.produces {grammar : Grammar} {symbol : Symbol} {tree : Tree}
    (derives : Tree.Derives grammar symbol tree) :
    ∃ terminals, grammar.Names terminals tree.leaves ∧
      grammar.Produces [symbol] (terminals.map .token) := by
  cases derives with
  | @leaf terminal token named =>
      rw [Tree.leaves]
      exact ⟨[terminal], List.Forall₂.cons named .nil, .refl⟩
  | node bound below =>
      obtain ⟨terminals, names, produces⟩ := Forest.Derives.produces below
      rw [Tree.leaves]
      exact ⟨terminals, names, (Grammar.produces_symbols bound).trans produces⟩

theorem Forest.Derives.produces {grammar : Grammar} {symbols : List Symbol} {trees : List Tree}
    (derives : Forest.Derives grammar symbols trees) :
    ∃ terminals, grammar.Names terminals (Forest.leaves trees) ∧
      grammar.Produces symbols (terminals.map .token) := by
  cases derives with
  | nil => exact ⟨[], List.Forall₂.nil, .refl⟩
  | @cons symbol symbols tree trees first rest =>
      obtain ⟨front, frontNames, frontProduces⟩ := Tree.Derives.produces first
      obtain ⟨back, backNames, backProduces⟩ := Forest.Derives.produces rest
      refine ⟨front ++ back, ?_, ?_⟩
      · rw [Forest.leaves]
        exact List.rel_append frontNames backNames
      · have left := frontProduces.frame [] symbols
        have right := backProduces.frame (front.map .token) []
        rw [List.append_nil, List.append_nil] at right
        rw [List.map_append]
        exact left.trans right

end

end SlrKit
