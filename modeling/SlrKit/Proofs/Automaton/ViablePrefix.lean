import SlrKit.Proofs.Automaton.ItemAutomaton
import SlrKit.Proofs.Automaton.Path
import SlrKit.Proofs.Grammar.FollowSets
import SlrKit.Proofs.Grammar.SententialForm

/-!
# Viable prefixes

What a path through the state graph spells can always be continued to something that the start rule
produces: the symbols after the dots of the items that a run of the automaton went through. If every
rule derives some tokens, it can be continued by tokens, so that any trees for the symbols of the
path are the front of a derivation tree of a sentence.
-/

set_option autoImplicit false

namespace SlrKit

variable {grammar : Grammar}

theorem Item.drop_of_next {item : Item} {symbol : Symbol}
    (next : item.next? grammar = some symbol) :
    (grammar.symbols item.production).drop item.dot =
      symbol :: (grammar.symbols item.production).drop (item.dot + 1) := by
  obtain ⟨bound, here⟩ := (Item.next_eq_some_iff grammar item symbol).mp next
  rw [List.drop_eq_getElem_cons bound, here]

theorem Item.split_of_next {item : Item} {symbol : Symbol}
    (next : item.next? grammar = some symbol) :
    grammar.symbols item.production = (grammar.symbols item.production).take item.dot ++
      symbol :: (grammar.symbols item.production).drop (item.dot + 1) := by
  rw [← Item.drop_of_next next, List.take_append_drop]

namespace StateGraph

variable {graph : StateGraph}

theorem Path.walk {states : List Nat} {symbols : List Symbol} (path : Path graph states symbols)
    {top : Nat} {below : List Nat} (last : states = top :: below) :
    graph.walk? startState symbols.reverse = some top := by
  induction path generalizing top below with
  | start =>
      cases last
      rfl
  | step path edge ih =>
      cases last
      rw [List.reverse_cons, walk_snoc, ih rfl]
      exact edge

theorem IsCanonical.exists_reached (canonical : IsCanonical grammar graph) {states : List Nat}
    {symbols : List Symbol} (path : Path graph states symbols) :
    ∃ item, Item.Reached grammar symbols.reverse item := by
  obtain ⟨top, below, last⟩ := path.top
  exact (canonical.walk_iff symbols.reverse).mp ⟨top, path.walk last⟩

end StateGraph

/-- The symbols over which a run of the automaton has gone and those after the dot of the item it
has come to are the front of something that the start rule produces. -/
theorem Item.Reached.produces (wellFormed : grammar.WellFormed) {symbols : List Symbol}
    {item : Item} (reached : Item.Reached grammar symbols item) :
    ∃ rest, grammar.Produces [.rule grammar.userStart]
      (symbols ++ ((grammar.symbols item.production).drop item.dot ++ rest)) := by
  induction reached with
  | start =>
      refine ⟨[], ?_⟩
      rw [Item.start, List.drop_zero, wellFormed.start_symbols_eq]
      exact .refl
  | @move symbols item symbol _ next ih =>
      obtain ⟨rest, produces⟩ := ih
      refine ⟨rest, ?_⟩
      rw [Item.drop_of_next next] at produces
      simpa only [Item.advance, List.append_assoc, List.cons_append, List.nil_append]
        using produces
  | @expand symbols item rule production _ next member ih =>
      obtain ⟨rest, produces⟩ := ih
      obtain ⟨bound, own⟩ := (Grammar.mem_productions_of grammar rule production).mp member
      refine ⟨(grammar.symbols item.production).drop (item.dot + 1) ++ rest, ?_⟩
      have expanded := (Grammar.produces_symbols bound).frame symbols
        ((grammar.symbols item.production).drop (item.dot + 1) ++ rest)
      rw [Item.drop_of_next next, ← own] at produces
      simp only [List.append_assoc, List.cons_append, List.nil_append] at produces expanded
      exact produces.trans expanded

theorem StateGraph.IsCanonical.produces_front {graph : StateGraph}
    (canonical : IsCanonical grammar graph) (wellFormed : grammar.WellFormed) {states : List Nat}
    {symbols : List Symbol} (path : graph.Path states symbols) {trees : List Tree}
    (derives : Forest.Derives grammar symbols.reverse trees) :
    ∃ terminals rest, grammar.Names terminals (Forest.leaves trees) ∧
      grammar.Produces [.rule grammar.userStart] (terminals.map .token ++ rest) := by
  obtain ⟨item, reached⟩ := canonical.exists_reached path
  obtain ⟨rest, viable⟩ := reached.produces wellFormed
  obtain ⟨terminals, names, produces⟩ := derives.produces
  have front := produces.frame []
    ((grammar.symbols item.production).drop item.dot ++ rest)
  exact ⟨terminals, _, names, viable.trans front⟩

/-- Every rule derives some tokens, or nothing. -/
def Grammar.Productive (grammar : Grammar) : Prop :=
  ∀ rule, startRule < rule → rule < grammar.ruleCount →
    ∃ tree, Tree.Derives grammar (.rule rule) tree

theorem Grammar.Productive.exists_tree (productive : grammar.Productive) (symbol : Symbol)
    (occurs : grammar.Occurs symbol) : ∃ tree, Tree.Derives grammar symbol tree := by
  cases symbol with
  | rule rule => exact productive rule occurs.1 occurs.2
  | token terminal =>
      have found := Array.getElem?_eq_getElem occurs
      have named : grammar.tokenName? terminal = some grammar.namedTokens[terminal].name := by
        rw [tokenName?, found]
        rfl
      exact ⟨.leaf ⟨grammar.namedTokens[terminal].name, "", default, 1, 1⟩, .leaf named⟩

theorem Grammar.Productive.exists_forest (productive : grammar.Productive) (symbols : List Symbol)
    (occur : ∀ symbol ∈ symbols, grammar.Occurs symbol) :
    ∃ trees, Forest.Derives grammar symbols trees := by
  induction symbols with
  | nil => exact ⟨[], .nil⟩
  | cons symbol rest ih =>
      obtain ⟨tree, first⟩ := productive.exists_tree symbol (occur symbol List.mem_cons_self)
      obtain ⟨trees, others⟩ := ih fun other member => occur other (List.mem_cons_of_mem _ member)
      exact ⟨tree :: trees, .cons first others⟩

/-- A run of the automaton over the symbols ends in the item, and the tokens make a sentence of
what has been read once the production of the item is complete. -/
inductive Item.Awaits (grammar : Grammar) : List Symbol → Item → List Token → Prop
  | start : Item.Awaits grammar [] (Item.start grammar) []
  | move {symbols : List Symbol} {item : Item} {symbol : Symbol} {rest : List Token}
      (before : Item.Awaits grammar symbols item rest) (next : item.next? grammar = some symbol) :
      Item.Awaits grammar (symbols ++ [symbol]) item.advance rest
  | expand {symbols : List Symbol} {item : Item} {rule production : Nat} {rest : List Token}
      {trees : List Tree} (before : Item.Awaits grammar symbols item rest)
      (next : item.next? grammar = some (.rule rule))
      (produces : production ∈ grammar.productionsOf rule)
      (after : Forest.Derives grammar
        ((grammar.symbols item.production).drop (item.dot + 1)) trees) :
      Item.Awaits grammar symbols ⟨production, 0⟩ (Forest.leaves trees ++ rest)

variable {symbols : List Symbol} {item : Item} {rest : List Token}

theorem Item.Reached.exists_awaits (wellFormed : grammar.WellFormed)
    (productive : grammar.Productive) (reached : Item.Reached grammar symbols item) :
    ∃ rest, Item.Awaits grammar symbols item rest := by
  induction reached with
  | start => exact ⟨[], .start⟩
  | move _ next ih =>
      obtain ⟨rest, awaits⟩ := ih
      exact ⟨rest, .move awaits next⟩
  | @expand symbols item rule production _ next produces ih =>
      obtain ⟨rest, awaits⟩ := ih
      obtain ⟨trees, after⟩ := productive.exists_forest
        ((grammar.symbols item.production).drop (item.dot + 1))
        fun symbol member => wellFormed.symbolsOccur _ symbol (List.mem_of_mem_drop member)
      exact ⟨_, .expand awaits next produces after⟩

theorem Item.Awaits.admits (wellFormed : grammar.WellFormed)
    (awaits : Item.Awaits grammar symbols item rest) :
    Follows.Admits grammar (grammar.ruleOf item.production) rest := by
  induction awaits with
  | start =>
      rw [Item.start, wellFormed.startsAtStartRule]
      exact Follows.start_admits_nil wellFormed
  | move _ _ ih => exact ih
  | @expand symbols item rule production _ _ _ next produces after ih =>
      rw [((Grammar.mem_productions_of grammar rule production).mp produces).2]
      exact Follows.admits_of_derives wellFormed (Item.split_of_next next) after ih

/-- Trees for what has been read and for what is left of the production, and then the tokens that
are awaited, make a sentence. -/
theorem Item.Awaits.exists_tree (wellFormed : grammar.WellFormed)
    (awaits : Item.Awaits grammar symbols item rest) {front back : List Tree}
    (read : Forest.Derives grammar symbols front)
    (left : Forest.Derives grammar ((grammar.symbols item.production).drop item.dot) back) :
    ∃ tree, Tree.Derives grammar (.rule grammar.userStart) tree ∧
      tree.leaves = Forest.leaves front ++ (Forest.leaves back ++ rest) := by
  induction awaits generalizing front back with
  | start =>
      cases read
      rw [Item.start, List.drop_zero, wellFormed.start_symbols_eq] at left
      cases left with
      | @cons _ _ tree _ first others =>
          cases others
          refine ⟨tree, first, ?_⟩
          rw [Forest.leaves_singleton, List.append_nil]
          rfl
  | @move symbols item symbol rest _ next ih =>
      obtain ⟨older, newest, split, before, last⟩ := read.split
      cases last with
      | @cons _ _ tree _ own others =>
          cases others
          have both : Forest.Derives grammar
              ((grammar.symbols item.production).drop item.dot) (tree :: back) := by
            rw [Item.drop_of_next next]
            exact .cons own left
          obtain ⟨whole, derives, leaves⟩ := ih before both
          refine ⟨whole, derives, ?_⟩
          rw [leaves, split, Forest.leaves_append, Forest.leaves_singleton, Forest.leaves]
          simp only [List.append_assoc]
  | @expand symbols item rule production rest trees _ next produces after ih =>
      obtain ⟨bound, own⟩ := (Grammar.mem_productions_of grammar rule production).mp produces
      have node : Tree.Derives grammar (.rule rule) (.node production back) := by
        rw [← own]
        exact .node bound left
      have both : Forest.Derives grammar
          ((grammar.symbols item.production).drop item.dot) (.node production back :: trees) := by
        rw [Item.drop_of_next next]
        exact .cons node after
      obtain ⟨whole, derives, leaves⟩ := ih read both
      refine ⟨whole, derives, ?_⟩
      rw [leaves, Forest.leaves, Tree.leaves, List.append_assoc]

end SlrKit
