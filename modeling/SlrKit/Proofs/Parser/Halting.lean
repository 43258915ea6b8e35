import SlrKit.Proofs.Grammar.Alternatives
import SlrKit.Proofs.Parser.ViableRuns

/-!
# Parses end

Without conflicts, and if every rule derives some tokens, every parse ends, on sentences and on
anything else, and whatever is done about errors. A step that is not a reduction either drops or
shifts the lookahead, or takes the parser on in dealing with this lookahead: from parsing to
recovering, to parsing once more and to dropping it. A reduction keeps the leaves of the trees on the
stack and makes a node of the newest, which cannot be done for ever.
-/

set_option autoImplicit false

namespace SlrKit

/-- How far from being dropped the lookahead is. -/
def Config.stage {α π τ : Type} (config : Config α π τ) : Nat :=
  match config.phase, config.resynced with
  | .recovering _ true, _ => 5
  | .parsing, false => 4
  | .recovering false false, _ => 3
  | .parsing, true => 2
  | .recovering true false, _ => 1

namespace Parser

variable {α π τ : Type}

/-- The stacks stand for trees, and these tokens are ahead. -/
structure Planted (parser : Parser α π τ) (graph : StateGraph) (ending : Option LexError)
    (config : Config α π τ) (symbols : List Symbol) (trees : List Tree) (rest : List Token) :
    Prop where
  stands : Stands parser graph config symbols
  derives : Forest.Derives parser.grammar symbols.reverse trees
  ahead : Ahead parser.next config.lookahead config.source rest ending

/-- What is left to be done before the end of the input, but for reductions. -/
def rank (config : Config α π τ) (rest : List Token) : Nat := 6 * rest.length + config.stage

variable {parser : Parser α π τ} {graph : StateGraph} {ending : Option LexError}
  {config after : Config α π τ} {symbols : List Symbol} {trees : List Tree} {rest : List Token}

theorem Planted.shift (planted : Planted parser graph ending config symbols trees rest)
    {top terminal target : Nat} {below : List Nat} {token : Token}
    (states : config.states = top :: below) (lookahead : config.lookahead = some token)
    (named : parser.grammar.tokenIndex? token.name = some terminal)
    (edge : graph.edge? top (.token terminal) = some target)
    (pulled : Pulled parser (shifted config token target) (.proceed after)) :
    ∃ left, rest = token :: left ∧ Planted parser graph ending after (.token terminal :: symbols)
      (trees ++ [.leaf token]) left := by
  have ahead := planted.ahead
  rw [lookahead] at ahead
  cases ahead with
  | @token _ _ left _ supplies =>
      refine ⟨left, rfl, (planted.stands.shift states named edge).pulled pulled, ?_,
        pulled.ahead supplies⟩
      rw [List.reverse_cons]
      exact planted.derives.append
        (.singleton (.leaf (Grammar.token_name_of_index token.name terminal named)))

theorem Planted.reduce [Inhabited α]
    (planted : Planted parser graph ending config symbols trees rest)
    {production prior target : Nat} {below : List Nat}
    (bound : production < parser.grammar.productionCount)
    (enough : (parser.grammar.symbols production).length ≤ symbols.length)
    (behind : (symbols.take (parser.grammar.symbols production).length).reverse =
      parser.grammar.symbols production)
    (cut : config.states.drop (parser.grammar.symbols production).length = prior :: below)
    (edge : graph.edge? prior (.rule (parser.grammar.ruleOf production)) = some target) :
    ∃ older children, trees = older ++ children ∧
      Planted parser graph ending (parser.reduced config production target)
        (.rule (parser.grammar.ruleOf production) ::
          symbols.drop (parser.grammar.symbols production).length)
        (older ++ [.node production children]) rest := by
  obtain ⟨older, children, split, olderDerive, inside⟩ := planted.derives.split_top _ behind
  refine ⟨older, children, split, planted.stands.reduce enough cut edge, ?_, planted.ahead⟩
  rw [List.reverse_cons]
  exact olderDerive.append (.singleton (.node bound inside))

theorem Planted.resume (planted : Planted parser graph ending config symbols trees rest)
    {depth : Nat} {discarded : Bool} (within : depth ≤ symbols.length) :
    ∃ older, Planted parser graph ending (config.resume depth discarded) (symbols.drop depth) older
      rest := by
  obtain ⟨older, _, _, olderDerive, _⟩ := planted.derives.split_at depth
  exact ⟨older, planted.stands.resume within, olderDerive, planted.ahead⟩

theorem Planted.discard (planted : Planted parser graph ending config symbols trees rest)
    {drawn : Config α π τ} {token : Token} (lookahead : config.lookahead = some token)
    (pulled : Pulled parser drawn (.proceed after)) (states : drawn.states = config.states)
    (operands : drawn.operands = config.operands) (source : drawn.source = config.source) :
    ∃ left, rest = token :: left ∧ Planted parser graph ending after symbols trees left := by
  have ahead := planted.ahead
  rw [lookahead, ← source] at ahead
  cases ahead with
  | @token _ _ left _ supplies =>
      exact ⟨left, rfl, (planted.stands.same states operands).pulled pulled, planted.derives,
        pulled.ahead supplies⟩

theorem one_le_stage (config : Config α π τ) : 1 ≤ config.stage := by
  unfold Config.stage
  split <;> decide

/-- A step comes nearer to the end of the input, or it makes a node of the newest trees. -/
inductive Nearer (parser : Parser α π τ) (graph : StateGraph) (ending : Option LexError)
    (config after : Config α π τ) (trees : List Tree) (rest : List Token) : Prop
  | lower {others : List Symbol} {kept : List Tree} {left : List Token}
      (planted : Planted parser graph ending after others kept left)
      (below : rank after left < rank config rest)
  | node {others : List Symbol} {grown : List Tree}
      (planted : Planted parser graph ending after others grown rest)
      (same : rank after rest = rank config rest)
      (leaves : Forest.leaves grown = Forest.leaves trees)
      (calls : parser.calls grown = parser.calls trees + 1)

variable [Inhabited α]

theorem Planted.nearer (planted : Planted parser graph ending config symbols trees rest)
    (declared : parser.Declared) {step : Step α π τ}
    (effect : Effect parser graph config symbols step) (next : step = .proceed after) :
    Nearer parser graph ending config after trees rest := by
  cases effect with
  | @shift _ _ target _ token phase states _ lookahead named edge =>
      have pulled := pull_pulled parser (shifted config token target)
      rw [next] at pulled
      obtain ⟨left, rfl, later⟩ := planted.shift states lookahead named edge pulled
      refine .lower later ?_
      simp only [rank, Config.stage, pulled.kept.phase, pulled.kept.resynced, shifted, phase,
        List.length_cons]
      omega
  | reduce _ _ _ bound inner enough behind cut _ edge =>
      cases next
      obtain ⟨older, children, rfl, later⟩ := planted.reduce bound enough behind cut edge
      refine .node later rfl ?_ (declared.calls_node bound inner older children)
      rw [Forest.leaves_append, Forest.leaves_append, Forest.leaves_singleton, Tree.leaves]
  | accept _ _ _ _ _ _ => cases next
  | @reject top _ phase _ _ =>
      have rejected := reject_rejected parser config top
      rw [next] at rejected
      cases rejected with
      | recover _ _ =>
          refine .lower ⟨planted.stands.same rfl rfl, planted.derives, planted.ahead⟩ ?_
          cases again : config.resynced with
          | false => simp [rank, Config.stage, phase, again]
          | true => simp [rank, Config.stage, phase, again]
  | @resume discarded _ phase _ within =>
      cases next
      obtain ⟨older, later⟩ := planted.resume within
      refine .lower later ?_
      cases discarded with
      | false => simp [rank, Config.stage, Config.resume, phase]
      | true => simp [rank, Config.stage, Config.resume, phase]
  | discard phase _ =>
      have dropped := discard_discarded parser config
      rw [next] at dropped
      cases dropped with
      | token lookahead pulled =>
          obtain ⟨left, rfl, later⟩ := planted.discard lookahead pulled rfl rfl rfl
          refine .lower later ?_
          have stage := one_le_stage config
          simp only [rank, pulled.kept.phase, Config.stage, List.length_cons]
          omega

/-- The parse goes on to an end. -/
def Ends (parser : Parser α π τ) (config : Config α π τ) : Prop :=
  ∃ last result, parser.Goes config last ∧ (parser.step last).result? = some result

theorem Ends.step (ends : parser.Ends after) (next : parser.step config = .proceed after) :
    parser.Ends config := by
  obtain ⟨last, result, goes, ended⟩ := ends
  exact ⟨last, result, .head next goes, ended⟩

section ConflictFree

variable (built : parser.Built graph) (free : Table.ConflictFree parser.grammar graph)
  (productive : parser.grammar.Productive) (declared : parser.Declared)

include built free productive declared

/-- By induction on what is left to be done, and for one such rank on the nodes that can still be
made over the leaves of the trees. -/
theorem Built.ends_of_planted (height : Nat)
    (planted : Planted parser graph ending config symbols trees rest)
    (ranked : rank config rest = height) : parser.Ends config := by
  induction height using Nat.strongRecOn generalizing config symbols trees rest with
  | ind height lower =>
      obtain ⟨bound, bounded⟩ := built.calls_bounded free productive (Forest.leaves trees)
      have few := bounded _ _ trees planted.stands.path planted.derives rfl
      generalize room : bound - parser.calls trees = left
      induction left generalizing config symbols trees with
      | zero => omega
      | succ left fewer =>
          cases made : parser.step config with
          | halt outcome => exact ⟨config, .ok outcome, .refl, by rw [made]; rfl⟩
          | fault reason => exact ⟨config, .error reason, .refl, by rw [made]; rfl⟩
          | proceed after =>
              have effect := built.step_effect planted.stands
              cases planted.nearer declared effect made with
              | lower closer below =>
                  rw [ranked] at below
                  exact (lower _ below closer rfl).step made
              | node grown same leaves calls =>
                  rw [← leaves] at bounded
                  have inside := bounded _ _ _ grown.stands.path grown.derives rfl
                  exact (fewer grown (same.trans ranked) bounded inside (by omega)).step made

end ConflictFree

/-- Without conflicts in its table, and if every rule of its grammar derives some tokens, a parser
ends on every finite input, and not in a fault. -/
theorem conflict_free_parses_end (width : IndexWidth) (declarations : Declarations α π)
    (parser : Parser α π τ) (graph : StateGraph)
    (compiled : Grammar.compile width declarations = .ok parser.grammar)
    (made : (Table.ofGrammar parser.grammar).value = .ok (graph, parser.table))
    (free : Table.ConflictFree parser.grammar graph) (productive : parser.grammar.Productive)
    (param : π) (source : τ) (tokens : List Token) (ending : Option LexError)
    (supplies : Supplies parser.next source tokens ending) :
    ∃ bound outcome, ∀ limit, bound ≤ limit →
      parser.run limit param source = some (.ok outcome) := by
  have built := built_of_compile width declarations compiled made
  have declared : parser.Declared := by
    intro production bound inner
    obtain ⟨written, _, writtenAs⟩ :=
      Grammar.compile_written width declarations _ compiled production bound inner
    exact ⟨_, writtenAs.declaration⟩
  have ends : ∃ bound result, ∀ limit, bound ≤ limit →
      parser.run limit param source = some result := by
    have pulled := start_pulled parser param source
    cases first : parser.start param source with
    | halt outcome =>
        exact ⟨0, .ok outcome, fun limit _ => by rw [run, first]; exact advance_ended _ _ _ rfl⟩
    | fault reason =>
        exact ⟨0, .error reason, fun limit _ => by rw [run, first]; exact advance_ended _ _ _ rfl⟩
    | proceed config =>
        rw [first] at pulled
        have planted : Planted parser graph ending config [] [] tokens :=
          ⟨(built.opening_stands param source).pulled pulled, .nil, pulled.ahead supplies⟩
        obtain ⟨last, result, goes, ended⟩ :=
          built.ends_of_planted free productive declared _ planted rfl
        obtain ⟨bound, runs⟩ := advance_of_goes goes result ended
        exact ⟨bound, result, fun limit enough => by rw [run, first]; exact runs limit enough⟩
  obtain ⟨bound, result, runs⟩ := ends
  obtain ⟨outcome, rfl, _⟩ := (runtime_never_faults width declarations parser graph compiled made
    param source).2 bound result (runs bound (Nat.le_refl _))
  exact ⟨bound, outcome, runs⟩

end Parser

theorem Rows.productive : Rows.grammar.Productive := by
  intro rule above below
  have only : rule = Rows.grammar.ruleOf 1 := by
    change rule < 2 at below
    exact Nat.le_antisymm (Nat.le_of_lt_succ below) above
  rw [only]
  exact ⟨.node 1 [], .node (by decide) .nil⟩

namespace Parser

/-- A row with an unknown sign in it, which is dropped. -/
theorem broken_row_ends :
    ∃ bound outcome, ∀ limit, bound ≤ limit →
      (Rows.parser Rows.table).run limit 0 (List.map Except.ok
        [Rows.letter 1, Sums.sign "?" 2, Rows.letter 3]) = some (.ok outcome) :=
  conflict_free_parses_end .bits32 Rows.declarations (Rows.parser Rows.table) Rows.graph
    Rows.compiled Rows.made Rows.conflict_free Rows.productive 0 _
    [Rows.letter 1, Sums.sign "?" 2, Rows.letter 3] none (supplies_read_list _)

end Parser

end SlrKit
