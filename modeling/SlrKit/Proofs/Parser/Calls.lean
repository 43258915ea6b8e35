import SlrKit.Proofs.Grammar.Alternatives
import SlrKit.Proofs.Parser.Safety

/-!
# The calls of a parse

Beside the stacks a ledger keeps where each operand comes from, a token of the input or an earlier
call, and every call that a reduction has made. It shows that an action gets one argument for each
symbol of the alternative it was declared with, of the right kind, and that nothing is given to two
calls: what recovery drops from the stacks is given to none.
-/

set_option autoImplicit false

namespace SlrKit

/-- Where an operand comes from: the token or the call with this number. -/
inductive Provenance where
  | token (number : Nat)
  | call (number : Nat)
deriving DecidableEq

/-- What a reduction asks for and gets. The arguments are there with their origins, oldest first;
the result is a value and the parameter for the next call. -/
structure Call (α π : Type) where
  production : Nat
  param : π
  arguments : List (Provenance × Operand α)
  result : α × π

structure Ledger (α π : Type) where
  /-- How many tokens have been shifted or discarded. -/
  read : Nat := 0
  /-- The origins of the operands on the stack, newest in front. -/
  origins : List Provenance := []
  /-- The calls so far, oldest first. -/
  calls : List (Call α π) := []

variable {α π τ : Type}

/-- The parameter after these calls. -/
def paramAfter (first : π) (calls : List (Call α π)) : π :=
  match calls.getLast? with
  | some call => call.result.2
  | none => first

def ProductionDeclaration.compute [Inhabited α] (declared : ProductionDeclaration α π) (param : π)
    (arguments : List (Operand α)) : α × π :=
  match declared.action with
  | some action => action param arguments
  | none => (default, param)

namespace Ledger

variable (ledger : Ledger α π)

/-- The origins of everything that was given to a call. -/
def used : List Provenance := ledger.calls.flatMap fun call => call.arguments.map Prod.fst

def shift : Ledger α π :=
  { ledger with read := ledger.read + 1, origins := .token ledger.read :: ledger.origins }

def discard : Ledger α π := { ledger with read := ledger.read + 1 }

def resume (depth : Nat) : Ledger α π := { ledger with origins := ledger.origins.drop depth }

/-- The newest operands, as many as there are arguments, make way for the value of the call. -/
def reduce (call : Call α π) : Ledger α π :=
  { ledger with
    origins := .call ledger.calls.length :: ledger.origins.drop call.arguments.length
    calls := ledger.calls ++ [call] }

end Ledger

namespace Parser

variable [Inhabited α] (parser : Parser α π τ)

/-- The call that reducing the production makes. -/
def callOf (config : Config α π τ) (ledger : Ledger α π) (production : Nat) : Call α π where
  production := production
  param := config.param
  arguments := ((ledger.origins.zip config.operands).take
    (parser.grammar.symbols production).length).reverse
  result := parser.evaluateTop config production

/-- The ledger after the step that is next. -/
def enter (config : Config α π τ) (ledger : Ledger α π) : Ledger α π :=
  match config.phase with
  | .parsing =>
      match config.states with
      | [] => ledger
      | state :: _ =>
          match parser.cellFor state config.lookahead with
          | .shift _ => ledger.shift
          | .reduce production => ledger.reduce (parser.callOf config ledger production)
          | .accept => ledger
          | .error => ledger
  | .recovering skip _ =>
      if skip then ledger.discard
      else
        match parser.resumeDepth? config with
        | some depth => ledger.resume depth
        | none => ledger.discard

/-- The configuration and the ledger after so many steps, if the parse has not ended before. -/
def recording (param : π) (source : τ) : Nat → Option (Config α π τ × Ledger α π)
  | 0 =>
      match parser.start param source with
      | .proceed config => some (config, {})
      | _ => none
  | count + 1 =>
      match recording param source count with
      | some (config, ledger) =>
          match parser.step config with
          | .proceed after => some (after, parser.enter config ledger)
          | _ => none
      | none => none

end Parser

/-- The operand stands for the symbol and comes from there: it is a token of the input with the name
of the symbol, or the value of a call for a production of the rule. -/
inductive Stems (grammar : Grammar) (tokens : List Token) (calls : List (Call α π)) :
    Symbol → Provenance × Operand α → Prop
  | token {terminal number : Nat} {token : Token} (read : tokens[number]? = some token)
      (named : grammar.tokenName? terminal = some token.name) :
      Stems grammar tokens calls (.token terminal) (.token number, .lexeme token)
  | call {number : Nat} {call : Call α π} (made : calls[number]? = some call) :
      Stems grammar tokens calls (.rule (grammar.ruleOf call.production))
        (.call number, .value call.result.1)

theorem Stems.more {grammar : Grammar} {tokens : List Token} {calls : List (Call α π)}
    {symbol : Symbol} {entry : Provenance × Operand α}
    (stems : Stems grammar tokens calls symbol entry) (later : List (Call α π)) :
    Stems grammar tokens (calls ++ later) symbol entry := by
  cases stems with
  | token read named => exact .token read named
  | call made =>
      apply Stems.call
      rw [List.getElem?_append_left (List.getElem?_eq_some_iff.mp made).1]
      exact made

namespace Ledger

/-- The origin is one that there has been. -/
def Knows (ledger : Ledger α π) : Provenance → Prop
  | .token number => number < ledger.read
  | .call number => number < ledger.calls.length

/-- Nothing is in two places. -/
structure Tidy (ledger : Ledger α π) : Prop where
  once : (ledger.used ++ ledger.origins).Nodup
  known : ∀ origin ∈ ledger.used ++ ledger.origins, ledger.Knows origin

variable {ledger : Ledger α π}

theorem Tidy.shift (tidy : ledger.Tidy) : ledger.shift.Tidy := by
  have fresh : Provenance.token ledger.read ∉ ledger.used ++ ledger.origins :=
    fun member => Nat.lt_irrefl _ (tidy.known _ member)
  constructor
  · exact (List.perm_middle.nodup_iff).mpr (List.nodup_cons.mpr ⟨fresh, tidy.once⟩)
  · intro origin member
    rcases List.mem_cons.mp (List.perm_middle.mem_iff.mp member) with rfl | before
    · exact Nat.lt_succ_self _
    · have known := tidy.known origin before
      cases origin with
      | token number => exact Nat.lt_succ_of_lt known
      | call number => exact known

theorem Tidy.discard (tidy : ledger.Tidy) {read : Nat} (further : ledger.read ≤ read) :
    Tidy { ledger with read } := by
  refine ⟨tidy.once, ?_⟩
  intro origin member
  have known := tidy.known origin member
  cases origin with
  | token number => exact Nat.lt_of_lt_of_le known further
  | call number => exact known

theorem Tidy.resume (tidy : ledger.Tidy) (depth : Nat) : (ledger.resume depth).Tidy := by
  have fewer : (ledger.used ++ ledger.origins.drop depth).Sublist
      (ledger.used ++ ledger.origins) :=
    (List.drop_sublist depth ledger.origins).append_left ledger.used
  exact ⟨tidy.once.sublist fewer, fun origin member => tidy.known origin (fewer.subset member)⟩

/-- The call takes what it is given from the stack, and its value is new. -/
theorem Tidy.reduce (tidy : ledger.Tidy) (call : Call α π)
    (taken : call.arguments.map Prod.fst =
      (ledger.origins.take call.arguments.length).reverse) : (ledger.reduce call).Tidy := by
  have moved : ((ledger.reduce call).used ++ (ledger.reduce call).origins).Perm
      (.call ledger.calls.length :: (ledger.used ++ ledger.origins)) := by
    have parts := List.take_append_drop call.arguments.length ledger.origins
    simp only [Ledger.reduce, Ledger.used, List.flatMap_append, List.flatMap_singleton, taken]
    refine List.perm_middle.trans (List.Perm.cons _ ?_)
    rw [List.append_assoc]
    refine List.Perm.append_left _ ?_
    exact ((List.reverse_perm _).append_right _).trans (List.Perm.of_eq parts)
  have fresh : Provenance.call ledger.calls.length ∉ ledger.used ++ ledger.origins :=
    fun member => Nat.lt_irrefl _ (tidy.known _ member)
  constructor
  · exact moved.nodup_iff.mpr (List.nodup_cons.mpr ⟨fresh, tidy.once⟩)
  · intro origin member
    have count : (ledger.reduce call).calls.length = ledger.calls.length + 1 := by
      simp [Ledger.reduce]
    rcases List.mem_cons.mp (moved.mem_iff.mp member) with rfl | before
    · rw [Knows, count]
      exact Nat.lt_succ_self _
    · have known := tidy.known origin before
      cases origin with
      | token number => exact known
      | call number =>
          rw [Knows, count]
          exact Nat.lt_succ_of_lt known

end Ledger

/-- The call came after the earlier ones and got what its production asks for. -/
structure Call.Proper [Inhabited α] (parser : Parser α π τ) (first : π) (tokens : List Token)
    (earlier : List (Call α π)) (call : Call α π) : Prop where
  bound : call.production < parser.grammar.productionCount
  inner : call.production ≠ parser.grammar.startProduction
  arguments : List.Forall₂ (Stems parser.grammar tokens earlier)
    (parser.grammar.symbols call.production) call.arguments
  param : call.param = paramAfter first earlier
  result : call.result =
    parser.evaluate call.production call.param (call.arguments.map Prod.snd)

namespace Parser

/-- The ledger accounts for the configuration. -/
structure Accounted [Inhabited α] (parser : Parser α π τ) (graph : StateGraph) (first : π)
    (tokens : List Token) (ending : Option LexError) (config : Config α π τ)
    (ledger : Ledger α π) (symbols : List Symbol) : Prop where
  stands : Stands parser graph config symbols
  has : HasRead parser tokens ending config ledger.read
  height : ledger.origins.length = config.operands.length
  stems : List.Forall₂ (Stems parser.grammar tokens ledger.calls) symbols
    (ledger.origins.zip config.operands)
  proper : ∀ number (call : Call α π), ledger.calls[number]? = some call →
    call.Proper parser first tokens (ledger.calls.take number)
  param : config.param = paramAfter first ledger.calls
  tidy : ledger.Tidy

variable [Inhabited α] {parser : Parser α π τ} {graph : StateGraph} {first : π}
  {tokens : List Token} {ending : Option LexError} {config after : Config α π τ}
  {ledger : Ledger α π} {symbols : List Symbol}

theorem Accounted.discard
    (accounted : Accounted parser graph first tokens ending config ledger symbols)
    (states : after.states = config.states) (operands : after.operands = config.operands)
    (param : after.param = config.param) {read : Nat}
    (has : HasRead parser tokens ending after read) (further : ledger.read ≤ read) :
    Accounted parser graph first tokens ending after { ledger with read } symbols := by
  refine ⟨accounted.stands.same states operands, has, ?_, ?_, accounted.proper, ?_,
    accounted.tidy.discard further⟩
  · rw [operands]
    exact accounted.height
  · rw [operands]
    exact accounted.stems
  · rw [param]
    exact accounted.param

theorem Accounted.shift
    (accounted : Accounted parser graph first tokens ending config ledger symbols)
    {top terminal target : Nat} {below : List Nat} {token : Token}
    (states : config.states = top :: below) (lookahead : config.lookahead = some token)
    (named : parser.grammar.tokenIndex? token.name = some terminal)
    (edge : graph.edge? top (.token terminal) = some target)
    (pulled : Pulled parser (shifted config token target) (.proceed after)) :
    Accounted parser graph first tokens ending after ledger.shift (.token terminal :: symbols) := by
  have operands : after.operands = .lexeme token :: config.operands := pulled.kept.operands
  have read : tokens[ledger.read]? = some token := by
    rw [← accounted.has.lookahead_eq, lookahead]
  refine ⟨(accounted.stands.shift states named edge).pulled pulled,
    accounted.has.pulled lookahead pulled rfl, ?_, ?_, accounted.proper, ?_,
    accounted.tidy.shift⟩
  · rw [operands]
    exact congrArg Nat.succ accounted.height
  · rw [operands]
    exact .cons (.token read (Grammar.token_name_of_index token.name terminal named))
      accounted.stems
  · rw [pulled.kept.param]
    exact accounted.param

theorem Accounted.resume
    (accounted : Accounted parser graph first tokens ending config ledger symbols)
    {depth : Nat} {discarded : Bool} (within : depth ≤ symbols.length) :
    Accounted parser graph first tokens ending (config.resume depth discarded)
      (ledger.resume depth) (symbols.drop depth) := by
  refine ⟨accounted.stands.resume within, accounted.has.same rfl rfl, ?_, ?_, accounted.proper,
    accounted.param, accounted.tidy.resume depth⟩
  · simp only [Ledger.resume, Config.resume, List.length_drop, accounted.height]
  · simp only [Ledger.resume, Config.resume]
    have cut := List.forall₂_drop depth accounted.stems
    rw [List.zip, List.drop_zipWith] at cut
    exact cut

theorem Accounted.call_proper
    (accounted : Accounted parser graph first tokens ending config ledger symbols)
    {production : Nat} (bound : production < parser.grammar.productionCount)
    (inner : production ≠ parser.grammar.startProduction)
    (behind : (symbols.take (parser.grammar.symbols production).length).reverse =
      parser.grammar.symbols production) :
    (parser.callOf config ledger production).Proper parser first tokens ledger.calls := by
  refine ⟨bound, inner, ?_, accounted.param, ?_⟩
  · have fits := List.forall₂_take (parser.grammar.symbols production).length accounted.stems
    have turned := List.forall₂_reverse_iff.mpr fits
    rw [behind] at turned
    exact turned
  · have passed : (ledger.origins.zip config.operands).map Prod.snd = config.operands :=
      List.map_snd_zip (Nat.le_of_eq accounted.height.symm)
    simp only [callOf, evaluateTop, List.map_reverse, List.map_take, passed]

theorem Accounted.reduce
    (accounted : Accounted parser graph first tokens ending config ledger symbols)
    {production prior target : Nat} {rest : List Nat}
    (bound : production < parser.grammar.productionCount)
    (inner : production ≠ parser.grammar.startProduction)
    (enough : (parser.grammar.symbols production).length ≤ symbols.length)
    (behind : (symbols.take (parser.grammar.symbols production).length).reverse =
      parser.grammar.symbols production)
    (cut : config.states.drop (parser.grammar.symbols production).length = prior :: rest)
    (edge : graph.edge? prior (.rule (parser.grammar.ruleOf production)) = some target) :
    Accounted parser graph first tokens ending (parser.reduced config production target)
      (ledger.reduce (parser.callOf config ledger production))
      (.rule (parser.grammar.ruleOf production) ::
        symbols.drop (parser.grammar.symbols production).length) := by
  have proper := accounted.call_proper bound inner behind
  have count : (parser.callOf config ledger production).arguments.length =
      (parser.grammar.symbols production).length := proper.arguments.length_eq.symm
  refine ⟨accounted.stands.reduce enough cut edge, accounted.has.same rfl rfl, ?_, ?_, ?_, ?_, ?_⟩
  · simp only [Ledger.reduce, reduced, List.length_cons, List.length_drop, accounted.height, count]
  · have older := List.forall₂_drop (parser.grammar.symbols production).length accounted.stems
    rw [List.zip, List.drop_zipWith] at older
    simp only [Ledger.reduce, reduced, count, List.zip_cons_cons]
    exact .cons (.call List.getElem?_concat_length) (older.imp fun _ _ stems => stems.more _)
  · intro number call made
    by_cases earlier : number < ledger.calls.length
    · simp only [Ledger.reduce, List.getElem?_append_left earlier] at made
      simp only [Ledger.reduce, List.take_append_of_le_length (Nat.le_of_lt earlier)]
      exact accounted.proper number call made
    · have last : number = ledger.calls.length := by
        have within := (List.getElem?_eq_some_iff.mp made).1
        simp only [Ledger.reduce, List.length_append, List.length_singleton] at within
        omega
      simp only [last, Ledger.reduce, List.getElem?_concat_length, Option.some.injEq] at made
      simp only [last, Ledger.reduce, List.take_left', ← made]
      exact proper
  · simp only [Ledger.reduce, paramAfter, List.getLast?_concat]
    rfl
  · apply accounted.tidy.reduce
    have from_stack : (ledger.origins.zip config.operands).map Prod.fst = ledger.origins :=
      List.map_fst_zip (Nat.le_of_eq accounted.height)
    rw [count]
    simp only [callOf, List.map_reverse, List.map_take, from_stack]

theorem Effect.accounted {step : Step α π τ}
    (effect : Effect parser graph config symbols step) (next : step = .proceed after)
    (accounted : Accounted parser graph first tokens ending config ledger symbols) :
    ∃ others, Accounted parser graph first tokens ending after (parser.enter config ledger)
      others := by
  cases effect with
  | @shift _ _ target _ token phase states cell lookahead named edge =>
      have pulled := pull_pulled parser (shifted config token target)
      rw [next] at pulled
      have entered : parser.enter config ledger = ledger.shift := by
        simp only [enter, phase, states, cell]
      rw [entered]
      exact ⟨_, accounted.shift states lookahead named edge pulled⟩
  | @reduce _ production _ _ _ _ phase states cell bound inner enough behind cut _ edge =>
      cases next
      have entered : parser.enter config ledger =
          ledger.reduce (parser.callOf config ledger production) := by
        simp only [enter, phase, states, cell]
      rw [entered]
      exact ⟨_, accounted.reduce bound inner enough behind cut edge⟩
  | accept _ _ _ _ _ _ => cases next
  | @reject top _ phase states cell =>
      have rejected := reject_rejected parser config top
      rw [next] at rejected
      cases rejected with
      | recover _ _ =>
          have entered : parser.enter config ledger = ledger := by
            simp only [enter, phase, states, cell]
          rw [entered]
          refine ⟨symbols, ?_⟩
          apply accounted.discard
          · rfl
          · rfl
          · rfl
          · exact accounted.has.same rfl rfl
          · exact Nat.le_refl _
  | @resume _ depth phase found within =>
      cases next
      have entered : parser.enter config ledger = ledger.resume depth := by
        simp only [enter, phase, found, Bool.false_eq_true, if_false]
      rw [entered]
      exact ⟨_, accounted.resume within⟩
  | @discard skip _ phase stuck =>
      have dropped := discard_discarded parser config
      rw [next] at dropped
      cases dropped with
      | token lookahead pulled =>
          have entered : parser.enter config ledger = ledger.discard := by
            rcases stuck with rfl | stuck
            · simp only [enter, phase, if_true]
            · simp only [enter, phase, stuck, ite_self]
          rw [entered]
          exact ⟨symbols, accounted.discard pulled.kept.states pulled.kept.operands
            pulled.kept.param (accounted.has.pulled lookahead pulled rfl) (Nat.le_succ _)⟩

section Recording

variable {source : τ}

theorem recording_zero (recorded : parser.recording first source 0 = some (config, ledger)) :
    parser.start first source = .proceed config ∧ ledger = {} := by
  rw [recording] at recorded
  split at recorded
  · rename_i started
    cases recorded
    exact ⟨started, rfl⟩
  · cases recorded

theorem recording_succ {count : Nat}
    (recorded : parser.recording first source (count + 1) = some (after, ledger)) :
    ∃ config before, parser.recording first source count = some (config, before) ∧
      parser.step config = .proceed after ∧ ledger = parser.enter config before := by
  rw [recording] at recorded
  split at recorded
  · rename_i config before earlier
    split at recorded
    · rename_i next
      cases recorded
      exact ⟨config, before, earlier, next, rfl⟩
    · cases recorded
  · cases recorded

theorem Reachable.exists_recording (reachable : Reachable parser first source config) :
    ∃ count ledger, parser.recording first source count = some (config, ledger) := by
  induction reachable with
  | start started => exact ⟨0, {}, by rw [recording, started]⟩
  | @step config _ _ next ih =>
      obtain ⟨count, ledger, recorded⟩ := ih
      exact ⟨count + 1, parser.enter config ledger, by simp only [recording, recorded, next]⟩

theorem Built.recording_accounted (built : parser.Built graph)
    (supplies : Supplies parser.next source tokens ending) (count : Nat)
    (recorded : parser.recording first source count = some (config, ledger)) :
    ∃ symbols, Accounted parser graph first tokens ending config ledger symbols := by
  induction count generalizing config ledger with
  | zero =>
      obtain ⟨started, rfl⟩ := recording_zero recorded
      have pulled := start_pulled parser first source
      rw [started] at pulled
      have empty : config.operands = [] := pulled.kept.operands
      refine ⟨[], (built.opening_stands first source).pulled pulled,
        pulled.has_read (Nat.zero_le _) supplies, ?_, ?_, ?_, pulled.kept.param, ?_⟩
      · rw [empty]
        rfl
      · rw [empty]
        exact .nil
      · intro number call made
        cases made
      · exact ⟨List.nodup_nil, fun _ member => absurd member List.not_mem_nil⟩
  | succ count ih =>
      obtain ⟨before, earlier, made, next, rfl⟩ := recording_succ recorded
      obtain ⟨symbols, accounted⟩ := ih made
      exact (built.step_effect accounted.stands).accounted next accounted

end Recording

theorem Effect.halt_param {step : Step α π τ} {outcome : Outcome α π τ}
    (effect : Effect parser graph config symbols step) (ends : step = .halt outcome) :
    outcome.param = config.param := by
  cases effect with
  | @shift _ _ target _ token _ _ _ _ _ _ =>
      have pulled := pull_pulled parser (shifted config token target)
      rw [ends] at pulled
      cases pulled with
      | broken _ _ => rfl
  | reduce _ _ _ _ _ _ _ _ _ _ => cases ends
  | accept _ _ _ _ _ _ =>
      cases ends
      rfl
  | @reject top _ _ _ _ =>
      have rejected := reject_rejected parser config top
      rw [ends] at rejected
      cases rejected with
      | stop _ _ => rfl
  | resume _ _ _ => cases ends
  | discard _ _ =>
      have discarded := discard_discarded parser config
      rw [ends] at discarded
      cases discarded with
      | token _ pulled =>
          cases pulled with
          | broken _ _ => rfl
      | stuck _ _ => rfl

/-- A production is evaluated by the action of the declaration that it was written in. -/
theorem evaluate_written {declarations : Declarations α π}
    (actions : parser.action? = declarations.action?) {production : Nat} {written : Written}
    (writtenAs : parser.grammar.WrittenAs production written)
    {declared : ProductionDeclaration α π}
    (found : declarations.productions[written.declaration]? = some declared) (param : π)
    (arguments : List (Operand α)) :
    parser.evaluate production param arguments = declared.compute param arguments := by
  rw [evaluate, writtenAs.declaration, actions, Option.bind_some, Declarations.action?, found,
    Option.bind_some]
  rfl

/-- Every call of an action has one argument for each symbol of its production, oldest first. For a
terminal it is a token of the input with that name, for a rule the value of an earlier call for a
production of it. The action is that of the declaration which the alternative was written in, and
nothing is given to two calls. All this holds after any number of steps, with either recovery and
whatever conflicts the table has decided; the calls of a run that ends are those before its last
step. -/
theorem calls_fit_what_was_written (width : IndexWidth) (declarations : Declarations α π)
    (parser : Parser α π τ) (graph : StateGraph)
    (compiled : Grammar.compile width declarations = .ok parser.grammar)
    (made : (Table.ofGrammar parser.grammar).value = .ok (graph, parser.table))
    (actions : parser.action? = declarations.action?) (first : π) (source : τ)
    (tokens : List Token) (ending : Option LexError)
    (supplies : Supplies parser.next source tokens ending) :
    (∀ count config ledger, parser.recording first source count = some (config, ledger) →
      (∀ number call, ledger.calls[number]? = some call →
        List.Forall₂ (Stems parser.grammar tokens (ledger.calls.take number))
          (parser.grammar.symbols call.production) call.arguments ∧
        call.param = paramAfter first (ledger.calls.take number) ∧
        ∃ written declared, (Written.inDeclarations declarations)[call.production]? = some written ∧
          parser.grammar.WrittenAs call.production written ∧
          declarations.productions[written.declaration]? = some declared ∧
          written.StandsIn (RuleBook.terminalNames declarations) declared.text ∧
          call.result = declared.compute call.param (call.arguments.map Prod.snd)) ∧
      ledger.used.Nodup) ∧
    ∀ limit outcome, parser.run limit first source = some (.ok outcome) →
      parser.start first source = .halt outcome ∧ outcome.param = first ∨
        ∃ count config ledger, parser.recording first source count = some (config, ledger) ∧
          parser.step config = .halt outcome ∧ outcome.param = paramAfter first ledger.calls := by
  have built := built_of_compile width declarations compiled made
  constructor
  · intro count config ledger recorded
    obtain ⟨symbols, accounted⟩ := built.recording_accounted supplies count recorded
    refine ⟨?_, (List.nodup_append.mp accounted.tidy.once).1⟩
    intro number call called
    have proper := accounted.proper number call called
    refine ⟨proper.arguments, proper.param, ?_⟩
    obtain ⟨written, listed, writtenAs⟩ := Grammar.compile_written width declarations _ compiled
      call.production proper.bound proper.inner
    obtain ⟨declared, found, stands⟩ :=
      Written.exists_declaration (List.mem_of_getElem? listed)
    exact ⟨written, declared, listed, writtenAs, found, stands,
      proper.result.trans (evaluate_written actions writtenAs found _ _)⟩
  · intro limit outcome ran
    rcases run_result limit _ ran with started | ⟨last, reachable, ends⟩
    · have halts := Step.halt_of_result outcome started
      have pulled := start_pulled parser first source
      rw [halts] at pulled
      cases pulled with
      | broken _ _ => exact Or.inl ⟨halts, rfl⟩
    · have halts := Step.halt_of_result outcome ends
      obtain ⟨count, ledger, recorded⟩ := reachable.exists_recording
      obtain ⟨symbols, accounted⟩ := built.recording_accounted supplies count recorded
      have param := (built.step_effect accounted.stands).halt_param halts
      exact Or.inr ⟨count, last, ledger, recorded, halts, param.trans accounted.param⟩

/-- The sum of two with an unknown sign in between: after nine steps three calls have been made, the
last of them with the values of the other two. -/
theorem calls_of_broken_sum :
    ∃ config ledger call, (Sums.parser .panic).recording 0 (List.map Except.ok
        [Sums.sign "n" 1, Sums.sign "?" 2, Sums.sign "+" 3, Sums.sign "n" 4]) 9 =
          some (config, ledger) ∧
      ledger.used = [.token 0, .token 3, .call 0, .token 2, .call 1] ∧ ledger.used.Nodup ∧
      ledger.calls[2]? = some call ∧ call.production = 0 ∧ call.result = (3, 3) ∧
      List.Forall₂ (Stems Sums.grammar
          [Sums.sign "n" 1, Sums.sign "?" 2, Sums.sign "+" 3, Sums.sign "n" 4]
          (ledger.calls.take 2))
        (Sums.grammar.symbols call.production) call.arguments := by
  have records : ∃ config ledger call, (Sums.parser .panic).recording 0 (List.map Except.ok
      [Sums.sign "n" 1, Sums.sign "?" 2, Sums.sign "+" 3, Sums.sign "n" 4]) 9 =
        some (config, ledger) ∧
      ledger.used = [.token 0, .token 3, .call 0, .token 2, .call 1] ∧
      ledger.calls[2]? = some call ∧ call.production = 0 ∧ call.result = (3, 3) :=
    ⟨_, _, _, by cbv, by cbv, rfl, rfl, rfl⟩
  obtain ⟨config, ledger, call, recorded, used, last, production, result⟩ := records
  obtain ⟨calls, _⟩ := calls_fit_what_was_written .bits32 Sums.declarations (Sums.parser .panic)
    Sums.graph Sums.compiled Sums.made rfl 0 _ _ none (supplies_read_list
      [Sums.sign "n" 1, Sums.sign "?" 2, Sums.sign "+" 3, Sums.sign "n" 4])
  obtain ⟨fits, once⟩ := calls 9 config ledger recorded
  obtain ⟨arguments, _⟩ := fits 2 call last
  exact ⟨config, ledger, call, recorded, used, once, last, production, result, arguments⟩

end Parser

end SlrKit
