import Arbor.Proofs.Preservation
import Arbor.Proofs.Results

/-!
# Brackets of derivations

A derivation compiles its grammar and then makes one pass after the other. What a pass
keeps, a derivation keeps. For round brackets the compilation itself sees to it that all
bodies are balanced, so a balanced start and keys that begin with no bracket are all it
takes, and then no pass ever finds a list that does not end.
-/
namespace Arbor

open Text

/-! ## Compiling a grammar -/

namespace Grammar

variable {grammar compiled : Grammar}

/-- Each rule of a compiled grammar is compiled from the texts of a rule that stood under
the same key. -/
theorem exists_of_mem_recompile (done : grammar.recompile = .ok compiled) :
    ∀ entry ∈ compiled.rules.entries, ∃ rules, (entry.1, rules) ∈ grammar.rules.entries ∧
      ∀ rule ∈ entry.2, ∃ source ∈ rules, source.toRuleText.compile = .ok rule := by
  obtain ⟨result, table, rfl⟩ := map_eq_ok_iff.mp done
  intro entry among
  obtain ⟨rules, listed, all⟩ :=
    Table.exists_of_mem_mapEntries (Table.mapEntries_of_mapValues table) entry among
  exact ⟨rules, listed, exists_of_mem_mapM all⟩

/-- Compiling leaves the bodies as they are. -/
theorem forall_body_of_recompile (done : grammar.recompile = .ok compiled)
    {holds : Text → Prop}
    (bodies : ∀ entry ∈ grammar.rules.entries, ∀ rule ∈ entry.2, holds rule.body) :
    ∀ entry ∈ compiled.rules.entries, ∀ rule ∈ entry.2, holds rule.body := by
  intro entry among rule listed
  obtain ⟨rules, there, sources⟩ := exists_of_mem_recompile done entry among
  obtain ⟨source, original, made⟩ := sources rule listed
  obtain ⟨_, _, _, _, rfl⟩ := RuleText.compile_eq_ok_iff.mp made
  exact bodies _ there source original

/-- Compiling accepts balanced bodies only. -/
theorem balanced_of_recompile (done : grammar.recompile = .ok compiled) :
    ∀ entry ∈ compiled.rules.entries, ∀ rule ∈ entry.2, Balanced rule.body := by
  intro entry among rule listed
  obtain ⟨_, _, sources⟩ := exists_of_mem_recompile done entry among
  obtain ⟨source, _, made⟩ := sources rule listed
  have balanced := Rule.balanced_of_compile made
  obtain ⟨_, _, _, _, rfl⟩ := RuleText.compile_eq_ok_iff.mp made
  exact balanced

/-- Compiling a compiled rule again changes nothing. -/
theorem compile_of_recompile (done : grammar.recompile = .ok compiled) :
    ∀ entry ∈ compiled.rules.entries, ∀ rule ∈ entry.2, rule.toRuleText.compile = .ok rule := by
  intro entry among rule listed
  obtain ⟨_, _, sources⟩ := exists_of_mem_recompile done entry among
  obtain ⟨source, _, made⟩ := sources rule listed
  obtain ⟨_, _, _, _, rfl⟩ := RuleText.compile_eq_ok_iff.mp made
  exact made

/-- A compiled grammar has compiled rules and the keys that it had before. -/
theorem nested_of_recompile {brackets : Brackets} (done : grammar.recompile = .ok compiled)
    (keys : ∀ key ∈ grammar.rules.keys, ∀ c, key.head? = some c → brackets.contains c = false)
    (bodies : ∀ entry ∈ compiled.rules.entries, ∀ rule ∈ entry.2,
      brackets.WellNested rule.body) : compiled.Nested brackets := by
  refine ⟨compile_of_recompile done, bodies, ?_⟩
  intro entry among
  obtain ⟨rules, there, _⟩ := exists_of_mem_recompile done entry among
  exact keys entry.1 (List.mem_map.mpr ⟨(entry.1, rules), there, rfl⟩)

end Grammar

/-! ## Faults of a pass -/

/-- All faults are allowed that the rules of a key may have. -/
structure DerivationError.OfRules (allowed : DerivationError → Prop) : Prop where
  emptyRuleList : ∀ key, allowed (.emptyRuleList key)
  unguardedOverload : ∀ key, allowed (.unguardedOverload key)
  noGuardMatched : ∀ key, allowed (.noGuardMatched key)
  arityMismatch : ∀ key expected found, allowed (.arityMismatch key expected found)
  body : ∀ key fault, allowed (.body key fault)

/-- All faults are allowed that a pass may find at tokens with lists that end. -/
structure DerivationError.AtTokens (allowed : DerivationError → Prop) : Prop extends
    OfRules allowed where
  argument : ∀ position fault, allowed (.argument position fault)
  ambiguousSymbol : ∀ symbol position, allowed (.ambiguousSymbol symbol position)

/-- A fault other than that of a list that does not end. -/
def DerivationError.Unbracketed (fault : DerivationError) : Prop :=
  ∀ position, fault ≠ .brackets position

/-- The faults at tokens are not those of lists that do not end. -/
theorem DerivationError.atTokens_unbracketed : AtTokens Unbracketed := by
  constructor
  · constructor <;> simp [Unbracketed]
  all_goals simp [Unbracketed]

variable {allowed : DerivationError → Prop}

namespace Replacement

variable {constants : Constants}

/-- The evaluation of arguments finds faults of arguments. -/
theorem failsOnly_evaluatePieces (faults : DerivationError.AtTokens allowed) (position : Nat)
    (pieces : List Text) : (evaluatePieces constants position pieces).FailsOnly allowed := by
  induction pieces generalizing position with
  | nil => exact Attempt.failsOnly_pure [] _
  | cons piece pieces ih =>
    refine (Attempt.failsOnly_mapError (faults.argument position)).bind ?_
    intro _ value _ _
    refine (ih _).bind ?_
    intro _ values _ _
    exact Attempt.failsOnly_pure _ _

/-- The evaluation of a list that ends finds faults of arguments. -/
theorem failsOnly_evaluateArguments (faults : DerivationError.AtTokens allowed) {contents : Text}
    (balanced : Balanced contents) (position : Nat) :
    (evaluateArguments constants position contents).FailsOnly allowed := by
  obtain ⟨pieces, _, found⟩ := ParameterList.arguments_of_balanced balanced
  simp only [evaluateArguments, found]
  exact failsOnly_evaluatePieces faults position pieces

/-- The choice of a rule finds faults of rule lists. -/
theorem failsOnly_select (faults : DerivationError.OfRules allowed) (key : Text)
    (scope : Scope) (rules : List Rule) : (select key scope rules).FailsOnly allowed := by
  induction rules with
  | nil => exact Attempt.failsOnly_throw (faults.noGuardMatched key)
  | cons rule rules ih =>
    unfold select
    split
    · refine (Attempt.failsOnly_lift _ _).bind ?_
      intro _ verdict _ _
      split
      · exact Attempt.failsOnly_pure rule _
      · exact ih
    · exact Attempt.failsOnly_throw (faults.unguardedOverload key)

/-- The application of rules finds faults of rule lists and of bodies. -/
theorem failsOnly_apply (faults : DerivationError.OfRules allowed) (key : Text)
    (rules : List Rule) (actuals : List Float) :
    (apply constants key rules actuals).FailsOnly allowed := by
  have body (rule : Rule) (scope : Scope) :
      ((rule.instantiate scope).mapError (DerivationError.body key)).FailsOnly allowed :=
    Attempt.failsOnly_mapError (faults.body key)
  cases rules with
  | nil => exact Attempt.failsOnly_throw (faults.emptyRuleList key)
  | cons first others =>
    unfold apply
    dsimp only
    split
    · split
      · exact body first _
      · refine (failsOnly_select faults key _ _).bind ?_
        intro _ rule _ _
        exact body rule _
    · exact Attempt.failsOnly_throw (faults.arityMismatch key _ _)

/-- What takes the place of a symbol without a list has faults of rule lists. -/
theorem failsOnly_ofSymbol (faults : DerivationError.AtTokens allowed) (grammar : Grammar)
    (symbol : Char) (position : Nat) :
    (Attempt.ofExcept (ofSymbol grammar symbol position)).FailsOnly allowed := by
  refine Attempt.failsOnly_ofExcept ?_
  intro fault failed
  unfold ofSymbol at failed
  split at failed
  · cases failed
  · cases failed
  · next key _ =>
    obtain rfl := Except.error.inj failed
    exact faults.emptyRuleList key
  · obtain rfl := Except.error.inj failed
    exact faults.ambiguousSymbol symbol position

end Replacement

namespace Grammar

variable {grammar : Grammar} {constants : Constants}

/-- A token has no fault of brackets, because its list is closed. -/
theorem failsOnly_rewriteToken (faults : DerivationError.AtTokens allowed) {token : Token}
    (closed : token.Closed) (position : Nat) :
    (grammar.rewriteToken constants position token).FailsOnly allowed := by
  obtain ⟨symbol, contents?⟩ := token
  cases contents? with
  | none => exact Replacement.failsOnly_ofSymbol faults grammar symbol position
  | some contents =>
    refine (Replacement.failsOnly_evaluateArguments faults closed _).bind ?_
    intro _ actuals _ _
    split
    · exact Replacement.failsOnly_apply faults.toOfRules _ _ actuals
    · exact Attempt.failsOnly_pure _ _

/-- The tokens of a text have no fault of brackets. -/
theorem failsOnly_rewriteTokens (faults : DerivationError.AtTokens allowed)
    {tokens : List Token} (closed : ∀ token ∈ tokens, token.Closed) (position : Nat) :
    (grammar.rewriteTokens constants position tokens).FailsOnly allowed := by
  induction tokens generalizing position with
  | nil => exact Attempt.failsOnly_pure [] _
  | cons token tokens ih =>
    obtain ⟨here, later⟩ := List.forall_mem_cons.mp closed
    refine (failsOnly_rewriteToken faults here position).bind ?_
    intro _ first _ _
    refine (ih later _).bind ?_
    intro _ others _ _
    exact Attempt.failsOnly_pure _ _

/-- A pass over any text has the faults of its tokens and at most the fault of a list that does
not end. -/
theorem failsOnly_rewrite (faults : DerivationError.AtTokens allowed)
    (brackets : ∀ position, allowed (.brackets position)) (sequence : Text) :
    (grammar.rewrite constants sequence).FailsOnly allowed := by
  rw [rewrite_eq_rewriteFrom]
  refine (failsOnly_rewriteTokens faults Token.closed_of_mem_cut 0).bind ?_
  intro _ written _ _
  have last : (rewriteLast (0 + byteLength (Token.textOfAll (Token.cut sequence).1))
      (Token.cut sequence).2).FailsOnly allowed := by
    unfold rewriteLast
    split
    · exact Attempt.failsOnly_pure [] _
    · exact Attempt.failsOnly_throw (brackets _)
  refine last.bind ?_
  intro _ behind _ _
  exact Attempt.failsOnly_pure _ _

/-- A pass over a balanced text finds no list that does not end. -/
theorem unbracketed_rewrite {sequence : Text} (balanced : Balanced sequence) :
    (grammar.rewrite constants sequence).FailsOnly DerivationError.Unbracketed := by
  have complete := Token.complete_of_depthAfter ((balanced_iff sequence).mp balanced)
  rw [rewrite_eq_rewriteFrom, rewriteFrom_of_complete complete]
  exact failsOnly_rewriteTokens DerivationError.atTokens_unbracketed Token.closed_of_mem_cut 0

end Grammar

/-! ## All passes -/

namespace LSystem

variable {grammar : Grammar} {constants : Constants}

/-- More passes are made by going on with the sequence and the generator that the first
ones left. -/
theorem passes_add (first second : Nat) (start : Text) :
    passes grammar constants (first + second) start = (do
      let sequence ← passes grammar constants first start
      passes grammar constants second sequence) := by
  induction first generalizing start with
  | zero => simp [passes]
  | succ first ih =>
    rw [Nat.succ_add]
    simp only [passes, ih, bind_assoc]

/-- Passes keep a sequence well nested. -/
theorem wellNested_of_passes {brackets : Brackets} (nested : grammar.Nested brackets)
    {count : Nat} {start sequence : Text} {generator after : Generator}
    (wellNested : brackets.WellNested start)
    (given : (passes grammar constants count start).Gives generator sequence after) :
    brackets.WellNested sequence := by
  induction count generalizing start generator with
  | zero =>
    obtain ⟨rfl, _⟩ := Attempt.gives_pure_iff.mp given
    exact wellNested
  | succ count ih =>
    obtain ⟨next, between, rewritten, given⟩ := Attempt.gives_bind_iff.mp given
    exact ih (nested.wellNested_of_rewrite wellNested rewritten) given

/-- Passes have the faults that each of them may have. -/
theorem failsOnly_passes (faults : DerivationError.AtTokens allowed)
    (brackets : ∀ position, allowed (.brackets position)) (count : Nat) (start : Text) :
    (passes grammar constants count start).FailsOnly allowed := by
  induction count generalizing start with
  | zero => exact Attempt.failsOnly_pure start _
  | succ count ih =>
    refine (Grammar.failsOnly_rewrite faults brackets start).bind ?_
    intro _ next _ _
    exact ih next

/-- Passes over a balanced text find no list that does not end. -/
theorem unbracketed_passes (nested : grammar.Nested .parameters) {start : Text}
    (balanced : Balanced start) (count : Nat) :
    (passes grammar constants count start).FailsOnly DerivationError.Unbracketed := by
  induction count generalizing start with
  | zero => exact Attempt.failsOnly_pure start _
  | succ count ih =>
    refine (Grammar.unbracketed_rewrite balanced).bind ?_
    intro generator next after given
    refine ih ?_
    rw [← Brackets.wellNested_parameters_iff] at balanced ⊢
    exact nested.wellNested_of_rewrite balanced given

/-- A derivation with a grammar that compiles has the outcome of its passes. -/
theorem derive_snd {system : LSystem} (compiled : system.grammar.recompile = .ok grammar)
    (fresh : Generator) (start : Text) (count : Nat) :
    (system.derive fresh start count).2 =
      ((passes grammar system.constants count start).outcome (system.generator fresh)).map
        Prod.fst := by
  unfold derive
  rw [compiled]
  rfl

/-- A derivation that gives a sequence does so by its passes. -/
theorem exists_gives_of_derive {system : LSystem}
    (compiled : system.grammar.recompile = .ok grammar) {fresh : Generator} {start : Text}
    {count : Nat} {sequence : Text}
    (derived : (system.derive fresh start count).2 = some (.ok sequence)) :
    ∃ after, (passes grammar system.constants count start).Gives (system.generator fresh)
      sequence after := by
  rw [derive_snd compiled] at derived
  obtain ⟨⟨result, after⟩, given, same⟩ := Option.map_eq_some_iff.mp derived
  obtain rfl : result = .ok sequence := same
  exact ⟨after, given⟩

/-- A derivation keeps a sequence balanced. If no key begins with a round bracket and the
grammar compiles, then whatever the seed and the numbers drawn, all sequences that the
derivation comes past are balanced if the first one is, up to the last one, and no pass
fails at a list that does not end. -/
theorem balanced_of_derive (system : LSystem) (compiled : system.grammar.recompile = .ok grammar)
    (keys : ∀ key ∈ system.grammar.rules.keys, key.head? ≠ some '(' ∧ key.head? ≠ some ')')
    {start : Text} (balanced : Balanced start) (fresh : Generator) (count : Nat) :
    (∀ done ≤ count, ∀ sequence after,
      (passes grammar system.constants done start).Gives (system.generator fresh) sequence after →
        Balanced sequence) ∧
      (∀ sequence, (system.derive fresh start count).2 = some (.ok sequence) →
        Balanced sequence) ∧
      ∀ position, (system.derive fresh start count).2 ≠ some (.error (.brackets position)) := by
  have nested : grammar.Nested .parameters := by
    refine Grammar.nested_of_recompile compiled ?_ ?_
    · intro key among c begins
      obtain ⟨opening, closing⟩ := keys key among
      refine Brackets.parameters_contains ?_ ?_
      · rintro rfl
        exact opening begins
      · rintro rfl
        exact closing begins
    · intro entry among rule listed
      rw [Brackets.wellNested_parameters_iff]
      exact Grammar.balanced_of_recompile compiled entry among rule listed
  have each (done : Nat) (sequence : Text) (after : Generator)
      (given : (passes grammar system.constants done start).Gives (system.generator fresh)
        sequence after) : Balanced sequence := by
    rw [← Brackets.wellNested_parameters_iff] at balanced ⊢
    exact wellNested_of_passes nested balanced given
  refine ⟨?_, ?_, ?_⟩
  · intro done _
    exact each done
  · intro sequence derived
    obtain ⟨after, given⟩ := exists_gives_of_derive compiled derived
    exact each count sequence after given
  · intro position failed
    rw [derive_snd compiled] at failed
    obtain ⟨⟨result, after⟩, reached, same⟩ := Option.map_eq_some_iff.mp failed
    obtain rfl : result = .error (.brackets position) := same
    exact unbracketed_passes nested balanced count _ _ after reached position rfl

/-- A symbol that grows a branch with itself at its end in every pass. -/
def sprout : LSystem :=
  ⟨"A(1)".toList, 2, .ofTexts [("A(x)".toList, [⟨"A(x)".toList, "B(x)[A(x+1)]".toList, []⟩])],
    .empty, some 7⟩

/-- The only rule compiles. -/
theorem exists_recompile_sprout : ∃ grammar, sprout.grammar.recompile = .ok grammar :=
  exists_of_isOk (by decide +kernel)

/-- What two passes make of it is balanced. -/
theorem balanced_of_derive_sprout :
    (sprout.derive default "A(1)".toList 2).2 = some (.ok "B(1)[B(2)[A(3)]]".toList) ∧
      Balanced "B(1)[B(2)[A(3)]]".toList := by
  obtain ⟨grammar, compiled⟩ := exists_recompile_sprout
  have derived : (sprout.derive default "A(1)".toList 2).2 =
      some (.ok "B(1)[B(2)[A(3)]]".toList) := by decide +kernel
  have kept := balanced_of_derive sprout compiled (by decide +kernel)
    (by decide : Balanced "A(1)".toList) default 2
  exact ⟨derived, kept.2.1 _ derived⟩

end LSystem

end Arbor
