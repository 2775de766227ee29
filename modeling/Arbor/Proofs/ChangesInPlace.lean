import Arbor.Proofs.Persistence
import Arbor.Proofs.Pieces

/-!
# Grammars changed in place

A change comes to a next grammar, or to a fault and no grammar at all. Here a change is told as
it goes on instead: it works on the lists of one grammar, one after the other, and a fault behind
a change to a list would leave this change. Both come to the same. All that can fail comes before
the first change, or behind one that it cannot fail behind: a list of one rule still gives its
rule when it is gone with its key.

What a change makes of a grammar is said by what is found under each key. It holds for every
grammar, whatever of it is compiled: a grammar that was loaded may have rules without slots,
empty lists, and lists under keys that are not those of their rules.
-/
namespace Arbor

open Text

/-- A computation that changes a grammar while it goes on. A fault does not take back what was
changed before it. -/
abbrev Edit := ExceptT RuleError (StateM Grammar)

namespace Edit

variable {α β : Type}

/-- A result that changes nothing. -/
def ofExcept (result : Except RuleError α) : Edit α :=
  ExceptT.mk (pure result)

/-- The list under a key. -/
def rulesOf? (key : Text) : Edit (Option (List Rule)) := do
  let grammar ← get
  pure (grammar.rulesOf? key)

/-- Puts a list under a key. -/
def put (key : Text) (rules : List Rule) : Edit Unit :=
  modify fun grammar => grammar.withRules key rules

/-- Takes a key out and gives its list. -/
def take (key : Text) : Edit (Option (List Rule)) := do
  let rules? ← rulesOf? key
  modify fun grammar => ⟨grammar.rules.erase key⟩
  pure rules?

/-- The list under a key, which is there from now on, and empty, if there was none. -/
def entry (key : Text) : Edit (List Rule) := do
  match ← rulesOf? key with
  | some rules => pure rules
  | none =>
    put key []
    pure []

/-- Adds a rule at the end of the list of its key. -/
def addRule (key body guard : Text) : Edit Unit := do
  let text := RuleText.withoutBlanks ⟨key, body, guard⟩
  if text.key.isEmpty then
    throw .missingKey
  else
    let rule ← ofExcept text.compile
    let rules ← entry text.key
    put text.key (rules ++ [rule])

/-- Replaces the rule with this number. -/
def editRule (key : Text) (index : Nat) (body guard : Text) : Edit Unit := do
  let text := RuleText.withoutBlanks ⟨key, body, guard⟩
  match ← rulesOf? text.key with
  | none => throw (.unknownKey text.key)
  | some rules =>
    if rules.length ≤ index then
      throw (.indexOutOfRange text.key index)
    else
      let rule ← ofExcept text.compile
      put text.key (rules.set index rule)

/-- Takes out the rule with this number, or the only rule with its key. The key is taken out
before the rule is taken out of its list. -/
def deleteRule (key : Text) (index : Nat) : Edit Rule := do
  let key := withoutBlanks key
  let rules := (← rulesOf? key).getD []
  if rules.length = 0 then
    throw (.unknownKey key)
  else if rules.length = 1 then
    match (← take key).bind List.getLast? with
    | none => throw (.unknownKey key)
    | some rule => pure rule
  else
    match rules[index]? with
    | none => throw (.indexOutOfRange key index)
    | some rule =>
      put key (rules.eraseIdx index)
      pure rule

/-- Adds the rule without a guard that a text defines. -/
def addDefinition (text : Text) : Edit Unit :=
  match splitOn ['='] text with
  | [key, body] => addRule key body []
  | _ => throw (.definition text)

/-- Compiles every rule again, and puts the new lists in the place of the old ones when all of
them are there. -/
def recompile : Edit Unit := do
  let grammar ← get
  let rules ← ofExcept (grammar.rules.mapValues fun rules => rules.mapM Rule.recompile)
  set (Grammar.mk rules)

/-- Makes a change. What is taken out by it is its result. -/
def change : GrammarChange → Edit (Option Rule)
  | .add key body guard => do addRule key body guard; pure none
  | .edit key index body guard => do editRule key index body guard; pure none
  | .delete key index => do let rule ← deleteRule key index; pure (some rule)
  | .define text => do addDefinition text; pure none
  | .recompile => do recompile; pure none

/-! ## Outcomes -/

/-- What a computation comes to, with the grammar that it leaves. -/
def outcome (edit : Edit α) (grammar : Grammar) : Except RuleError α × Grammar :=
  edit.run.run grammar

@[simp] theorem outcome_pure (value : α) (grammar : Grammar) :
    (pure value : Edit α).outcome grammar = (.ok value, grammar) := rfl

@[simp] theorem outcome_throw (fault : RuleError) (grammar : Grammar) :
    (throw fault : Edit α).outcome grammar = (.error fault, grammar) := rfl

@[simp] theorem outcome_ofExcept (result : Except RuleError α) (grammar : Grammar) :
    (ofExcept result).outcome grammar = (result, grammar) := rfl

@[simp] theorem outcome_get (grammar : Grammar) :
    (get : Edit Grammar).outcome grammar = (.ok grammar, grammar) := rfl

@[simp] theorem outcome_set (grammar next : Grammar) :
    (set next : Edit PUnit).outcome grammar = (.ok ⟨⟩, next) := rfl

@[simp] theorem outcome_rulesOf? (key : Text) (grammar : Grammar) :
    (rulesOf? key).outcome grammar = (.ok (grammar.rulesOf? key), grammar) := rfl

@[simp] theorem outcome_put (key : Text) (rules : List Rule) (grammar : Grammar) :
    (put key rules).outcome grammar = (.ok (), grammar.withRules key rules) := rfl

@[simp] theorem outcome_take (key : Text) (grammar : Grammar) :
    (take key).outcome grammar = (.ok (grammar.rulesOf? key), ⟨grammar.rules.erase key⟩) := rfl

/-- A computation goes on with the grammar that its first part leaves. -/
@[simp] theorem outcome_bind (first : Edit α) (next : α → Edit β) (grammar : Grammar) :
    (first >>= next).outcome grammar =
      match first.outcome grammar with
      | (.ok value, left) => (next value).outcome left
      | (.error fault, left) => (.error fault, left) := by
  unfold outcome
  rw [ExceptT.run_bind, StateT.run_bind]
  change (match first.run.run grammar with | (result, left) => _) = _
  obtain ⟨result, left⟩ := first.run.run grammar
  cases result <;> rfl

end Edit

namespace Grammar

variable {α : Type}

/-- What the result of a change means for a grammar that is changed in place: behind a fault it is
as it was. -/
def settle (grammar : Grammar) : Except RuleError (α × Grammar) → Except RuleError α × Grammar
  | .ok (value, next) => (.ok value, next)
  | .error fault => (.error fault, grammar)

/-- Tries a change, and gives the rule that it takes out. -/
def perform? (grammar : Grammar) : GrammarChange → Except RuleError (Option Rule × Grammar)
  | .delete key index => (grammar.deleteRule key index).map fun (rule, next) => (some rule, next)
  | change => (grammar.change? change).map fun next => (none, next)

/-- A list that takes the place of another one leaves no trace of it. -/
theorem withRules_withRules (grammar : Grammar) (key : Text) (first second : List Rule) :
    (grammar.withRules key first).withRules key second = grammar.withRules key second := by
  refine congrArg Grammar.mk (Table.ext_get? fun other => ?_)
  by_cases same : other = key <;> simp [withRules, Table.get?_insert, same]

end Grammar

namespace Edit

/-- A rule that is added in place is added as a whole or not at all. -/
theorem outcome_addRule (key body guard : Text) (grammar : Grammar) :
    (addRule key body guard).outcome grammar =
      grammar.settle ((grammar.addRule key body guard).map fun next => ((), next)) := by
  unfold addRule Grammar.addRule
  dsimp only
  generalize RuleText.withoutBlanks ⟨key, body, guard⟩ = text
  split
  · rfl
  · cases text.compile with
    | error fault => rfl
    | ok rule =>
      cases found : grammar.rulesOf? text.key with
      | none => simp [entry, found, Grammar.settle, Except.map, Grammar.withRules_withRules]
      | some rules => simp [entry, found, Grammar.settle, Except.map]

/-- A rule that is replaced in place is replaced as a whole or not at all. -/
theorem outcome_editRule (key : Text) (index : Nat) (body guard : Text) (grammar : Grammar) :
    (editRule key index body guard).outcome grammar =
      grammar.settle ((grammar.editRule key index body guard).map fun next => ((), next)) := by
  unfold editRule Grammar.editRule
  dsimp only
  generalize RuleText.withoutBlanks ⟨key, body, guard⟩ = text
  rw [outcome_bind, outcome_rulesOf?]
  cases found : grammar.rulesOf? text.key with
  | none => rfl
  | some rules =>
    by_cases inside : index < rules.length
    · cases text.compile <;>
        simp [inside, Nat.not_le_of_lt inside, Grammar.settle, Except.map]
    · simp [inside, Nat.le_of_not_lt inside, Grammar.settle, Except.map]

/-- A rule that is taken out in place is taken out as a whole or not at all. -/
theorem outcome_deleteRule (key : Text) (index : Nat) (grammar : Grammar) :
    (deleteRule key index).outcome grammar = grammar.settle (grammar.deleteRule key index) := by
  unfold deleteRule Grammar.deleteRule
  dsimp only
  generalize withoutBlanks key = key
  rw [outcome_bind, outcome_rulesOf?]
  cases found : grammar.rulesOf? key with
  | none => rfl
  | some rules =>
    rcases rules with _ | ⟨first, _ | ⟨second, others⟩⟩
    · rfl
    · simp [found, Grammar.settle]
    · simp only [Option.getD_some]
      cases (first :: second :: others)[index]? <;> rfl

/-- A definition that is added in place is added as a whole or not at all. -/
theorem outcome_addDefinition (text : Text) (grammar : Grammar) :
    (addDefinition text).outcome grammar =
      grammar.settle ((grammar.addDefinition text).map fun next => ((), next)) := by
  unfold addDefinition Grammar.addDefinition
  generalize splitOn ['='] text = pieces
  rcases pieces with _ | ⟨key, _ | ⟨body, _ | ⟨third, others⟩⟩⟩
  · rfl
  · rfl
  · exact outcome_addRule key body [] grammar
  · rfl

/-- A grammar that is compiled in place is compiled as a whole or not at all. -/
theorem outcome_recompile (grammar : Grammar) :
    recompile.outcome grammar =
      grammar.settle (grammar.recompile.map fun next => ((), next)) := by
  unfold recompile Grammar.recompile
  rw [outcome_bind, outcome_get]
  cases compiled : grammar.rules.mapValues fun rules => rules.mapM Rule.recompile <;>
    simp [compiled, Grammar.settle, Except.map]

/-- A change in place comes to what the change comes to, and a fault of it leaves nothing
behind. -/
theorem outcome_change (change : GrammarChange) (grammar : Grammar) :
    (Edit.change change).outcome grammar = grammar.settle (grammar.perform? change) := by
  unfold Edit.change Grammar.perform? Grammar.change?
  cases change with
  | add key body guard =>
    dsimp only
    rw [outcome_bind, outcome_addRule]
    cases grammar.addRule key body guard <;> rfl
  | edit key index body guard =>
    dsimp only
    rw [outcome_bind, outcome_editRule]
    cases grammar.editRule key index body guard <;> rfl
  | delete key index =>
    dsimp only
    rw [outcome_bind, outcome_deleteRule]
    cases grammar.deleteRule key index <;> rfl
  | define text =>
    dsimp only
    rw [outcome_bind, outcome_addDefinition]
    cases grammar.addDefinition text <;> rfl
  | recompile =>
    dsimp only
    rw [outcome_bind, outcome_recompile]
    cases grammar.recompile <;> rfl

end Edit

/-! ## What changes make -/

namespace Grammar

/-- A grammar has this list under a key, or no list, and under every other key what another
grammar has there. -/
structure HasAt (before : Grammar) (key : Text) (rules? : Option (List Rule)) (after : Grammar) :
    Prop where
  here : after.rulesOf? key = rules?
  elsewhere : ∀ other, other ≠ key → after.rulesOf? other = before.rulesOf? other

/-- Grammars are known by what is found in them. -/
theorem ext_rulesOf? {first second : Grammar}
    (same : ∀ key, first.rulesOf? key = second.rulesOf? key) : first = second :=
  congrArg Grammar.mk (Table.ext_get? same)

/-- What is found in a grammar after a list was put under a key. -/
theorem hasAt_some_iff {before after : Grammar} {key : Text} {rules : List Rule} :
    before.HasAt key (some rules) after ↔ before.withRules key rules = after := by
  have found (other : Text) : (before.withRules key rules).rulesOf? other =
      if other = key then some rules else before.rulesOf? other :=
    Table.get?_insert before.rules key other rules
  constructor
  · rintro ⟨here, elsewhere⟩
    refine ext_rulesOf? fun other => ?_
    rw [found]
    by_cases same : other = key
    · rw [if_pos same, same, here]
    · rw [if_neg same, elsewhere other same]
  · rintro rfl
    exact ⟨by rw [found, if_pos rfl], fun other different => by rw [found, if_neg different]⟩

/-- What is found in a grammar after a key was taken out. -/
theorem hasAt_none_iff {before after : Grammar} {key : Text} :
    before.HasAt key none after ↔ ⟨before.rules.erase key⟩ = after := by
  have found (other : Text) : Grammar.rulesOf? ⟨before.rules.erase key⟩ other =
      if other = key then none else before.rulesOf? other :=
    Table.get?_erase before.rules key other
  constructor
  · rintro ⟨here, elsewhere⟩
    refine ext_rulesOf? fun other => ?_
    rw [found]
    by_cases same : other = key
    · rw [if_pos same, same, here]
    · rw [if_neg same, elsewhere other same]
  · rintro rfl
    exact ⟨by rw [found, if_pos rfl], fun other different => by rw [found, if_neg different]⟩

end Grammar

/-- What a change makes of a grammar, and the rule that it takes out. Blanks in what is given
count for nothing. -/
inductive GrammarChange.Makes (before : Grammar) :
    GrammarChange → Option Rule → Grammar → Prop
  /-- One more rule stands at the end of the list of its key, which may be new. -/
  | add {key body guard : Text} {rule : Rule} {after : Grammar} :
    withoutBlanks key ≠ [] → (RuleText.withoutBlanks ⟨key, body, guard⟩).compile = .ok rule →
      before.HasAt (withoutBlanks key)
        (some ((before.rulesOf? (withoutBlanks key)).getD [] ++ [rule])) after →
        Makes before (.add key body guard) none after
  /-- One rule stands in the place of another one. -/
  | edit {key body guard : Text} {index : Nat} {rules : List Rule} {rule : Rule}
      {after : Grammar} :
    before.rulesOf? (withoutBlanks key) = some rules → index < rules.length →
      (RuleText.withoutBlanks ⟨key, body, guard⟩).compile = .ok rule →
        before.HasAt (withoutBlanks key) (some (rules.set index rule)) after →
          Makes before (.edit key index body guard) none after
  /-- A rule with no other one beside it is gone with its key, whatever its number. -/
  | deleteLast {key : Text} {index : Nat} {rule : Rule} {after : Grammar} :
    before.rulesOf? (withoutBlanks key) = some [rule] →
      before.HasAt (withoutBlanks key) none after →
        Makes before (.delete key index) (some rule) after
  /-- One of several rules is gone. -/
  | deleteOne {key : Text} {index : Nat} {rules : List Rule} {rule : Rule} {after : Grammar} :
    before.rulesOf? (withoutBlanks key) = some rules → 1 < rules.length →
      rules[index]? = some rule →
        before.HasAt (withoutBlanks key) (some (rules.eraseIdx index)) after →
          Makes before (.delete key index) (some rule) after
  /-- The rule is added that stands on both sides of the only equals sign. -/
  | define {text key body : Text} {after : Grammar} :
    text = key ++ '=' :: body → '=' ∉ key → '=' ∉ body →
      Makes before (.add key body []) none after → Makes before (.define text) none after
  /-- All texts are as they were, and all rules are compiled. -/
  | recompile {after : Grammar} :
    after.texts = before.texts →
      (∀ entry ∈ after.rules.entries, ∀ rule ∈ entry.2, rule.recompile = .ok rule) →
        Makes before .recompile none after

namespace Grammar

variable {before after : Grammar}

/-- Adding succeeds exactly with what it is to make. -/
theorem addRule_eq_ok_iff {key body guard : Text} :
    before.addRule key body guard = .ok after ↔
      GrammarChange.Makes before (.add key body guard) none after := by
  unfold addRule
  dsimp only
  constructor
  · intro added
    split at added
    · cases added
    · next some =>
      obtain ⟨rule, compiled, made⟩ := map_eq_ok_iff.mp added
      refine .add ?_ compiled (hasAt_some_iff.mpr made)
      simpa [RuleText.withoutBlanks] using some
  · rintro (⟨some, compiled, made⟩)
    rw [if_neg (by simpa [RuleText.withoutBlanks] using some)]
    exact map_eq_ok_iff.mpr ⟨_, compiled, hasAt_some_iff.mp made⟩

/-- Replacing succeeds exactly with what it is to make. -/
theorem editRule_eq_ok_iff {key body guard : Text} {index : Nat} :
    before.editRule key index body guard = .ok after ↔
      GrammarChange.Makes before (.edit key index body guard) none after := by
  unfold editRule
  dsimp only
  constructor
  · intro edited
    split at edited
    · cases edited
    · next rules found =>
      split at edited
      · next inside =>
        obtain ⟨rule, compiled, made⟩ := map_eq_ok_iff.mp edited
        exact .edit found inside compiled (hasAt_some_iff.mpr made)
      · cases edited
  · rintro (⟨⟩ | ⟨found, inside, compiled, made⟩)
    have listed : before.rulesOf? (RuleText.withoutBlanks ⟨key, body, guard⟩).key = _ := found
    simp only [listed, if_pos inside]
    exact map_eq_ok_iff.mpr ⟨_, compiled, hasAt_some_iff.mp made⟩

/-- Taking out succeeds exactly with what it is to make. -/
theorem deleteRule_eq_ok_iff {key : Text} {index : Nat} {rule : Rule} :
    before.deleteRule key index = .ok (rule, after) ↔
      GrammarChange.Makes before (.delete key index) (some rule) after := by
  unfold deleteRule
  dsimp only
  constructor
  · intro deleted
    cases found : before.rulesOf? (withoutBlanks key) with
    | none => simp [found] at deleted
    | some rules =>
      rw [found, Option.getD_some] at deleted
      rcases rules with _ | ⟨first, _ | ⟨second, others⟩⟩
      · cases deleted
      · cases deleted
        exact .deleteLast found (hasAt_none_iff.mpr rfl)
      · dsimp only at deleted
        split at deleted
        · cases deleted
        · next present =>
          cases deleted
          exact .deleteOne found (by simp) present (hasAt_some_iff.mpr rfl)
  · rintro (_ | _ | ⟨found, made⟩ | ⟨found, several, present, made⟩)
    · rw [found, ← hasAt_none_iff.mp made]
      rfl
    · rename_i rules
      rw [found, ← hasAt_some_iff.mp made]
      rcases rules with _ | ⟨first, _ | ⟨second, others⟩⟩
      · simp at several
      · simp at several
      · simp [present]

/-- Adding a definition succeeds exactly with what it is to make. -/
theorem addDefinition_eq_ok_iff {text : Text} :
    before.addDefinition text = .ok after ↔
      GrammarChange.Makes before (.define text) none after := by
  unfold addDefinition
  constructor
  · intro added
    split at added
    · next key body cut =>
      obtain ⟨split, before_sign, behind_sign⟩ := splitOn_singleton_eq_pair_iff.mp cut
      exact .define split before_sign behind_sign (addRule_eq_ok_iff.mp added)
    · cases added
  · intro made
    cases made with
    | define split before_sign behind_sign made =>
      rw [splitOn_singleton_eq_pair_iff.mpr ⟨split, before_sign, behind_sign⟩]
      exact addRule_eq_ok_iff.mpr made

/-- Compiling succeeds exactly with what it is to make. -/
theorem recompile_eq_ok_iff :
    before.recompile = .ok after ↔ GrammarChange.Makes before .recompile none after := by
  constructor
  · intro done
    exact .recompile (texts_of_recompile done) (compile_of_recompile done)
  · intro made
    cases made with
    | recompile texts compiled => rw [← recompile_congr texts, recompile_eq_self compiled]

/-- A change succeeds exactly with what it is to make, of any grammar. -/
theorem perform?_eq_ok_iff {change : GrammarChange} {taken? : Option Rule} :
    before.perform? change = .ok (taken?, after) ↔ change.Makes before taken? after := by
  -- A change that takes nothing out makes what its own operation makes.
  have keeps {result : Except RuleError Grammar}
      (made_iff : result = .ok after ↔ change.Makes before none after)
      (nothing : change.Makes before taken? after → taken? = none) :
      result.map (fun next => ((none : Option Rule), next)) = .ok (taken?, after) ↔
        change.Makes before taken? after := by
    constructor
    · intro done
      obtain ⟨next, made, same⟩ := map_eq_ok_iff.mp done
      cases same
      exact made_iff.mp made
    · intro made
      obtain rfl := nothing made
      exact map_eq_ok_iff.mpr ⟨after, made_iff.mpr made, rfl⟩
  cases change with
  | add key body guard => exact keeps addRule_eq_ok_iff fun made => by cases made; rfl
  | edit key index body guard => exact keeps editRule_eq_ok_iff fun made => by cases made; rfl
  | define text => exact keeps addDefinition_eq_ok_iff fun made => by cases made; rfl
  | recompile => exact keeps recompile_eq_ok_iff fun made => by cases made; rfl
  | delete key index =>
    constructor
    · intro done
      obtain ⟨⟨rule, next⟩, deleted, same⟩ := map_eq_ok_iff.mp done
      cases same
      exact deleteRule_eq_ok_iff.mp deleted
    · intro made
      obtain ⟨rule, rfl⟩ : ∃ rule, taken? = some rule := by cases made <;> exact ⟨_, rfl⟩
      exact map_eq_ok_iff.mpr ⟨(rule, after), deleteRule_eq_ok_iff.mpr made, rfl⟩

/-- Changes are atomic and touch one list. A change that is made in place, on any grammar, comes to
what the change comes to; if it ends with a fault, then the grammar is as it was; and it succeeds
exactly with what it is to make: one rule more at the end of a list, one in the place of another,
one less or a key with its only rule less, while all other lists are as they were, or the same
texts with all rules compiled. -/
theorem change_atomic (before : Grammar) (change : GrammarChange) :
    (Edit.change change).outcome before = before.settle (before.perform? change) ∧
      (∀ fault after, (Edit.change change).outcome before = (.error fault, after) →
        after = before) ∧
      ∀ taken? after, (Edit.change change).outcome before = (.ok taken?, after) ↔
        change.Makes before taken? after := by
  refine ⟨Edit.outcome_change change before, ?_, ?_⟩
  · intro fault after failed
    rw [Edit.outcome_change] at failed
    cases done : before.perform? change with
    | error cause =>
      rw [done] at failed
      exact (congrArg Prod.snd failed).symm
    | ok parts =>
      rw [done] at failed
      cases congrArg Prod.fst failed
  · intro taken? after
    rw [Edit.outcome_change, ← perform?_eq_ok_iff]
    cases before.perform? change with
    | error cause => simp [settle]
    | ok parts => simp [settle, Prod.ext_iff]

/-- A grammar that was loaded: a list of two rules under a key that is not theirs, an empty list,
and a rule whose body does not compile. -/
def loaded : Grammar :=
  ofTexts [("A".toList, [⟨"B(x)".toList, "C(1)".toList, []⟩, ⟨"D".toList, "E(2)".toList, []⟩]),
    ("F".toList, []), ("G".toList, [⟨"G".toList, "H(".toList, []⟩])]

/-- Compiling the loaded grammar fails at its last rule and leaves the others as they were. Its
second rule may be taken out: the list has the other one then, and the empty list stays. -/
theorem change_atomic_loaded :
    ((Edit.change .recompile).outcome loaded).2 = loaded ∧
      ∃ rule after, (Edit.change (.delete " A".toList 1)).outcome loaded = (.ok (some rule), after) ∧
        (after.rulesOf? "A".toList).map List.length = some 1 ∧
          after.rulesOf? "F".toList = loaded.rulesOf? "F".toList := by
  constructor
  · have refused : ((Edit.change .recompile).outcome loaded).1.isOk = false := by decide +kernel
    cases failed : ((Edit.change .recompile).outcome loaded).1 with
    | ok taken? =>
      rw [failed] at refused
      cases refused
    | error fault => exact (change_atomic loaded .recompile).2.1 fault _ (Prod.ext failed rfl)
  · have succeeds : ((Edit.change (.delete " A".toList 1)).outcome loaded).1.isOk = true := by
      decide +kernel
    have two : (loaded.rulesOf? "A".toList).map List.length = some 2 := by decide +kernel
    have key : withoutBlanks " A".toList = "A".toList := by decide
    obtain ⟨taken?, done⟩ := exists_of_isOk succeeds
    have reached : (Edit.change (.delete " A".toList 1)).outcome loaded = (.ok taken?, _) :=
      Prod.ext done rfl
    have made := ((change_atomic loaded _).2.2 taken? _).mp reached
    rw [reached]
    rw [← key] at two ⊢
    cases made with
    | deleteLast found _ =>
      rw [found] at two
      cases two
    | @deleteOne _ _ rules rule _ found several present changed =>
      rw [found, Option.map_some, Option.some.injEq] at two
      refine ⟨rule, _, rfl, ?_, changed.elsewhere _ (by decide)⟩
      rw [changed.here, Option.map_some, List.length_eraseIdx_of_lt (by omega), two]

end Grammar

end Arbor
