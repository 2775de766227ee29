import Arbor.Grammar.Rule

/-!
# Grammars

A grammar lists rules under their keys. The rules of one key stand in the order in
which they were added, which decides between overloads. Keys, bodies and guards lose
their blanks when a rule is added or edited. Every change either succeeds as a whole
or leaves the grammar as it was: a failed operation has no new grammar.

For later a grammar is kept by the texts of its rules. A grammar that was made from
texts takes them as they are and has nothing compiled.
-/
namespace Arbor

/-- The rules by key. -/
structure Grammar where
  rules : Table (List Rule)

namespace Grammar

/-- The grammar without rules. -/
def empty : Grammar :=
  ⟨.empty⟩

instance : Inhabited Grammar :=
  ⟨empty⟩

/-- The rules of a key. -/
def rulesOf? (grammar : Grammar) (key : Text) : Option (List Rule) :=
  grammar.rules.get? key

/-- Puts a list of rules under a key. -/
def withRules (grammar : Grammar) (key : Text) (rules : List Rule) : Grammar :=
  ⟨grammar.rules.insert key rules⟩

/-- Adds a rule behind the rules of its key. -/
def addRule (grammar : Grammar) (key body guard : Text) : Except RuleError Grammar :=
  let text := RuleText.withoutBlanks ⟨key, body, guard⟩
  if text.key.isEmpty then
    .error .missingKey
  else
    text.compile.map fun rule =>
      grammar.withRules text.key ((grammar.rulesOf? text.key).getD [] ++ [rule])

/-- Replaces the rule with this number. -/
def editRule (grammar : Grammar) (key : Text) (index : Nat) (body guard : Text) :
    Except RuleError Grammar :=
  let text := RuleText.withoutBlanks ⟨key, body, guard⟩
  match grammar.rulesOf? text.key with
  | none => .error (.unknownKey text.key)
  | some rules =>
    if index < rules.length then
      text.compile.map fun rule => grammar.withRules text.key (rules.set index rule)
    else
      .error (.indexOutOfRange text.key index)

/-- Takes out the rule with this number. The last rule of a key goes together with the
key, whatever number is asked for. -/
def deleteRule (grammar : Grammar) (key : Text) (index : Nat) :
    Except RuleError (Rule × Grammar) :=
  let key := Text.withoutBlanks key
  match (grammar.rulesOf? key).getD [] with
  | [] => .error (.unknownKey key)
  | [rule] => .ok (rule, ⟨grammar.rules.erase key⟩)
  | rules =>
    match rules[index]? with
    | none => .error (.indexOutOfRange key index)
    | some rule => .ok (rule, grammar.withRules key (rules.eraseIdx index))

/-- Compiles every rule again from its texts; the first fault in key order counts. -/
def recompile (grammar : Grammar) : Except RuleError Grammar :=
  (grammar.rules.mapValues fun rules => rules.mapM Rule.recompile).map Grammar.mk

/-- Adds the rule without a guard that a text defines: a key and a body with one equals
sign between them. -/
def addDefinition (grammar : Grammar) (text : Text) : Except RuleError Grammar :=
  match Text.splitOn ['='] text with
  | [key, body] => grammar.addRule key body []
  | _ => .error (.definition text)

/-- The keys that begin with a symbol, with their rules, in key order. -/
def candidates (grammar : Grammar) (symbol : Char) : List (Text × List Rule) :=
  grammar.rules.entries.filter fun entry => entry.1.head? == some symbol

/-- The texts of the rules by key. -/
def texts (grammar : Grammar) : List (Text × List RuleText) :=
  grammar.rules.entries.map fun entry => (entry.1, entry.2.map Rule.toRuleText)

/-- The grammar of these texts by key, with nothing compiled. The lists stay under the keys
that they are given with, and of several lists for one key the last one counts. -/
def ofTexts (texts : List (Text × List RuleText)) : Grammar :=
  ⟨Table.ofList (texts.map fun entry => (entry.1, entry.2.map RuleText.uncompiled))⟩

end Grammar

end Arbor
