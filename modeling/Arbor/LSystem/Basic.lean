import Arbor.LSystem.Pass

/-!
# Parametric L-systems

An L-system is a grammar with constants, the sequence it starts from and the number of
passes it makes. With a seed every derivation draws the same numbers; without one it
draws from a generator that the caller provides.

The grammar is compiled from its texts in front of every derivation, so what comes out
depends on these texts only and not on what was compiled before.
-/
namespace Arbor

/-- A grammar with what a derivation needs. -/
structure LSystem where
  /-- The sequence to start from. -/
  start : Text
  /-- The number of passes. -/
  iterations : Nat
  grammar : Grammar
  constants : Constants
  /-- The seed of every derivation, if it is fixed. -/
  seed : Option UInt64

namespace LSystem

/-- A system without symbols, rules, constants and seed. -/
def empty : LSystem :=
  ⟨[], 0, .empty, .empty, none⟩

instance : Inhabited LSystem :=
  ⟨empty⟩

/-- Rewrites a sequence as often as asked for. -/
def passes (grammar : Grammar) (constants : Constants) :
    Nat → Text → Attempt DerivationError Text
  | 0, sequence => pure sequence
  | count + 1, sequence => do
    let next ← grammar.rewrite constants sequence
    passes grammar constants count next

/-- The generator that a derivation starts with. -/
def generator (system : LSystem) (fresh : Generator) : Generator :=
  (system.seed.map Generator.ofSeed).getD fresh

/-- Compiles the grammar and rewrites a sequence. The system keeps the compiled grammar
also when the rewriting fails. There is no answer when a number had to be drawn that does
not exist. -/
def derive (system : LSystem) (fresh : Generator) (start : Text) (iterations : Nat) :
    LSystem × Option (Except DerivationError Text) :=
  match system.grammar.recompile with
  | .error fault => (system, some (.error (.grammar fault)))
  | .ok grammar =>
    let run := (passes grammar system.constants iterations start).run.run (system.generator fresh)
    ({ system with grammar }, run.map Prod.fst)

/-- Rewrites the sequence of the system as often as it says. -/
def deriveStart (system : LSystem) (fresh : Generator) :
    LSystem × Option (Except DerivationError Text) :=
  system.derive fresh system.start system.iterations

end LSystem

end Arbor
