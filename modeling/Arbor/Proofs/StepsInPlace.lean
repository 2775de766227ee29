import Arbor.Proofs.Passes

/-!
# Steps in place

A step comes to a text and a next state, or to a fault and no state at all. Here a step is told
as it goes on instead: it changes the place of the pass and the output itself, and writes every
part of what takes the place of a symbol as soon as the part is known, so that a fault behind a
change would leave the change. Both have the same outcomes. All that can fail comes before the
first change, so behind a fault nothing has changed.
-/
namespace Arbor

open Text

/-- What a step changes: where the pass stands, what is left of the input and what is written. -/
structure Progress where
  cursor : Nat
  rest : Text
  output : Text

/-- A computation that changes the progress of a pass while it goes on. A fault does not take
back what was changed before it. -/
abbrev InPlace := ExceptT DerivationError (StateT Progress Draw)

namespace InPlace

variable {α β : Type}

/-- An attempt that changes nothing. -/
def attempt (attempt : Attempt DerivationError α) : InPlace α :=
  ExceptT.mk (StateT.lift attempt.run)

/-- Writes a text at the end of the output. -/
def write (text : Text) : InPlace Unit :=
  modify fun progress => { progress with output := progress.output ++ text }

/-- Writes a symbol with its arguments as numbers, one part after the other. -/
def writeFlat (symbol : Char) (actuals : List Float) : InPlace Unit := do
  write [symbol]
  write ['(']
  write (joinWith ',' (actuals.map formatNumber))
  write [')']

/-- Goes on to another place of the input. -/
def moveTo (cursor : Nat) (rest : Text) : InPlace Unit :=
  modify fun progress => { progress with cursor, rest }

/-- The parts of the input and of the output that have been added to earlier progress. -/
def since (before : Progress) : InPlace (Option Step) := do
  let reached ← get
  pure (some ⟨⟨before.cursor, reached.cursor⟩, ⟨byteLength before.output, byteLength reached.output⟩⟩)

/-- Rewrites the next symbol, and writes every part of what takes its place as soon as the part is
known. -/
def step (grammar : Grammar) (constants : Constants) : InPlace (Option Step) := do
  let before ← get
  match before.rest with
  | [] => pure none
  | symbol :: behind =>
    let opening := before.cursor + symbol.utf8Size
    match ParameterList.take opening behind with
    | .error fault => throw (.ofBrackets opening fault)
    | .ok (some contents, after) =>
      let actuals ← attempt (Replacement.evaluateArguments constants (opening + 1) contents)
      match grammar.candidates symbol with
      | [(key, rules)] =>
        let text ← attempt (Replacement.apply constants key rules actuals)
        write text
      | _ => writeFlat symbol actuals
      moveTo (opening + byteLength contents + 2) after
    | .ok (none, after) =>
      match grammar.candidates symbol with
      | [] => write [symbol]
      | [(_, [rule])] => write rule.body
      | [(key, [])] => throw (.emptyRuleList key)
      | _ => throw (.ambiguousSymbol symbol before.cursor)
      moveTo opening after
    since before

/-- The outcome of a computation: a result, the progress that it leaves, and the generator. -/
def outcome (computation : InPlace α) (progress : Progress) :
    Draw (Except DerivationError α × Progress) :=
  computation.run.run progress

@[simp] theorem outcome_pure (value : α) (progress : Progress) :
    (pure value : InPlace α).outcome progress = pure (.ok value, progress) := rfl

@[simp] theorem outcome_throw (fault : DerivationError) (progress : Progress) :
    (throw fault : InPlace α).outcome progress = pure (.error fault, progress) := rfl

@[simp] theorem outcome_get (progress : Progress) :
    (get : InPlace Progress).outcome progress = pure (.ok progress, progress) := rfl

@[simp] theorem outcome_write (text : Text) (progress : Progress) :
    (write text).outcome progress =
      pure (.ok (), { progress with output := progress.output ++ text }) := rfl

@[simp] theorem outcome_moveTo (cursor : Nat) (rest : Text) (progress : Progress) :
    (moveTo cursor rest).outcome progress = pure (.ok (), { progress with cursor, rest }) := rfl

@[simp] theorem outcome_since (before progress : Progress) :
    (since before).outcome progress = pure (.ok (some ⟨⟨before.cursor, progress.cursor⟩,
      ⟨byteLength before.output, byteLength progress.output⟩⟩), progress) := rfl

/-- An attempt leaves the progress as it is. -/
@[simp] theorem outcome_attempt (tried : Attempt DerivationError α) (progress : Progress) :
    (attempt tried).outcome progress = (do
      let result ← tried.run
      pure (result, progress)) := rfl

/-- A computation goes on from the progress that its first part leaves. -/
@[simp] theorem outcome_bind (first : InPlace α) (next : α → InPlace β) (progress : Progress) :
    (first >>= next).outcome progress = (do
      match ← first.outcome progress with
      | (.ok value, left) => (next value).outcome left
      | (.error fault, left) => pure (.error fault, left)) := by
  unfold outcome
  simp only [ExceptT.run_bind, StateT.run_bind]
  refine bind_congr fun parts => ?_
  obtain ⟨result, left⟩ := parts
  cases result <;> rfl

/-- The parts of a symbol with numbers make its text. -/
@[simp] theorem outcome_writeFlat (symbol : Char) (actuals : List Float) (progress : Progress) :
    (writeFlat symbol actuals).outcome progress =
      pure (.ok (),
        { progress with output := progress.output ++ Replacement.flatten symbol actuals }) := by
  simp [writeFlat, Replacement.flatten]

end InPlace

namespace Pass

/-- The progress of a pass. -/
def progress (pass : Pass) : Progress :=
  ⟨pass.cursor, pass.rest, pass.output.text⟩

@[simp] theorem cursor_progress (pass : Pass) : pass.progress.cursor = pass.cursor := rfl

@[simp] theorem rest_progress (pass : Pass) : pass.progress.rest = pass.rest := rfl

@[simp] theorem output_progress (pass : Pass) : pass.progress.output = pass.output.text := rfl

/-- What the result of a step means for the progress of the pass: behind a fault and at the end of
the input it is the progress in front of the step. -/
def settle (pass : Pass) :
    Except DerivationError (Option (Step × Pass)) → Except DerivationError (Option Step) × Progress
  | .ok (some (step, next)) => (.ok (some step), next.progress)
  | .ok none => (.ok none, pass.progress)
  | .error fault => (.error fault, pass.progress)

@[simp] theorem settle_error (pass : Pass) (fault : DerivationError) :
    pass.settle (.error fault) = (.error fault, pass.progress) := rfl

@[simp] theorem settle_none (pass : Pass) : pass.settle (.ok none) = (.ok none, pass.progress) := rfl

/-- Behind a step the progress is that of its next state. -/
@[simp] theorem settle_advance (pass : Pass) (cursor : Nat) (rest text : Text) :
    pass.settle (.ok (some (pass.advance cursor rest text))) =
      (.ok (some ⟨⟨pass.cursor, cursor⟩,
        ⟨byteLength pass.output.text, byteLength (pass.output.text ++ text)⟩⟩),
        ⟨cursor, rest, pass.output.text ++ text⟩) := by
  simp [settle, advance, progress, TextBuilder.bytes_eq_byteLength]

/-- A step in place comes to what the step comes to, with the same draws. -/
theorem outcome_step (pass : Pass) :
    (InPlace.step pass.grammar pass.constants).outcome pass.progress =
      pass.settle <$> pass.step.run := by
  unfold InPlace.step step
  rw [InPlace.outcome_bind, InPlace.outcome_get, pure_bind]
  cases rest : pass.rest with
  | nil => simp [rest]
  | cons symbol behind =>
    simp only [rest_progress, cursor_progress, rest]
    cases taken : ParameterList.take (pass.cursor + symbol.utf8Size) behind with
    | error fault => simp
    | ok parts =>
      obtain ⟨contents?, after⟩ := parts
      cases contents? with
      | none =>
        simp only [Replacement.ofSymbol]
        rcases pass.grammar.candidates symbol with
          _ | ⟨⟨key, _ | ⟨rule, _ | ⟨second, rules⟩⟩⟩, _ | ⟨other, others⟩⟩
        all_goals simp [Attempt.ofExcept]
      | some contents =>
        simp only [Replacement.ofSymbolWithList, bind_assoc, ExceptT.run_bind,
          InPlace.outcome_bind, InPlace.outcome_attempt, pure_bind, map_bind]
        refine bind_congr fun result => ?_
        cases result with
        | error fault => simp
        | ok actuals =>
          rcases pass.grammar.candidates symbol with _ | ⟨⟨key, rules⟩, _ | ⟨other, others⟩⟩
          · simp
          · simp only [InPlace.outcome_bind, InPlace.outcome_attempt, bind_assoc,
              pure_bind, map_bind]
            refine bind_congr fun result => ?_
            cases result <;> simp
          · simp

/-- A step in place ends with a fault exactly if the step does, and then nothing has changed. -/
theorem outcome_step_eq_error_iff {pass : Pass} {generator after : Generator}
    {fault : DerivationError} {left : Progress} :
    ((InPlace.step pass.grammar pass.constants).outcome pass.progress).run generator =
        some ((.error fault, left), after) ↔
      pass.step.Fails generator fault after ∧ left = pass.progress := by
  have outcomes : ((InPlace.step pass.grammar pass.constants).outcome pass.progress).run generator =
      (pass.step.outcome generator).map (Prod.map pass.settle id) := by
    rw [outcome_step, StateT.run_map]
    rfl
  rw [outcomes, Attempt.Fails]
  cases pass.step.outcome generator with
  | none => simp
  | some reached =>
    obtain ⟨result, later⟩ := reached
    rcases result with fault | _ | ⟨step, next⟩
    · simp only [Option.map_some, Prod.map_apply, settle_error, id_eq, Option.some.injEq,
        Prod.mk.injEq, Except.error.injEq]
      grind
    · simp
    · simp [settle]

end Pass

end Arbor
