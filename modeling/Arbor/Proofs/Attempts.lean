import Mathlib.Control.Monad.Basic
import Arbor.Expression.Basic
import Arbor.Proofs.Draws

/-!
# Outcomes of attempts

An attempt is known by its outcomes: for each generator either nothing, when a number had
to be drawn that does not exist, or a result together with the generator behind it. The
first part that has no result decides what becomes of a sequence of attempts, and faults
can be reworded without touching values and generators.
-/
namespace Arbor.Attempt

variable {ε δ α β : Type}

/-- The result of an attempt and the generator behind it, if there is one. -/
def outcome (attempt : Attempt ε α) (generator : Generator) :
    Option (Except ε α × Generator) :=
  attempt.run.run generator

/-- An attempt gives a value and leaves a generator. -/
def Gives (attempt : Attempt ε α) (generator : Generator) (value : α) (after : Generator) :
    Prop :=
  attempt.outcome generator = some (.ok value, after)

instance [DecidableEq ε] [DecidableEq α] (attempt : Attempt ε α) (generator : Generator)
    (value : α) (after : Generator) : Decidable (attempt.Gives generator value after) :=
  inferInstanceAs (Decidable (_ = _))

/-- Attempts with the same outcomes are the same. -/
theorem ext {first second : Attempt ε α}
    (same : ∀ generator, first.outcome generator = second.outcome generator) :
    first = second :=
  funext same

@[simp] theorem outcome_pure (value : α) (generator : Generator) :
    (pure value : Attempt ε α).outcome generator = some (.ok value, generator) := rfl

@[simp] theorem outcome_throw (fault : ε) (generator : Generator) :
    (throw fault : Attempt ε α).outcome generator = some (.error fault, generator) := rfl

@[simp] theorem outcome_ofExcept (result : Except ε α) (generator : Generator) :
    (ofExcept result).outcome generator = some (result, generator) := rfl

/-- What comes behind an attempt is tried with its value and its generator. -/
theorem outcome_bind (attempt : Attempt ε α) (next : α → Attempt ε β) (generator : Generator) :
    (attempt >>= next).outcome generator =
      match attempt.outcome generator with
      | none => none
      | some (.error fault, after) => some (.error fault, after)
      | some (.ok value, after) => (next value).outcome after := by
  show (attempt.run.run generator).bind _ = _
  unfold outcome
  cases attempt.run.run generator with
  | none => rfl
  | some reached =>
    obtain ⟨result, after⟩ := reached
    cases result <;> rfl

/-- Rewording faults leaves values and generators as they are. -/
theorem outcome_mapError (f : ε → δ) (attempt : Attempt ε α) (generator : Generator) :
    (attempt.mapError f).outcome generator =
      (attempt.outcome generator).map fun reached => (reached.1.mapError f, reached.2) := by
  show (attempt.run.run generator).bind _ = _
  unfold outcome
  cases attempt.run.run generator with
  | none => rfl
  | some reached =>
    obtain ⟨result, after⟩ := reached
    cases result <;> rfl

/-- A draw has no faults. -/
theorem outcome_lift (draw : Draw α) (generator : Generator) :
    outcome (ExceptT.lift draw : Attempt ε α) generator =
      (draw generator).map fun reached => (.ok reached.1, reached.2) := by
  show (draw generator).bind _ = _
  cases draw generator <;> rfl

/-! ## Values -/

/-- A sequence of attempts gives what its second part gives behind the first. -/
theorem gives_bind_iff {attempt : Attempt ε α} {next : α → Attempt ε β}
    {generator after : Generator} {value : β} :
    (attempt >>= next).Gives generator value after ↔
      ∃ first between, attempt.Gives generator first between ∧
        (next first).Gives between value after := by
  unfold Gives
  rw [outcome_bind]
  constructor
  · intro given
    split at given
    · cases given
    · cases given
    · next first between reached => exact ⟨first, between, reached, given⟩
  · rintro ⟨first, between, reached, given⟩
    rw [reached]
    exact given

/-- A value that is there gives itself. -/
@[simp] theorem gives_pure_iff {value given : α} {generator after : Generator} :
    (pure value : Attempt ε α).Gives generator given after ↔
      value = given ∧ generator = after := by
  simp [Gives]

/-- A value gives itself without a draw. -/
theorem gives_pure (value : α) (generator : Generator) :
    (pure value : Attempt ε α).Gives generator value generator :=
  gives_pure_iff.mpr ⟨rfl, rfl⟩

/-- A fault gives nothing. -/
@[simp] theorem not_gives_throw {fault : ε} {value : α} {generator after : Generator} :
    ¬(throw fault : Attempt ε α).Gives generator value after := by
  simp [Gives]

/-- A result without a draw gives its value, if it has one. -/
@[simp] theorem gives_ofExcept_iff {result : Except ε α} {value : α}
    {generator after : Generator} :
    (ofExcept result).Gives generator value after ↔
      result = .ok value ∧ generator = after := by
  simp [Gives]

/-- Rewording faults does not change what an attempt gives. -/
@[simp] theorem gives_mapError_iff {f : ε → δ} {attempt : Attempt ε α} {value : α}
    {generator after : Generator} :
    (attempt.mapError f).Gives generator value after ↔
      attempt.Gives generator value after := by
  unfold Gives
  rw [outcome_mapError]
  cases attempt.outcome generator with
  | none => simp
  | some reached =>
    obtain ⟨result, behind⟩ := reached
    cases result <;> simp [Except.mapError]

/-- A draw gives the value that it has. -/
theorem gives_lift_iff {draw : Draw α} {value : α} {generator after : Generator} :
    Gives (ExceptT.lift draw : Attempt ε α) generator value after ↔
      draw.run generator = some (value, after) := by
  unfold Gives
  rw [outcome_lift]
  change (draw.run generator).map _ = _ ↔ _
  cases draw.run generator with
  | none => simp
  | some reached => simp [Prod.ext_iff]

/-- A step that is tried on values one after the other gives a result for each of them. -/
theorem length_of_gives_mapM {step : α → Attempt ε β} {values : List α} {results : List β}
    {generator after : Generator} (given : (values.mapM step).Gives generator results after) :
    results.length = values.length := by
  induction values generalizing results generator after with
  | nil =>
    obtain ⟨rfl, _⟩ := gives_pure_iff.mp given
    rfl
  | cons value values ih =>
    rw [List.mapM_cons] at given
    obtain ⟨_, _, _, given⟩ := gives_bind_iff.mp given
    obtain ⟨_, _, later, given⟩ := gives_bind_iff.mp given
    obtain ⟨rfl, _⟩ := gives_pure_iff.mp given
    rw [List.length_cons, List.length_cons, ih later]

/-- What every result of a step has, all results of a row of steps have. -/
theorem forall_mem_of_gives_mapM {step : α → Attempt ε β} {property : β → Prop}
    (kept : ∀ {value result generator after},
      (step value).Gives generator result after → property result)
    {values : List α} {results : List β} {generator after : Generator}
    (given : (values.mapM step).Gives generator results after) :
    ∀ result ∈ results, property result := by
  induction values generalizing results generator after with
  | nil =>
    obtain ⟨rfl, _⟩ := gives_pure_iff.mp given
    simp
  | cons value values ih =>
    rw [List.mapM_cons] at given
    obtain ⟨_, _, here, given⟩ := gives_bind_iff.mp given
    obtain ⟨_, _, later, given⟩ := gives_bind_iff.mp given
    obtain ⟨rfl, _⟩ := gives_pure_iff.mp given
    exact List.forall_mem_cons.mpr ⟨kept here, ih later⟩

/-- Behind an attempt that gives a value only the second part of a sequence is left. -/
theorem outcome_bind_of_gives {attempt : Attempt ε α} {value : α} {generator between : Generator}
    (given : attempt.Gives generator value between) (next : α → Attempt ε β) :
    (attempt >>= next).outcome generator = (next value).outcome between := by
  rw [outcome_bind, given]

/-- Attempts with one outcome have one outcome with anything behind them. -/
theorem outcome_bind_congr {first second : Attempt ε α} {generator other : Generator}
    (same : first.outcome generator = second.outcome other) (next : α → Attempt ε β) :
    (first >>= next).outcome generator = (second >>= next).outcome other := by
  rw [outcome_bind, outcome_bind, same]

/-- Only what comes behind the values that an attempt can give matters. -/
theorem bind_congr_of_gives {attempt : Attempt ε α} {next other : α → Attempt ε β}
    (same : ∀ generator value after, attempt.Gives generator value after →
      next value = other value) :
    attempt >>= next = attempt >>= other := by
  refine ext fun generator => ?_
  rw [outcome_bind, outcome_bind]
  cases reached : attempt.outcome generator with
  | none => rfl
  | some parts =>
    obtain ⟨result, after⟩ := parts
    cases result with
    | error fault => rfl
    | ok value =>
      have equal : next value = other value := same generator value after reached
      simp only [equal]

/-! ## Stops -/

/-- An attempt has no outcome, since a number had to be drawn that does not exist. -/
def Stops (attempt : Attempt ε α) (generator : Generator) : Prop :=
  attempt.outcome generator = none

/-- A value is an outcome. -/
@[simp] theorem not_stops_pure {value : α} {generator : Generator} :
    ¬(pure value : Attempt ε α).Stops generator := by
  simp [Stops]

/-- A fault is an outcome. -/
@[simp] theorem not_stops_throw {fault : ε} {generator : Generator} :
    ¬(throw fault : Attempt ε α).Stops generator := by
  simp [Stops]

/-- A result without a draw is an outcome. -/
@[simp] theorem not_stops_ofExcept {result : Except ε α} {generator : Generator} :
    ¬(ofExcept result).Stops generator := by
  simp [Stops]

/-- A sequence of attempts stops where one of its parts does, the second one behind what the
first one gives. -/
theorem stops_bind_iff {attempt : Attempt ε α} {next : α → Attempt ε β} {generator : Generator} :
    (attempt >>= next).Stops generator ↔ attempt.Stops generator ∨
      ∃ value later, attempt.Gives generator value later ∧ (next value).Stops later := by
  unfold Stops Gives
  rw [outcome_bind]
  cases attempt.outcome generator with
  | none => simp
  | some reached =>
    obtain ⟨result, after⟩ := reached
    cases result with
    | error fault => simp
    | ok value =>
      constructor
      · intro stops
        exact .inr ⟨value, after, rfl, stops⟩
      · rintro (none | ⟨other, later, same, stops⟩)
        · cases none
        · cases same
          exact stops

/-- What is made of a value plays no part. -/
@[simp] theorem stops_map_iff {f : α → β} {attempt : Attempt ε α} {generator : Generator} :
    (f <$> attempt : Attempt ε β).Stops generator ↔ attempt.Stops generator := by
  rw [← bind_pure_comp, stops_bind_iff]
  simp only [not_stops_pure, and_false, exists_false, or_false]

/-- Rewording faults does not keep an attempt from stopping. -/
@[simp] theorem stops_mapError_iff {f : ε → δ} {attempt : Attempt ε α} {generator : Generator} :
    (attempt.mapError f).Stops generator ↔ attempt.Stops generator := by
  unfold Stops
  rw [outcome_mapError, Option.map_eq_none_iff]

/-- A draw stops if it has no value. -/
theorem stops_lift_iff {draw : Draw α} {generator : Generator} :
    Stops (ExceptT.lift draw : Attempt ε α) generator ↔ draw.run generator = none := by
  unfold Stops
  rw [outcome_lift, Option.map_eq_none_iff]
  rfl

/-- A row of steps stops at one of them, with the generator that those before it leave. -/
theorem stops_mapM_iff {step : α → Attempt ε β} {values : List α} {generator : Generator} :
    (values.mapM step).Stops generator ↔
      Draw.Encounters (fun value => (step value).Gives) (fun value => (step value).Stops) values
        generator := by
  induction values generalizing generator with
  | nil => simp [Draw.Encounters]
  | cons value values ih =>
    rw [List.mapM_cons, stops_bind_iff, Draw.Encounters]
    have behind (result : β) (later : Generator) :
        (values.mapM step >>= fun results => pure (result :: results) : Attempt ε _).Stops later ↔
          (values.mapM step).Stops later := by
      simp
    simp only [behind, ih]

/-! ## Faults -/

/-- An attempt ends with a fault and leaves a generator. -/
def Fails (attempt : Attempt ε α) (generator : Generator) (fault : ε) (after : Generator) :
    Prop :=
  attempt.outcome generator = some (.error fault, after)

/-- A value is no fault. -/
@[simp] theorem not_fails_pure {value : α} {generator : Generator} {fault : ε}
    {after : Generator} : ¬(pure value : Attempt ε α).Fails generator fault after := by
  simp [Fails]

/-- A fault ends with itself. -/
@[simp] theorem fails_throw_iff {thrown fault : ε} {generator after : Generator} :
    (throw thrown : Attempt ε α).Fails generator fault after ↔
      thrown = fault ∧ generator = after := by
  simp [Fails]

/-- A result without a draw ends with its fault, if it is one. -/
@[simp] theorem fails_ofExcept_iff {result : Except ε α} {fault : ε}
    {generator after : Generator} :
    (ofExcept result).Fails generator fault after ↔
      result = .error fault ∧ generator = after := by
  simp [Fails]

/-- A sequence of attempts ends with the fault of its first part, or with that of the second one
behind what the first one gives. -/
theorem fails_bind_iff {attempt : Attempt ε α} {next : α → Attempt ε β}
    {generator after : Generator} {fault : ε} :
    (attempt >>= next).Fails generator fault after ↔ attempt.Fails generator fault after ∨
      ∃ value between, attempt.Gives generator value between ∧
        (next value).Fails between fault after := by
  unfold Fails Gives
  rw [outcome_bind]
  cases attempt.outcome generator with
  | none => simp
  | some reached =>
    obtain ⟨result, later⟩ := reached
    cases result with
    | error other => simp
    | ok value =>
      constructor
      · intro failed
        exact .inr ⟨value, later, rfl, failed⟩
      · rintro (none | ⟨other, between, same, failed⟩)
        · cases none
        · cases same
          exact failed

/-- A draw has no faults. -/
@[simp] theorem not_fails_lift {draw : Draw α} {generator : Generator} {fault : ε}
    {after : Generator} : ¬Fails (ExceptT.lift draw : Attempt ε α) generator fault after := by
  unfold Fails
  rw [outcome_lift]
  cases draw generator <;> simp

/-- A fault that is reworded was there before. -/
theorem fails_mapError_iff {f : ε → δ} {attempt : Attempt ε α} {generator after : Generator}
    {fault : δ} :
    (attempt.mapError f).Fails generator fault after ↔
      ∃ cause, attempt.Fails generator cause after ∧ f cause = fault := by
  unfold Fails
  rw [outcome_mapError]
  cases attempt.outcome generator with
  | none => simp
  | some reached =>
    obtain ⟨result, later⟩ := reached
    cases result with
    | ok value => simp [Except.mapError]
    | error cause =>
      simp only [Option.map_some, Except.mapError, Option.some.injEq, Prod.mk.injEq,
        Except.error.injEq]
      constructor
      · rintro ⟨same, ended⟩
        exact ⟨cause, ⟨rfl, ended⟩, same⟩
      · rintro ⟨_, ⟨rfl, ended⟩, same⟩
        exact ⟨same, ended⟩

/-- Whatever the generator, an attempt fails with a fault that is allowed, if it fails. -/
def FailsOnly (attempt : Attempt ε α) (allowed : ε → Prop) : Prop :=
  ∀ generator fault after, attempt.outcome generator = some (.error fault, after) → allowed fault

/-- A value is no fault. -/
theorem failsOnly_pure (value : α) (allowed : ε → Prop) :
    (pure value : Attempt ε α).FailsOnly allowed := by
  intro generator fault after failed
  simp at failed

/-- A fault is the only one of itself. -/
theorem failsOnly_throw {fault : ε} {allowed : ε → Prop} (fine : allowed fault) :
    (throw fault : Attempt ε α).FailsOnly allowed := by
  intro generator other after failed
  obtain ⟨rfl, _⟩ : fault = other ∧ generator = after := by simpa using failed
  exact fine

/-- A result without a draw has no other fault than its own. -/
theorem failsOnly_ofExcept {result : Except ε α} {allowed : ε → Prop}
    (fine : ∀ fault, result = .error fault → allowed fault) :
    (ofExcept result).FailsOnly allowed := by
  intro generator fault after failed
  obtain ⟨same, _⟩ : result = .error fault ∧ generator = after := by simpa using failed
  exact fine fault same

/-- A sequence fails with the faults of its parts. The second part counts behind the values
that the first one can give. -/
theorem FailsOnly.bind {attempt : Attempt ε α} {next : α → Attempt ε β} {allowed : ε → Prop}
    (first : attempt.FailsOnly allowed)
    (second : ∀ generator value after, attempt.Gives generator value after →
      (next value).FailsOnly allowed) :
    (attempt >>= next).FailsOnly allowed := by
  intro generator fault after failed
  rw [outcome_bind] at failed
  split at failed
  · cases failed
  · next other between reached =>
    obtain ⟨rfl, rfl⟩ : other = fault ∧ between = after := by simpa using failed
    exact first generator other between reached
  · next value between reached =>
    exact second generator value between reached between fault after failed

/-- Reworded faults are among the new ones. -/
theorem failsOnly_mapError {attempt : Attempt ε α} {f : ε → δ} {allowed : δ → Prop}
    (fine : ∀ fault, allowed (f fault)) : (attempt.mapError f).FailsOnly allowed := by
  intro generator fault after failed
  rw [outcome_mapError] at failed
  cases reached : attempt.outcome generator with
  | none => simp [reached] at failed
  | some parts =>
    obtain ⟨result, behind⟩ := parts
    cases result with
    | ok value => simp [reached, Except.mapError] at failed
    | error other =>
      obtain ⟨rfl, _⟩ : f other = fault ∧ behind = after := by
        simpa [reached, Except.mapError] using failed
      exact fine other

/-- A draw has no faults. -/
theorem failsOnly_lift (draw : Draw α) (allowed : ε → Prop) :
    FailsOnly (ExceptT.lift draw : Attempt ε α) allowed := by
  intro generator fault after failed
  rw [outcome_lift] at failed
  cases reached : draw generator <;> simp [reached] at failed

@[simp] theorem mapError_pure (f : ε → δ) (value : α) :
    (pure value : Attempt ε α).mapError f = pure value := rfl

@[simp] theorem mapError_throw (f : ε → δ) (fault : ε) :
    (throw fault : Attempt ε α).mapError f = throw (f fault) := rfl

@[simp] theorem mapError_ofExcept (f : ε → δ) (result : Except ε α) :
    (ofExcept result).mapError f = ofExcept (result.mapError f) := by
  cases result <;> rfl

/-- The faults of a sequence are reworded part by part. -/
theorem mapError_bind (f : ε → δ) (attempt : Attempt ε α) (next : α → Attempt ε β) :
    (attempt >>= next).mapError f =
      attempt.mapError f >>= fun value => (next value).mapError f := by
  refine ext fun generator => ?_
  simp only [outcome_mapError, outcome_bind]
  cases attempt.outcome generator with
  | none => rfl
  | some reached =>
    obtain ⟨result, after⟩ := reached
    cases result with
    | error fault => rfl
    | ok value => simp [Except.mapError]

/-- Rewording twice is rewording once by both. -/
theorem mapError_mapError {γ : Type} (f : ε → δ) (g : δ → γ) (attempt : Attempt ε α) :
    (attempt.mapError f).mapError g = attempt.mapError (g ∘ f) := by
  refine ext fun generator => ?_
  simp only [outcome_mapError]
  cases attempt.outcome generator with
  | none => rfl
  | some reached =>
    obtain ⟨result, after⟩ := reached
    cases result <;> rfl

/-- A draw has no faults to reword. -/
@[simp] theorem mapError_lift (f : ε → δ) (draw : Draw α) :
    mapError f (ExceptT.lift draw : Attempt ε α) = ExceptT.lift draw := by
  refine ext fun generator => ?_
  simp only [outcome_mapError, outcome_lift]
  cases draw generator <;> rfl

end Arbor.Attempt
