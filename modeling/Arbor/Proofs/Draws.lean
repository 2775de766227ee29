import Arbor.Random.Draw

/-!
# Values of draws

A draw of several steps has a value only if every step has one, each with the generator
that the step before it left. A draw that is only looked at leaves the generator as it was.
-/
namespace Arbor.Draw

variable {α β : Type}

/-- A value takes nothing from the generator. -/
theorem pure_eq_some_iff {value result : α} {generator after : Generator} :
    (pure value : Draw α).run generator = some (result, after) ↔
      value = result ∧ generator = after := by
  rw [StateT.run_pure]
  simp

/-- The second step goes on with the generator that the first one leaves. -/
theorem bind_eq_some_iff {draw : Draw α} {next : α → Draw β} {generator : Generator}
    {result : β × Generator} :
    (draw >>= next).run generator = some result ↔
      ∃ value later, draw.run generator = some (value, later) ∧
        (next value).run later = some result := by
  rw [StateT.run_bind]
  exact Option.bind_eq_some_iff.trans Prod.exists

/-- What needs no words takes none from the generator. -/
theorem lift_eq_some_iff {value : Option α} {result : α} {generator after : Generator} :
    (StateT.lift value : Draw α).run generator = some (result, after) ↔
      value = some result ∧ generator = after := by
  cases value <;> simp

/-- The value of a draw that gives its words back. -/
def peek (draw : Draw α) : Draw α :=
  fun generator => (draw.run generator).map fun result => (result.1, generator)

/-- A value that is looked at is one that may be drawn. -/
theorem peek_eq_some_iff {draw : Draw α} {result : α} {generator after : Generator} :
    draw.peek.run generator = some (result, after) ↔
      (∃ later, draw.run generator = some (result, later)) ∧ generator = after := by
  change (draw.run generator).map (fun result => (result.1, generator)) = _ ↔ _
  cases draw.run generator with
  | none => simp
  | some drawn => simp [Prod.ext_iff]

/-- A value is always there. -/
theorem run_pure_ne_none {value : α} {generator : Generator} :
    (pure value : Draw α).run generator ≠ none := by
  rw [StateT.run_pure]
  exact Option.some_ne_none _

/-- A draw of two steps has no value if one of them has none, the second one behind what the
first one gives. -/
theorem bind_eq_none_iff {draw : Draw α} {next : α → Draw β} {generator : Generator} :
    (draw >>= next).run generator = none ↔ draw.run generator = none ∨
      ∃ value later, draw.run generator = some (value, later) ∧
        (next value).run later = none := by
  rw [StateT.run_bind]
  change (draw.run generator).bind (fun reached => (next reached.1).run reached.2) = none ↔ _
  cases draw.run generator with
  | none => simp
  | some reached =>
    obtain ⟨value, later⟩ := reached
    constructor
    · intro stops
      exact .inr ⟨value, later, rfl, stops⟩
    · rintro (none | ⟨other, between, same, stops⟩)
      · cases none
      · cases same
        exact stops

/-- One of several values has a property with the generator that is left behind the values
before it, each of which gives a result. -/
def Encounters (gives : α → Generator → β → Generator → Prop)
    (property : α → Generator → Prop) : List α → Generator → Prop
  | [], _ => False
  | value :: values, generator =>
    property value generator ∨
      ∃ result later, gives value generator result later ∧ Encounters gives property values later

/-- Only the property matters, not how it is put. -/
theorem encounters_congr {gives : α → Generator → β → Generator → Prop}
    {property other : α → Generator → Prop}
    (same : ∀ value generator, property value generator ↔ other value generator)
    {values : List α} {generator : Generator} :
    Encounters gives property values generator ↔ Encounters gives other values generator := by
  have equal : property = other :=
    funext fun value => funext fun generator => propext (same value generator)
  rw [equal]

/-- From one generator to another one a draw is made for each of several values in turn. -/
inductive Each (step : α → Draw β) : Generator → List α → List β → Generator → Prop
  | done (generator : Generator) : Each step generator [] [] generator
  | next {value : α} {values : List α} {result : β} {results : List β}
      {generator between after : Generator} :
    (step value).run generator = some (result, between) →
      Each step between values results after →
        Each step generator (value :: values) (result :: results) after

/-- A list of draws has a value if each draw has one in turn. -/
theorem mapM_eq_some_iff {step : α → Draw β} {values : List α} {results : List β}
    {generator after : Generator} :
    (values.mapM step).run generator = some (results, after) ↔
      Each step generator values results after := by
  induction values generalizing generator results with
  | nil =>
    rw [List.mapM_nil, pure_eq_some_iff]
    constructor
    · rintro ⟨rfl, rfl⟩
      exact .done generator
    · rintro ⟨⟩
      exact ⟨rfl, rfl⟩
  | cons value values ih =>
    rw [List.mapM_cons, bind_eq_some_iff]
    constructor
    · rintro ⟨result, between, here, drawn⟩
      obtain ⟨others, last, later, drawn⟩ := bind_eq_some_iff.mp drawn
      obtain ⟨rfl, rfl⟩ := pure_eq_some_iff.mp drawn
      exact .next here (ih.mp later)
    · rintro (_ | ⟨here, later⟩)
      exact ⟨_, _, here, bind_eq_some_iff.mpr ⟨_, _, ih.mpr later, rfl⟩⟩

/-- A list of draws has no value if one of them has none, with the generator that the draws
before it leave. -/
theorem mapM_eq_none_iff {step : α → Draw β} {values : List α} {generator : Generator} :
    (values.mapM step).run generator = none ↔
      Encounters (fun value generator result later =>
          (step value).run generator = some (result, later))
        (fun value generator => (step value).run generator = none) values generator := by
  induction values generalizing generator with
  | nil => simp [Encounters]
  | cons value values ih =>
    rw [List.mapM_cons, bind_eq_none_iff, Encounters]
    have behind (result : β) (later : Generator) :
        (values.mapM step >>= fun results => pure (result :: results)).run later = none ↔
          (values.mapM step).run later = none := by
      simp
    simp only [behind, ih]

namespace Each

variable {step : α → Draw β} {values : List α} {results : List β} {generator after : Generator}

/-- What each draw gives has what every draw of its kind gives. -/
theorem forall_mem (each : Each step generator values results after) {property : β → Prop}
    (kept : ∀ {value result generator after},
      (step value).run generator = some (result, after) → property result) :
    ∀ result ∈ results, property result := by
  induction each with
  | done => simp
  | next here _ ih => exact List.forall_mem_cons.mpr ⟨kept here, ih⟩

/-- Draws that follow the others follow them in turn. -/
theorem map (each : Each step generator values results after) {γ : Type} {other : α → Draw γ}
    {f : β → γ} (follows : ∀ {value result generator after},
      (step value).run generator = some (result, after) →
        (other value).run generator = some (f result, after)) :
    Each other generator values (results.map f) after := by
  induction each with
  | done generator => exact .done generator
  | next here _ ih => exact .next (follows here) ih

end Each

end Arbor.Draw
