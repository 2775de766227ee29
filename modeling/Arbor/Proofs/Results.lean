/-!
# Results without draws

A result is a value or a fault. What is made of a value in several steps has a value only
if every step has one, so a value at the end can be followed back step by step.
-/
namespace Arbor

variable {ε α β : Type}

/-- Success has a value. -/
theorem exists_of_isOk {result : Except ε α} (succeeds : result.isOk = true) :
    ∃ value, result = .ok value := by
  cases result with
  | error fault => cases succeeds
  | ok value => exact ⟨value, rfl⟩

/-- A value that was changed was there before. -/
theorem map_eq_ok_iff {result : Except ε α} {f : α → β} {value : β} :
    result.map f = .ok value ↔ ∃ source, result = .ok source ∧ f source = value := by
  cases result <;> simp [Except.map]

/-- Results that a change makes the same are the same, if it keeps values apart. -/
theorem eq_of_map_eq {first second : Except ε α} {f : α → β}
    (apart : ∀ {value other : α}, f value = f other → value = other)
    (same : first.map f = second.map f) : first = second := by
  cases first with
  | error fault =>
    cases second with
    | error other => exact congrArg Except.error (Except.error.inj same)
    | ok value => cases same
  | ok value =>
    cases second with
    | error fault => cases same
    | ok other => exact congrArg Except.ok (apart (Except.ok.inj same))

/-- A sequence of two steps has the value that the second one makes of the first. -/
theorem bind_eq_ok_iff {result : Except ε α} {next : α → Except ε β} {value : β} :
    result >>= next = .ok value ↔ ∃ source, result = .ok source ∧ next source = .ok value := by
  cases result <;> simp [bind, Except.bind]

/-- A sequence of two steps fails with the fault of the first one or, behind its value, with
that of the second one. -/
theorem bind_eq_error_iff {result : Except ε α} {next : α → Except ε β} {fault : ε} :
    result >>= next = .error fault ↔
      result = .error fault ∨ ∃ source, result = .ok source ∧ next source = .error fault := by
  cases result <;> simp [bind, Except.bind]

/-- A fault stays when the value it stands for is changed. -/
theorem map_eq_error_iff {result : Except ε α} {f : α → β} {fault : ε} :
    result.map f = .error fault ↔ result = .error fault := by
  cases result <;> simp [Except.map]

/-- A value stays when faults are reworded. -/
theorem mapError_eq_ok_iff {δ : Type} {result : Except ε α} {f : ε → δ} {value : α} :
    result.mapError f = .ok value ↔ result = .ok value := by
  cases result with
  | error fault => exact iff_of_false nofun nofun
  | ok other =>
    constructor
    · intro same
      exact congrArg Except.ok (Except.ok.inj same)
    · intro same
      exact congrArg Except.ok (Except.ok.inj same)

/-- The results of a step that succeeds on all values come from these values. -/
theorem exists_of_mem_mapM {step : α → Except ε β} {values : List α} {results : List β}
    (done : values.mapM step = .ok results) :
    ∀ result ∈ results, ∃ value ∈ values, step value = .ok result := by
  induction values generalizing results with
  | nil =>
    obtain rfl : [] = results := Except.ok.inj done
    simp
  | cons value values ih =>
    rw [List.mapM_cons] at done
    obtain ⟨first, stepped, done⟩ := bind_eq_ok_iff.mp done
    obtain ⟨others, tail, done⟩ := bind_eq_ok_iff.mp done
    obtain rfl : first :: others = results := Except.ok.inj done
    intro result among
    rcases List.mem_cons.mp among with rfl | later
    · exact ⟨value, List.mem_cons_self, stepped⟩
    · obtain ⟨source, listed, made⟩ := ih tail result later
      exact ⟨source, List.mem_cons_of_mem value listed, made⟩

/-- Values can be read off the results of a step that succeeds on all of them, if they can be
read off each result. -/
theorem map_of_mapM {step : α → Except ε β} {back : β → α} {values : List α} {results : List β}
    (undone : ∀ value result, step value = .ok result → back result = value)
    (done : values.mapM step = .ok results) : results.map back = values := by
  induction values generalizing results with
  | nil =>
    obtain rfl : [] = results := Except.ok.inj done
    rfl
  | cons value values ih =>
    rw [List.mapM_cons] at done
    obtain ⟨first, stepped, done⟩ := bind_eq_ok_iff.mp done
    obtain ⟨others, tail, done⟩ := bind_eq_ok_iff.mp done
    obtain rfl : first :: others = results := Except.ok.inj done
    rw [List.map_cons, undone value first stepped, ih tail]

/-- A step that gives every value back gives the list back. -/
theorem mapM_eq_self {step : α → Except ε α} {values : List α}
    (fixed : ∀ value ∈ values, step value = .ok value) : values.mapM step = .ok values := by
  induction values with
  | nil => rfl
  | cons value values ih =>
    obtain ⟨here, later⟩ := List.forall_mem_cons.mp fixed
    rw [List.mapM_cons, here, ih later]
    rfl

/-- A check of a row of values succeeds exactly if it succeeds on each of them. -/
theorem forM_eq_ok_iff {check : α → Except ε Unit} {values : List α} :
    values.forM check = .ok () ↔ ∀ value ∈ values, check value = .ok () := by
  induction values with
  | nil => exact iff_of_true rfl (by simp)
  | cons value values ih =>
    have step : (value :: values).forM check = check value >>= fun _ => values.forM check := rfl
    rw [step, bind_eq_ok_iff, List.forall_mem_cons, ← ih]
    constructor
    · rintro ⟨_, here, later⟩
      exact ⟨here, later⟩
    · rintro ⟨here, later⟩
      exact ⟨(), here, later⟩

/-- A check of a row of values finds the fault of the first value that has one. -/
theorem forM_eq_error_iff {check : α → Except ε Unit} {values : List α} {fault : ε} :
    values.forM check = .error fault ↔ ∃ before value after, values = before ++ value :: after ∧
      (∀ earlier ∈ before, check earlier = .ok ()) ∧ check value = .error fault := by
  induction values with
  | nil => exact iff_of_false nofun (by simp)
  | cons first values ih =>
    have step : (first :: values).forM check = check first >>= fun _ => values.forM check := rfl
    rw [step, bind_eq_error_iff, ih]
    constructor
    · rintro (failed | ⟨_, passed, before, value, after, rfl, earlier, failed⟩)
      · exact ⟨[], first, values, rfl, by simp, failed⟩
      · exact ⟨first :: before, value, after, rfl,
          List.forall_mem_cons.mpr ⟨passed, earlier⟩, failed⟩
    · rintro ⟨before, value, after, split, earlier, failed⟩
      cases before with
      | nil =>
        obtain ⟨rfl, _⟩ := List.cons.inj split
        exact .inl failed
      | cons other before =>
        obtain ⟨rfl, rfl⟩ := List.cons.inj split
        obtain ⟨passed, earlier⟩ := List.forall_mem_cons.mp earlier
        exact .inr ⟨(), passed, before, value, after, rfl, earlier, failed⟩

end Arbor
