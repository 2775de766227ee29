import Arbor.Proofs.Passes

/-!
# The steps of a pass

Every step takes one token of the input and writes one text. The parts of the input that the
steps take lie one next to the other from the start up to the cursor, and so do the parts of
the output that they write. A token has at least one character, so the steps come to the end of
the input, if none of them fails, and there nothing changes any more.

A row of steps is any row of steps that succeed, each with any generator. A step that failed
left the pass where it was, so it may have been tried again in between.
-/
namespace Arbor

open Text

/-! ## Boundaries and tilings -/

/-- An offset at which a text can be cut into two texts. -/
def Text.IsBoundary (text : Text) (offset : Nat) : Prop :=
  ∃ before after, text = before ++ after ∧ byteLength before = offset

/-- A text can still be cut where it could be cut before something was written behind it. -/
theorem Text.IsBoundary.append {text : Text} {offset : Nat} (cut : text.IsBoundary offset)
    (more : Text) : Text.IsBoundary (text ++ more) offset := by
  obtain ⟨before, after, rfl, reached⟩ := cut
  exact ⟨before, after ++ more, List.append_assoc _ _ _, reached⟩

/-- A text can be cut at its end. -/
theorem Text.isBoundary_byteLength (text : Text) : text.IsBoundary (byteLength text) :=
  ⟨text, [], (List.append_nil text).symm, rfl⟩

namespace Span

/-- Spans lie one next to the other from one offset to another. -/
def Tile (start : Nat) : List Span → Nat → Prop
  | [], stop => start = stop
  | span :: spans, stop => span.start = start ∧ span.start ≤ span.stop ∧ Tile span.stop spans stop

/-- A further span begins where the others end. -/
theorem Tile.concat {start : Nat} {spans : List Span} {span : Span}
    (tile : Tile start spans span.start) (ordered : span.start ≤ span.stop) :
    Tile start (spans ++ [span]) span.stop := by
  induction spans generalizing start with
  | nil => exact ⟨tile.symm, ordered, rfl⟩
  | cons first spans ih =>
    obtain ⟨begins, forward, tile⟩ := tile
    exact ⟨begins, forward, ih tile⟩

end Span

/-- A text with characters has bytes. -/
theorem Text.byteLength_pos {text : Text} (some : text ≠ []) : 0 < byteLength text := by
  cases text with
  | nil => exact absurd rfl some
  | cons symbol rest =>
    have wide := symbol.utf8Size_pos
    rw [byteLength_cons]
    omega

/-- A token has at least one character. -/
theorem Token.text_ne_nil (token : Token) : token.text ≠ [] := by
  obtain ⟨symbol, contents?⟩ := token
  cases contents? <;> simp [text]

namespace Pass

/-! ## One step -/

/-- Everything that a step can come to if it does not fail: nothing at the end of the input, and
in front of a token the text that takes its place. -/
theorem gives_step_iff {pass : Pass} {generator after : Generator}
    {result : Option (Step × Pass)} :
    pass.step.Gives generator result after ↔
      (pass.rest = [] ∧ result = none ∧ generator = after) ∨
        ∃ token behind text, Token.first? pass.rest = some (token, behind) ∧
          (pass.grammar.rewriteToken pass.constants pass.cursor token).Gives generator text after ∧
            result = some (pass.advance (pass.cursor + byteLength token.text) behind text) := by
  cases rest : pass.rest with
  | nil =>
    simp only [step_of_nil rest, Attempt.gives_pure_iff, Token.first?]
    simp [eq_comm]
  | cons symbol tail =>
    cases found : Token.first? (symbol :: tail) with
    | none => simp [step_of_none rest found]
    | some parts =>
      obtain ⟨token, behind⟩ := parts
      rw [← rest] at found
      rw [step_of_some found, Attempt.gives_bind_iff]
      simp only [Attempt.gives_pure_iff, ← rest, Option.some.injEq, Prod.mk.injEq]
      constructor
      · rintro ⟨text, _, replaced, rfl, rfl⟩
        exact .inr ⟨token, behind, text, ⟨rfl, rfl⟩, replaced, rfl⟩
      · rintro (⟨none, _⟩ | ⟨_, _, text, ⟨rfl, rfl⟩, replaced, rfl⟩)
        · simp [rest] at none
        · exact ⟨text, after, replaced, rfl, rfl⟩

/-- A step takes something from the front of the rest and writes behind the output. -/
theorem exists_parts_of_step {pass next : Pass} {step : Step} {generator after : Generator}
    (given : pass.step.Gives generator (some (step, next)) after) :
    ∃ taken written, taken ≠ [] ∧ pass.rest = taken ++ next.rest ∧
      next.cursor = pass.cursor + byteLength taken ∧
        next.output.text = pass.output.text ++ written ∧
          step.consumed = ⟨pass.cursor, next.cursor⟩ ∧
            step.emitted = ⟨byteLength pass.output.text, byteLength next.output.text⟩ := by
  obtain ⟨_, none, _⟩ | ⟨token, behind, text, found, _, made⟩ := gives_step_iff.mp given
  · cases none
  obtain ⟨rfl, rfl⟩ := Prod.mk.inj (Option.some.inj made)
  obtain ⟨split, _⟩ := Token.first?_eq_some_iff.mp found
  refine ⟨token.text, text, token.text_ne_nil, split, rfl, TextBuilder.text_append _ _, rfl, ?_⟩
  rw [← TextBuilder.bytes_eq_byteLength, ← TextBuilder.bytes_eq_byteLength]

/-- There is no step only where nothing is left. -/
theorem gives_step_none_iff {pass : Pass} {generator after : Generator} :
    pass.step.Gives generator none after ↔ pass.rest = [] ∧ generator = after := by
  simp [gives_step_iff]

/-! ## Rows of steps -/

/-- The steps that lead from one state of a pass to another. -/
inductive Takes (first : Pass) : List Step → Pass → Prop
  | nil : Takes first [] first
  | concat {steps : List Step} {pass next : Pass} {step : Step} {generator after : Generator}
      (taken : Takes first steps pass)
      (given : pass.step.Gives generator (some (step, next)) after) :
      Takes first (steps ++ [step]) next

/-- The parts of an input and of an output that steps took and wrote up to a state. -/
structure Tiled (input : Text) (steps : List Step) (pass : Pass) : Prop where
  /-- What was taken reaches from the start to the cursor. -/
  consumed : Span.Tile 0 (steps.map Step.consumed) pass.cursor
  /-- Something was taken by every step. -/
  progress : ∀ step ∈ steps, step.consumed.start < step.consumed.stop
  /-- What was written reaches from the start to the end of the output. -/
  emitted : Span.Tile 0 (steps.map Step.emitted) (byteLength pass.output.text)
  /-- The last step ends at the cursor and at the end of the output. -/
  last : ∀ step ∈ steps.getLast?,
    step.consumed.stop = pass.cursor ∧ step.emitted.stop = byteLength pass.output.text
  /-- No character of the input is torn. -/
  consumed_boundary : ∀ step ∈ steps,
    input.IsBoundary step.consumed.start ∧ input.IsBoundary step.consumed.stop
  /-- No character of the output is torn. -/
  emitted_boundary : ∀ step ∈ steps,
    pass.output.text.IsBoundary step.emitted.start ∧ pass.output.text.IsBoundary step.emitted.stop
  /-- The rest is what lies behind the cursor. -/
  rest : ∃ before, input = before ++ pass.rest ∧ byteLength before = pass.cursor
  /-- There was a character for every step. -/
  few : steps.length + pass.rest.length ≤ input.length

/-- Nothing is taken and written at the start. -/
theorem tiled_start (grammar : Grammar) (constants : Constants) (input : Text) :
    Tiled input [] (start grammar constants input) where
  consumed := rfl
  progress := by simp
  emitted := rfl
  last := by simp
  consumed_boundary := by simp
  emitted_boundary := by simp
  rest := ⟨[], rfl, rfl⟩
  few := by simp [start]

namespace Tiled

variable {input : Text} {steps : List Step} {pass : Pass}

/-- The cursor stands where the input can be cut. -/
theorem cursor_boundary (tiled : Tiled input steps pass) : input.IsBoundary pass.cursor := by
  obtain ⟨before, split, reached⟩ := tiled.rest
  exact ⟨before, pass.rest, split, reached⟩

/-- The cursor is at the end of the input if and only if nothing is left. -/
theorem cursor_eq_iff (tiled : Tiled input steps pass) :
    pass.cursor = byteLength input ↔ pass.rest = [] := by
  obtain ⟨before, rfl, reached⟩ := tiled.rest
  rw [← reached, byteLength_append]
  constructor
  · intro ended
    by_contra left
    have wide := byteLength_pos left
    omega
  · intro left
    rw [left]
    rfl

/-- One step takes what lies behind the cursor and writes behind the output. -/
theorem concat (tiled : Tiled input steps pass) {step : Step} {next : Pass}
    {generator after : Generator}
    (given : pass.step.Gives generator (some (step, next)) after) :
    Tiled input (steps ++ [step]) next := by
  obtain ⟨taken, written, some, split, cursor, output, consumed, emitted⟩ :=
    exists_parts_of_step given
  have grown : byteLength pass.output.text ≤ byteLength next.output.text := by
    rw [output, byteLength_append]
    omega
  have rest : ∃ before, input = before ++ next.rest ∧ byteLength before = next.cursor := by
    obtain ⟨before, whole, reached⟩ := tiled.rest
    refine ⟨before ++ taken, ?_, ?_⟩
    · rw [whole, split, List.append_assoc]
    · rw [byteLength_append, reached, cursor]
  constructor
  case consumed =>
    rw [List.map_append, List.map_singleton, consumed]
    apply Span.Tile.concat tiled.consumed
    rw [cursor]
    exact Nat.le_add_right _ _
  case progress =>
    refine List.forall_mem_append.mpr ⟨tiled.progress, List.forall_mem_singleton.mpr ?_⟩
    rw [consumed, cursor]
    exact Nat.lt_add_of_pos_right (byteLength_pos some)
  case emitted =>
    rw [List.map_append, List.map_singleton, emitted]
    exact Span.Tile.concat tiled.emitted grown
  case last => simp [consumed, emitted]
  case consumed_boundary =>
    refine List.forall_mem_append.mpr ⟨tiled.consumed_boundary, List.forall_mem_singleton.mpr ?_⟩
    rw [consumed]
    obtain ⟨before, whole, reached⟩ := rest
    exact ⟨tiled.cursor_boundary, before, next.rest, whole, reached⟩
  case emitted_boundary =>
    refine List.forall_mem_append.mpr ⟨?_, List.forall_mem_singleton.mpr ?_⟩
    · intro other among
      obtain ⟨first, last⟩ := tiled.emitted_boundary other among
      rw [output]
      exact ⟨first.append written, last.append written⟩
    · rw [emitted, output]
      exact ⟨(isBoundary_byteLength _).append written, isBoundary_byteLength _⟩
  case rest => exact rest
  case few =>
    have fewer := tiled.few
    have short := List.length_pos_iff.mpr some
    rw [split, List.length_append] at fewer
    rw [List.length_append, List.length_singleton]
    omega

end Tiled

/-- All steps of a pass tile its input and its output. -/
theorem Takes.tiled {grammar : Grammar} {constants : Constants} {input : Text}
    {steps : List Step} {pass : Pass}
    (taken : (start grammar constants input).Takes steps pass) : Tiled input steps pass := by
  induction taken with
  | nil => exact tiled_start grammar constants input
  | concat _ given ih => exact ih.concat given

/-- What was written stays. -/
theorem Takes.text_isPrefix {first last : Pass} {steps : List Step}
    (taken : first.Takes steps last) : first.output.text <+: last.output.text := by
  induction taken with
  | nil => exact List.prefix_refl _
  | concat _ given ih =>
    obtain ⟨_, written, _, _, _, output, _⟩ := exists_parts_of_step given
    rw [output]
    exact ih.trans (List.prefix_append _ _)

/-! ## Whole passes -/

/-- What the next step comes to where a row of steps ends. -/
def Ends (pass : Pass) (generator : Generator) : Ending → Prop
  | .done => pass.step = pure none
  | .failed fault => ∃ after, pass.step.outcome generator = some (.error fault, after)
  | .impossible => pass.step.Stops generator

/-- Only the end of the input is a regular end. -/
theorem Ends.eq_done_iff {pass : Pass} {generator : Generator} {ending : Ending}
    (ends : pass.Ends generator ending) : ending = .done ↔ pass.rest = [] := by
  constructor
  · rintro rfl
    have given : pass.step.Gives generator none generator := by
      rw [show pass.step = pure none from ends]
      exact Attempt.gives_pure _ _
    exact (gives_step_none_iff.mp given).1
  · intro left
    cases ending with
    | done => rfl
    | failed fault =>
      obtain ⟨after, failed⟩ := ends
      simp [step_of_nil left] at failed
    | impossible =>
      have stops : pass.step.Stops generator := ends
      rw [step_of_nil left] at stops
      exact absurd stops Attempt.not_stops_pure

/-- A trace goes on behind a step that succeeds. -/
theorem trace_succ (count : Nat) (pass : Pass) (generator : Generator) :
    trace (count + 1) pass generator =
      match pass.step.outcome generator with
      | none => ([], .impossible, pass)
      | some (.error fault, _) => ([], .failed fault, pass)
      | some (.ok none, _) => ([], .done, pass)
      | some (.ok (some (step, next)), after) =>
        (step :: (trace count next after).1, (trace count next after).2) := rfl

/-- Enough steps go on from a state to where there is no step or a step fails. The induction
is on the number of steps, of which each shortens the rest. -/
theorem exists_trace {count : Nat} {first pass : Pass} {steps : List Step}
    (taken : first.Takes steps pass) (enough : pass.rest.length < count)
    (generator : Generator) :
    ∃ further ending last reached, trace count pass generator = (further, ending, last) ∧
      first.Takes (steps ++ further) last ∧ last.Ends reached ending := by
  induction count generalizing pass steps generator with
  | zero => exact absurd enough (Nat.not_lt_zero _)
  | succ count ih =>
    have here : first.Takes (steps ++ []) pass := by rwa [List.append_nil]
    rw [trace_succ]
    cases come : pass.step.outcome generator with
    | none => exact ⟨[], .impossible, pass, generator, rfl, here, come⟩
    | some parts =>
      obtain ⟨result, after⟩ := parts
      cases result with
      | error fault => exact ⟨[], .failed fault, pass, generator, rfl, here, after, come⟩
      | ok result =>
        cases result with
        | none =>
          have ended : pass.step = pure none := step_of_nil (gives_step_none_iff.mp come).1
          exact ⟨[], .done, pass, generator, rfl, here, ended⟩
        | some made =>
          obtain ⟨step, next⟩ := made
          obtain ⟨_, _, some, split, _⟩ := exists_parts_of_step come
          have short := List.length_pos_iff.mpr some
          rw [split, List.length_append] at enough
          obtain ⟨further, ending, last, reached, traced, taken, ends⟩ :=
            ih (taken.concat come) (by omega) after
          refine ⟨step :: further, ending, last, reached, ?_, ?_, ends⟩
          · simp only [traced]
          · rwa [List.append_assoc] at taken

/-- The steps of a pass tile its input and its output. Along every row of steps from the start,
the parts that were taken are not empty and lie one next to the other from the start of the
input to the cursor, the parts that were written lie one next to the other from the start to the
end of the output, all of these offsets are boundaries of characters, and what was written stays
whatever steps follow. There are not more steps than the input has characters. The step at the
end of the input, and no other, has nothing to do, and it changes nothing. From the start the
steps come there with every generator, unless one of them fails. -/
theorem steps_tile (grammar : Grammar) (constants : Constants) (input : Text) :
    (∀ steps pass, (start grammar constants input).Takes steps pass →
      Tiled input steps pass ∧ steps.length ≤ input.length ∧
        (∀ further last, pass.Takes further last → pass.output.text <+: last.output.text) ∧
          (pass.cursor = byteLength input → pass.step = pure none) ∧
            ∀ generator after, pass.step.Gives generator none after →
              pass.cursor = byteLength input) ∧
      ∀ generator, ∃ steps ending last reached,
        (start grammar constants input).traceAll generator = (steps, ending, last) ∧
          (start grammar constants input).Takes steps last ∧ last.Ends reached ending ∧
            (ending = .done ↔ last.cursor = byteLength input) := by
  constructor
  · intro steps pass taken
    have tiled := taken.tiled
    have few := tiled.few
    refine ⟨tiled, by omega, fun _ _ further => further.text_isPrefix, ?_, ?_⟩
    · intro ended
      exact step_of_nil (tiled.cursor_eq_iff.mp ended)
    · intro generator after given
      exact tiled.cursor_eq_iff.mpr (gives_step_none_iff.mp given).1
  · intro generator
    have nothing : (start grammar constants input).Takes [] (start grammar constants input) := .nil
    obtain ⟨steps, ending, last, reached, traced, taken, ends⟩ :=
      exists_trace nothing (Nat.lt_succ_self _) generator
    refine ⟨steps, ending, last, reached, traced, taken, ends, ?_⟩
    rw [ends.eq_done_iff]
    exact (Takes.tiled taken).cursor_eq_iff.symm

/-- A body that begins with a symbol of two bytes, and an empty one. -/
def reeds : Grammar :=
  .ofTexts [("A".toList, [⟨"A".toList, "éB".toList, []⟩]), ("C".toList, [⟨"C".toList, [], []⟩])]

/-- A list is one part of the input with its symbol, and what is taken away is an empty part of
the output. -/
theorem steps_tile_reeds :
    ∃ pass, (start reeds .empty "AG((1),2)Cé".toList).Takes
        [⟨⟨0, 1⟩, ⟨0, 3⟩⟩, ⟨⟨1, 9⟩, ⟨3, 9⟩⟩, ⟨⟨9, 10⟩, ⟨9, 9⟩⟩, ⟨⟨10, 12⟩, ⟨9, 11⟩⟩] pass ∧
      pass.cursor = 12 ∧ pass.output.text = "éBG(1,2)é".toList ∧ pass.step = pure none := by
  obtain ⟨whole, every⟩ := steps_tile reeds .empty "AG((1),2)Cé".toList
  obtain ⟨steps, ending, last, _, traced, taken, _⟩ := every default
  have parts : ((start reeds .empty "AG((1),2)Cé".toList).traceAll default).1 =
      [⟨⟨0, 1⟩, ⟨0, 3⟩⟩, ⟨⟨1, 9⟩, ⟨3, 9⟩⟩, ⟨⟨9, 10⟩, ⟨9, 9⟩⟩, ⟨⟨10, 12⟩, ⟨9, 11⟩⟩] := by
    decide +kernel
  have cursor : ((start reeds .empty "AG((1),2)Cé".toList).traceAll default).2.2.cursor = 12 := by
    decide +kernel
  have output : ((start reeds .empty "AG((1),2)Cé".toList).traceAll default).2.2.output.text =
      "éBG(1,2)é".toList := by
    decide +kernel
  rw [traced] at parts cursor output
  obtain rfl := parts
  obtain ⟨_, _, _, ended, _⟩ := whole _ _ taken
  exact ⟨last, taken, cursor, output, ended (by rw [cursor]; decide)⟩

end Pass

end Arbor
