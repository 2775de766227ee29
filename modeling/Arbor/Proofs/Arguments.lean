import Arbor.Proofs.ParameterLists

/-!
# Arguments of a list

The arguments of a list are the pieces between the commas that stand in no further brackets, so no
comma divides an argument. There is only one way to put a text together from texts that no comma
divides: at the first place where two ways differ, one of them would have a comma inside of a
piece. An argument behind others begins where these end, each with the comma behind it.
-/
namespace Arbor

open Text

namespace Text

/-- What stands in front of an argument behind others: each of them with a comma. -/
def lead (earlier : List Text) : Text :=
  earlier.flatMap fun piece => piece ++ [',']

/-- Behind the first arguments of a list the others follow as a list of their own. -/
theorem joinWith_append_cons (earlier : List Text) (piece : Text) (later : List Text) :
    joinWith ',' (earlier ++ piece :: later) = lead earlier ++ joinWith ',' (piece :: later) := by
  induction earlier with
  | nil => rfl
  | cons first earlier ih =>
    rw [List.cons_append, joinWith_cons ',' first (by simp), ih]
    simp [lead]

/-- An argument in front takes its bytes and one for the comma. -/
theorem byteLength_lead_cons (piece : Text) (earlier : List Text) :
    byteLength (lead (piece :: earlier)) = byteLength piece + 1 + byteLength (lead earlier) := by
  have comma : ','.utf8Size = 1 := by decide
  simp only [lead, List.flatMap_cons, byteLength_append, byteLength_cons, byteLength_nil, comma]

/-- The brackets around contents take two bytes. -/
theorem byteLength_enclosed (contents : Text) :
    byteLength ('(' :: (contents ++ [')'])) = byteLength contents + 2 := by
  have sizes : '('.utf8Size = 1 ∧ ')'.utf8Size = 1 := by decide
  simp only [byteLength_cons, byteLength_append, byteLength_nil, sizes]
  omega

/-- What stands in front of an argument is the list of those before it and a comma. -/
theorem lead_eq_joinWith {earlier : List Text} (some : earlier ≠ []) :
    lead earlier = joinWith ',' earlier ++ [','] := by
  induction earlier with
  | nil => exact absurd rfl some
  | cons first earlier ih =>
    have split : lead (first :: earlier) = first ++ ',' :: lead earlier := by simp [lead]
    by_cases last : earlier = []
    · subst last
      simp [lead, joinWith]
    · rw [split, ih last, joinWith_cons ',' first last, List.append_assoc, List.cons_append]

/-- The comma behind the arguments before another one takes a byte. -/
theorem byteLength_lead {earlier : List Text} (some : earlier ≠ []) :
    byteLength (lead earlier) = byteLength (joinWith ',' earlier) + 1 := by
  have comma : ','.utf8Size = 1 := by decide
  rw [lead_eq_joinWith some, byteLength_append, byteLength_cons, byteLength_nil, comma]

/-! ## Pieces that no comma divides -/

/-- A text that no comma divides is balanced. -/
theorem Undivided.balanced {piece : Text} (undivided : Undivided 0 piece) : Balanced piece :=
  (balanced_iff piece).mpr undivided.closed

/-- A text that no comma divides does not begin with another such text and a comma. -/
theorem Undivided.ne_append {piece other : Text} (undivided : Undivided 0 piece)
    (closed : depthAfter 0 other = some 0) (rest : Text) : piece ≠ other ++ ',' :: rest :=
  fun split => undivided.commas other rest split closed

/-- A list of texts that no comma divides is balanced. -/
theorem balanced_joinWith {pieces : List Text}
    (undivided : ∀ piece ∈ pieces, Undivided 0 piece) : Balanced (joinWith ',' pieces) := by
  rw [balanced_iff]
  induction pieces with
  | nil => rfl
  | cons piece pieces ih =>
    obtain ⟨here, later⟩ := List.forall_mem_cons.mp undivided
    by_cases last : pieces = []
    · subst last
      simpa [joinWith] using here.closed
    · rw [joinWith_cons ',' piece last, depthAfter_append, here.closed]
      exact ih later

/-- The first pieces of two lists that make up one text are the same, if no comma divides them. -/
theorem eq_of_append_eq {first other rest behind : Text} (undivided : Undivided 0 first)
    (undivided' : Undivided 0 other) (bound : rest = [] ∨ ∃ later, rest = ',' :: later)
    (bound' : behind = [] ∨ ∃ later, behind = ',' :: later)
    (same : first ++ rest = other ++ behind) : first = other := by
  -- One of the two is the beginning of the other one. If it is shorter, a comma follows it there.
  rcases List.append_eq_append_iff.mp same with ⟨more, rfl, rfl⟩ | ⟨more, rfl, rfl⟩
  · cases more with
    | nil => exact (List.append_nil first).symm
    | cons c more =>
      rcases bound with none | ⟨later, comma⟩
      · simp at none
      · obtain ⟨rfl, _⟩ := List.cons.inj comma
        exact absurd rfl (undivided'.ne_append undivided.closed more)
  · cases more with
    | nil => exact List.append_nil other
    | cons c more =>
      rcases bound' with none | ⟨later, comma⟩
      · simp at none
      · obtain ⟨rfl, _⟩ := List.cons.inj comma
        exact absurd rfl (undivided.ne_append undivided'.closed more)

/-- Behind the first of several pieces there is nothing, or a comma and the others. -/
theorem joinWith_eq_append (piece : Text) (pieces : List Text) :
    ∃ rest, joinWith ',' (piece :: pieces) = piece ++ rest ∧
      (pieces = [] ∧ rest = [] ∨ pieces ≠ [] ∧ rest = ',' :: joinWith ',' pieces) := by
  by_cases last : pieces = []
  · subst last
    exact ⟨[], by simp [joinWith], .inl ⟨rfl, rfl⟩⟩
  · exact ⟨_, joinWith_cons ',' piece last, .inr ⟨last, rfl⟩⟩

/-- There is only one way to put a text together from texts that no comma divides. -/
theorem eq_of_joinWith_eq {pieces others : List Text} (some : pieces ≠ []) (some' : others ≠ [])
    (undivided : ∀ piece ∈ pieces, Undivided 0 piece)
    (undivided' : ∀ piece ∈ others, Undivided 0 piece)
    (same : joinWith ',' pieces = joinWith ',' others) : pieces = others := by
  induction pieces generalizing others with
  | nil => exact absurd rfl some
  | cons piece pieces ih =>
    cases others with
    | nil => exact absurd rfl some'
    | cons other others =>
      obtain ⟨here, later⟩ := List.forall_mem_cons.mp undivided
      obtain ⟨here', later'⟩ := List.forall_mem_cons.mp undivided'
      obtain ⟨rest, joined, ends⟩ := joinWith_eq_append piece pieces
      obtain ⟨rest', joined', ends'⟩ := joinWith_eq_append other others
      rw [joined, joined'] at same
      obtain rfl : piece = other :=
        eq_of_append_eq here here' (ends.imp And.right fun goes => ⟨_, goes.2⟩)
          (ends'.imp And.right fun goes => ⟨_, goes.2⟩) same
      obtain rfl : rest = rest' := List.append_cancel_left same
      rcases ends with ⟨rfl, rfl⟩ | ⟨more, rfl⟩
      · rcases ends' with ⟨rfl, _⟩ | ⟨_, comma⟩
        · rfl
        · simp at comma
      · rcases ends' with ⟨_, none⟩ | ⟨more', goes⟩
        · simp at none
        · rw [ih more more' later later' (List.cons.inj goes).2]

/-! ## Where arguments stand -/

/-- Pieces that stand one after the other stand each behind what leads up to it. -/
theorem mem_spansFrom_iff {offset : Nat} {pieces : List Text} {span : Span} :
    span ∈ spansFrom offset pieces ↔ ∃ earlier piece later, pieces = earlier ++ piece :: later ∧
      span = ⟨offset + byteLength (lead earlier),
        offset + byteLength (lead earlier) + byteLength piece⟩ := by
  induction pieces generalizing offset with
  | nil => simp [spansFrom]
  | cons first pieces ih =>
    rw [spansFrom, List.mem_cons, ih]
    constructor
    · rintro (rfl | ⟨earlier, piece, later, rfl, rfl⟩)
      · exact ⟨[], first, pieces, rfl, by simp [lead]⟩
      · refine ⟨first :: earlier, piece, later, rfl, ?_⟩
        simp only [byteLength_lead_cons, Nat.add_assoc]
    · rintro ⟨earlier, piece, later, split, rfl⟩
      cases earlier with
      | nil =>
        obtain ⟨rfl, rfl⟩ := List.cons.inj split
        exact .inl (by simp [lead])
      | cons _ earlier =>
        obtain ⟨rfl, rfl⟩ := List.cons.inj split
        refine .inr ⟨earlier, piece, later, rfl, ?_⟩
        simp only [byteLength_lead_cons, Nat.add_assoc]

end Text

/-- A balanced text is put together from texts that no comma divides. -/
theorem Text.Balanced.exists_pieces {text : Text} (balanced : Balanced text) :
    ∃ pieces, pieces ≠ [] ∧ (∀ piece ∈ pieces, Undivided 0 piece) ∧ joinWith ',' pieces = text := by
  obtain ⟨first, others, joined, _, undivided, later⟩ :=
    ParameterList.splitAtCommas_of_closed ((balanced_iff text).mp balanced)
  exact ⟨first :: others, List.cons_ne_nil first others,
    List.forall_mem_cons.mpr ⟨undivided, later⟩, joined⟩

/-- The arguments of balanced contents are divided no further. -/
theorem ParameterList.undivided_of_arguments {contents : Text} {pieces : List Text} {position : Nat}
    (balanced : Balanced contents) (found : arguments position contents = .ok pieces) :
    ∀ piece ∈ pieces, Undivided 0 piece := by
  cases contents with
  | nil =>
    obtain rfl : [] = pieces := Except.ok.inj found
    simp
  | cons c rest =>
    obtain ⟨first, others, _, cut, undivided, later⟩ :=
      splitAtCommas_of_closed ((balanced_iff (c :: rest)).mp balanced)
    obtain rfl : first :: others = pieces := by simpa [arguments, cut] using found
    exact List.forall_mem_cons.mpr ⟨undivided, later⟩

end Arbor
