import Arbor.Proofs.Arguments
import Arbor.Proofs.Slots
import Arbor.Proofs.PassSteps

/-!
# Slots as segments between delimiters

The slots of a text are found group by group, and a group is found by the bracket that closes it.
The same slots are described here by one count along the whole text, of the brackets that are open.
An opening bracket outside of all others, a comma inside of exactly one and the bracket that closes
this one delimit slots, and a slot is what stands from one delimiter to the next, unless it is the
empty contents of a group.
-/
namespace Arbor

open Text

namespace Text

/-! ## Levels -/

/-- The number of brackets that a text opens beyond those that it closes. -/
def level (text : Text) : Int :=
  text.count '(' - text.count ')'

@[simp] theorem level_nil : level [] = 0 := rfl

@[simp] theorem level_append (left right : Text) :
    level (left ++ right) = level left + level right := by
  simp only [level, List.count_append]
  omega

@[simp] theorem level_open (rest : Text) : level ('(' :: rest) = level rest + 1 := by
  simp only [level, List.count_cons]
  simp
  omega

@[simp] theorem level_close (rest : Text) : level (')' :: rest) = level rest - 1 := by
  simp only [level, List.count_cons]
  simp
  omega

/-- Every other character leaves the level as it is. -/
theorem level_plain {c : Char} (opens : c ≠ '(') (closes : c ≠ ')') (rest : Text) :
    level (c :: rest) = level rest := by
  simp only [level, List.count_cons_of_ne opens, List.count_cons_of_ne closes]

@[simp] theorem level_comma (rest : Text) : level (',' :: rest) = level rest :=
  level_plain (by decide) (by decide) rest

/-- A text is balanced exactly if no level in it is below zero and it ends at level zero. -/
theorem balanced_iff_level {text : Text} :
    Balanced text ↔ (∀ front, front <+: text → 0 ≤ level front) ∧ level text = 0 := by
  constructor
  · rintro ⟨covered, settled⟩
    refine ⟨fun front within => ?_, ?_⟩
    · have bounded := covered front within
      simp only [level]
      omega
    · simp only [level]
      omega
  · rintro ⟨covered, settled⟩
    refine ⟨fun front within => ?_, ?_⟩
    · have bounded := covered front within
      simp only [level] at bounded
      omega
    · simp only [level] at settled
      omega

/-- A balanced text ends at level zero. -/
theorem Balanced.level_eq {text : Text} (balanced : Balanced text) : level text = 0 :=
  (balanced_iff_level.mp balanced).2

/-- No level in a balanced text is below zero. -/
theorem Balanced.level_nonneg {front back : Text} (balanced : Balanced (front ++ back)) :
    0 ≤ level front :=
  (balanced_iff_level.mp balanced).1 front (List.prefix_append front back)

/-- A balanced text is cut at level zero into two balanced texts. -/
theorem Balanced.cut {front back : Text} (balanced : Balanced (front ++ back))
    (outside : level front = 0) : Balanced front ∧ Balanced back := by
  have first : Balanced front := balanced_iff_level.mpr ⟨fun before within =>
    (balanced_iff_level.mp balanced).1 before (within.trans (List.prefix_append front back)),
    outside⟩
  refine ⟨first, ?_⟩
  rw [balanced_iff] at balanced first ⊢
  rwa [depthAfter_append, first] at balanced

/-- What stands behind a balanced text decides whether all is balanced. -/
theorem balanced_append_iff {front : Text} (balanced : Balanced front) (back : Text) :
    Balanced (front ++ back) ↔ Balanced back := by
  rw [balanced_iff] at balanced
  rw [balanced_iff, balanced_iff, depthAfter_append, balanced, Option.bind_some]

/-- A character that is no bracket is balanced. -/
theorem balanced_plain {c : Char} (opens : c ≠ '(') (closes : c ≠ ')') : Balanced [c] := by
  rw [balanced_iff, depthAfter_plain opens closes]
  rfl

/-- What is open at one place of a balanced text and closed at a later one is closed by some
bracket in between. -/
theorem Balanced.exists_close {before between after : Text}
    (balanced : Balanced (before ++ (between ++ after))) (inside : level before = 1)
    (closed : level between = -1) :
    ∃ contents more, between = contents ++ ')' :: more ∧ level contents = 0 := by
  have count : depthAfter 0 before = some 1 := by
    rw [depthAfter_eq_some_iff]
    refine ⟨fun front within => ?_, ?_⟩
    · have covered := balanced.covered front (within.trans (List.prefix_append before _))
      omega
    · simp only [level] at inside
      omega
  have walk : depthAfter 1 between = some 0 := by
    have whole : Balanced (before ++ between) := by
      rw [← List.append_assoc] at balanced
      exact (balanced.cut (by rw [level_append, inside, closed]; rfl)).1
    rwa [balanced_iff, depthAfter_append, count] at whole
  obtain ⟨contents, more, split, first, _⟩ := Text.exists_close 0 (Nat.le_refl 0) walk
  exact ⟨contents, more, split, ((balanced_iff contents).mpr first).level_eq⟩

/-! ## Delimiters -/

/-- A slot begins behind an opening bracket outside of all others, and behind a comma inside of
exactly one. -/
def StartsSlot (before : Text) (c : Char) : Prop :=
  c = '(' ∧ level before = 0 ∨ c = ',' ∧ level before = 1

/-- A slot ends in front of a comma inside of exactly one bracket, and in front of the one that
closes it. -/
def EndsSlot (before : Text) (c : Char) : Prop :=
  c = ',' ∧ level before = 1 ∨ c = ')' ∧ level before = 1

/-- A piece stands between two delimiters and has none inside, and it is not all that a group
contains if it is empty. -/
structure Delimited (before : Text) (left : Char) (piece : Text) (right : Char) : Prop where
  starts : StartsSlot before left
  ends : EndsSlot (before ++ left :: piece) right
  undivided : ∀ front c back, piece = front ++ c :: back →
    ¬StartsSlot (before ++ left :: front) c ∧ ¬EndsSlot (before ++ left :: front) c
  filled : ¬(left = '(' ∧ piece = [] ∧ right = ')')

/-- A span covers a slot of a text that begins at `position`. -/
def IsSlotFrom (position : Nat) (text : Text) (span : Span) : Prop :=
  ∃ before left piece right after, text = before ++ left :: (piece ++ right :: after) ∧
    Delimited before left piece right ∧
    span = ⟨position + byteLength before + 1, position + byteLength before + 1 + byteLength piece⟩

/-- A span covers a slot of a text. -/
def IsSlot (text : Text) (span : Span) : Prop :=
  IsSlotFrom 0 text span

/-- Behind the first delimiter of a slot exactly one bracket is open. -/
theorem StartsSlot.level_eq {before : Text} {c : Char} (starts : StartsSlot before c)
    (rest : Text) : level (before ++ c :: rest) = 1 + level rest := by
  rcases starts with ⟨rfl, outside⟩ | ⟨rfl, inside⟩
  · rw [level_append, level_open, outside]
    omega
  · rw [level_append, level_comma, inside]

/-- In front of the second delimiter of a slot exactly one bracket is open. -/
theorem EndsSlot.level_eq {before : Text} {c : Char} (ends : EndsSlot before c) :
    level before = 1 := by
  rcases ends with ⟨_, inside⟩ | ⟨_, inside⟩ <;> exact inside

/-- A delimiter takes one byte. -/
theorem StartsSlot.size {before : Text} {c : Char} (starts : StartsSlot before c) :
    c.utf8Size = 1 := by
  rcases starts with ⟨rfl, _⟩ | ⟨rfl, _⟩ <;> decide

/-- What a slot contains closes what it opens. -/
theorem Delimited.level_eq {before piece : Text} {left right : Char}
    (slot : Delimited before left piece right) : level piece = 0 := by
  have ends := slot.ends.level_eq
  rw [slot.starts.level_eq] at ends
  omega

/-- A text at level zero in front does not change what delimits slots. -/
theorem delimited_append_iff {front before piece : Text} {left right : Char}
    (outside : level front = 0) :
    Delimited (front ++ before) left piece right ↔ Delimited before left piece right := by
  have same (inner : Text) : level (front ++ inner) = level inner := by
    rw [level_append, outside, Int.zero_add]
  constructor
  · rintro ⟨starts, ends, undivided, filled⟩
    simp only [StartsSlot, EndsSlot, List.append_assoc, same] at starts ends undivided
    exact ⟨starts, ends, undivided, filled⟩
  · rintro ⟨starts, ends, undivided, filled⟩
    refine ⟨?_, ?_, ?_, filled⟩
    · simpa only [StartsSlot, same] using starts
    · simpa only [EndsSlot, List.append_assoc, same] using ends
    · simpa only [StartsSlot, EndsSlot, List.append_assoc, same] using undivided

/-! ## Slots of the parts of a text -/

/-- A slot that begins within a balanced text ends within it. -/
theorem Delimited.not_across {before piece inner rest : Text} {left right : Char}
    (slot : Delimited before left piece right) (balanced : Balanced (before ++ left :: inner)) :
    piece ≠ inner ++ rest := by
  -- One bracket is open behind the first delimiter, and the one that closes it ends the slot.
  rintro rfl
  have inside : level (before ++ [left]) = 1 := slot.starts.level_eq []
  have closed : level inner = -1 := by
    have whole := balanced.level_eq
    rw [slot.starts.level_eq] at whole
    omega
  have parts : Balanced ((before ++ [left]) ++ (inner ++ [])) := by simpa using balanced
  obtain ⟨contents, more, rfl, outside⟩ := parts.exists_close inside closed
  refine (slot.undivided contents ')' (more ++ rest) (by simp)).2 (.inr ⟨rfl, ?_⟩)
  rw [slot.starts.level_eq, outside]
  rfl

/-- The slots of a text behind a balanced one are those of the two texts. -/
theorem isSlotFrom_append_iff {front : Text} (balanced : Balanced front) {position : Nat}
    {rest : Text} {span : Span} :
    IsSlotFrom position (front ++ rest) span ↔
      IsSlotFrom position front span ∨ IsSlotFrom (position + byteLength front) rest span := by
  constructor
  · rintro ⟨before, left, piece, right, after, split, slot, rfl⟩
    rcases List.append_eq_append_iff.mp split with ⟨more, rfl, behind⟩ | ⟨inner, rfl, behind⟩
    · have slot := (delimited_append_iff balanced.level_eq).mp slot
      exact .inr ⟨more, left, piece, right, after, behind, slot, by
        simp only [byteLength_append, Nat.add_assoc]⟩
    · cases inner with
      | nil =>
        rw [List.append_nil] at balanced ⊢
        rw [← List.append_nil before, delimited_append_iff balanced.level_eq] at slot
        exact .inr ⟨[], left, piece, right, after, behind.symm, slot, by simp⟩
      | cons first inner =>
        obtain ⟨rfl, follows⟩ := List.cons.inj behind
        rcases List.append_eq_append_iff.mp follows with ⟨more, rfl, last⟩ | ⟨more, across, _⟩
        · cases more with
          | nil =>
            rw [List.append_nil] at balanced
            exact absurd (List.append_nil piece).symm (slot.not_across balanced)
          | cons other more =>
            obtain ⟨rfl, rfl⟩ := List.cons.inj last
            exact .inl ⟨before, left, piece, right, more, rfl, slot, rfl⟩
        · exact absurd across (slot.not_across balanced)
  · rintro (⟨before, left, piece, right, after, rfl, slot, rfl⟩ |
      ⟨before, left, piece, right, after, rfl, slot, rfl⟩)
    · exact ⟨before, left, piece, right, after ++ rest, by simp, slot, rfl⟩
    · exact ⟨front ++ before, left, piece, right, after, by simp,
        (delimited_append_iff balanced.level_eq).mpr slot, by
          simp only [byteLength_append, Nat.add_assoc]⟩

/-- A character has no slots. -/
theorem not_isSlotFrom_singleton (position : Nat) (c : Char) (span : Span) :
    ¬IsSlotFrom position [c] span := by
  rintro ⟨before, left, piece, right, after, split, _⟩
  have size := congrArg List.length split
  simp only [List.length_append, List.length_cons, List.length_nil] at size
  omega

/-! ## Slots of a group -/

/-- A character of a group behind its opening bracket stands in its contents or closes it. -/
theorem eq_or_exists_of_concat_eq {contents front rest : Text} {last c : Char}
    (split : contents ++ [last] = front ++ c :: rest) :
    (contents = front ∧ last = c ∧ rest = []) ∨
      ∃ inner, contents = front ++ c :: inner ∧ rest = inner ++ [last] := by
  rcases List.eq_nil_or_concat rest with rfl | ⟨inner, other, rfl⟩
  · obtain ⟨rfl, same⟩ := List.append_inj' split rfl
    obtain ⟨rfl, _⟩ := List.cons.inj same
    exact .inl ⟨rfl, rfl, rfl⟩
  · rw [List.concat_eq_append] at split ⊢
    rw [← List.cons_append, ← List.append_assoc] at split
    obtain ⟨rfl, same⟩ := List.append_inj' split rfl
    obtain ⟨rfl, _⟩ := List.cons.inj same
    exact .inr ⟨inner, rfl, rfl⟩

/-- What stands in front of a slot of a group leads up to an argument. -/
theorem StartsSlot.exists_lead {contents before rest : Text} {left : Char}
    (starts : StartsSlot before left) (balanced : Balanced contents) (more : rest ≠ [])
    (split : '(' :: (contents ++ [')']) = before ++ left :: rest) :
    ∃ earlier, (∀ piece ∈ earlier, Undivided 0 piece) ∧ contents ++ [')'] = lead earlier ++ rest ∧
      byteLength (lead earlier) = byteLength before := by
  cases before with
  | nil =>
    obtain ⟨rfl, rfl⟩ := List.cons.inj split
    exact ⟨[], by simp, rfl, rfl⟩
  | cons first front =>
    obtain rfl : '(' = first := (List.cons.inj split).1
    have behind : contents ++ [')'] = front ++ left :: rest := (List.cons.inj split).2
    rcases eq_or_exists_of_concat_eq behind with ⟨_, _, none⟩ | ⟨inner, rfl, _⟩
    · exact absurd none more
    · have covered := balanced.level_nonneg
      rcases starts with ⟨_, outside⟩ | ⟨rfl, inside⟩
      · rw [level_open] at outside
        omega
      · rw [level_open] at inside
        obtain ⟨closed, _⟩ := balanced.cut (by omega)
        obtain ⟨earlier, some, undivided, rfl⟩ := closed.exists_pieces
        refine ⟨earlier, undivided, ?_, ?_⟩
        · rw [behind, lead_eq_joinWith some, List.append_assoc, List.singleton_append]
        · rw [byteLength_lead some, byteLength_cons, Nat.add_comm]
          rfl

/-- Behind a slot of a group the other arguments follow. -/
theorem exists_later {contents front piece after : Text} {right : Char}
    (balanced : Balanced contents) (outside : level (front ++ piece) = 0)
    (ends : right = ',' ∨ right = ')')
    (split : contents ++ [')'] = (front ++ piece) ++ right :: after) :
    ∃ later, (∀ other ∈ later, Undivided 0 other) ∧
      contents = front ++ joinWith ',' (piece :: later) := by
  rcases eq_or_exists_of_concat_eq split with ⟨rfl, _, _⟩ | ⟨inner, rfl, _⟩
  · exact ⟨[], by simp, by simp [joinWith]⟩
  · rcases ends with rfl | rfl
    · rw [← List.singleton_append, ← List.append_assoc] at balanced
      obtain ⟨_, behind⟩ := balanced.cut (by rw [level_append, outside]; rfl)
      obtain ⟨later, some, undivided, rfl⟩ := behind.exists_pieces
      exact ⟨later, undivided, by rw [joinWith_cons ',' piece some, List.append_assoc]⟩
    · rw [← List.singleton_append, ← List.append_assoc] at balanced
      have covered := balanced.level_nonneg
      rw [level_append, outside] at covered
      exact absurd covered (by decide)

/-- An argument of a group stands behind a delimiter. -/
theorem exists_startsSlot {earlier : List Text} (undivided : ∀ piece ∈ earlier, Undivided 0 piece) :
    ∃ before left, '(' :: lead earlier = before ++ [left] ∧ StartsSlot before left ∧
      byteLength before = byteLength (lead earlier) ∧ (left = '(' → earlier = []) := by
  by_cases first : earlier = []
  · subst first
    exact ⟨[], '(', rfl, .inl ⟨rfl, rfl⟩, rfl, fun _ => rfl⟩
  · refine ⟨'(' :: joinWith ',' earlier, ',', ?_, .inr ⟨rfl, ?_⟩, ?_, fun same => by simp at same⟩
    · rw [lead_eq_joinWith first, List.cons_append]
    · rw [level_open, (balanced_joinWith undivided).level_eq]
      rfl
    · rw [byteLength_lead first, byteLength_cons, Nat.add_comm]
      rfl

/-- An argument of a group stands in front of a delimiter. -/
theorem exists_endsSlot (piece : Text) (later : List Text) :
    ∃ right after, joinWith ',' (piece :: later) ++ [')'] = piece ++ right :: after ∧
      (right = ',' ∨ right = ')') ∧ (right = ')' → later = []) := by
  obtain ⟨rest, joined, ⟨last, rfl⟩ | ⟨_, rfl⟩⟩ := joinWith_eq_append piece later
  · exact ⟨')', [], by rw [joined, List.append_nil], .inr rfl, fun _ => last⟩
  · exact ⟨',', joinWith ',' later ++ [')'], by rw [joined, List.append_assoc, List.cons_append],
      .inl rfl, fun same => by simp at same⟩

/-- What stands in front of an argument closes what it opens. -/
theorem level_lead {earlier : List Text} (undivided : ∀ piece ∈ earlier, Undivided 0 piece) :
    level (lead earlier) = 0 := by
  by_cases first : earlier = []
  · subst first
    rfl
  · rw [lead_eq_joinWith first, level_append, (balanced_joinWith undivided).level_eq]
    rfl

/-- No delimiter stands inside of an argument. -/
theorem Undivided.not_delimiter {before front piece back : Text} {c : Char}
    (undivided : Undivided 0 piece) (inside : level before = 1)
    (split : piece = front ++ c :: back) :
    ¬StartsSlot (before ++ front) c ∧ ¬EndsSlot (before ++ front) c := by
  have balanced := undivided.balanced
  rw [split] at balanced
  have covered := balanced.level_nonneg
  have comma (same : c = ',') : level front ≠ 0 := by
    subst same
    intro outside
    exact undivided.commas front back split ((balanced_iff front).mp (balanced.cut outside).1)
  simp only [StartsSlot, EndsSlot, level_append, inside]
  refine ⟨?_, ?_⟩
  · rintro (⟨_, outside⟩ | ⟨same, level⟩)
    · omega
    · exact comma same (by omega)
  · rintro (⟨same, level⟩ | ⟨rfl, level⟩)
    · exact comma same (by omega)
    · rw [← List.singleton_append, ← List.append_assoc] at balanced
      have later := balanced.level_nonneg
      rw [level_append, level_close, level_nil] at later
      omega

/-- What a slot contains is not divided by a comma. -/
theorem Delimited.undivided_zero {before piece : Text} {left right : Char}
    (slot : Delimited before left piece right) (balanced : Balanced piece) :
    Undivided 0 piece where
  closed := (balanced_iff piece).mp balanced
  commas front back split closed := by
    refine (slot.undivided front ',' back split).2 (.inl ⟨rfl, ?_⟩)
    rw [slot.starts.level_eq, ((balanced_iff front).mpr closed).level_eq]
    rfl

/-- Empty contents of a group are no slot. -/
theorem Delimited.contents_ne_nil {before piece after : Text} {left right : Char}
    (slot : Delimited before left piece right) {contents : Text}
    (split : '(' :: (contents ++ [')']) = before ++ left :: (piece ++ right :: after)) :
    contents ≠ [] := by
  rintro rfl
  have sizes := congrArg List.length split
  simp only [List.length_append, List.length_cons, List.length_nil] at sizes
  obtain rfl : before = [] := List.eq_nil_of_length_eq_zero (by omega)
  obtain rfl : piece = [] := List.eq_nil_of_length_eq_zero (by omega)
  obtain ⟨rfl, same⟩ := List.cons.inj split
  obtain ⟨rfl, _⟩ := List.cons.inj same
  exact slot.filled ⟨rfl, rfl, rfl⟩

/-- A slot of a group is one of its arguments. -/
theorem Delimited.exists_argument {pieces : List Text} {before piece after : Text}
    {left right : Char} (slot : Delimited before left piece right)
    (proper : (Segment.group pieces).Proper)
    (split : (Segment.group pieces).text = before ++ left :: (piece ++ right :: after)) :
    ∃ earlier later, pieces = earlier ++ piece :: later ∧
      byteLength (lead earlier) = byteLength before := by
  obtain ⟨balanced, found⟩ := proper
  obtain ⟨earlier, first, behind, size⟩ :=
    slot.starts.exists_lead balanced (by simp) split
  have outside := level_lead first
  have closed : level (lead earlier ++ piece) = 0 := by
    rw [level_append, outside, slot.level_eq]
    rfl
  obtain ⟨later, others, joined⟩ := exists_later balanced closed
    (slot.ends.imp And.left And.left) (by rw [behind, List.append_assoc])
  obtain ⟨rest, inner, _⟩ := joinWith_eq_append piece later
  have here : Balanced piece := by
    rw [joined, inner] at balanced
    exact ((balanced.cut outside).2.cut slot.level_eq).1
  have some : pieces ≠ [] := by
    rintro rfl
    exact slot.contents_ne_nil split rfl
  have undivided : ∀ other ∈ earlier ++ piece :: later, Undivided 0 other :=
    List.forall_mem_append.mpr ⟨first, List.forall_mem_cons.mpr ⟨slot.undivided_zero here, others⟩⟩
  rw [← joinWith_append_cons] at joined
  exact ⟨earlier, later, eq_of_joinWith_eq some (by simp)
    (ParameterList.undivided_of_arguments balanced (found 0)) undivided joined, size⟩

/-- Each argument of a group is a slot. -/
theorem isSlotFrom_of_argument {earlier later : List Text} {piece : Text}
    (proper : (Segment.group (earlier ++ piece :: later)).Proper) (position : Nat) :
    IsSlotFrom position (Segment.group (earlier ++ piece :: later)).text
      ⟨position + 1 + byteLength (lead earlier),
        position + 1 + byteLength (lead earlier) + byteLength piece⟩ := by
  obtain ⟨balanced, found⟩ := proper
  obtain ⟨first, here, _⟩ := by
    simpa only [List.forall_mem_append, List.forall_mem_cons] using
      ParameterList.undivided_of_arguments balanced (found 0)
  obtain ⟨before, left, start, starts, size, initial⟩ := exists_startsSlot first
  obtain ⟨right, after, stop, ends, final⟩ := exists_endsSlot piece later
  have inside : level (before ++ [left]) = 1 := starts.level_eq []
  refine ⟨before, left, piece, right, after, ?_, ⟨starts, ?_, ?_, ?_⟩, ?_⟩
  · rw [Segment.text, joinWith_append_cons, List.append_assoc, stop, ← List.cons_append, start,
      List.append_assoc, List.singleton_append]
  · have level : level (before ++ left :: piece) = 1 := by
      rw [starts.level_eq, here.balanced.level_eq]
      rfl
    exact ends.imp (fun same => ⟨same, level⟩) fun same => ⟨same, level⟩
  · intro front c back split
    simpa using here.not_delimiter inside split
  · -- One empty argument would be empty contents, which have no arguments.
    rintro ⟨opens, rfl, closes⟩
    obtain rfl := initial opens
    obtain rfl := final closes
    simpa [joinWith, ParameterList.arguments] using found 0
  · rw [size, Nat.add_right_comm]

/-- The slots of a group are its arguments. -/
theorem isSlotFrom_group_iff {pieces : List Text} (proper : (Segment.group pieces).Proper)
    {position : Nat} {span : Span} :
    IsSlotFrom position (Segment.group pieces).text span ↔
      span ∈ spansFrom (position + 1) pieces := by
  rw [mem_spansFrom_iff]
  constructor
  · rintro ⟨before, left, piece, right, after, split, slot, rfl⟩
    obtain ⟨earlier, later, all, size⟩ := slot.exists_argument proper split
    exact ⟨earlier, piece, later, all, by rw [size, Nat.add_right_comm]⟩
  · rintro ⟨earlier, piece, later, rfl, rfl⟩
    exact isSlotFrom_of_argument proper position

/-! ## Slots of a balanced text -/

/-- A proper segment is balanced. -/
theorem balanced_of_proper {segment : Segment} (proper : segment.Proper) :
    Balanced segment.text := by
  cases segment with
  | symbol c => exact balanced_plain proper.1 proper.2
  | group pieces => exact proper.1.enclosed

/-- The slots of a text of segments are the places of its arguments. -/
theorem isSlotFrom_textOfAll_iff {segments : List Segment}
    (proper : ∀ segment ∈ segments, segment.Proper) {position : Nat} {span : Span} :
    IsSlotFrom position (Segment.textOfAll segments) span ↔
      span ∈ (Segment.placed position segments).map Prod.fst := by
  induction segments generalizing position with
  | nil =>
    refine iff_of_false ?_ (by simp [Segment.placed])
    rintro ⟨before, left, piece, right, after, split, _⟩
    simp at split
  | cons segment segments ih =>
    obtain ⟨here, later⟩ := List.forall_mem_cons.mp proper
    rw [Segment.textOfAll, List.flatMap_cons, isSlotFrom_append_iff (balanced_of_proper here)]
    cases segment with
    | symbol c =>
      exact (or_iff_right (not_isSlotFrom_singleton position c span)).trans (ih later)
    | group pieces =>
      rw [isSlotFrom_group_iff here, Segment.text, byteLength_enclosed, ← Nat.add_assoc,
        Segment.placed, List.map_append, List.mem_append,
        List.map_fst_zip (Nat.le_of_eq (length_spansFrom _ _))]
      exact or_congr_right (ih later)

/-- Pieces that stand one after the other stand in order, with a byte between neighbours. -/
theorem pairwise_spansFrom (offset : Nat) (pieces : List Text) :
    (spansFrom offset pieces).Pairwise fun earlier later => earlier.stop < later.start := by
  induction pieces generalizing offset with
  | nil => exact List.Pairwise.nil
  | cons piece pieces ih =>
    refine List.pairwise_cons.mpr ⟨fun span among => ?_, ih _⟩
    obtain ⟨earlier, _, _, _, rfl⟩ := mem_spansFrom_iff.mp among
    simp only
    omega

/-- Pieces that stand one after the other stand within the text that they make up. -/
theorem bounds_of_mem_spansFrom {offset : Nat} {pieces : List Text} {span : Span}
    (among : span ∈ spansFrom offset pieces) :
    offset ≤ span.start ∧ span.stop ≤ offset + byteLength (joinWith ',' pieces) := by
  obtain ⟨earlier, piece, later, rfl, rfl⟩ := mem_spansFrom_iff.mp among
  obtain ⟨rest, joined, _⟩ := joinWith_eq_append piece later
  rw [joinWith_append_cons, joined, byteLength_append, byteLength_append]
  simp only
  omega

/-- The places of the arguments of segments stand in order, behind the start of the segments. -/
theorem pairwise_placed (position : Nat) (segments : List Segment) :
    ((Segment.placed position segments).map Prod.fst).Pairwise
        (fun earlier later => earlier.stop < later.start) ∧
      ∀ span ∈ (Segment.placed position segments).map Prod.fst, position < span.start := by
  induction segments generalizing position with
  | nil => simp [Segment.placed]
  | cons segment segments ih =>
    cases segment with
    | symbol c =>
      obtain ⟨ordered, behind⟩ := ih (position + c.utf8Size)
      refine ⟨ordered, fun span among => ?_⟩
      exact Nat.lt_of_le_of_lt (Nat.le_add_right _ _) (behind span among)
    | group pieces =>
      obtain ⟨ordered, behind⟩ := ih (position + byteLength (joinWith ',' pieces) + 2)
      rw [Segment.placed, List.map_append,
        List.map_fst_zip (Nat.le_of_eq (length_spansFrom _ _))]
      refine ⟨List.pairwise_append.mpr ⟨pairwise_spansFrom _ _, ordered, ?_⟩, ?_⟩
      · intro earlier here later there
        have inside := bounds_of_mem_spansFrom here
        have outside := behind later there
        omega
      · intro span among
        rcases List.mem_append.mp among with here | there
        · have inside := bounds_of_mem_spansFrom here
          omega
        · have outside := behind span there
          omega

/-- A slot begins and ends between two characters of the text. -/
theorem IsSlot.boundaries {text : Text} {span : Span} (slot : IsSlot text span) :
    span.start ≤ span.stop ∧ text.IsBoundary span.start ∧ text.IsBoundary span.stop := by
  obtain ⟨before, left, piece, right, after, rfl, slot, rfl⟩ := slot
  have size := slot.starts.size
  refine ⟨Nat.le_add_right _ _, ⟨before ++ [left], piece ++ right :: after, by simp, ?_⟩,
    before ++ left :: piece, right :: after, by simp, ?_⟩
  · simp only [byteLength_append, byteLength_cons, byteLength_nil, size]
    omega
  · simp only [byteLength_append, byteLength_cons, size]
    omega

end Text

end Arbor
