import Arbor.Proofs.Branching
import Arbor.Proofs.PassSteps

/-!
# Where symbols begin

A sequence is read twice: a pass cuts it into tokens in order to rewrite it, and an interpretation
walks through it and acts on symbols. Each keeps a cursor of its own. An interpretation reads the
list behind a symbol, skips it or, behind a branch symbol, leaves it alone, while a pass takes the
list with every symbol.

So both begin their symbols at the same offsets exactly if the interpretation comes to no branch
symbol in front of a list. At the first one that it comes to, it goes on with the opening bracket
as the next symbol, and the pass with what stands behind the list.
-/
namespace Arbor

open Text

variable {π : Type}

/-! ## Starts of tokens -/

namespace Token

/-- The offsets at which tokens begin that stand one after the other from `position` on. -/
def startsFrom (position : Nat) : List Token → List Nat
  | [] => []
  | token :: tokens => position :: startsFrom (position + byteLength token.text) tokens

/-- A token is as long as its symbol and its list. -/
theorem byteLength_text (token : Token) :
    byteLength token.text = token.symbol.utf8Size + ParameterList.extent token.contents? := by
  obtain ⟨symbol, contents?⟩ := token
  have brackets : '('.utf8Size = 1 ∧ ')'.utf8Size = 1 := by decide
  cases contents? with
  | none => rfl
  | some contents =>
    simp only [text, ParameterList.extent, byteLength_cons, byteLength_append, byteLength_nil,
      brackets]
    omega

/-- The first token is a symbol with the list that can be taken behind it. -/
theorem first?_of_take {symbol : Char} {position : Nat} {rest after : Text}
    {contents? : Option Text}
    (taken : ParameterList.take position rest = .ok (contents?, after)) :
    first? (symbol :: rest) = some (⟨symbol, contents?⟩, after) := by
  rw [ParameterList.take_position position 0] at taken
  simp [first?, taken]

/-- A token whose symbol stands in front of an opening bracket has more than its symbol. -/
theorem utf8Size_lt_of_first? {symbol : Char} {rest after : Text} {token : Token}
    (found : first? (symbol :: rest) = some (token, after)) (opens : rest.head? = some '(') :
    symbol.utf8Size < byteLength token.text := by
  obtain ⟨rfl, taken⟩ := take_of_first? found
  rw [byteLength_text]
  cases contents : token.contents? with
  | none =>
    rw [contents] at taken
    exact absurd opens (ParameterList.take_eq_none_iff.mp (taken 0)).1
  | some list =>
    simp only [ParameterList.extent]
    omega

end Token

/-- The steps of a pass begin where the tokens of its input begin: those that were taken, and
behind them those of the rest. -/
theorem Pass.Takes.startsFrom_eq {first last : Pass} {steps : List Step}
    (taken : first.Takes steps last) :
    Token.startsFrom first.cursor (Token.cut first.rest).1 =
        steps.map (fun step => step.consumed.start) ++
          Token.startsFrom last.cursor (Token.cut last.rest).1 ∧
      (Token.cut first.rest).2 = (Token.cut last.rest).2 := by
  induction taken with
  | nil => exact ⟨rfl, rfl⟩
  | concat _ given ih =>
    obtain ⟨starts, left⟩ := ih
    obtain ⟨_, none, _⟩ | ⟨token, behind, text, found, _, made⟩ := gives_step_iff.mp given
    · cases none
    obtain ⟨rfl, rfl⟩ := Prod.mk.inj (Option.some.inj made)
    rw [Token.cut_of_some found] at starts left
    rw [starts, left]
    simp [Token.startsFrom]

/-! ## Symbols that are acted on -/

/-- A symbol that is acted on, with the place where it stands. -/
structure Visit where
  /-- The offset at which the symbol begins. -/
  position : Nat
  symbol : Char
  /-- What stands behind the symbol. -/
  behind : Text
  deriving DecidableEq, Repr

/-- The place of a visit is one of a sequence. -/
def Visit.LiesIn (visit : Visit) (sequence : Text) : Prop :=
  ∃ before, sequence = before ++ visit.symbol :: visit.behind ∧
    byteLength before = visit.position

namespace Interpretation

variable [Part π] {interpretation : Interpretation π}

/-- A walk that notes the symbols that it acts on. -/
def walkNoting (interpretation : Interpretation π) :
    Nat → Turtle π → Nat → Text → Except InterpretationError (List Visit × Turtle π)
  | 0, turtle, _, _ => .ok ([], turtle)
  | _, turtle, _, [] => .ok ([], turtle)
  | count + 1, turtle, position, symbol :: rest => do
    let (turtle, place, after) ← interpretation.act turtle symbol position rest
    let (visits, last) ← walkNoting interpretation count turtle place after
    pure (⟨position, symbol, rest⟩ :: visits, last)

/-- Noting changes nothing of a walk. -/
theorem map_snd_walkNoting (count : Nat) (turtle : Turtle π) (position : Nat) (text : Text) :
    (interpretation.walkNoting count turtle position text).map Prod.snd =
      interpretation.walk count turtle position text := by
  induction count generalizing turtle position text with
  | zero => rfl
  | succ count ih =>
    cases text with
    | nil => rfl
    | cons symbol rest =>
      rw [walk, walkNoting]
      cases interpretation.act turtle symbol position rest with
      | error fault => rfl
      | ok parts =>
        obtain ⟨next, place, after⟩ := parts
        show _ = interpretation.walk count next place after
        rw [← ih]
        show Except.map Prod.snd (interpretation.walkNoting count next place after >>= _) = _
        cases interpretation.walkNoting count next place after <;> rfl

/-- The symbols that an interpretation acts on in its walk through a sequence. -/
def visits (interpretation : Interpretation π) (sequence : Text) :
    Except InterpretationError (List Visit) :=
  (interpretation.walkNoting sequence.length (.start interpretation.growthAxis) 0 sequence).map
    Prod.fst

/-- What is noted at one symbol and behind it. -/
theorem walkNoting_cons_eq_ok_iff {count position : Nat} {turtle last : Turtle π} {symbol : Char}
    {rest : Text} {visits : List Visit} :
    interpretation.walkNoting (count + 1) turtle position (symbol :: rest) = .ok (visits, last) ↔
      ∃ next place after later, interpretation.act turtle symbol position rest =
          .ok (next, place, after) ∧
        interpretation.walkNoting count next place after = .ok (later, last) ∧
          visits = ⟨position, symbol, rest⟩ :: later := by
  rw [walkNoting]
  constructor
  · intro walked
    obtain ⟨⟨next, place, after⟩, acted, walked⟩ := bind_eq_ok_iff.mp walked
    obtain ⟨⟨later, final⟩, behind, made⟩ := bind_eq_ok_iff.mp walked
    obtain ⟨rfl, rfl⟩ := Prod.mk.inj (Except.ok.inj made)
    exact ⟨next, place, after, later, acted, behind, rfl⟩
  · rintro ⟨next, place, after, later, acted, behind, rfl⟩
    refine bind_eq_ok_iff.mpr ⟨_, acted, ?_⟩
    exact bind_eq_ok_iff.mpr ⟨_, behind, rfl⟩

/-- A visit to a branch symbol in front of a list. -/
def LeavesList (interpretation : Interpretation π) (visit : Visit) : Prop :=
  (interpretation.meanings.command visit.symbol = .push ∨
    interpretation.meanings.command visit.symbol = .pop) ∧ visit.behind.head? = some '('

instance (interpretation : Interpretation π) (visit : Visit) :
    Decidable (interpretation.LeavesList visit) :=
  inferInstanceAs (Decidable (_ ∧ _))

/-- An interpretation takes the token that begins with a symbol, unless it leaves the list alone. -/
theorem Does.exists_token {symbol : Char} {position place : Nat} {rest after : Text}
    {actions : List (TurtleAction π)}
    (does : interpretation.Does symbol position rest actions (place, after))
    (takes : ¬interpretation.LeavesList ⟨position, symbol, rest⟩) :
    ∃ token, Token.first? (symbol :: rest) = some (token, after) ∧
      place = position + byteLength token.text := by
  have listed {contents? : Option Text}
      (found : ParameterList.take (position + symbol.utf8Size) rest = .ok (contents?, after) ∧
        place = position + symbol.utf8Size + ParameterList.extent contents?) :
      ∃ token, Token.first? (symbol :: rest) = some (token, after) ∧
        place = position + byteLength token.text := by
    refine ⟨_, Token.first?_of_take found.1, ?_⟩
    rw [Token.byteLength_text, found.2, Nat.add_assoc]
  have bare (branches : interpretation.meanings.command symbol = .push ∨
      interpretation.meanings.command symbol = .pop) :
      ParameterList.take (position + symbol.utf8Size) rest = .ok (none, rest) :=
    ParameterList.take_of_head?_ne (fun opens => takes ⟨branches, opens⟩) _
  cases does with
  | rotate _ taken => exact listed (exists_take_of_takeParameters taken).choose_spec
  | draw _ _ taken _ => exact listed (exists_take_of_takeParameters taken).choose_spec
  | nothing _ _ taken => exact listed (exists_take_of_takeParameters taken).choose_spec
  | push meaning => exact listed ⟨bare (.inl meaning), rfl⟩
  | pop meaning => exact listed ⟨bare (.inr meaning), rfl⟩
  | ignore _ skipped => exact listed (exists_take_of_skipParameters skipped).choose_spec

/-- Where an interpretation leaves a list alone it goes on behind the symbol. -/
theorem Does.eq_of_leavesList {symbol : Char} {position place : Nat} {rest after : Text}
    {actions : List (TurtleAction π)}
    (does : interpretation.Does symbol position rest actions (place, after))
    (leaves : interpretation.LeavesList ⟨position, symbol, rest⟩) :
    place = position + symbol.utf8Size ∧ after = rest := by
  have branches := leaves.1
  cases does with
  | rotate meaning _ => simp [meaning] at branches
  | draw meaning _ _ _ => simp [meaning] at branches
  | nothing meaning _ _ => simp [meaning] at branches
  | push _ => exact ⟨rfl, rfl⟩
  | pop _ => exact ⟨rfl, rfl⟩
  | ignore meaning _ => simp [meaning] at branches

/-! ## Walks and tokens -/

/-- The first symbol of a text is the first one that a walk acts on. -/
theorem exists_cons_of_walkNoting {count position : Nat} {turtle last : Turtle π} {text : Text}
    {visits : List Visit} (enough : text.length ≤ count) (some : text ≠ [])
    (walked : interpretation.walkNoting count turtle position text = .ok (visits, last)) :
    ∃ symbol rest later, text = symbol :: rest ∧ visits = ⟨position, symbol, rest⟩ :: later := by
  cases text with
  | nil => exact absurd rfl some
  | cons symbol rest =>
    cases count with
    | zero => cases enough
    | succ count =>
      obtain ⟨_, _, _, later, _, _, made⟩ := walkNoting_cons_eq_ok_iff.mp walked
      exact ⟨symbol, rest, later, rfl, made⟩

/-- A walk through a text that is cut to its end acts on symbols where the tokens begin, exactly
if it leaves no list alone. The induction is on the number of symbols that may be taken; where
a list is left alone the walk goes on in front of the next token. -/
theorem starts_eq_iff_of_walkNoting {count position : Nat} {turtle last : Turtle π} {text : Text}
    {visits : List Visit} (enough : text.length ≤ count)
    (walked : interpretation.walkNoting count turtle position text = .ok (visits, last))
    (complete : (Token.cut text).2 = []) :
    visits.map Visit.position = Token.startsFrom position (Token.cut text).1 ↔
      ∀ visit ∈ visits, ¬interpretation.LeavesList visit := by
  induction count generalizing turtle position text visits with
  | zero =>
    obtain rfl : text = [] := List.eq_nil_of_length_eq_zero (Nat.le_zero.mp enough)
    obtain ⟨rfl, rfl⟩ := Prod.mk.inj (Except.ok.inj walked)
    simp [Token.startsFrom]
  | succ count ih =>
    cases text with
    | nil =>
      obtain ⟨rfl, rfl⟩ := Prod.mk.inj (Except.ok.inj walked)
      simp [Token.startsFrom]
    | cons symbol rest =>
      obtain ⟨next, place, after, later, acted, onward, rfl⟩ := walkNoting_cons_eq_ok_iff.mp walked
      have shorter := length_le_of_act acted
      have fits : after.length ≤ count := by
        simp only [List.length_cons] at enough
        omega
      obtain ⟨actions, does, _⟩ := act_eq_ok_iff.mp acted
      by_cases leaves : interpretation.LeavesList ⟨position, symbol, rest⟩
      · obtain ⟨rfl, rfl⟩ := does.eq_of_leavesList leaves
        have refused : ¬∀ visit ∈ (⟨position, symbol, after⟩ : Visit) :: later,
            ¬interpretation.LeavesList visit :=
          fun none => none _ List.mem_cons_self leaves
        refine iff_of_false ?_ refused
        intro same
        have some : after ≠ [] := by
          rintro rfl
          cases leaves.2
        obtain ⟨_, _, _, _, rfl⟩ := exists_cons_of_walkNoting fits some onward
        cases found : Token.first? (symbol :: after) with
        | none =>
          rw [Token.cut_of_none found] at complete
          cases complete
        | some parts =>
          have longer := Token.utf8Size_lt_of_first? found leaves.2
          rw [Token.cut_of_some found] at same
          cases tokens : (Token.cut parts.2).1 with
          | nil => simp [Token.startsFrom, tokens] at same
          | cons other others =>
            simp only [Token.startsFrom, tokens, List.map_cons, List.cons.injEq] at same
            omega
      · obtain ⟨token, found, rfl⟩ := does.exists_token leaves
        rw [Token.cut_of_some found] at complete ⊢
        have behind := ih fits onward complete
        simp only [List.map_cons, Token.startsFrom, List.cons.injEq, true_and, behind,
          List.forall_mem_cons, leaves, not_false_eq_true]

/-- Every symbol that a walk acts on stands where it is noted. -/
theorem liesIn_of_walkNoting {count position : Nat} {turtle last : Turtle π}
    {sequence before text : Text} {visits : List Visit} (split : sequence = before ++ text)
    (reached : byteLength before = position)
    (walked : interpretation.walkNoting count turtle position text = .ok (visits, last)) :
    ∀ visit ∈ visits, visit.LiesIn sequence := by
  induction count generalizing turtle position before text visits with
  | zero =>
    obtain ⟨rfl, _⟩ := Prod.mk.inj (Except.ok.inj walked)
    simp
  | succ count ih =>
    cases text with
    | nil =>
      obtain ⟨rfl, _⟩ := Prod.mk.inj (Except.ok.inj walked)
      simp
    | cons symbol rest =>
      obtain ⟨next, place, after, later, acted, walked, rfl⟩ := walkNoting_cons_eq_ok_iff.mp walked
      obtain ⟨actions, does, _⟩ := act_eq_ok_iff.mp acted
      obtain ⟨list, rfl, rfl⟩ := does.exists_append
      refine List.forall_mem_cons.mpr ⟨⟨before, split, reached⟩, ?_⟩
      have further : sequence = (before ++ symbol :: list) ++ after := by
        rw [split]
        simp
      refine ih further ?_ walked
      rw [byteLength_append, byteLength_cons, reached, Nat.add_assoc]

/-- A sequence that has a tree has the symbols that its walk acts on. -/
theorem exists_walkNoting_of_tree {sequence : Text} {tree : PartTree π}
    (grown : interpretation.tree sequence = .ok tree) :
    ∃ visits last, interpretation.visits sequence = .ok visits ∧
      interpretation.walkNoting sequence.length (.start interpretation.growthAxis) 0 sequence =
        .ok (visits, last) := by
  obtain ⟨last, walked, _⟩ := map_eq_ok_iff.mp grown
  rw [finalTurtle, ← map_snd_walkNoting] at walked
  obtain ⟨⟨visits, turtle⟩, noted, _⟩ := map_eq_ok_iff.mp walked
  refine ⟨visits, turtle, ?_, noted⟩
  rw [Interpretation.visits, noted]
  rfl

/-- A pass and an interpretation cut a sequence in the same way. If the sequence has a tree and a
pass comes to its end, the symbols that the interpretation acts on begin, in the same order, where
the steps of the pass begin, exactly if the interpretation comes to no branch symbol in front of a
list. This is so at least if no branch symbol of the sequence stands in front of an opening
bracket. -/
theorem starts_eq_iff {sequence : Text} {tree : PartTree π}
    (grown : interpretation.tree sequence = .ok tree) {grammar : Grammar} {constants : Constants}
    {steps : List Step} {last : Pass}
    (taken : (Pass.start grammar constants sequence).Takes steps last)
    (ended : last.cursor = byteLength sequence) :
    ∃ visits, interpretation.visits sequence = .ok visits ∧
      (∀ visit ∈ visits, visit.LiesIn sequence) ∧
        (visits.map Visit.position = steps.map (fun step => step.consumed.start) ↔
          ∀ visit ∈ visits, ¬interpretation.LeavesList visit) ∧
        ((∀ before symbol after, sequence = before ++ symbol :: '(' :: after →
          interpretation.meanings.command symbol ≠ .push ∧
            interpretation.meanings.command symbol ≠ .pop) →
              visits.map Visit.position = steps.map (fun step => step.consumed.start)) := by
  obtain ⟨visits, turtle, noted, walked⟩ := exists_walkNoting_of_tree grown
  obtain ⟨starts, left⟩ := taken.startsFrom_eq
  rw [taken.tiled.cursor_eq_iff.mp ended, Token.cut_nil] at starts left
  have agree := starts_eq_iff_of_walkNoting (Nat.le_refl _) walked left
  have lies := liesIn_of_walkNoting (List.nil_append sequence).symm byteLength_nil walked
  have same : Token.startsFrom 0 (Token.cut sequence).1 =
      steps.map (fun step => step.consumed.start) := by
    simpa [Token.startsFrom, Pass.start] using starts
  rw [same] at agree
  refine ⟨visits, noted, lies, agree, ?_⟩
  intro apart
  apply agree.mpr
  rintro ⟨position, symbol, behind⟩ among ⟨branches, opens⟩
  obtain ⟨before, split, _⟩ := lies _ among
  obtain ⟨after, rfl⟩ : ∃ after, behind = '(' :: after := by
    cases behind with
    | nil => cases opens
    | cons c after => exact ⟨after, by rw [Option.some.inj opens]⟩
  obtain ⟨no_push, no_pop⟩ := apart before symbol after split
  exact branches.elim no_push no_pop

/-- An interpretation with dots besides the standard symbols. -/
def dots : Interpretation Marker :=
  (empty none .unitY).withStandardSymbols.register 'A' .dot

/-- Lists within lists are skipped by both, and an opening bracket that is a symbol has the list
behind it. -/
theorem starts_eq_iff_stray_bracket :
    ∃ visits, dots.visits "[AG((1),2)((2)]é".toList = .ok visits ∧
      visits.map Visit.position = [0, 1, 2, 10, 14, 15] := by
  have succeeds : (dots.tree "[AG((1),2)((2)]é".toList).isOk = true := by rfl
  obtain ⟨tree, grown⟩ := exists_of_isOk succeeds
  have nothing : (Pass.start Pass.reeds .empty "[AG((1),2)((2)]é".toList).Takes []
      (Pass.start Pass.reeds .empty "[AG((1),2)((2)]é".toList) := .nil
  obtain ⟨steps, ending, last, _, traced, taken, _⟩ :=
    Pass.exists_trace nothing (Nat.lt_succ_self _) default
  have starts : ((Pass.start Pass.reeds .empty "[AG((1),2)((2)]é".toList).traceAll default).1.map
      (fun step => step.consumed.start) = [0, 1, 2, 10, 14, 15] := by decide +kernel
  have ended : ((Pass.start Pass.reeds .empty "[AG((1),2)((2)]é".toList).traceAll
      default).2.2.cursor = byteLength "[AG((1),2)((2)]é".toList := by decide +kernel
  rw [Pass.traceAll, traced] at starts ended
  have kept : (dots.visits "[AG((1),2)((2)]é".toList).map (fun visits =>
      decide (∀ visit ∈ visits, ¬dots.LeavesList visit)) = .ok true := by rfl
  obtain ⟨visits, noted, _, agree, _⟩ := starts_eq_iff grown taken ended
  rw [noted] at kept
  have same := agree.mpr (of_decide_eq_true (Except.ok.inj kept))
  exact ⟨visits, noted, same.trans starts⟩

end Interpretation

end Arbor
