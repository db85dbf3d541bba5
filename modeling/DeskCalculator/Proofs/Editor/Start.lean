import DeskCalculator.Proofs.Editor.Operators

/-!
# Operators at the start

At the start of the text the minus is the only binary operator that is not refused. Yet an operator
that is typed next takes the place of that minus, and this is the one way for another operator to
come to the start while the cursor is not moved.
-/
namespace DeskCalculator

open Display

/-- The text starts with a binary operator other than the minus. -/
def LeadsWithOperator (text : List Char) : Prop :=
  ∃ op rest, op ≠ BinaryOperator.sub ∧ text = op.symbol :: rest

/-- An operator is typed over a minus that is the whole text. -/
def ReplacesSign (line : Line) (edit : Edit) : Prop :=
  line.text = ['-'] ∧ ∃ op, op ≠ BinaryOperator.sub ∧ edit = .operator (.binary op)

theorem leadsWithOperator_symbol_iff {op : BinaryOperator} {rest : List Char} :
    LeadsWithOperator (op.symbol :: rest) ↔ op ≠ .sub := by
  refine ⟨?_, fun no_minus => ⟨op, rest, no_minus, rfl⟩⟩
  rintro ⟨other, _, no_minus, same⟩
  have symbols := congrArg BinaryOperator.ofChar? (List.cons.inj same).1
  rw [op.ofChar?_symbol, other.ofChar?_symbol] at symbols
  rwa [Option.some.inj symbols]

/-- The only binary operator that may stand at the start is the minus. -/
theorem eq_minus_of_not_leadsWithOperator {c : Char} {rest : List Char}
    (binary : isBinarySymbol c = true) (sound : ¬LeadsWithOperator (c :: rest)) : c = '-' := by
  obtain ⟨op, rfl⟩ := exists_symbol_eq binary
  rw [leadsWithOperator_symbol_iff, not_not] at sound
  rw [sound]
  rfl

theorem leadsWithOperator_append_iff {front back : List Char} (some_front : front ≠ []) :
    LeadsWithOperator (front ++ back) ↔ LeadsWithOperator front := by
  obtain ⟨c, rest, rfl⟩ := List.exists_cons_of_ne_nil some_front
  constructor
  · rintro ⟨op, _, no_minus, same⟩
    exact ⟨op, rest, no_minus, by rw [(List.cons.inj same).1]⟩
  · rintro ⟨op, rest, no_minus, same⟩
    exact ⟨op, rest ++ back, no_minus, by rw [same, List.cons_append]⟩

theorem not_leadsWithOperator_nil : ¬LeadsWithOperator [] := by
  rintro ⟨_, _, _, same⟩
  cases same

theorem not_leadsWithOperator_of_operand {c : Char} {rest : List Char}
    (operand : isBinarySymbol c = false) : ¬LeadsWithOperator (c :: rest) := by
  rintro ⟨op, _, _, same⟩
  rw [(List.cons.inj same).1, isBinarySymbol_symbol] at operand
  cases operand

theorem Operatorless.not_leadsWithOperator {text : List Char} (plain : Operatorless text) :
    ¬LeadsWithOperator text := by
  cases text with
  | nil => exact not_leadsWithOperator_nil
  | cons c rest => exact not_leadsWithOperator_of_operand (plain c List.mem_cons_self)

theorem not_leadsWithOperator_minus (rest : List Char) : ¬LeadsWithOperator ('-' :: rest) := by
  have minus : LeadsWithOperator (BinaryOperator.sub.symbol :: rest) ↔
    BinaryOperator.sub ≠ .sub := leadsWithOperator_symbol_iff
  exact fun leads => minus.mp leads rfl

theorem not_leadsWithOperator_number (x : FiniteDouble) : ¬LeadsWithOperator (number x) := by
  obtain ⟨negative, text, shape, body⟩ := exists_number_eq x
  obtain ⟨c, rest, rfl, first⟩ := body.exists_cons
  rw [shape]
  cases negative with
  | true => exact not_leadsWithOperator_minus _
  | false =>
    refine not_leadsWithOperator_of_operand ?_
    rcases first with digit | rfl
    · exact isBinarySymbol_of_isRunChar (isRunChar_of_isDigit digit)
    · decide

variable {before : List Char}

theorem Collapse.suffix {op : BinaryOperator} {kept : List Char}
    (collapse : Collapse op before kept) : kept <:+ before := by
  cases collapse with
  | first | operand | sign => exact List.suffix_refl _
  | signed => exact (List.suffix_cons _ _).trans (List.suffix_cons _ _)
  | single => exact List.suffix_cons _ _

/-- An operator comes to the start in place of a minus that stands alone, and in no other way. -/
theorem Collapse.eq_of_leadsWithOperator {op : BinaryOperator} {kept : List Char}
    (collapse : Collapse op before kept) (collapsed : Collapsed before.reverse)
    (sound : ¬LeadsWithOperator before.reverse)
    (leads : LeadsWithOperator (op.symbol :: kept).reverse) : before = ['-'] ∧ op ≠ .sub := by
  rw [List.reverse_cons] at leads
  by_cases some_kept : kept.reverse = []
  · -- nothing stays, so the operator typed is the whole text
    rw [some_kept, List.nil_append, leadsWithOperator_symbol_iff] at leads
    rw [List.reverse_eq_nil_iff.mp some_kept] at collapse
    refine ⟨?_, leads⟩
    cases collapse with
    | first sub => exact absurd sub leads
    | signed second_binary =>
      -- the first of two operators in a row is no minus
      obtain ⟨_, sign⟩ := collapsed_reverse_cons_iff.mp collapsed
      have minus := eq_minus_of_not_leadsWithOperator second_binary sound
      exact absurd minus (sign _ rfl second_binary (by decide)).1
    | single last_binary => rw [eq_minus_of_not_leadsWithOperator last_binary sound]
  · -- what stays has the first character of the text
    rw [leadsWithOperator_append_iff some_kept] at leads
    obtain ⟨back, split⟩ := List.reverse_prefix.mpr collapse.suffix
    rw [← split, leadsWithOperator_append_iff some_kept] at sound
    exact absurd leads sound

theorem Becomes.eq_of_leadsWithOperator {edit : Edit} {next : List Char}
    (becomes : Becomes before edit next) (collapsed : Collapsed before.reverse)
    (sound : ¬LeadsWithOperator before.reverse) (leads : LeadsWithOperator next.reverse) :
    before = ['-'] ∧ ∃ op, op ≠ BinaryOperator.sub ∧ edit = .operator (.binary op) := by
  cases becomes with
  | less suffix =>
    obtain ⟨back, split⟩ := List.reverse_prefix.mpr suffix
    obtain ⟨op, rest, no_minus, same⟩ := leads
    refine absurd ⟨op, rest ++ back, no_minus, ?_⟩ sound
    rw [← split, same, List.cons_append]
  | more plain =>
    rw [List.reverse_append] at leads
    -- the characters put in come to the start only of an empty text
    by_cases some_text : before.reverse = []
    · rw [some_text, List.nil_append] at leads
      have reversed : Operatorless _ := fun c member => plain c (List.mem_reverse.mp member)
      exact absurd leads reversed.not_leadsWithOperator
    · exact absurd ((leadsWithOperator_append_iff some_text).mp leads) sound
  | operator typed collapse =>
    obtain ⟨minus, no_minus⟩ := collapse.eq_of_leadsWithOperator collapsed sound leads
    exact ⟨minus, _, no_minus, typed⟩
  | result x =>
    rw [List.reverse_reverse] at leads
    exact absurd leads (not_leadsWithOperator_number x)

namespace Line

variable {line : Line} {edit : Edit}

/-- The text is collapsed and starts with no binary operator but the minus, and the cursor stands at
its end. -/
structure WellStarted (line : Line) : Prop extends line.CollapsedAtEnd where
  sound : ¬LeadsWithOperator line.text

theorem wellStarted_empty : empty.WellStarted := ⟨collapsedAtEnd_empty, not_leadsWithOperator_nil⟩

namespace WellStarted

/-- A key that brings an operator to the start of the text types it over a minus that stands
alone. -/
theorem replacesSign_of_leadsWithOperator (held : line.WellStarted) (keyed : edit.Keyed)
    (keeps : KeepsCursor line edit) (leads : LeadsWithOperator (line.apply edit).1.text) :
    ReplacesSign line edit := by
  have at_end := held.at_end
  have collapsed := held.collapsed
  have sound := held.sound
  obtain ⟨ends, becomes⟩ := becomes_apply keyed keeps at_end
  rw [text_of_after_eq_nil ends] at leads
  rw [text_of_after_eq_nil at_end] at collapsed sound
  obtain ⟨minus, typed⟩ := becomes.eq_of_leadsWithOperator collapsed sound leads
  refine ⟨?_, typed⟩
  rw [text_of_after_eq_nil at_end, minus, List.reverse_singleton]

theorem leadsWithOperator_of_replacesSign (held : line.WellStarted)
    (replaces : ReplacesSign line edit) : LeadsWithOperator (line.apply edit).1.text := by
  obtain ⟨minus, op, no_minus, rfl⟩ := replaces
  have before : line.before = ['-'] := by
    rw [text_of_after_eq_nil held.at_end] at minus
    exact List.reverse_eq_iff.mp minus
  rcases typeBinary_collapse line op with ⟨start, _, _⟩ | ⟨kept, collapse, typed⟩
  · rw [before] at start
    cases start
  · rw [before] at collapse
    rw [apply, typeOperator, typed, held.at_end]
    cases collapse with
    | operand operand => exact absurd operand (by decide)
    | sign _ other => exact absurd rfl other
    | single => exact leadsWithOperator_symbol_iff.mpr no_minus

theorem apply (held : line.WellStarted) (keyed : edit.Keyed)
    (allowed : KeepsCursor line edit ∧ ¬ReplacesSign line edit) :
    (line.apply edit).1.WellStarted := by
  obtain ⟨keeps, no_replaced⟩ := allowed
  refine ⟨held.toCollapsedAtEnd.apply keyed keeps, fun leads => no_replaced ?_⟩
  exact held.replacesSign_of_leadsWithOperator keyed keeps leads

end WellStarted

end Line

/-- As long as the cursor is not moved and no operator is typed over a minus that stands alone, the
text starts with no binary operator but the minus. Typing one over such a minus is what brings it to
the start, and no other key does. -/
theorem leadsWithOperator_iff_of_typed {line : Line}
    (typed : Typed (fun line edit => KeepsCursor line edit ∧ ¬ReplacesSign line edit) line) :
    ¬LeadsWithOperator line.text ∧
      ∀ edit, edit.Keyed → KeepsCursor line edit →
        (LeadsWithOperator (line.apply edit).1.text ↔ ReplacesSign line edit) := by
  have held := typed.invariant Line.WellStarted Line.wellStarted_empty
    fun _ _ keyed allowed held => held.apply keyed allowed
  refine ⟨held.sound, fun edit keyed keeps => ⟨fun leads => ?_, fun replaces => ?_⟩⟩
  · exact held.replacesSign_of_leadsWithOperator keyed keeps leads
  · exact held.leadsWithOperator_of_replacesSign replaces

/-- A multiplication is refused at the start, but takes the place of the minus that was typed
there. -/
theorem leadsWithOperator_iff_of_typed_minus :
    let line := (Line.empty.typeText "*-".toList).1
    let edit := Edit.operator (.binary .mul)
    Typed (fun line edit => KeepsCursor line edit ∧ ¬ReplacesSign line edit) line ∧
      ¬LeadsWithOperator line.text ∧ LeadsWithOperator (line.apply edit).1.text := by
  intro line edit
  have refused : Typed (fun line edit => KeepsCursor line edit ∧ ¬ReplacesSign line edit)
      (Line.empty.apply edit).1 := by
    have does : Edit.ofChar? '*' = some edit := rfl
    refine Typed.empty.press does ⟨⟨by decide, by decide⟩, ?_⟩
    rintro ⟨minus, _⟩
    cases minus
  have typed : Typed (fun line edit => KeepsCursor line edit ∧ ¬ReplacesSign line edit) line := by
    have does : Edit.ofChar? '-' = some (.operator (.binary .sub)) := rfl
    refine refused.press does ⟨⟨by decide, by decide⟩, ?_⟩
    rintro ⟨_, op, no_minus, same⟩
    cases same
    exact no_minus rfl
  obtain ⟨sound, replaced⟩ := leadsWithOperator_iff_of_typed typed
  have replaces : ReplacesSign line edit := ⟨by decide, .mul, by decide, rfl⟩
  exact ⟨typed, sound, (replaced edit (.operator .mul) ⟨by decide, by decide⟩).mpr replaces⟩

end DeskCalculator
