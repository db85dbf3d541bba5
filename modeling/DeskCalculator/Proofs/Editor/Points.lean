import DeskCalculator.Proofs.Editor.Commit
import DeskCalculator.Proofs.Editor.Edit
import DeskCalculator.Proofs.Editor.Keys
import DeskCalculator.Proofs.Token.Points
import DeskCalculator.Proofs.Trimming

/-!
# Points that can be typed

No number that is typed gets a second point, wherever the cursor stands: a point is refused beside
another one in the same number, a digit joins no numbers, every other key parts them, and the text
of a result holds one point at most. Only removing what stands between two numbers could join them,
so a line on which characters are removed at the end only can always be scanned.
-/
namespace DeskCalculator

open Numeral

/-! ## Shown results -/

theorem count_point_suffixText (e : Option Int) : (suffixText e).count '.' = 0 := by
  cases e with
  | none => rfl
  | some k =>
    have digits := (allDigits_digits k.natAbs).count_point
    rw [suffixText, Decimal.signed]
    split <;> simp [digits]

theorem Numeral.Writes.count_point_le {text : List Char} {v : Rat} (writes : Writes text v) :
    text.count '.' ≤ 1 := by
  obtain ⟨whole, fraction, e, digits_whole, digits_fraction, _, rfl, _⟩ := writes
  rw [List.count_append, count_point_suffixText]
  exact runText_count_point digits_whole digits_fraction

namespace Display

theorem count_point_number (x : FiniteDouble) : (number x).count '.' ≤ 1 := by
  obtain ⟨negative, text, shape, body⟩ := exists_number_eq x
  have points : text.count '.' ≤ 1 := by
    rcases body with ⟨v, writes⟩ | rfl
    · exact writes.count_point_le
    · decide
  rw [shape]
  cases negative with
  | false => exact points
  | true => simpa [List.count_cons] using points

end Display

/-! ## The number at the cursor -/

theorem isBoundary_eq (c : Char) : isBoundary c = ((Token.ofChar? c).isSome || isBlank c) := by
  rw [isBoundary, Token.ofChar?_eq]
  by_cases opening : c = '('
  · simp [opening]
  · by_cases closing : c = ')'
    · simp [closing]
    · simp [opening, closing, beq_false_of_ne]

/-- A digit or a point ends no number. -/
theorem endsNumber_of_isRunChar {c : Char} (run : isRunChar c = true) (previous : Option Char) :
    endsNumber previous c = false := by
  have no_token : Token.ofChar? c = none := by
    cases single : Token.ofChar? c with
    | none => rfl
    | some token =>
      rw [(not_isRunChar_of_ofChar? single).1] at run
      cases run
  have blank : isBlank c = false := by
    rcases Bool.or_eq_true_iff.mp run with digit | point
    · exact not_isBlank_of_isDigit digit
    · rw [eq_of_beq point]
      decide
  rw [endsNumber, isBoundary_eq, no_token, blank]
  rfl

theorem takeWhile_isPrefix_numberBefore (before : List Char) :
    before.takeWhile isRunChar <+: numberBefore before := by
  induction before with
  | nil => exact List.nil_prefix
  | cons c before ih =>
    cases run : isRunChar c with
    | false => simp [run]
    | true =>
      rw [List.takeWhile_cons_of_pos run, numberBefore, endsNumber_of_isRunChar run]
      exact (List.prefix_cons_inj c).mpr ih

theorem takeWhile_isPrefix_numberAfter (previous : Option Char) (after : List Char) :
    after.takeWhile isRunChar <+: numberAfter previous after := by
  induction after generalizing previous with
  | nil => exact List.nil_prefix
  | cons c after ih =>
    cases run : isRunChar c with
    | false => simp [run]
    | true =>
      rw [List.takeWhile_cons_of_pos run, numberAfter, endsNumber_of_isRunChar run]
      exact (List.prefix_cons_inj c).mpr (ih (some c))

/-- Where nothing in a number bars a point, the run of digits inside it has none. -/
theorem pointsAtStart_eq_zero {text number : List Char}
    (inside : text.takeWhile isRunChar <+: number) (unbarred : number.any barsPoint = false) :
    pointsAtStart text = 0 := by
  refine List.count_eq_zero.mpr fun point => ?_
  have member := inside.subset point
  have barred : number.any barsPoint = true := List.any_eq_true.mpr ⟨'.', member, rfl⟩
  rw [unbarred] at barred
  cases barred

/-! ## Edits -/

namespace Line

variable {line : Line}

theorem singlePointed_text_iff : SinglePointed line.text ↔
    SinglePointed line.before ∧ SinglePointed line.after ∧
      pointsAtStart line.before + pointsAtStart line.after ≤ 1 :=
  singlePointed_reverse_append_iff

/-- A character outside numbers may stand anywhere, and in place of characters before it. -/
theorem singlePointed_put {c : Char} (stop : isRunChar c = false) {kept : List Char}
    (suffix : kept <:+ line.before) (single : SinglePointed line.text) :
    SinglePointed (Line.mk (c :: kept) line.after none).text := by
  obtain ⟨before, after, _⟩ := singlePointed_text_iff.mp single
  refine singlePointed_text_iff.mpr ⟨?_, after, ?_⟩
  · exact (singlePointed_cons_of_stop stop).mpr (before.of_isSuffix suffix)
  · rw [pointsAtStart_cons_of_stop stop, Nat.zero_add]
    exact after.pointsAtStart_le

/-- A digit leaves the points of the number it is put in as they are. -/
theorem pointsAtStart_cons_digit {c : Char} (digit : c.isDigit = true) (rest : List Char) :
    pointsAtStart (c :: rest) = pointsAtStart rest := by
  have no_point : [c].count '.' = 0 := by
    refine List.count_eq_zero.mpr fun member => ?_
    rw [← List.mem_singleton.mp member] at digit
    exact absurd digit (by decide)
  rw [pointsAtStart_cons_of_run (isRunChar_of_isDigit digit), no_point, Nat.zero_add]

theorem singlePointed_cons_digit {c : Char} (digit : c.isDigit = true) {rest : List Char}
    (single : SinglePointed rest) : SinglePointed (c :: rest) := by
  refine singlePointed_cons_iff.mpr ⟨?_, single⟩
  rw [pointsAtStart_cons_digit digit]
  exact single.pointsAtStart_le

theorem singlePointed_insert_digit {c : Char} (digit : c.isDigit = true)
    (single : SinglePointed line.text) : SinglePointed (line.insert [c]).text := by
  obtain ⟨before, after, seam⟩ := singlePointed_text_iff.mp single
  have pieces : SinglePointed (Line.mk (c :: line.before) line.after none).text := by
    refine singlePointed_text_iff.mpr ⟨singlePointed_cons_digit digit before, after, ?_⟩
    rwa [pointsAtStart_cons_digit digit]
  exact pieces

/-- Between runs without a point there is room for one. -/
theorem singlePointed_point {front back : List Char} (before : SinglePointed front)
    (after : SinglePointed back) (no_head : pointsAtStart front = 0)
    (no_tail : pointsAtStart back = 0) :
    SinglePointed (Line.mk ('.' :: front) back none).text := by
  have point : pointsAtStart ('.' :: front) = 1 := by
    rw [pointsAtStart_cons_of_run rfl, no_head]
    rfl
  refine singlePointed_text_iff.mpr ⟨singlePointed_cons_iff.mpr ⟨?_, before⟩, after, ?_⟩
  · exact point.le
  · rw [point, no_tail]

theorem singlePointed_typePoint (single : SinglePointed line.text) :
    SinglePointed line.typePoint.text := by
  obtain ⟨before, after, _⟩ := singlePointed_text_iff.mp single
  rcases typePoint_cases line with ⟨same, _⟩ | ⟨no_bar_before, no_bar_after, typed⟩
  · rw [same]
    exact single
  · -- the digits on both sides of the cursor belong to the number that was looked at
    have no_head : pointsAtStart line.before = 0 :=
      pointsAtStart_eq_zero (takeWhile_isPrefix_numberBefore _) no_bar_before
    have no_tail : pointsAtStart line.after = 0 :=
      pointsAtStart_eq_zero (takeWhile_isPrefix_numberAfter _ _) no_bar_after
    rcases typed with zero | point
    · have no_point : pointsAtStart ('0' :: line.before) = 0 := by
        rw [pointsAtStart_cons_digit rfl, no_head]
      rw [zero]
      exact singlePointed_point (singlePointed_cons_digit rfl before) after no_point no_tail
    · rw [point]
      exact singlePointed_point before after no_head no_tail

theorem singlePointed_typeBinary (op : BinaryOperator) (single : SinglePointed line.text) :
    SinglePointed (line.typeBinary op).text := by
  have stop : isRunChar op.symbol = false :=
    (not_isRunChar_of_ofChar? (Token.ofChar?_symbol (.binary op))).1
  rcases typeBinary_cases line op with same | ⟨count, _, _, replaced⟩
  · rw [same]
    exact single
  · rw [replaced]
    exact singlePointed_put stop (List.drop_suffix count line.before) single

theorem singlePointed_commit (single : SinglePointed line.text) :
    SinglePointed line.commit.1.text := by
  rw [commit]
  split
  · exact single
  · dsimp only
    cases evaluate line.text with
    | error fault => exact single
    | ok x =>
      cases x with
      | nan | infinite => exact singlePointed_nil
      | finite x =>
        rw [settle_finite, text_ofResult]
        exact singlePointed_of_count_le (Display.count_point_number x)

theorem singlePointed_backspace (at_end : line.cursor = line.length)
    (single : SinglePointed line.text) : SinglePointed line.backspace.text := by
  have nothing_after : line.after = [] := List.eq_nil_of_length_eq_zero (Nat.left_eq_add.mp at_end)
  obtain ⟨before, after, _⟩ := singlePointed_text_iff.mp single
  unfold backspace
  split
  · exact single
  · next c rest shape =>
    rw [shape] at before
    have kept := before.of_isSuffix (List.suffix_cons c rest)
    refine singlePointed_text_iff.mpr ⟨kept, after, ?_⟩
    rw [nothing_after, pointsAtStart_nil, Nat.add_zero]
    exact kept.pointsAtStart_le

end Line

/-- Characters are removed at the end of the text only. -/
def RemovesAtEnd (line : Line) (edit : Edit) : Prop :=
  edit = .backspace → line.cursor = line.length

namespace Line

variable {line : Line}

/-- No key brings a second point into a run of digits, unless it removes a character inside the
text. -/
theorem singlePointed_apply {edit : Edit} (keyed : edit.Keyed) (at_end : RemovesAtEnd line edit)
    (single : SinglePointed line.text) :
    SinglePointed (line.apply edit).1.text := by
  cases keyed with
  | digit digit =>
    rw [apply, typeDigit, if_pos digit]
    exact singlePointed_insert_digit digit single
  | point => exact singlePointed_typePoint single
  | inserted inserted =>
    refine singlePointed_put ?_ (List.suffix_refl line.before) single
    rcases inserted with rfl | rfl | rfl <;> decide
  | operator op => exact singlePointed_typeBinary op single
  | clear => exact singlePointed_nil
  | left | right =>
    rw [apply]
    exact (text_moveTo line _).symm ▸ single
  | commit => exact singlePointed_commit single
  | backspace => exact singlePointed_backspace (at_end rfl) single

end Line

/-- As long as characters are removed at the end of the text only, what is typed can be scanned
after every key. -/
theorem exists_scan_of_typed {line : Line} (typed : Typed RemovesAtEnd line) :
    ∃ tokens, scan line.text = .ok tokens := by
  have single : SinglePointed line.text :=
    typed.invariant (fun line => SinglePointed line.text) singlePointed_nil
      fun _ _ keyed at_end single => Line.singlePointed_apply keyed at_end single
  exact exists_scanFrom true single

/-- A point is refused in a number that has one, and gets a zero where it starts a number. -/
theorem exists_scan_of_typed_product :
    let line := (Line.empty.typeText "1.5*.<<<.>>>4=.^-.5".toList).1
    Typed RemovesAtEnd line ∧ line.text = "0.6^-0.5".toList ∧
      ∃ tokens, scan line.text = .ok tokens := by
  intro line
  have typed : Typed RemovesAtEnd line := by
    refine Typed.empty.typeText fun edit member line removes => ?_
    subst removes
    exact absurd member (by decide +kernel)
  exact ⟨typed, by decide +kernel, exists_scan_of_typed typed⟩

/-- A key that removes an operator between two numbers joins their points. -/
example : scan (Line.empty.typeText "1.5+.5<<<b".toList).1.text =
    .error (.malformedNumber "1.50.".toList) := by
  decide +kernel

end DeskCalculator
