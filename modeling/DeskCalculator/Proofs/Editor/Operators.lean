import DeskCalculator.Proofs.Editor.AtEnd
import Mathlib.Data.List.Chain

/-!
# Operators in a row

Operators that are typed at the end of the text collapse. So two binary operators stand next to each
other only where the second is the minus of an operand and the first is another operator, and three
in a row never. The rule looks at two characters only; that it uncovers no further operator follows
from the text having been collapsed before.
-/
namespace DeskCalculator

open Display Numeral

/-! ## Texts without more than an operator and a sign in a row -/

/-- Of two binary operators next to each other the second is a minus and the first is none. -/
def Collapsed (text : List Char) : Prop :=
  text.IsChain fun c d =>
    isBinarySymbol c = true → isBinarySymbol d = true → c ≠ '-' ∧ d = '-'

theorem collapsed_nil : Collapsed [] := List.isChain_nil

theorem Operatorless.collapsed {text : List Char} (plain : Operatorless text) :
    Collapsed text := by
  induction text with
  | nil => exact collapsed_nil
  | cons c text ih =>
    refine List.isChain_cons.mpr ⟨fun d _ binary => ?_, ih fun d member => ?_⟩
    · rw [plain c List.mem_cons_self] at binary
      cases binary
    · exact plain d (List.mem_cons_of_mem c member)

theorem Collapsed.append_operatorless {text added : List Char} (collapsed : Collapsed text)
    (plain : Operatorless added) : Collapsed (text ++ added) := by
  refine collapsed.append plain.collapsed fun c _ d first _ binary => ?_
  rw [plain d (List.mem_of_mem_head? first)] at binary
  cases binary

theorem collapsed_reverse_cons_iff {c : Char} {before : List Char} :
    Collapsed (c :: before).reverse ↔ Collapsed before.reverse ∧
      ∀ d ∈ before.head?, isBinarySymbol d = true → isBinarySymbol c = true →
        d ≠ '-' ∧ c = '-' := by
  rw [Collapsed, Collapsed, List.isChain_reverse, List.isChain_reverse, List.isChain_cons, and_comm]

/-- Every run of binary operators in such a text is one operator, or an operator and a sign. -/
theorem Collapsed.run_eq {text run : List Char} (collapsed : Collapsed text)
    (inside : run <:+: text) (some_run : run ≠ [])
    (operators : ∀ c ∈ run, isBinarySymbol c = true) :
    (∃ c, run = [c]) ∨ ∃ c, c ≠ '-' ∧ run = [c, '-'] := by
  have chain := List.IsChain.infix collapsed inside
  match run, some_run with
  | [c], _ => exact .inl ⟨c, rfl⟩
  | c :: d :: rest, _ =>
    obtain ⟨first, chain⟩ := List.isChain_cons_cons.mp chain
    obtain ⟨no_minus, rfl⟩ := first (operators c (by simp)) (operators d (by simp))
    cases rest with
    | nil => exact .inr ⟨c, no_minus, rfl⟩
    | cons e rest =>
      -- a third operator would stand behind a minus
      obtain ⟨second, _⟩ := List.isChain_cons_cons.mp chain
      exact absurd rfl (second (operators '-' (by simp)) (operators e (by simp))).1

/-! ## The text of a result -/

theorem Numeral.AllDigits.operatorless {text : List Char} (digits : AllDigits text) :
    Operatorless text :=
  fun c member => isBinarySymbol_of_isRunChar (isRunChar_of_isDigit (digits c member))

/-- An operator behind a character that is none begins a run of its own. -/
theorem Collapsed.append_single {text : List Char} {last c : Char}
    (collapsed : Collapsed (text ++ [last])) (operand : isBinarySymbol last = false) :
    Collapsed (text ++ [last] ++ [c]) := by
  refine collapsed.append (List.isChain_singleton c) fun d final _ _ binary => ?_
  rw [List.getLast?_concat, Option.mem_some_iff] at final
  rw [← final, operand] at binary
  cases binary

theorem Numeral.Writes.collapsed {text sign : List Char} {v : Rat} (writes : Writes text v)
    (collapsed : Collapsed sign) : Collapsed (sign ++ text) := by
  obtain ⟨whole, fraction, e, digits_whole, digits_fraction, _, rfl, _⟩ := writes
  have run : Operatorless (runText whole fraction) := fun c member =>
    isBinarySymbol_of_isRunChar (runText_isRunChar digits_whole digits_fraction c member)
  have mantissa := collapsed.append_operatorless run
  cases e with
  | none => rwa [suffixText, List.append_nil]
  | some k =>
    have digits := (allDigits_digits k.natAbs).operatorless
    have mark : Operatorless ['e'] := operatorless_of_all (by decide)
    have marked := mantissa.append_operatorless mark
    rw [suffixText, Decimal.signed]
    split
    · -- the sign of the exponent stands between the mark and a digit
      have signed := (marked.append_single (c := '-') (by decide)).append_operatorless digits
      simpa using signed
    · simpa using marked.append_operatorless digits

theorem collapsed_number (x : FiniteDouble) : Collapsed (number x) := by
  obtain ⟨negative, text, shape, body⟩ := exists_number_eq x
  have sign : Collapsed (if negative then ['-'] else []) := by
    cases negative with
    | false => exact collapsed_nil
    | true => exact List.isChain_singleton '-'
  have signed : number x = (if negative then ['-'] else []) ++ text := by
    rw [shape]
    cases negative <;> rfl
  rw [signed]
  rcases body with ⟨v, writes⟩ | rfl
  · exact writes.collapsed sign
  · exact sign.append_operatorless (operatorless_of_all (by decide))

/-! ## Runs of operators -/

variable {before : List Char}

/-- Taking the place of one operator or two uncovers no other one in a collapsed text. -/
theorem Collapse.collapsed {op : BinaryOperator} {kept : List Char}
    (collapse : Collapse op before kept) (collapsed : Collapsed before.reverse) :
    Collapsed (op.symbol :: kept).reverse := by
  -- only the seam between the operator and what stays is new
  cases collapse with
  | first => exact List.isChain_singleton op.symbol
  | operand operand =>
    refine collapsed_reverse_cons_iff.mpr ⟨collapsed, fun d nearest binary => ?_⟩
    rw [List.head?_cons, Option.mem_some_iff] at nearest
    rw [← nearest, operand] at binary
    cases binary
  | sign sub no_minus =>
    refine collapsed_reverse_cons_iff.mpr ⟨collapsed, fun d nearest _ _ => ?_⟩
    rw [List.head?_cons, Option.mem_some_iff] at nearest
    rw [← nearest, sub]
    exact ⟨no_minus, rfl⟩
  | signed second_binary =>
    obtain ⟨rest, sign⟩ := collapsed_reverse_cons_iff.mp collapsed
    obtain ⟨kept_collapsed, seam⟩ := collapsed_reverse_cons_iff.mp rest
    refine collapsed_reverse_cons_iff.mpr ⟨kept_collapsed, fun d nearest binary => ?_⟩
    -- a further operator would make the second one a sign, which has none behind it
    have minus := (seam d nearest binary second_binary).2
    exact absurd minus (sign _ rfl second_binary (by decide)).1
  | single last_binary unsigned =>
    obtain ⟨kept_collapsed, seam⟩ := collapsed_reverse_cons_iff.mp collapsed
    refine collapsed_reverse_cons_iff.mpr ⟨kept_collapsed, fun d nearest binary => ?_⟩
    -- with a further operator before it, the last one would be a sign, which goes with that one
    have minus := (seam d nearest binary last_binary).2
    have none := unsigned minus
    rw [Option.mem_def.mp nearest, Option.any_some, binary] at none
    cases none

theorem Becomes.collapsed {edit : Edit} {next : List Char} (becomes : Becomes before edit next)
    (collapsed : Collapsed before.reverse) : Collapsed next.reverse := by
  cases becomes with
  | less suffix => exact List.IsChain.prefix collapsed (List.reverse_prefix.mpr suffix)
  | more plain =>
    rw [List.reverse_append]
    exact collapsed.append_operatorless fun c member => plain c (List.mem_reverse.mp member)
  | operator _ collapse => exact collapse.collapsed collapsed
  | result x =>
    rw [List.reverse_reverse]
    exact collapsed_number x

namespace Line

/-- The text is collapsed, and the cursor stands at its end. -/
structure CollapsedAtEnd (line : Line) : Prop where
  at_end : line.after = []
  collapsed : Collapsed line.text

theorem collapsedAtEnd_empty : empty.CollapsedAtEnd := ⟨rfl, collapsed_nil⟩

theorem CollapsedAtEnd.apply {line : Line} {edit : Edit} (held : line.CollapsedAtEnd)
    (keyed : edit.Keyed) (keeps : KeepsCursor line edit) :
    (line.apply edit).1.CollapsedAtEnd := by
  obtain ⟨ends, becomes⟩ := becomes_apply keyed keeps held.at_end
  have collapsed := held.collapsed
  rw [text_of_after_eq_nil held.at_end] at collapsed
  refine ⟨ends, ?_⟩
  rw [text_of_after_eq_nil ends]
  exact becomes.collapsed collapsed

end Line

/-- As long as the cursor is not moved, binary operators in a row, as many as there are or some of
them, are one operator or an operator and the minus of its operand. -/
theorem operators_of_typed {line : Line} (typed : Typed KeepsCursor line) {run : List Char}
    (inside : run <:+: line.text) (some_run : run ≠ [])
    (operators : ∀ c ∈ run, isBinarySymbol c = true) :
    (∃ c, run = [c]) ∨ ∃ c, c ≠ '-' ∧ run = [c, '-'] := by
  have held := typed.invariant Line.CollapsedAtEnd Line.collapsedAtEnd_empty
    fun _ _ keyed keeps held => held.apply keyed keeps
  exact held.collapsed.run_eq inside some_run operators

/-- The exponent of a result keeps its minus, and the operators typed behind it collapse. -/
theorem operators_of_typed_behind_exponent :
    let line := (Line.empty.typeText "5/10000000=-+-".toList).1
    let run := "+-".toList
    Typed KeepsCursor line ∧ line.text = "5e-7+-".toList ∧ run <:+: line.text ∧
      ((∃ c, run = [c]) ∨ ∃ c, c ≠ '-' ∧ run = [c, '-']) := by
  intro line run
  have typed : Typed KeepsCursor line := by
    refine Typed.empty.typeText fun edit member _ => ⟨?_, ?_⟩
    · rintro rfl
      exact absurd member (by decide +kernel)
    · rintro rfl
      exact absurd member (by decide +kernel)
  have text : line.text = "5e-7+-".toList := by decide +kernel
  have inside : run <:+: line.text := by
    rw [text]
    exact ⟨"5e-7".toList, [], by decide⟩
  have operators : ∀ c ∈ run, isBinarySymbol c = true := List.all_eq_true.mp (by decide)
  exact ⟨typed, text, inside, operators_of_typed typed inside (by decide) operators⟩

end DeskCalculator
