import DeskCalculator.Proofs.Editor.Commit
import DeskCalculator.Proofs.Editor.Edit
import DeskCalculator.Proofs.Editor.Keys

/-!
# Keys at the end of the text

While the cursor is not moved it stays at the end of the text. What a key makes of the text there is
one of four things: no more than a start of it, the text with further characters, an operator
behind what its collapsing leaves, or a result.
-/
namespace DeskCalculator

open Display

theorem isBinarySymbol_symbol (op : BinaryOperator) : isBinarySymbol op.symbol = true := by
  rw [isBinarySymbol, op.ofChar?_symbol]
  rfl

theorem exists_symbol_eq {c : Char} (binary : isBinarySymbol c = true) :
    ∃ op : BinaryOperator, op.symbol = c := by
  obtain ⟨op, symbol⟩ := Option.isSome_iff_exists.mp binary
  exact ⟨op, BinaryOperator.symbol_of_ofChar? symbol⟩

theorem isBinarySymbol_of_isRunChar {c : Char} (run : isRunChar c = true) :
    isBinarySymbol c = false := by
  refine Bool.eq_false_iff.mpr fun binary => ?_
  obtain ⟨op, rfl⟩ := exists_symbol_eq binary
  cases op <;> exact absurd run (by decide)

/-- The text holds no binary operator. -/
def Operatorless (text : List Char) : Prop := ∀ c ∈ text, isBinarySymbol c = false

theorem operatorless_of_all {text : List Char} (all : text.all (!isBinarySymbol ·) = true) :
    Operatorless text := by
  simpa [Operatorless] using all

/-- The cursor is not moved. -/
def KeepsCursor (_ : Line) (edit : Edit) : Prop := edit ≠ .left ∧ edit ≠ .right

/-- What stands before the cursor after an edit at the end of the text, the nearest character
first: no more than before, further characters that are no binary operators, an operator with what
stays before it, or a result. -/
inductive Becomes (before : List Char) (edit : Edit) : List Char → Prop where
  | less {kept : List Char} (suffix : kept <:+ before) : Becomes before edit kept
  | more {added : List Char} (plain : Operatorless added) : Becomes before edit (added ++ before)
  | operator {op : BinaryOperator} {kept : List Char} (typed : edit = .operator (.binary op))
      (collapse : Collapse op before kept) : Becomes before edit (op.symbol :: kept)
  | result (x : FiniteDouble) : Becomes before edit (number x).reverse

namespace Line

variable {line : Line} {edit : Edit}

theorem text_of_after_eq_nil (at_end : line.after = []) : line.text = line.before.reverse := by
  rw [text, at_end, List.append_nil]

theorem becomes_insert (at_end : line.after = []) {added : List Char}
    (plain : Operatorless added) :
    (line.insert added).after = [] ∧ Becomes line.before edit (line.insert added).before := by
  refine ⟨at_end, .more fun c member => ?_⟩
  exact plain c (List.mem_reverse.mp member)

theorem becomes_typePoint (at_end : line.after = []) :
    line.typePoint.after = [] ∧ Becomes line.before edit line.typePoint.before := by
  rcases typePoint_cases line with ⟨same, _⟩ | ⟨_, _, zero | point⟩
  · rw [same]
    exact ⟨at_end, .less (List.suffix_refl _)⟩
  · rw [zero]
    exact becomes_insert at_end (operatorless_of_all (by decide))
  · rw [point]
    exact becomes_insert at_end (operatorless_of_all (by decide))

theorem becomes_typeBinary (at_end : line.after = []) (op : BinaryOperator) :
    (line.typeBinary op).after = [] ∧
      Becomes line.before (.operator (.binary op)) (line.typeBinary op).before := by
  rcases typeBinary_collapse line op with ⟨_, _, same⟩ | ⟨kept, collapse, typed⟩
  · rw [same]
    exact ⟨at_end, .less (List.suffix_refl _)⟩
  · rw [typed]
    exact ⟨at_end, .operator rfl collapse⟩

theorem becomes_commit (at_end : line.after = []) :
    line.commit.1.after = [] ∧ Becomes line.before edit line.commit.1.before := by
  rw [commit]
  split
  · exact ⟨at_end, .less (List.suffix_refl _)⟩
  · -- a text without a value stays, and of the results only a finite one is put in
    dsimp only
    cases evaluate line.text with
    | error fault => exact ⟨at_end, .less (List.suffix_refl _)⟩
    | ok x =>
      cases x with
      | nan | infinite => exact ⟨rfl, .less (List.nil_suffix)⟩
      | finite x => exact ⟨rfl, .result x⟩

/-- A key that does not move the cursor leaves it at the end of the text. -/
theorem becomes_apply (keyed : edit.Keyed) (keeps : KeepsCursor line edit)
    (at_end : line.after = []) :
    (line.apply edit).1.after = [] ∧ Becomes line.before edit (line.apply edit).1.before := by
  cases keyed with
  | digit digit =>
    rw [apply, typeDigit, if_pos digit]
    refine becomes_insert at_end fun c member => ?_
    rw [List.mem_singleton.mp member]
    exact isBinarySymbol_of_isRunChar (isRunChar_of_isDigit digit)
  | point => exact becomes_typePoint at_end
  | inserted inserted =>
    refine becomes_insert at_end (operatorless_of_all ?_)
    rcases inserted with rfl | rfl | rfl <;> decide
  | operator op => exact becomes_typeBinary at_end op
  | backspace =>
    rw [apply, backspace]
    split
    · exact ⟨at_end, .less (List.suffix_refl _)⟩
    · next c rest shape =>
      refine ⟨at_end, .less ?_⟩
      rw [shape]
      exact List.suffix_cons c rest
  | clear => exact ⟨rfl, .less List.nil_suffix⟩
  -- the two keys that move the cursor are not allowed
  | left => exact absurd rfl keeps.1
  | right => exact absurd rfl keeps.2
  | commit => exact becomes_commit at_end

end Line

end DeskCalculator
