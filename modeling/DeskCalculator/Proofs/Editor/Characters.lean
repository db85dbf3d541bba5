import DeskCalculator.Proofs.Editor.Commit
import DeskCalculator.Proofs.Editor.Frame
import DeskCalculator.Proofs.Editor.Keys
import DeskCalculator.Proofs.Token.Written

/-!
# The characters of a line

Keys and results bring few characters into a line: those that tokens are written with, the mark of
an exponent, and the letters of an infinity that is spelt out. No other one gets in as long as
nothing is put in that no key types.
-/
namespace DeskCalculator

open Display Numeral

/-- What tokens are written with, and the letters of results. -/
def isLineChar (c : Char) : Bool := isTokenChar c || ['e', 'i', 'n', 'f'].contains c

def Plain (text : List Char) : Prop := ∀ c ∈ text, isLineChar c = true

theorem plain_nil : Plain [] := List.forall_mem_nil _

theorem isLineChar_of_isRunChar {c : Char} (run : isRunChar c = true) : isLineChar c = true := by
  rw [isLineChar, isTokenChar_of_isRunChar run, Bool.true_or]

theorem isLineChar_symbol (op : Operator) : isLineChar op.symbol = true := by
  rw [isLineChar, isTokenChar_of_ofChar? (Token.ofChar?_symbol op), Bool.true_or]

/-- A character that is none of these does not occur. -/
theorem Plain.not_mem {text : List Char} (plain : Plain text) {c : Char}
    (strange : isLineChar c = false) : c ∉ text := by
  intro member
  rw [plain c member] at strange
  cases strange

/-! ## Results -/

theorem Numeral.Writes.plain {text : List Char} {v : Rat} (writes : Writes text v) :
    Plain text := by
  obtain ⟨whole, fraction, e, digits_whole, digits_fraction, _, rfl, _⟩ := writes
  refine List.forall_mem_append.mpr ⟨fun c member => ?_, ?_⟩
  · exact isLineChar_of_isRunChar (runText_isRunChar digits_whole digits_fraction c member)
  cases e with
  | none => exact plain_nil
  | some k =>
    have digits : Plain (Decimal.digits k.natAbs) := fun c member =>
      isLineChar_of_isRunChar (isRunChar_of_isDigit (allDigits_digits _ c member))
    have mark : isLineChar 'e' = true := by decide
    have minus : isLineChar '-' = true := by decide
    rw [suffixText, Decimal.signed]
    split
    · exact List.forall_mem_cons.mpr ⟨mark, List.forall_mem_cons.mpr ⟨minus, digits⟩⟩
    · exact List.forall_mem_cons.mpr ⟨mark, digits⟩

theorem plain_number (x : FiniteDouble) : Plain (number x) := by
  obtain ⟨negative, text, shape, body⟩ := exists_number_eq x
  have plain : Plain text := by
    rcases body with ⟨v, writes⟩ | rfl
    · exact writes.plain
    · exact List.all_eq_true.mp (by decide)
  rw [shape]
  cases negative with
  | false => exact plain
  | true => exact List.forall_mem_cons.mpr ⟨by decide, plain⟩

/-! ## Edits -/

namespace Line

variable {line next : Line} {edit : Edit}

theorem Splices.plain {removed added : List Char} (splices : line.Splices removed added next)
    (old : Plain line.text) (new : Plain added) : Plain next.text := by
  obtain ⟨kept, after, text, _, next_text, _⟩ := splices
  rw [text] at old
  rw [next_text]
  obtain ⟨front, old_after⟩ := List.forall_mem_append.mp old
  have old_kept := (List.forall_mem_append.mp front).1
  exact List.forall_mem_append.mpr ⟨List.forall_mem_append.mpr ⟨old_kept, new⟩, old_after⟩

/-- A finite result takes the place of the text, any other one clears it, and a fault keeps it. -/
theorem plain_settle (plain : Plain line.text) (evaluation : Evaluation) :
    Plain (line.settle evaluation).text := by
  cases evaluation with
  | error fault => exact plain
  | ok x =>
    cases x with
    | nan | infinite => exact plain_nil
    | finite x =>
      rw [settle_finite, text_ofResult]
      exact plain_number x

theorem plain_commit (plain : Plain line.text) : Plain line.commit.1.text := by
  by_cases no_text : line.text = []
  · rw [commit, if_pos no_text]
    exact plain
  · rw [commit_of_text no_text]
    exact plain_settle plain _

/-- Nothing but what is put in as a text can bring in other characters. -/
theorem plain_apply (inserts : ∀ added, edit = .insert added → Plain added)
    (plain : Plain line.text) : Plain (line.apply edit).1.text := by
  cases edit with
  | insert added => exact (line.splices_insert added).plain plain (inserts added rfl)
  | digit c =>
    obtain ⟨added, splices, figure⟩ := line.splices_typeDigit c
    refine splices.plain plain ?_
    rcases figure with ⟨digit, rfl⟩ | ⟨_, rfl | rfl⟩ | ⟨_, rfl⟩
    · exact List.forall_mem_singleton.mpr (isLineChar_of_isRunChar (isRunChar_of_isDigit digit))
    · exact List.all_eq_true.mp (by decide)
    · exact List.all_eq_true.mp (by decide)
    · exact plain_nil
  | operator op =>
    obtain ⟨removed, added, splices, _, _, symbol⟩ := line.splices_typeOperator op
    refine splices.plain plain ?_
    rcases symbol with rfl | ⟨_, _, rfl⟩
    · exact List.forall_mem_singleton.mpr (isLineChar_symbol op)
    · exact plain_nil
  | backspace =>
    obtain ⟨removed, splices, _⟩ := line.splices_backspace
    exact splices.plain plain plain_nil
  | clear => exact plain_nil
  | moveTo position =>
    rw [apply, text_moveTo]
    exact plain
  | left =>
    rw [apply, moveLeft, text_moveTo]
    exact plain
  | right =>
    rw [apply, moveRight, text_moveTo]
    exact plain
  | commit => exact plain_commit plain

end Line

theorem Edit.Keyed.plain {edit : Edit} (keyed : edit.Keyed) (added : List Char)
    (insert : edit = .insert added) : Plain added := by
  subst insert
  cases keyed with
  | inserted inserted =>
    refine List.forall_mem_singleton.mpr ?_
    rcases inserted with rfl | rfl | rfl <;> decide

end DeskCalculator
