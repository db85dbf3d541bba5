import DeskCalculator.Evaluation.Preview
import DeskCalculator.Proofs.Token.Written
import Mathlib.Data.List.TakeWhile

/-!
# Scanning what dangles

The characters that the preview sets aside are apart from every literal. So the tokens of a text are
those of the trimmed text, with the tokens of what was set aside before and behind them.
-/
namespace DeskCalculator

/-! ## Dangling characters -/

theorem danglesAtEnd_iff (c : Char) : danglesAtEnd c = true ↔
    danglesAtStart c = true ∨ c = '-' ∨ c = '√' ∨ c = '(' := by
  simp [danglesAtEnd, or_assoc]

/-- No character that may be set aside belongs to a literal. -/
theorem not_isRunChar_of_danglesAtEnd {c : Char} (dangles : danglesAtEnd c = true) :
    isRunChar c = false ∧ Numeral.isExponentMark c = false := by
  refine ⟨Bool.eq_false_iff.mpr fun run => ?_, Bool.eq_false_iff.mpr fun mark => ?_⟩
  · -- a digit or a point is no blank, nor any of the other characters
    have blank := not_isBlank_of_isRunChar run
    simp only [danglesAtEnd, danglesAtStart, blank, Bool.false_or, Bool.or_eq_true,
      beq_iff_eq] at dangles
    rcases dangles with ((((((rfl | rfl) | rfl) | rfl) | rfl) | rfl) | rfl) <;>
      exact absurd run (by decide)
  · rcases (isExponentMark_iff c).mp mark with rfl | rfl <;> exact absurd dangles (by decide)

theorem apart_of_danglesAtEnd {text : List Char} (dangles : ∀ c ∈ text, danglesAtEnd c = true) :
    Apart text :=
  fun c member => not_isRunChar_of_danglesAtEnd (dangles c member)

theorem Token.ofChar?_eq (c : Char) : Token.ofChar? c =
    if c = '(' then some .opening else if c = ')' then some .closing
    else (Operator.ofChar? c).map .operator := rfl

/-- The tokens that may be set aside are operators and openings. -/
theorem ofChar?_of_danglesAtEnd {c : Char} (dangles : danglesAtEnd c = true) {token : Token}
    (single : Token.ofChar? c = some token) :
    c = '(' ∧ token = .opening ∨ ∃ op, Operator.ofChar? c = some op ∧ token = .operator op := by
  rw [Token.ofChar?_eq] at single
  split at single
  · next opening =>
    cases single
    exact .inl ⟨opening, rfl⟩
  · split at single
    · next closing =>
      subst closing
      exact absurd dangles (by decide)
    · obtain ⟨op, symbol, rfl⟩ := Option.map_eq_some_iff.mp single
      exact .inr ⟨op, symbol, rfl⟩

/-! ## The two ends of a text -/

def leading (text : List Char) : List Char := text.takeWhile danglesAtStart

def trailing (text : List Char) : List Char :=
  ((text.dropWhile danglesAtStart).reverse.takeWhile danglesAtEnd).reverse

theorem trimDangling_append_trailing (text : List Char) :
    trimDangling text ++ trailing text = text.dropWhile danglesAtStart := by
  rw [trimDangling, trailing, ← List.reverse_append, List.takeWhile_append_dropWhile,
    List.reverse_reverse]

theorem leading_append_trimDangling_append_trailing (text : List Char) :
    leading text ++ (trimDangling text ++ trailing text) = text := by
  rw [trimDangling_append_trailing, leading, List.takeWhile_append_dropWhile]

theorem danglesAtStart_of_mem_leading {text : List Char} {c : Char} (member : c ∈ leading text) :
    danglesAtStart c = true :=
  List.mem_takeWhile_imp member

theorem danglesAtEnd_of_mem_trailing {text : List Char} {c : Char} (member : c ∈ trailing text) :
    danglesAtEnd c = true :=
  List.mem_takeWhile_imp (List.mem_reverse.mp member)

/-- The preview is the text of an evaluation, or it is empty because that has failed. -/
theorem preview_eq (text : List Char) :
    preview text = match evaluate (trimDangling text) with
      | .ok value => value.display
      | .error _ => [] := by
  rw [preview]
  split
  · next no_text =>
    rw [no_text]
    decide
  · rfl

/-! ## Scanning -/

/-- What may be set aside at the start adds its own tokens to those of the text behind it. -/
theorem scanFrom_leading {lead : List Char} (dangles : ∀ c ∈ lead, danglesAtStart c = true)
    (text : List Char) :
    scanFrom true (lead ++ text) = (scanFrom true text).map (singles lead ++ ·) := by
  induction lead with
  | nil =>
    rw [List.nil_append]
    cases scanFrom true text <;> rfl
  | cons c lead ih =>
    have dangling := dangles c List.mem_cons_self
    -- the character is none of a literal and no sign, so it stands for itself
    have at_end := (danglesAtEnd_iff c).mpr (.inl dangling)
    have run := (not_isRunChar_of_danglesAtEnd at_end).1
    have no_sign : c ≠ '-' := by
      rintro rfl
      exact absurd dangling (by decide)
    have rest := ih fun d member => dangles d (List.mem_cons_of_mem c member)
    rw [List.cons_append, scanFrom, if_neg (by simp [run]), if_neg (by simp [no_sign]), singles,
      List.filterMap_cons]
    cases single : Token.ofChar? c with
    | none => exact rest
    | some token =>
      -- behind the token an operand is still expected, as at the start
      have expects : token.expectsOperand = true := by
        rcases ofChar?_of_danglesAtEnd at_end single with ⟨_, rfl⟩ | ⟨op, _, rfl⟩ <;> rfl
      dsimp only
      rw [expects, rest, singles]
      cases scanFrom true text <;> rfl

/-- The tokens of a text are those of the trimmed text between those of what was set aside. -/
theorem scan_eq_map_scan_trimDangling (text : List Char) :
    scan text = (scan (trimDangling text)).map
      fun tokens => singles (leading text) ++ (tokens ++ singles (trailing text)) := by
  have apart : Apart (trailing text) :=
    apart_of_danglesAtEnd fun _ member => danglesAtEnd_of_mem_trailing member
  have front : ∀ c ∈ leading text, danglesAtStart c = true :=
    fun _ member => danglesAtStart_of_mem_leading member
  have split := scanFrom_leading front (trimDangling text ++ trailing text)
  rw [leading_append_trimDangling_append_trailing, scanFrom_append_apart true _ apart] at split
  rw [scan, split, scan]
  cases scanFrom true (trimDangling text) <;> rfl

end DeskCalculator
