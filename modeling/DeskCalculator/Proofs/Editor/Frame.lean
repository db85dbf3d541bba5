import DeskCalculator.Proofs.Editor.Edit

/-!
# What an edit leaves alone

The edits at the cursor change the text before it at its end only: they may take some characters
away, put others in their place and leave the cursor behind these. The text after the cursor stays
as it is, on any line that edits lead to.
-/
namespace DeskCalculator

namespace Line

variable {line next : Line}

/-- The next line has other characters in place of some at the end of the text before the cursor,
and the cursor right behind them; what follows the cursor is the same. -/
def Splices (line : Line) (removed added : List Char) (next : Line) : Prop :=
  ∃ kept after, line.text = kept ++ removed ++ after ∧ line.cursor = (kept ++ removed).length ∧
    next.text = kept ++ added ++ after ∧ next.cursor = (kept ++ added).length

theorem splices_of_before {kept removed added : List Char}
    (before : line.before = removed.reverse ++ kept)
    (next_before : next.before = added.reverse ++ kept) (same_after : next.after = line.after) :
    line.Splices removed added next :=
  ⟨kept.reverse, line.after, by simp [text, before], by simp [cursor, before, Nat.add_comm],
    by simp [text, next_before, same_after], by simp [cursor, next_before, Nat.add_comm]⟩

theorem splices_self (line : Line) : line.Splices [] [] line := splices_of_before rfl rfl rfl

theorem splices_insert (line : Line) (added : List Char) :
    line.Splices [] added (line.insert added) :=
  splices_of_before rfl rfl rfl

/-- A digit is put in as it is, and a point with a zero before it or without. Where nothing is put
in, the figure is refused. -/
theorem splices_typeDigit (line : Line) (c : Char) :
    ∃ added, line.Splices [] added (line.typeDigit c) ∧
      (c.isDigit = true ∧ added = [c] ∨ c = '.' ∧ (added = ['.'] ∨ added = ['0', '.']) ∨
        line.Refuses (.digit c) ∧ added = []) := by
  rw [typeDigit]
  split
  · next digit => exact ⟨[c], line.splices_insert [c], .inl ⟨digit, rfl⟩⟩
  · next no_digit =>
    split
    · next point =>
      subst point
      rcases typePoint_cases line with ⟨same, _, inside, bars⟩ | ⟨_, _, zero | alone⟩
      · rw [same]
        exact ⟨[], line.splices_self, .inr (.inr ⟨.point inside bars, rfl⟩)⟩
      · rw [zero]
        exact ⟨['0', '.'], line.splices_insert _, .inr (.inl ⟨rfl, .inr rfl⟩)⟩
      · rw [alone]
        exact ⟨['.'], line.splices_insert _, .inr (.inl ⟨rfl, .inl rfl⟩)⟩
    · next no_point =>
      exact ⟨[], line.splices_self, .inr (.inr ⟨.figure (by simpa using no_digit) no_point, rfl⟩)⟩

/-- An operator takes the place of at most two binary operators, unless it is refused. -/
theorem splices_typeOperator (line : Line) (op : Operator) :
    ∃ removed added, line.Splices removed added (line.typeOperator op) ∧ removed.length ≤ 2 ∧
      removed.all isBinarySymbol = true ∧
      (added = [op.symbol] ∨ line.Refuses (.operator op) ∧ removed = [] ∧ added = []) := by
  cases op with
  | root => exact ⟨[], _, line.splices_insert _, by decide, rfl, .inl rfl⟩
  | binary op =>
    rw [typeOperator]
    rcases typeBinary_collapse line op with ⟨start, no_sign, same⟩ | ⟨kept, collapse, typed⟩
    · rw [same]
      exact ⟨[], [], line.splices_self, by decide, rfl, .inr ⟨.operator start no_sign, rfl, rfl⟩⟩
    · obtain ⟨removed, before, few, binary⟩ := collapse.exists_removed
      rw [typed]
      refine ⟨removed.reverse, [op.symbol], splices_of_before ?_ rfl rfl, ?_, ?_, .inl rfl⟩
      · rw [List.reverse_reverse, before]
      · rwa [List.length_reverse]
      · rwa [List.all_reverse]

theorem before_backspace (line : Line) : line.backspace.before = line.before.tail := by
  rw [backspace]
  split <;> simp [*]

theorem after_backspace (line : Line) : line.backspace.after = line.after := by
  rw [backspace]
  split <;> rfl

/-- One character is removed, if there is one before the cursor. -/
theorem splices_backspace (line : Line) :
    ∃ removed, line.Splices removed [] line.backspace ∧ removed.length = min 1 line.cursor := by
  have before := line.before_backspace
  cases start : line.before with
  | nil =>
    rw [start] at before
    exact ⟨[], splices_of_before start before line.after_backspace, by simp [cursor, start]⟩
  | cons c rest =>
    rw [start] at before
    exact ⟨[c], splices_of_before start before line.after_backspace, by simp [cursor, start]⟩

/-- As many removals as there are characters take a text away from before the cursor. -/
theorem applyAll_backspaces (line : Line) (count : Nat) :
    (line.applyAll (List.replicate count .backspace)).1.before = line.before.drop count ∧
      (line.applyAll (List.replicate count .backspace)).1.after = line.after := by
  induction count generalizing line with
  | zero => exact ⟨rfl, rfl⟩
  | succ count ih =>
    obtain ⟨before, after⟩ := ih line.backspace
    rw [List.replicate_succ, applyAll_cons, apply]
    refine ⟨before.trans ?_, after.trans line.after_backspace⟩
    rw [before_backspace, List.drop_tail, Nat.add_comm]

/-- As many removals as a text has characters undo its insertion. -/
theorem applyAll_backspaces_insert (line : Line) (added : List Char) :
    let undone := ((line.insert added).applyAll (.replicate added.length .backspace)).1
    undone.text = line.text ∧ undone.cursor = line.cursor := by
  obtain ⟨before, after⟩ := applyAll_backspaces (line.insert added) added.length
  have kept : (line.insert added).before.drop added.length = line.before := by
    rw [insert, ← List.length_reverse, List.drop_left]
  rw [kept] at before
  exact ⟨by rw [text, before, after]; rfl, by rw [cursor, before]; rfl⟩

/-- On every line that edits lead to, the cursor is within the text, and an edit at the cursor
changes nothing but the end of the text before it: a text is put in; a figure is put in as a digit
or a point, with a zero before it where it starts a number, or it is refused; an operator takes the
place of at most two binary operators, or it is refused; one character is removed, if there is one.
As many removals as a text has characters undo its insertion. -/
theorem splices_of_applyAll (start : List Char) (edits : List Edit) :
    let line := ((ofText start).applyAll edits).1
    line.cursor ≤ line.text.length ∧
      (∀ added, line.Splices [] added (line.insert added)) ∧
      (∀ c, ∃ added, line.Splices [] added (line.typeDigit c) ∧
        (c.isDigit = true ∧ added = [c] ∨ c = '.' ∧ (added = ['.'] ∨ added = ['0', '.']) ∨
          line.Refuses (.digit c) ∧ added = [])) ∧
      (∀ op, ∃ removed added, line.Splices removed added (line.typeOperator op) ∧
        removed.length ≤ 2 ∧ removed.all isBinarySymbol = true ∧
        (added = [op.symbol] ∨ line.Refuses (.operator op) ∧ removed = [] ∧ added = [])) ∧
      (∃ removed, line.Splices removed [] line.backspace ∧ removed.length = min 1 line.cursor) ∧
      ∀ added, let undone := ((line.insert added).applyAll (.replicate added.length .backspace)).1
        undone.text = line.text ∧ undone.cursor = line.cursor := by
  intro line
  refine ⟨?_, line.splices_insert, line.splices_typeDigit, line.splices_typeOperator,
    line.splices_backspace, line.applyAll_backspaces_insert⟩
  rw [length_text]
  exact line.cursor_le_length

end Line

end DeskCalculator
