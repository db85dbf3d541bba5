import DeskCalculator.Proofs.Session.Answers

/-!
# The cursor in the expression line

A session shows the expression with a bar at the cursor, unless the cursor is at the end. No key and
no result brings a bar into the text. So the text and the cursor can be read off the expression line
as it is shown.
-/
namespace DeskCalculator

/-! ## The bar -/

namespace Line

variable {line : Line}

theorem cursor_lt_length_iff : line.cursor < line.length ↔ line.after ≠ [] := by
  rw [cursor, length, Nat.lt_add_right_iff_pos, List.length_pos_iff]

theorem marked_of_at_end (some_text : line.text ≠ []) (at_end : line.after = []) :
    line.marked = line.text := by
  rw [marked, if_pos at_end, expression, if_neg some_text]

theorem marked_of_inside (inside : line.after ≠ []) :
    line.marked = line.before.reverse ++ '|' :: line.after := by
  rw [marked, if_neg inside]

theorem mem_marked_iff (no_bar : '|' ∉ line.text) (some_text : line.text ≠ []) :
    '|' ∈ line.marked ↔ line.cursor < line.length := by
  rw [cursor_lt_length_iff]
  by_cases at_end : line.after = []
  · rw [marked_of_at_end some_text at_end]
    exact iff_of_false no_bar (not_not_intro at_end)
  · rw [marked_of_inside at_end]
    exact iff_of_true (by simp) at_end

theorem not_mem_before (no_bar : '|' ∉ line.text) : '|' ∉ line.before.reverse :=
  fun member => no_bar (List.mem_append_left line.after member)

/-- Without the bar the expression line is the text. -/
theorem erase_marked (no_bar : '|' ∉ line.text) (some_text : line.text ≠ []) :
    line.marked.erase '|' = line.text := by
  by_cases at_end : line.after = []
  · rw [marked_of_at_end some_text at_end, List.erase_of_not_mem no_bar]
  · rw [marked_of_inside at_end, List.erase_append_right _ (not_mem_before no_bar),
      List.erase_cons_head, text]

theorem count_marked (no_bar : '|' ∉ line.text) (some_text : line.text ≠ []) :
    line.marked.count '|' ≤ 1 := by
  have without : (line.marked.erase '|').count '|' = 0 := by
    rw [erase_marked no_bar some_text, List.count_eq_zero_of_not_mem no_bar]
  rw [List.count_erase_self] at without
  omega

/-- As many characters stand before the bar as before the cursor; all of them where there is no
bar. -/
theorem idxOf_marked (no_bar : '|' ∉ line.text) (some_text : line.text ≠ []) :
    line.marked.idxOf '|' = line.cursor := by
  by_cases at_end : line.after = []
  · rw [marked_of_at_end some_text at_end, List.idxOf_of_notMem no_bar, length_text, length,
      at_end, List.length_nil, Nat.add_zero, cursor]
  · rw [marked_of_inside at_end, List.idxOf_append_of_notMem (not_mem_before no_bar),
      List.idxOf_cons_self, List.length_reverse, Nat.add_zero, cursor]

end Line

/-! ## Sessions -/

namespace Session

/-- The lines that sessions come to. -/
def Reached (line : Line) : Prop :=
  ∃ settings interactive inputs clipboard,
    line = (transcript settings interactive inputs clipboard).line

theorem Reached.no_bar {line : Line} (reached : Reached line) : '|' ∉ line.text := by
  obtain ⟨settings, interactive, inputs, clipboard, rfl⟩ := reached
  exact (plain_transcript clipboard settings interactive inputs).not_mem (by decide)

theorem head?_lines_respond {line shown : Line} {request : Request} {committed : Bool}
    (view : (line.respond request).2 = .view shown committed) (clipboard : Clipboard)
    (showPreview : Bool) :
    ((line.respond request).2.lines clipboard showPreview).head? =
      some (line.respond request).1.marked := by
  rw [← (Line.eq_of_reply_eq_view view).1, view]
  rfl

/-- Where a session shows its line, the first line of the answer is that line marked. In a session
the marked line of a text that is not empty has a bar exactly if the cursor is before the end, and
never more than one; it is the text without the bar, and the bar stands at the cursor. So it tells
the text and the cursor. -/
theorem marked_identifies {line : Line} (reached : Reached line) (some_text : line.text ≠ []) :
    (∀ (request : Request) (shown : Line) (clipboard : Clipboard) (committed showPreview : Bool),
      (line.respond request).2 = .view shown committed →
        ((line.respond request).2.lines clipboard showPreview).head? =
          some (line.respond request).1.marked) ∧
    ('|' ∈ line.marked ↔ line.cursor < line.length) ∧ line.marked.count '|' ≤ 1 ∧
    line.marked.erase '|' = line.text ∧
    ('|' ∈ line.marked → line.marked.idxOf '|' = line.cursor) ∧
    ∀ other, Reached other → other.text ≠ [] → other.marked = line.marked →
      other.text = line.text ∧ other.cursor = line.cursor := by
  have no_bar := reached.no_bar
  have erased := Line.erase_marked no_bar some_text
  have position := Line.idxOf_marked no_bar some_text
  refine ⟨fun request shown clipboard committed showPreview view =>
      head?_lines_respond view clipboard showPreview,
    Line.mem_marked_iff no_bar some_text, Line.count_marked no_bar some_text, erased,
    fun _ => position, fun other other_reached other_text same => ⟨?_, ?_⟩⟩
  · rw [← Line.erase_marked other_reached.no_bar other_text, same, erased]
  · rw [← Line.idxOf_marked other_reached.no_bar other_text, same, position]

/-- A cursor that is moved between two digits, and one that is left there by typing the first of
them last. -/
theorem marked_identifies_between_digits :
    let line := (transcript .standard false [some "19".toList, some ":cursor 1".toList]).line
    let other := (transcript .standard true [some "9<1".toList]).line
    Reached line ∧ line.text ≠ [] ∧ line.marked = "1|9".toList ∧ line.cursor < line.length ∧
      line.marked.erase '|' = line.text ∧ line.marked.idxOf '|' = line.cursor ∧
      other.text = line.text ∧ other.cursor = line.cursor := by
  intro line other
  have reached : Reached line := ⟨_, _, _, .unreachable, rfl⟩
  have other_reached : Reached other := ⟨_, _, _, .unreachable, rfl⟩
  have some_text : line.text ≠ [] := by decide +kernel
  have other_text : other.text ≠ [] := by decide +kernel
  have marked : line.marked = "1|9".toList := by decide +kernel
  have same : other.marked = line.marked := by decide +kernel
  have bar : '|' ∈ line.marked := by
    rw [marked]
    decide
  obtain ⟨_, inside, _, erased, position, tells⟩ := marked_identifies reached some_text
  exact ⟨reached, some_text, marked, inside.mp bar, erased, position bar,
    tells other other_reached other_text same⟩

end Session

end DeskCalculator
