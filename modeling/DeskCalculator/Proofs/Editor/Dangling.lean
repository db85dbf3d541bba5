import DeskCalculator.Proofs.Editor.AtEnd
import DeskCalculator.Proofs.Trimming

/-!
# Typing what dangles

What dangles around a text does not change its preview, however much of it there is. An operator
that is typed at the end of a line, and an opening parenthesis too, dangles there until something
follows, and so do the operators that it takes the place of. So typing it leaves the preview as it
is.
-/
namespace DeskCalculator

variable {lead text tail : List Char}

/-- What dangles before a text and behind it is set aside with what dangles at its own ends. -/
theorem trimDangling_surround (before : ∀ c ∈ lead, danglesAtStart c = true)
    (behind : ∀ c ∈ tail, danglesAtEnd c = true) :
    trimDangling (lead ++ (text ++ tail)) = trimDangling text := by
  have backward : ∀ c ∈ tail.reverse, danglesAtEnd c = true :=
    fun c member => behind c (List.mem_reverse.mp member)
  rw [trimDangling, trimDangling, List.dropWhile_append_of_pos before, List.dropWhile_append]
  split
  · next nothing =>
    -- the text dangles as a whole, and so does what is left of the tail
    have left : ∀ c ∈ (tail.dropWhile danglesAtStart).reverse, danglesAtEnd c = true := by
      intro c member
      exact behind c ((List.dropWhile_sublist _).mem (List.mem_reverse.mp member))
    rw [List.isEmpty_iff.mp nothing, List.dropWhile_eq_nil_iff.mpr left]
    rfl
  · rw [List.reverse_append, List.dropWhile_append_of_pos backward]

theorem preview_surround (before : ∀ c ∈ lead, danglesAtStart c = true)
    (behind : ∀ c ∈ tail, danglesAtEnd c = true) :
    preview (lead ++ (text ++ tail)) = preview text := by
  rw [preview_eq, preview_eq, trimDangling_surround before behind]

theorem preview_append (behind : ∀ c ∈ tail, danglesAtEnd c = true) :
    preview (text ++ tail) = preview text := by
  have before : ∀ c ∈ ([] : List Char), danglesAtStart c = true := by simp
  exact preview_surround before behind

theorem danglesAtEnd_of_isBinarySymbol {c : Char} (binary : isBinarySymbol c = true) :
    danglesAtEnd c = true := by
  obtain ⟨op, rfl⟩ := exists_symbol_eq binary
  cases op <;> decide

namespace Line

variable {line : Line} (at_end : line.after = [])
include at_end

theorem preview_insert {added : List Char} (dangles : ∀ c ∈ added, danglesAtEnd c = true) :
    preview (line.insert added).text = preview line.text := by
  have still_at_end : (line.insert added).after = [] := at_end
  have inserted : (line.insert added).text = line.text ++ added := by
    rw [text_of_after_eq_nil still_at_end, text_of_after_eq_nil at_end, insert,
      List.reverse_append, List.reverse_reverse]
  rw [inserted, preview_append dangles]

/-- An operator and those that it takes the place of dangle all alike. -/
theorem preview_typeBinary (op : BinaryOperator) :
    preview (line.typeBinary op).text = preview line.text := by
  rcases typeBinary_collapse line op with ⟨_, _, same⟩ | ⟨kept, collapse, typed⟩
  · rw [same]
  · obtain ⟨removed, before, _, binary⟩ := collapse.exists_removed
    have symbol : ∀ c ∈ [op.symbol], danglesAtEnd c = true := fun c member => by
      rw [List.mem_singleton.mp member]
      exact danglesAtEnd_of_isBinarySymbol (isBinarySymbol_symbol op)
    have dangles : ∀ c ∈ removed.reverse, danglesAtEnd c = true := fun c member =>
      danglesAtEnd_of_isBinarySymbol (List.all_eq_true.mp binary c (List.mem_reverse.mp member))
    rw [typed, text, at_end, List.append_nil, List.reverse_cons, preview_append symbol,
      text_of_after_eq_nil at_end, before, List.reverse_append, preview_append dangles]

theorem preview_typeOperator (op : Operator) :
    preview (line.typeOperator op).text = preview line.text := by
  cases op with
  | binary op => exact preview_typeBinary at_end op
  | root => exact preview_insert at_end (List.forall_mem_singleton.mpr (by decide))

end Line

/-- What dangles before a text and behind it changes neither the trimmed text nor the preview. So
no operator that is typed at the end of a line changes its preview, and no opening parenthesis or
root that is put in there. -/
theorem preview_of_dangling :
    (∀ lead text tail : List Char, (∀ c ∈ lead, danglesAtStart c = true) →
      (∀ c ∈ tail, danglesAtEnd c = true) →
        trimDangling (lead ++ (text ++ tail)) = trimDangling text ∧
          preview (lead ++ (text ++ tail)) = preview text) ∧
      ∀ line : Line, line.after = [] →
        (∀ op, preview (line.typeOperator op).text = preview line.text) ∧
          preview (line.insert ['(']).text = preview line.text ∧
          preview (line.insert ['√']).text = preview line.text := by
  refine ⟨fun lead text tail before behind => ?_, fun line at_end => ?_⟩
  · exact ⟨trimDangling_surround before behind, preview_surround before behind⟩
  · exact ⟨Line.preview_typeOperator at_end,
      Line.preview_insert at_end (List.forall_mem_singleton.mpr (by decide)),
      Line.preview_insert at_end (List.forall_mem_singleton.mpr (by decide))⟩

/-- Behind an operator and a sign another operator takes the place of both. -/
theorem preview_of_dangling_infinity :
    let lead := " +".toList
    let tail := "*-\t(√".toList
    let line := Line.ofText "1/0*-".toList
    (∀ c ∈ lead, danglesAtStart c = true) ∧ (∀ c ∈ tail, danglesAtEnd c = true) ∧
      preview (lead ++ ("1/0".toList ++ tail)) = preview "1/0".toList ∧ line.after = [] ∧
      (line.typeOperator (.binary .add)).text = "1/0+".toList ∧
      preview (line.typeOperator (.binary .add)).text = preview line.text := by
  intro lead tail line
  have before : ∀ c ∈ lead, danglesAtStart c = true := List.all_eq_true.mp (by decide)
  have behind : ∀ c ∈ tail, danglesAtEnd c = true := List.all_eq_true.mp (by decide)
  obtain ⟨of_texts, of_lines⟩ := preview_of_dangling
  have surrounded := of_texts lead "1/0".toList tail before behind
  have typed := of_lines line rfl
  exact ⟨before, behind, surrounded.2, rfl, by decide, typed.1 _⟩

end DeskCalculator
