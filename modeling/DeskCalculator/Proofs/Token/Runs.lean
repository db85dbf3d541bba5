import DeskCalculator.Proofs.Token.Literal
import DeskCalculator.Proofs.Token.Points

/-!
# Runs with a second point

If some run of digits and points in a text holds two points or more, there is a first such run, and
its first two points cut it into two pieces of digits and the rest. The run is a longest one:
neither the text before it nor the text behind it goes on with it.
-/
namespace DeskCalculator

open Numeral

/-- No run goes on behind the text, so a run that comes behind it starts there. -/
def StopsRun (text : List Char) : Prop := ∀ c ∈ text.getLast?, isRunChar c = false

/-- The run is a longest one between the texts before and behind it. -/
structure IsRun (front run back : List Char) : Prop where
  all : ∀ c ∈ run, isRunChar c = true
  before : StopsRun front
  behind : ∀ c ∈ back.head?, isRunChar c = false

/-- Digits, a point, digits and a second point, and what comes behind. -/
def secondPointed (whole fraction back : List Char) : List Char :=
  whole ++ '.' :: (fraction ++ '.' :: back)

/-- The first run of the text with more than one point starts behind `front`, with the digits
`whole` before its first point and the digits `fraction` before its second one. -/
structure SecondPoint (text front whole fraction back : List Char) : Prop where
  text_eq : text = front ++ secondPointed whole fraction back
  first : SinglePointed front
  before : StopsRun front
  digits_whole : AllDigits whole
  digits_fraction : AllDigits fraction

variable {c : Char} {text front whole fraction back rest : List Char}

namespace StopsRun

theorem of_isSuffix (stops : StopsRun text) (suffix : rest <:+ text) : StopsRun rest :=
  fun c last => stops c (mem_getLast?_of_isSuffix suffix last)

theorem exists_stop (stops : StopsRun text) (some_text : text ≠ []) :
    ∃ c ∈ text, isRunChar c = false :=
  ⟨text.getLast some_text, List.getLast_mem some_text,
    stops _ (List.getLast?_eq_some_getLast some_text)⟩

theorem dropWhile_ne_nil (stops : StopsRun text) (some_text : text ≠ []) :
    text.dropWhile isRunChar ≠ [] := by
  obtain ⟨c, member, stop⟩ := stops.exists_stop some_text
  intro none
  have all := List.dropWhile_eq_nil_iff.mp none c member
  rw [stop] at all
  cases all

end StopsRun

/-! ## Two points -/

theorem two_le_count_secondPointed (whole fraction back : List Char) :
    2 ≤ (secondPointed whole fraction back).count '.' := by
  simp only [secondPointed, List.count_append, List.count_cons_self]
  omega

theorem takeWhile_secondPointed (digits_whole : AllDigits whole)
    (digits_fraction : AllDigits fraction) (back : List Char) :
    (secondPointed whole fraction back).takeWhile isRunChar =
      secondPointed whole fraction (back.takeWhile isRunChar) := by
  rw [secondPointed, List.takeWhile_append_of_pos digits_whole.isRunChar,
    List.takeWhile_cons_of_pos rfl, List.takeWhile_append_of_pos digits_fraction.isRunChar,
    List.takeWhile_cons_of_pos rfl, secondPointed]

theorem exists_secondPointed_eq_cons (digits : AllDigits whole) (fraction back : List Char) :
    ∃ c rest, secondPointed whole fraction back = c :: rest ∧ isRunChar c = true := by
  cases whole with
  | nil => exact ⟨'.', _, rfl, rfl⟩
  | cons c whole => exact ⟨c, _, rfl, digits.isRunChar c List.mem_cons_self⟩

/-! ## The first run with two points -/

/-- The run at the end of a text. -/
theorem exists_run_at_end (text : List Char) :
    ∃ front run, text = front ++ run ∧ IsRun front run [] ∧
      run.count '.' = pointsAtStart text.reverse := by
  -- backwards, the text starts with this run
  refine ⟨(text.reverse.dropWhile isRunChar).reverse, (text.reverse.takeWhile isRunChar).reverse,
    ?_, ⟨fun c member => ?_, fun c last => ?_, by simp⟩, ?_⟩
  · rw [← List.reverse_append, List.takeWhile_append_dropWhile, List.reverse_reverse]
  · exact List.mem_takeWhile_imp (List.mem_reverse.mp member)
  · have stop := List.head?_dropWhile_not isRunChar text.reverse
    rw [List.getLast?_reverse, Option.mem_def] at last
    rwa [last] at stop
  · rw [List.count_reverse, pointsAtStart]

/-- The character with which a run first has two points is the second of them. -/
theorem eq_point_of_not_singlePointed (single : SinglePointed text)
    (double : ¬SinglePointed (text ++ [c])) : c = '.' ∧ pointsAtStart text.reverse = 1 := by
  have seam : SinglePointed (text.reverse.reverse ++ [c]) ↔ _ := singlePointed_reverse_append_iff
  rw [List.reverse_reverse, singlePointed_reverse_iff] at seam
  have alone : SinglePointed [c] := singlePointed_of_count_le List.count_le_length
  -- the run at the end has too many points only together with the last character
  have points : 1 < pointsAtStart text.reverse + pointsAtStart [c] :=
    Nat.lt_of_not_le fun few => double (seam.mpr ⟨single, alone, few⟩)
  have before := (singlePointed_reverse_iff.mpr single).pointsAtStart_le
  have last := alone.pointsAtStart_le
  refine ⟨Decidable.byContradiction fun other => ?_, by omega⟩
  have none : pointsAtStart [c] ≤ 0 := (pointsAtStart_le_count [c]).trans (by simp [other])
  omega

theorem exists_secondPoint (double : ¬SinglePointed text) :
    ∃ front whole fraction back, SecondPoint text front whole fraction back := by
  -- the run is found with the first character behind which some run has a second point
  induction text using List.reverseRecOn with
  | nil => exact absurd singlePointed_nil double
  | append_singleton text c ih =>
    by_cases single : SinglePointed text
    · obtain ⟨rfl, one⟩ := eq_point_of_not_singlePointed single double
      obtain ⟨front, run, rfl, is_run, count⟩ := exists_run_at_end text
      obtain ⟨whole, fraction, rfl, digits_whole, digits_fraction⟩ :=
        exists_of_count_point is_run.all (count.trans one)
      exact ⟨front, whole, fraction, [], by simp [secondPointed], single.of_append, is_run.before,
        digits_whole, digits_fraction⟩
    · obtain ⟨front, whole, fraction, back, found⟩ := ih single
      refine ⟨front, whole, fraction, back ++ [c], { found with text_eq := ?_ }⟩
      rw [found.text_eq]
      simp [secondPointed]

/-- Some run of a text has a second point if and only if a longest one has. -/
theorem not_singlePointed_iff : ¬SinglePointed text ↔
    ∃ front run back, text = front ++ (run ++ back) ∧ IsRun front run back ∧
      2 ≤ run.count '.' := by
  constructor
  · intro double
    obtain ⟨front, whole, fraction, back, found⟩ := exists_secondPoint double
    have run := takeWhile_secondPointed found.digits_whole found.digits_fraction back
    refine ⟨front, secondPointed whole fraction (back.takeWhile isRunChar),
      back.dropWhile isRunChar, ?_, ⟨?_, found.before, ?_⟩, two_le_count_secondPointed _ _ _⟩
    · rw [found.text_eq]
      simp [secondPointed]
    · rw [← run]
      exact fun _ member => List.mem_takeWhile_imp member
    · intro c first
      have stop := List.head?_dropWhile_not isRunChar back
      rw [Option.mem_def] at first
      rwa [first] at stop
  · rintro ⟨front, run, back, rfl, is_run, points⟩ single
    have few := single (run ++ back) (List.suffix_append front (run ++ back))
    rw [pointsAtStart, takeWhile_append_of_stop is_run.all (takeWhile_eq_nil is_run.behind)] at few
    omega

end DeskCalculator
