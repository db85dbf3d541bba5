/-!
# The front of a list

A list splits into the longest front part with a property and the rest. Where the lists of an append
meet, that part goes on from the first list into the second only if all of the first list has the
property.
-/
namespace DeskCalculator

variable {α : Type} {p : α → Bool} {front rest : List α}

theorem takeWhile_eq_nil (stop : ∀ c ∈ rest.head?, p c = false) : rest.takeWhile p = [] := by
  cases rest with
  | nil => rfl
  | cons c tail => simp [stop c rfl]

theorem dropWhile_eq_self (stop : rest.takeWhile p = []) : rest.dropWhile p = rest := by
  have split : rest.takeWhile p ++ rest.dropWhile p = rest := List.takeWhile_append_dropWhile
  rwa [stop, List.nil_append] at split

theorem takeWhile_append_of_stop (all : ∀ c ∈ front, p c = true) (stop : rest.takeWhile p = []) :
    (front ++ rest).takeWhile p = front := by
  rw [List.takeWhile_append_of_pos all, stop, List.append_nil]

theorem dropWhile_append_of_stop (all : ∀ c ∈ front, p c = true) (stop : rest.takeWhile p = []) :
    (front ++ rest).dropWhile p = rest := by
  rw [List.dropWhile_append_of_pos all, dropWhile_eq_self stop]

theorem takeWhile_append_right (front : List α) (stop : rest.takeWhile p = []) :
    (front ++ rest).takeWhile p = front.takeWhile p := by
  induction front with
  | nil => exact stop
  | cons c front ih => cases keep : p c <;> simp [keep, ih]

theorem dropWhile_append_right (front : List α) (stop : rest.takeWhile p = []) :
    (front ++ rest).dropWhile p = front.dropWhile p ++ rest := by
  induction front with
  | nil => exact dropWhile_eq_self stop
  | cons c front ih => cases keep : p c <;> simp [keep, ih]

theorem takeWhile_append_left {c : α} (member : c ∈ front) (stop : p c = false) (rest : List α) :
    (front ++ rest).takeWhile p = front.takeWhile p := by
  induction front with
  | nil => cases member
  | cons d front ih =>
    cases keep : p d with
    | false => simp [keep]
    | true =>
      rcases List.mem_cons.mp member with rfl | member
      · rw [keep] at stop
        cases stop
      · simp [keep, ih member]

theorem dropWhile_append_left {c : α} (member : c ∈ front) (stop : p c = false) (rest : List α) :
    (front ++ rest).dropWhile p = front.dropWhile p ++ rest := by
  have whole : front.takeWhile p ++ (front ++ rest).dropWhile p = front ++ rest := by
    rw [← takeWhile_append_left member stop rest, List.takeWhile_append_dropWhile]
  refine List.append_cancel_left (whole.trans ?_)
  rw [← List.append_assoc, List.takeWhile_append_dropWhile]

theorem mem_getLast?_of_isSuffix {c : α} (suffix : rest <:+ front) (last : c ∈ rest.getLast?) :
    c ∈ front.getLast? := by
  obtain ⟨before, rfl⟩ := suffix
  rw [Option.mem_def] at last ⊢
  simp [List.getLast?_append, last]

end DeskCalculator
