import DeskCalculator.Editor.Edit

/-!
# Runs of edits

An edit that is no commit either is refused, and leaves the line exactly as it is, or it takes
effect, and then the result of the last commit is shown no more. What every edit keeps, a run of
edits keeps.
-/
namespace DeskCalculator

/-! ## Typing -/

/-- What stays of the characters before the cursor, the nearest first, where a binary operator is
typed and not refused. -/
inductive Collapse (op : BinaryOperator) : List Char → List Char → Prop where
  | first (sign : op = .sub) : Collapse op [] []
  | operand {last : Char} {earlier : List Char} (operand : isBinarySymbol last = false) :
      Collapse op (last :: earlier) (last :: earlier)
  | sign {last : Char} {earlier : List Char} (sign : op = .sub) (no_minus : last ≠ '-') :
      Collapse op (last :: earlier) (last :: earlier)
  | signed {second : Char} {earlier : List Char} (binary : isBinarySymbol second = true) :
      Collapse op ('-' :: second :: earlier) earlier
  | single {last : Char} {earlier : List Char} (binary : isBinarySymbol last = true)
      (unsigned : last = '-' → earlier.head?.any isBinarySymbol = false)
      (no_sign : op = .sub → last = '-') : Collapse op (last :: earlier) earlier

/-- What does not stay are at most two binary operators. -/
theorem Collapse.exists_removed {op : BinaryOperator} {before kept : List Char}
    (collapse : Collapse op before kept) :
    ∃ removed, before = removed ++ kept ∧ removed.length ≤ 2 ∧
      removed.all isBinarySymbol = true := by
  cases collapse with
  | first | operand | sign => exact ⟨[], rfl, by decide, rfl⟩
  | @signed second _ second_binary =>
    have minus : isBinarySymbol '-' = true := by decide
    exact ⟨['-', second], rfl, Nat.le_refl 2, by simp [minus, second_binary]⟩
  | @single last _ last_binary => exact ⟨[last], rfl, by simp, by simpa using last_binary⟩

namespace Line

/-- A point is refused where a character of the number at the cursor bars it. Elsewhere it is put
in, with a zero before it or without. -/
theorem typePoint_cases (line : Line) :
    (line.typePoint = line ∧
        ∃ c ∈ numberBefore line.before ++ numberAfter line.before.head? line.after,
          barsPoint c = true) ∨
      ((numberBefore line.before).any barsPoint = false ∧
        (numberAfter line.before.head? line.after).any barsPoint = false ∧
        (line.typePoint = line.insert ['0', '.'] ∨ line.typePoint = line.insert ['.'])) := by
  rw [typePoint]
  split
  · next barred => exact .inl ⟨rfl, List.any_eq_true.mp barred⟩
  · next unbarred =>
    rw [Bool.not_eq_true, List.any_append, Bool.or_eq_false_iff] at unbarred
    refine .inr ⟨unbarred.1, unbarred.2, ?_⟩
    split
    · exact .inl rfl
    · exact .inr rfl

/-- A binary operator but the minus is refused at the start; any other is put behind what stays of
the characters before the cursor. -/
theorem typeBinary_collapse (line : Line) (op : BinaryOperator) :
    (line.before = [] ∧ op ≠ .sub ∧ line.typeBinary op = line) ∨
      ∃ kept, Collapse op line.before kept ∧
        line.typeBinary op = ⟨op.symbol :: kept, line.after, none⟩ := by
  cases start : line.before with
  | nil =>
    by_cases sign : op = .sub
    · exact .inr ⟨[], .first sign, by simp [typeBinary, replaceBefore, start, sign]⟩
    · exact .inl ⟨rfl, sign, by simp [typeBinary, start, sign]⟩
  | cons last earlier =>
    refine .inr ?_
    rw [typeBinary, start]
    simp only [replaceBefore, start]
    split
    · next operand => exact ⟨_, .operand (by simpa using operand), rfl⟩
    · next binary =>
      have last_binary : isBinarySymbol last = true := by simpa using binary
      split
      · next signed =>
        -- an operator with its sign goes as a whole
        obtain ⟨rfl, second_binary⟩ := signed
        cases earlier with
        | nil => simp at second_binary
        | cons second earlier => exact ⟨_, .signed (by simpa using second_binary), rfl⟩
      · next not_signed =>
        split
        · next sign => exact ⟨_, .sign sign.1 sign.2, rfl⟩
        · next no_sign =>
          refine ⟨_, .single last_binary (fun minus => ?_) fun sub => ?_, rfl⟩
          · simpa [minus] using not_signed
          · simpa [sub] using no_sign

/-- A binary operator is refused, or it takes the place of at most two binary operators before the
cursor. -/
theorem typeBinary_cases (line : Line) (op : BinaryOperator) :
    line.typeBinary op = line ∨
      ∃ count ≤ 2, (∀ c ∈ line.before.take count, isBinarySymbol c = true) ∧
        line.typeBinary op = line.replaceBefore count op := by
  rcases typeBinary_collapse line op with ⟨_, _, same⟩ | ⟨kept, collapse, typed⟩
  · exact .inl same
  · obtain ⟨removed, before, few, binary⟩ := collapse.exists_removed
    refine .inr ⟨removed.length, few, ?_, ?_⟩
    · rw [before, List.take_left]
      exact List.all_eq_true.mp binary
    · rw [typed, replaceBefore, before, List.drop_left]

/-! ## Edits but commits -/

/-- The edits that find nothing they may do: a point in a number that bars it, a binary operator but
the minus at the start, a removal there, and a figure that is neither a digit nor a point. -/
inductive Refuses (line : Line) : Edit → Prop where
  | point {c : Char}
      (inside : c ∈ numberBefore line.before ++ numberAfter line.before.head? line.after)
      (bars : barsPoint c = true) : Refuses line (.digit '.')
  | operator {op : BinaryOperator} (start : line.before = []) (no_sign : op ≠ .sub) :
      Refuses line (.operator (.binary op))
  | backspace (start : line.before = []) : Refuses line .backspace
  | figure {c : Char} (no_digit : c.isDigit = false) (no_point : c ≠ '.') :
      Refuses line (.digit c)

theorem apply_of_refuses {line : Line} {edit : Edit} (refuses : line.Refuses edit) :
    line.apply edit = (line, none) := by
  cases refuses with
  | point inside bars =>
    have barred := List.any_eq_true.mpr ⟨_, inside, bars⟩
    have refused : line.typePoint = line := by
      rw [typePoint]
      exact if_pos barred
    rw [apply, typeDigit, if_neg (by decide), if_pos rfl, refused]
  | @operator op start no_sign =>
    rcases typeBinary_collapse line op with ⟨_, _, same⟩ | ⟨kept, collapse, _⟩
    · rw [apply, typeOperator, same]
    · rw [start] at collapse
      cases collapse with
      | first sign => exact absurd sign no_sign
  | backspace start => simp only [apply, Line.backspace, start]
  | figure no_digit no_point => rw [apply, typeDigit, if_neg (by simp [no_digit]), if_neg no_point]

/-- Any other edit takes effect, and nothing of a commit is shown after it. -/
theorem committed_apply {line : Line} {edit : Edit} (accepts : ¬line.Refuses edit)
    (no_commit : edit ≠ .commit) : (line.apply edit).1.committed = none := by
  cases edit with
  | digit c =>
    rw [apply, typeDigit]
    split
    · rfl
    · next no_digit =>
      split
      · next point =>
        subst point
        rcases typePoint_cases line with ⟨_, _, inside, bars⟩ | ⟨_, _, zero | point⟩
        · exact absurd (.point inside bars) accepts
        · rw [zero, insert]
        · rw [point, insert]
      · next no_point => exact absurd (.figure (by simpa using no_digit) no_point) accepts
  | operator op =>
    cases op with
    | root => rfl
    | binary op =>
      rcases typeBinary_collapse line op with ⟨start, no_sign, _⟩ | ⟨kept, _, typed⟩
      · exact absurd (.operator start no_sign) accepts
      · rw [apply, typeOperator, typed]
  | backspace =>
    rw [apply, Line.backspace]
    split
    · next start => exact absurd (.backspace start) accepts
    · rfl
  | commit => exact absurd rfl no_commit
  | insert | clear | moveTo | left | right => rfl

/-! ## Runs -/

theorem applyAll_cons (line : Line) (edit : Edit) (edits : List Edit) :
    (line.applyAll (edit :: edits)).1 = ((line.apply edit).1.applyAll edits).1 := rfl

theorem applyAll_append (line : Line) (front back : List Edit) :
    line.applyAll (front ++ back) =
      (((line.applyAll front).1.applyAll back).1,
        (line.applyAll front).2 ++ ((line.applyAll front).1.applyAll back).2) := by
  induction front generalizing line with
  | nil => rfl
  | cons edit front ih => simp only [List.cons_append, applyAll, ih, List.append_assoc]

theorem typeText_append (line : Line) (front back : List Char) :
    line.typeText (front ++ back) =
      (((line.typeText front).1.typeText back).1,
        (line.typeText front).2 ++ ((line.typeText front).1.typeText back).2) := by
  rw [typeText, List.filterMap_append, applyAll_append]
  rfl

/-- What every edit of a run keeps, the run keeps. -/
theorem applyAll_keeps_of_mem {holds : Line → Prop} {edits : List Edit}
    (keeps : ∀ line, ∀ edit ∈ edits, holds line → holds (line.apply edit).1) {line : Line}
    (start : holds line) : holds (line.applyAll edits).1 := by
  induction edits generalizing line with
  | nil => exact start
  | cons edit edits ih =>
    rw [applyAll_cons]
    refine ih (fun line later member => ?_) (keeps line edit List.mem_cons_self start)
    exact keeps line later (List.mem_cons_of_mem edit member)

/-- What every single edit keeps, any run of edits keeps. -/
theorem applyAll_keeps {holds : Line → Prop}
    (keeps : ∀ line edit, holds line → holds (line.apply edit).1) {line : Line}
    (start : holds line) (edits : List Edit) : holds (line.applyAll edits).1 :=
  applyAll_keeps_of_mem (fun line edit _ => keeps line edit) start

end Line

end DeskCalculator
