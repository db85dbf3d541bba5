import DeskCalculator.Proofs.Failure
import DeskCalculator.Proofs.Trimming

/-!
# The preview of a text that evaluates

Strict evaluation takes more texts than those without dangling operators: `2√` is the root of two,
and `+1 2` adds its numbers. The preview evaluates what is left between the operators at the ends.
Without a binary operator the numbers are too many, and there is no preview; without a trailing root
there is still a value, that of the text without this root. Only where no operator is set aside do
both evaluations agree.
-/
namespace DeskCalculator

/-- The operators that the preview sets aside. -/
def setAside (text : List Char) : List Operator :=
  (leading text ++ trailing text).filterMap Operator.ofChar?

/-! ## Binary operators -/

/-- Every binary operator among single characters takes one number away. -/
theorem depth_singles (text : List Char) :
    depth (singles text) = -((text.filterMap Operator.ofChar?).countP (!·.isUnary) : Int) := by
  induction text with
  | nil => rfl
  | cons c text ih =>
    rw [singles, List.filterMap_cons, List.filterMap_cons, Token.ofChar?_eq]
    rw [singles] at ih
    by_cases opening : c = '('
    · subst opening
      have no_operator : Operator.ofChar? '(' = none := by decide
      simpa [no_operator, Token.weight] using ih
    · by_cases closing : c = ')'
      · subst closing
        have no_operator : Operator.ofChar? ')' = none := by decide
        simpa [no_operator, Token.weight] using ih
      · simp only [opening, closing, ↓reduceIte]
        cases Operator.ofChar? c with
        | none => exact ih
        | some op =>
          simp only [Option.map_some, depth_cons, ih, List.countP_cons]
          cases op with
          | root => simp [Token.weight, Operator.isUnary]
          | binary op =>
            simp only [Token.weight, Operator.isUnary, Bool.not_false, ↓reduceIte]
            omega

theorem depth_of_evaluate {text : List Char} (some_text : text ≠ []) {x : Double}
    (result : evaluate text = .ok x) : ∃ tokens, scan text = .ok tokens ∧ depth tokens = 1 := by
  obtain ⟨tokens, scanned, ran⟩ := (evaluate_eq_ok_iff some_text).mp result
  refine ⟨tokens, scanned, ?_⟩
  rw [← depth_polish]
  exact Machine.depth_of_run ran

/-- What is left of a text that evaluates has tokens, and one literal more than binary operators,
not counting those set aside. -/
theorem exists_scan_trimDangling {text : List Char} (some_text : text ≠ []) {x : Double}
    (result : evaluate text = .ok x) :
    ∃ tokens, scan (trimDangling text) = .ok tokens ∧
      depth tokens = 1 + ((setAside text).countP (!·.isUnary) : Int) := by
  obtain ⟨all, scanned, balance⟩ := depth_of_evaluate some_text result
  rw [scan_eq_map_scan_trimDangling] at scanned
  cases inner : scan (trimDangling text) with
  | error fault => simp [inner, Except.map] at scanned
  | ok tokens =>
    simp only [inner, Except.map, Except.ok.injEq] at scanned
    subst scanned
    refine ⟨tokens, rfl, ?_⟩
    simp only [depth_append, depth_singles] at balance
    rw [setAside, List.filterMap_append, List.countP_append]
    omega

theorem trimDangling_ne_nil {text : List Char} (some_text : text ≠ []) {x : Double}
    (result : evaluate text = .ok x) : trimDangling text ≠ [] := by
  obtain ⟨tokens, scanned, balance⟩ := exists_scan_trimDangling some_text result
  refine ne_nil_of_scan scanned ?_
  -- without tokens there is no literal
  rintro rfl
  rw [depth_nil] at balance
  omega

/-- Without one of its binary operators a text that evaluates does so no more. -/
theorem preview_of_binary_setAside {text : List Char} (some_text : text ≠ []) {x : Double}
    (result : evaluate text = .ok x) (binary : ∃ op ∈ setAside text, op.isUnary = false) :
    preview text = [] := by
  rw [preview, if_neg some_text]
  cases again : evaluate (trimDangling text) with
  | error fault => rfl
  | ok y =>
    obtain ⟨tokens, scanned, balance⟩ := exists_scan_trimDangling some_text result
    obtain ⟨tokens', scanned', balance'⟩ :=
      depth_of_evaluate (trimDangling_ne_nil some_text result) again
    rw [scanned] at scanned'
    cases scanned'
    -- the text that is left has one literal too many for its binary operators
    have counted : 0 < (setAside text).countP (!·.isUnary) := by
      obtain ⟨op, member, not_unary⟩ := binary
      exact List.countP_pos_iff.mpr ⟨op, member, by rw [not_unary]; rfl⟩
    omega

/-! ## Roots -/

/-- What has been read decides what has come out and what is waiting. -/
theorem exists_polishFrom_append (waiting : List Operator) (outer : List (List Operator))
    (tokens : List Token) : ∃ front waiting' outer', ∀ rest,
      polishFrom waiting outer (tokens ++ rest) = front ++ polishFrom waiting' outer' rest := by
  induction tokens generalizing waiting outer with
  | nil => exact ⟨[], waiting, outer, fun _ => rfl⟩
  | cons token tokens ih =>
    cases token with
    | literal text =>
      obtain ⟨front, waiting', outer', reads⟩ := ih waiting outer
      refine ⟨.literal text :: front, waiting', outer', fun rest => ?_⟩
      rw [List.cons_append, polishFrom, reads, List.cons_append]
    | opening =>
      obtain ⟨front, waiting', outer', reads⟩ := ih [] (waiting :: outer)
      refine ⟨front, waiting', outer', fun rest => ?_⟩
      rw [List.cons_append, polishFrom, reads]
    | closing =>
      obtain ⟨front, waiting', outer', reads⟩ := ih (outer.headD []) outer.tail
      refine ⟨waiting.map .operator ++ front, waiting', outer', fun rest => ?_⟩
      rw [List.cons_append, polishFrom, reads, List.append_assoc]
    | operator op =>
      obtain ⟨front, waiting', outer', reads⟩ := ih (op :: waiting.dropWhile op.yieldsTo) outer
      refine ⟨(waiting.takeWhile op.yieldsTo).map .operator ++ front, waiting', outer',
        fun rest => ?_⟩
      rw [List.cons_append, polishFrom, reads, List.append_assoc]

theorem root_yieldsTo (waiting : Operator) : Operator.root.yieldsTo waiting = false := by
  rcases waiting with op | _
  · cases op <;> rfl
  · rfl

/-- Roots at the end come out before everything that is waiting, openings not at all. -/
theorem polishFrom_roots (waiting : List Operator) (outer : List (List Operator))
    {tail : List Token} (roots : ∀ token ∈ tail, token = .operator .root ∨ token = .opening) :
    polishFrom waiting outer tail =
      (List.replicate (tail.count (.operator .root)) Operator.root ++
        (waiting ++ outer.flatten)).map .operator := by
  induction tail generalizing waiting outer with
  | nil => rfl
  | cons token tail ih =>
    have rest := fun token member => roots token (List.mem_cons_of_mem _ member)
    rcases roots token List.mem_cons_self with rfl | rfl
    · -- the root joins those that are waiting, and so comes out last of the roots
      have none : waiting.takeWhile Operator.root.yieldsTo = [] :=
        takeWhile_eq_nil fun op _ => root_yieldsTo op
      rw [polishFrom, none, dropWhile_eq_self none, ih _ _ rest, List.count_cons_self,
        List.replicate_succ']
      simp
    · rw [polishFrom, ih _ _ rest, List.count_cons_of_ne (by decide)]
      simp

/-- Leaving out roots changes the value of a run, but not whether there is one. -/
theorem Machine.exists_run_without_roots {α : Type} [Arithmetic α] {front : List Token}
    {count : Nat} {ops : List Operator} {x : α}
    (ran : run (front ++ (List.replicate count Operator.root ++ ops).map .operator) = .ok x) :
    ∃ y : α, run (front ++ ops.map .operator) = .ok y := by
  rw [run_eq_ok_iff, List.map_append, runFrom_append_eq_ok_iff] at ran
  obtain ⟨stack, first, ran⟩ := ran
  obtain ⟨next, roots, last⟩ := runFrom_append_eq_ok_iff.mp ran
  -- the operators behind the roots find a stack of the same height without them
  have same : next.length = stack.length := by
    have length := length_runFrom roots
    rw [depth_roots] at length
    omega
  obtain ⟨final, again, single⟩ := exists_runFrom_of_length_eq same last
  obtain ⟨y, rfl⟩ := List.length_eq_one_iff.mp single.symm
  exact ⟨y, run_eq_ok_iff.mpr (runFrom_append_eq_ok_iff.mpr ⟨stack, first, again⟩)⟩

/-- Roots and openings at the end put roots before the operators that come out last. -/
theorem exists_polish_append (tokens : List Token) :
    ∃ front ops, polish tokens = front ++ ops.map .operator ∧
      ∀ tail : List Token, (∀ token ∈ tail, token = .operator .root ∨ token = .opening) →
        polish (tokens ++ tail) =
          front ++ (List.replicate (tail.count (.operator .root)) Operator.root ++ ops).map
            .operator := by
  obtain ⟨front, waiting, outer, reads⟩ := exists_polishFrom_append [] [] tokens
  refine ⟨front, waiting ++ outer.flatten, ?_, fun tail roots => ?_⟩
  · have alone := reads []
    rwa [List.append_nil] at alone
  · rw [polish, reads, polishFrom_roots waiting outer roots]

theorem exists_run_polish_of_append {α : Type} [Arithmetic α] {tokens tail : List Token} {x : α}
    (roots : ∀ token ∈ tail, token = .operator .root ∨ token = .opening)
    (ran : Machine.run (polish (tokens ++ tail)) = .ok x) :
    ∃ y : α, Machine.run (polish tokens) = .ok y := by
  obtain ⟨front, ops, alone, behind⟩ := exists_polish_append tokens
  rw [behind tail roots] at ran
  rw [alone]
  exact Machine.exists_run_without_roots ran

theorem polish_append_openings {tokens tail : List Token}
    (openings : ∀ token ∈ tail, token = .opening) : polish (tokens ++ tail) = polish tokens := by
  obtain ⟨front, ops, alone, behind⟩ := exists_polish_append tokens
  have none : tail.count (.operator .root) = 0 := by
    refine List.count_eq_zero.mpr fun member => ?_
    exact absurd (openings _ member) (by decide)
  rw [behind tail fun token member => .inr (openings token member), none, alone]
  rfl

/-! ## The preview -/

theorem mem_singles_trailing {text : List Char} {token : Token}
    (member : token ∈ singles (trailing text)) :
    token = .opening ∨ ∃ op ∈ setAside text, token = .operator op := by
  obtain ⟨c, dangling, single⟩ := List.mem_filterMap.mp member
  rcases ofChar?_of_danglesAtEnd (danglesAtEnd_of_mem_trailing dangling) single with
    ⟨_, opening⟩ | ⟨op, symbol, operator⟩
  · exact .inl opening
  · exact .inr ⟨op, List.mem_filterMap.mpr ⟨c, List.mem_append_right _ dangling, symbol⟩, operator⟩

theorem ofChar?_eq_root {c : Char} (symbol : Operator.ofChar? c = some .root) : c = '√' := by
  unfold Operator.ofChar? at symbol
  split at symbol
  · assumption
  · simp at symbol

theorem singles_leading_eq_nil {text : List Char} (roots : ∀ op ∈ setAside text, op = .root) :
    singles (leading text) = [] := by
  refine List.filterMap_eq_nil_iff.mpr fun c member => ?_
  have dangling := danglesAtStart_of_mem_leading member
  cases single : Token.ofChar? c with
  | none => rfl
  | some token =>
    rcases ofChar?_of_danglesAtEnd ((danglesAtEnd_iff c).mpr (.inl dangling)) single with
      ⟨rfl, _⟩ | ⟨op, symbol, _⟩
    · exact absurd dangling (by decide)
    · -- what may dangle at the start is no root
      have root := roots op (List.mem_filterMap.mpr ⟨c, List.mem_append_left _ member, symbol⟩)
      subst root
      rw [ofChar?_eq_root symbol] at dangling
      exact absurd dangling (by decide)

/-- Where roots only are set aside, the text that is left lacks nothing but a tail of tokens. -/
theorem exists_run_of_roots_setAside {text : List Char} (some_text : text ≠ []) {x : Double}
    (result : evaluate text = .ok x) (roots : ∀ op ∈ setAside text, op = .root) :
    ∃ tokens, scan (trimDangling text) = .ok tokens ∧
      Machine.run (polish (tokens ++ singles (trailing text))) = .ok x := by
  obtain ⟨tokens, scanned, _⟩ := exists_scan_trimDangling some_text result
  refine ⟨tokens, scanned, ?_⟩
  rwa [evaluate_eq some_text, scan_eq_map_scan_trimDangling, singles_leading_eq_nil roots,
    scanned] at result

theorem exists_evaluate_trimDangling {text : List Char} (some_text : text ≠ []) {x : Double}
    (result : evaluate text = .ok x) (roots : ∀ op ∈ setAside text, op = .root) :
    ∃ y, evaluate (trimDangling text) = .ok y := by
  obtain ⟨tokens, scanned, ran⟩ := exists_run_of_roots_setAside some_text result roots
  have tail : ∀ token ∈ singles (trailing text), token = .operator .root ∨ token = .opening := by
    intro token member
    rcases mem_singles_trailing member with opening | ⟨op, aside, rfl⟩
    · exact .inr opening
    · exact .inl (by rw [roots op aside])
  obtain ⟨y, again⟩ := exists_run_polish_of_append tail ran
  have some_left := trimDangling_ne_nil some_text result
  exact ⟨y, (evaluate_eq_ok_iff some_left).mpr ⟨tokens, scanned, again⟩⟩

theorem evaluate_trimDangling {text : List Char} (some_text : text ≠ []) {x : Double}
    (result : evaluate text = .ok x) (none : setAside text = []) :
    evaluate (trimDangling text) = .ok x := by
  obtain ⟨tokens, scanned, ran⟩ := exists_run_of_roots_setAside some_text result (by simp [none])
  have tail : ∀ token ∈ singles (trailing text), token = .opening := by
    intro token member
    rcases mem_singles_trailing member with opening | ⟨op, aside, _⟩
    · exact opening
    · simp [none] at aside
  rw [polish_append_openings tail] at ran
  have some_left := trimDangling_ne_nil some_text result
  exact (evaluate_eq_ok_iff some_left).mpr ⟨tokens, scanned, ran⟩

/-- The preview of a text that evaluates shows its value if no operator is set aside, and nothing
if one of those set aside is binary. If they are roots, it shows the value of the text without
them. -/
theorem preview_of_evaluate {text : List Char} (some_text : text ≠ []) {x : Double}
    (result : evaluate text = .ok x) :
    (setAside text = [] → preview text = x.display) ∧
      ((∃ op ∈ setAside text, op ≠ .root) → preview text = []) ∧
      ((∀ op ∈ setAside text, op = .root) →
        ∃ y, evaluate (trimDangling text) = .ok y ∧ preview text = y.display) := by
  refine ⟨fun none => ?_, fun binary => ?_, fun roots => ?_⟩
  · rw [preview, if_neg some_text, evaluate_trimDangling some_text result none]
  · obtain ⟨op, aside, not_root⟩ := binary
    refine preview_of_binary_setAside some_text result ⟨op, aside, ?_⟩
    cases op with
    | root => exact absurd rfl not_root
    | binary op => rfl
  · obtain ⟨y, evaluated⟩ := exists_evaluate_trimDangling some_text result roots
    exact ⟨y, evaluated, by rw [preview, if_neg some_text, evaluated]⟩

/-- An opening may be set aside, a binary operator and a root may not. -/
theorem preview_of_evaluate_sums :
    preview "1+2(".toList = "3".toList ∧ preview "+1 2".toList = [] ∧
      ∃ y, evaluate (trimDangling "1+2√".toList) = .ok y ∧
        preview "1+2√".toList = y.display := by
  let three : Double := .finite ⟨false, 6755399441055744, -51, by decide⟩
  let rooted : Double := .finite ⟨false, 5436325649948134, -51, by decide⟩
  have opened : evaluate "1+2(".toList = .ok three := by decide +kernel
  have prefixed : evaluate "+1 2".toList = .ok three := by decide +kernel
  have root : evaluate "1+2√".toList = .ok rooted := by decide +kernel
  have shown : three.display = "3".toList := by decide +kernel
  rw [← shown]
  exact ⟨(preview_of_evaluate (by decide) opened).1 (by decide +kernel),
    (preview_of_evaluate (by decide) prefixed).2.1 ⟨.binary .add, by decide +kernel, by decide⟩,
    (preview_of_evaluate (by decide) root).2.2 (by decide +kernel)⟩

/-- A root behind its operand is evaluated, but is set aside in the preview. -/
theorem exists_preview_ne_display :
    ∃ text x, text ≠ [] ∧ evaluate text = .ok x ∧ preview text ≠ x.display :=
  ⟨"2√".toList, .finite ⟨false, 6369051672525773, -52, by decide⟩, by decide, by decide +kernel,
    by decide +kernel⟩

end DeskCalculator
