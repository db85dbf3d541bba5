import DeskCalculator.Polish.Order
import DeskCalculator.Proofs.Descent
import DeskCalculator.Proofs.Text.Span

/-!
# Precedence

Reverse Polish order respects the grammar. When the tokens of a tree have been read, a front part of
the tree's postorder has been released and the operators of the rest are waiting; whatever may
follow the tree in a larger expression releases them before anything else. So the whole of an
expression comes out as the postorder of its tree, and the machine computes what recursive descent
computes.
-/
namespace DeskCalculator

/-! ## Reverse Polish order of a derived expression -/

/-- An operator groups from the right exactly from the precedence of a power on. -/
theorem isRightAssociative_iff (op : Operator) :
    op.isRightAssociative = true ↔ 3 ≤ op.precedence := by
  rcases op with op | _
  · cases op <;> decide
  · decide

theorem yieldsTo_iff (op waiting : Operator) :
    op.yieldsTo waiting = true ↔ op.precedence < waiting.precedence ∨
      waiting.precedence = op.precedence ∧ op.precedence < 3 := by
  have grouping := isRightAssociative_iff op
  simp only [Operator.yieldsTo, Bool.or_eq_true, Bool.and_eq_true, decide_eq_true_eq,
    Bool.not_eq_true', ← Bool.not_eq_true, grouping, Nat.not_le]

/-- Nothing that stands in the stratum releases the operator that has waited the shortest. -/
def Stratum.Keeps (s : Stratum) (waiting : List Operator) : Prop :=
  ∀ op : Operator, s.precedence ≤ op.precedence → waiting.takeWhile op.yieldsTo = []

theorem Stratum.Keeps.mono {s s' : Stratum} {waiting : List Operator} (keeps : s.Keeps waiting)
    (le : s.precedence ≤ s'.precedence) : s'.Keeps waiting :=
  fun op bound => keeps op (Nat.le_trans le bound)

theorem Stratum.keeps_nil (s : Stratum) : s.Keeps [] := fun _ _ => rfl

/-- An operand of the stratum may follow an operator that binds looser, or one as tight that groups
from the right. -/
theorem Stratum.keeps_cons {s : Stratum} {waiting : List Operator} {o : Operator}
    (bound : o.precedence < s.precedence ∨ o.precedence = s.precedence ∧ 3 ≤ o.precedence) :
    s.Keeps (o :: waiting) := by
  intro op above
  have stays : ¬ op.yieldsTo o = true := by
    rw [yieldsTo_iff]
    omega
  simp [stays]

/-- The tokens of a tree bring it into reverse Polish order up to the operators `pending`, all of
them at least as tight as the stratum. -/
def Emits (s : Stratum) (ts : List Token) (t : Tree) : Prop :=
  ∀ waiting outer rest, s.Keeps waiting → ∃ emitted pending,
    t.postorder = emitted ++ pending.map .operator ∧
    (∀ p ∈ pending, s.precedence ≤ p.precedence) ∧
    polishFrom waiting outer (ts ++ rest) = emitted ++ polishFrom (pending ++ waiting) outer rest

theorem Emits.loosen {s s' : Stratum} {ts : List Token} {t : Tree} (emits : Emits s ts t)
    (le : s'.precedence ≤ s.precedence) : Emits s' ts t := by
  intro waiting outer rest keeps
  obtain ⟨emitted, pending, order, bound, reads⟩ := emits waiting outer rest (keeps.mono le)
  exact ⟨emitted, pending, order, fun p member => Nat.le_trans le (bound p member), reads⟩

/-- A binary operator between operands of the strata `l` and `r`: it releases all that is pending
of the left operand, and nothing in the right operand releases it. -/
theorem Emits.binary {s l r : Stratum} {ts us : List Token} {t u : Tree} {op : BinaryOperator}
    (left : Emits l ts t) (right : Emits r us u)
    (tight : (Operator.binary op).precedence = s.precedence)
    (bound_left : s.precedence < l.precedence ∨ s.precedence = l.precedence ∧ s.precedence < 3)
    (bound_right : s.precedence < r.precedence ∨ s.precedence = r.precedence ∧ 3 ≤ s.precedence) :
    Emits s (ts ++ .operator (.binary op) :: us) (.binary op t u) := by
  intro waiting outer rest keeps
  obtain ⟨emitted, pending, order, bound, reads⟩ :=
    left waiting outer (.operator (.binary op) :: us ++ rest) (keeps.mono (by omega))
  obtain ⟨emitted', pending', order', bound', reads'⟩ :=
    right (.binary op :: waiting) outer rest (Stratum.keeps_cons (by omega))
  -- the operator releases what is pending of its left operand, and nothing that waited before
  have yields : ∀ p ∈ pending, (Operator.binary op).yieldsTo p = true := by
    intro p member
    have above := bound p member
    rw [yieldsTo_iff]
    omega
  have stop := keeps (.binary op) (Nat.le_of_eq tight.symm)
  have released := takeWhile_append_of_stop yields stop
  have stay := dropWhile_append_of_stop yields stop
  refine ⟨emitted ++ pending.map .operator ++ emitted', pending' ++ [.binary op], ?_, ?_, ?_⟩
  · simp [Tree.postorder, order, order']
  · intro p member
    rcases List.mem_append.mp member with inner | own
    · have above := bound' p inner
      omega
    · rw [List.mem_singleton.mp own]
      exact Nat.le_of_eq tight.symm
  · rw [List.append_assoc, reads, List.cons_append, polishFrom, released, stay, reads']
    simp

theorem emits_of_derives {s : Stratum} {ts : List Token} {t : Tree} (h : Derives s ts t) :
    Emits s ts t := by
  induction h with
  | literal text => exact fun waiting outer rest _ => ⟨[.literal text], [], rfl, by simp, rfl⟩
  | group _ ih =>
    intro waiting outer rest _
    -- inside the parentheses nothing is waiting at first, and the closing one releases all
    obtain ⟨emitted, pending, order, _, reads⟩ :=
      ih [] (waiting :: outer) (.closing :: rest) (Stratum.keeps_nil _)
    refine ⟨emitted ++ pending.map .operator, [], by simp [order], by simp, ?_⟩
    simp only [List.cons_append, List.append_assoc, List.nil_append, polishFrom, reads,
      List.append_nil, List.headD_cons, List.tail_cons]
  | root _ ih =>
    intro waiting outer rest keeps
    obtain ⟨emitted, pending, order, bound, reads⟩ := ih (.root :: waiting) outer rest
      (Stratum.keeps_cons (.inr (by decide)))
    -- a root releases nothing and waits itself until its operand is complete
    have released := keeps .root (Nat.le_refl 4)
    have stay := dropWhile_eq_self released
    refine ⟨emitted, pending ++ [.root], by simp [Tree.postorder, order], ?_, ?_⟩
    · intro p member
      rcases List.mem_append.mp member with inner | own
      · exact bound p inner
      · rw [List.mem_singleton.mp own]
        exact Nat.le_refl 4
    · rw [List.cons_append, polishFrom, released, stay, reads]
      simp
  | primary _ ih => exact ih.loosen (by decide)
  | prefixed _ ih => exact ih.loosen (by decide)
  | single _ ih => exact ih.loosen (by decide)
  | alone _ ih => exact ih.loosen (by decide)
  | power _ _ ihl ihr => exact ihl.binary ihr rfl (by decide) (by decide)
  | product joins _ _ ihl ihr =>
    rcases joins with rfl | rfl
    all_goals exact ihl.binary ihr rfl (by decide) (by decide)
  | sum joins _ _ ihl ihr =>
    rcases joins with rfl | rfl
    all_goals exact ihl.binary ihr rfl (by decide) (by decide)

theorem polish_of_derives {ts : List Token} {t : Tree} (h : Derives .sum ts t) :
    polish ts = t.postorder := by
  obtain ⟨emitted, pending, order, _, reads⟩ :=
    emits_of_derives h [] [] [] (Stratum.keeps_nil _)
  rw [List.append_nil] at reads
  rw [polish, reads, order]
  simp [polishFrom]

/-! ## The machine and recursive descent -/

/-- An expression of the grammar whose literals all denote numbers runs to the value that recursive
descent computes; otherwise its fault is the leftmost literal that denotes none. What the numbers
and the operations on them are plays no part. -/
theorem run_polish_of_derives {α : Type} [Arithmetic α] {ts : List Token} {t : Tree}
    (h : Derives .sum ts t) :
    (ts.findSome? (Token.unreadable? α) = none →
      ∃ x : α, Machine.run (polish ts) = .ok x ∧ Descent.value? ts = some x) ∧
    ∀ text, ts.findSome? (Token.unreadable? α) = some text →
      (Machine.run (polish ts) : Except Fault α) = .error (.malformedNumber text) := by
  rw [polish_of_derives h, Machine.run_postorder, h.findSome?_unreadable?]
  constructor
  · intro readable
    obtain ⟨x, evaluated⟩ := t.value_of_readable readable
    exact ⟨x, evaluated, Descent.value?_of_derives h evaluated⟩
  · exact fun text unreadable => t.value_of_unreadable unreadable

/-- The tokens of `√4*(1-2)^3`, on doubles. -/
theorem run_polish_of_derives_rooted_product :
    let ts : List Token := [.operator .root, .literal ['4'], .operator (.binary .mul), .opening,
      .literal ['1'], .operator (.binary .sub), .literal ['2'], .closing,
      .operator (.binary .pow), .literal ['3']]
    ∃ x : Double, Machine.run (polish ts) = .ok x ∧ Descent.value? ts = some x := by
  have one : Derives .sum [.literal ['1']] (.literal ['1']) :=
    .alone (.single (.prefixed (.primary (.literal _))))
  have two : Derives .product [.literal ['2']] (.literal ['2']) :=
    .single (.prefixed (.primary (.literal _)))
  have three : Derives .power [.literal ['3']] (.literal ['3']) :=
    .prefixed (.primary (.literal _))
  have root : Derives .product [.operator .root, .literal ['4']] (.root (.literal ['4'])) :=
    .single (.prefixed (.root (.primary (.literal _))))
  have difference := Derives.primary (.group (.sum (.inr rfl) one two))
  exact (run_polish_of_derives (.alone (.product (.inl rfl) root (.power difference three)))).1
    (by decide)

end DeskCalculator
