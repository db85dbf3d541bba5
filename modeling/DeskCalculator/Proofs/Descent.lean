import DeskCalculator.Proofs.Grammar

/-!
# Recursive descent

Reads the grammar of expressions from left to right: one function for each stratum takes what it
can from the front of the tokens and computes as it goes.
-/
namespace DeskCalculator

namespace Descent

variable {α : Type} [Arithmetic α]

-- What is read is never empty. The tests of a length say no more than that; they are what shows
-- that the recursion ends.
mutual

/-- Reads a sum and gives its value with the tokens behind it. -/
def sum (ts : List Token) : Option (α × List Token) :=
  match product ts with
  | some (x, rest) => if rest.length < ts.length then moreSum x rest else none
  | none => none
termination_by (ts.length, 6)

/-- Reads on behind a sum of the value `x`, as long as a plus or a minus follows. -/
def moreSum (x : α) : List Token → Option (α × List Token)
  | .operator (.binary op) :: ts =>
    if op = .add ∨ op = .sub then
      match product ts with
      | some (y, rest) =>
        if rest.length < ts.length then moreSum (Arithmetic.binary op x y) rest else none
      | none => none
    else some (x, .operator (.binary op) :: ts)
  | ts => some (x, ts)
termination_by ts => (ts.length, 0)

def product (ts : List Token) : Option (α × List Token) :=
  match power ts with
  | some (x, rest) => if rest.length < ts.length then moreProduct x rest else none
  | none => none
termination_by (ts.length, 5)

/-- Reads on behind a product of the value `x`, as long as it is multiplied or divided. -/
def moreProduct (x : α) : List Token → Option (α × List Token)
  | .operator (.binary op) :: ts =>
    if op = .mul ∨ op = .div then
      match power ts with
      | some (y, rest) =>
        if rest.length < ts.length then moreProduct (Arithmetic.binary op x y) rest else none
      | none => none
    else some (x, .operator (.binary op) :: ts)
  | ts => some (x, ts)
termination_by ts => (ts.length, 0)

/-- Reads a power; the exponent is read to its end before the base is raised. -/
def power (ts : List Token) : Option (α × List Token) :=
  match prefixed ts with
  | some (x, .operator (.binary .pow) :: rest) =>
    if rest.length < ts.length then
      (power rest).map fun (y, rest) => (Arithmetic.binary .pow x y, rest)
    else none
  | read => read
termination_by (ts.length, 4)

/-- Reads a primary expression behind any number of roots. -/
def prefixed : List Token → Option (α × List Token)
  | .operator .root :: ts => (prefixed ts).map fun (x, rest) => (Arithmetic.root x, rest)
  | ts => primary ts
termination_by ts => (ts.length, 3)

/-- Reads a literal or a sum in parentheses. -/
def primary : List Token → Option (α × List Token)
  | .literal text :: ts => (Arithmetic.literal? text).map fun x => (x, ts)
  | .opening :: ts =>
    match sum ts with
    | some (x, .closing :: rest) => some (x, rest)
    | _ => none
  | _ => none
termination_by ts => (ts.length, 2)

end

def value? (ts : List Token) : Option α :=
  match sum ts with
  | some (x, []) => some x
  | _ => none

/-- No binary operator of the precedence `limit` or above comes first. -/
def EndsBelow (limit : Nat) (rest : List Token) : Prop :=
  ∀ op tail, rest = .operator (.binary op) :: tail → (Operator.binary op).precedence < limit

theorem EndsBelow.mono {low high : Nat} {rest : List Token} (ends : EndsBelow low rest)
    (le : low ≤ high) : EndsBelow high rest :=
  fun op tail same => Nat.lt_of_lt_of_le (ends op tail same) le

theorem endsBelow_nil (limit : Nat) : EndsBelow limit [] := by
  intro op tail same
  cases same

theorem endsBelow_closing (limit : Nat) (rest : List Token) :
    EndsBelow limit (.closing :: rest) := by
  intro op tail same
  cases same

theorem endsBelow_operator {limit : Nat} {op : BinaryOperator}
    (looser : (Operator.binary op).precedence < limit) (rest : List Token) :
    EndsBelow limit (.operator (.binary op) :: rest) := by
  intro op tail same
  cases same
  exact looser

theorem moreSum_stops {rest : List Token} (ends : EndsBelow 1 rest) (x : α) :
    moreSum x rest = some (x, rest) := by
  unfold moreSum
  split
  · next op tail =>
    have loose := ends op tail rfl
    rw [if_neg (by rintro (rfl | rfl) <;> simp [Operator.precedence] at loose)]
  · rfl

theorem moreProduct_stops {rest : List Token} (ends : EndsBelow 2 rest) (x : α) :
    moreProduct x rest = some (x, rest) := by
  unfold moreProduct
  split
  · next op tail =>
    have loose := ends op tail rfl
    rw [if_neg (by rintro (rfl | rfl) <;> simp [Operator.precedence] at loose)]
  · rfl

/-- A primary expression does not start with a root. -/
theorem prefixed_of_primary {ts : List Token} {t : Tree} (h : Derives .primary ts t)
    (rest : List Token) :
    (prefixed (ts ++ rest) : Option (α × List Token)) = primary (ts ++ rest) := by
  cases h with
  | literal text => rw [List.singleton_append, prefixed]; simp
  | group h => rw [List.cons_append, List.cons_append, prefixed]; simp

theorem power_stops {ts rest : List Token} {x : α} (ends : EndsBelow 3 rest)
    (reads : prefixed ts = some (x, rest)) : power ts = some (x, rest) := by
  rw [power, reads]
  split
  · next y tail same =>
    cases same
    exact absurd (ends .pow tail rfl) (by decide)
  · rfl

/-- How an expression of the value `x` is read in each stratum. A sum or a product goes on with
what follows; the others end with the expression. -/
def Reads (ts : List Token) (x : α) : Stratum → Prop
  | .sum => ∀ rest, EndsBelow 2 rest → sum (ts ++ rest) = moreSum x rest
  | .product => ∀ rest, EndsBelow 3 rest → product (ts ++ rest) = moreProduct x rest
  | .power => ∀ rest, EndsBelow 3 rest → power (ts ++ rest) = some (x, rest)
  | .prefixed => ∀ rest, prefixed (ts ++ rest) = some (x, rest)
  | .primary => ∀ rest, primary (ts ++ rest) = some (x, rest)

theorem reads_of_derives {s : Stratum} {ts : List Token} {t : Tree} (h : Derives s ts t) {x : α}
    (value : t.value = .ok x) : Reads ts x s := by
  -- what may follow is left open: the enclosing stratum decides how to go on
  induction h generalizing x with
  | literal text =>
    intro rest
    cases denoted : (Arithmetic.literal? text : Option α) with
    | none => simp [Tree.value, denoted] at value
    | some y =>
      have same : y = x := by simpa [Tree.value, denoted] using value
      simp [primary, denoted, same]
  | group _ ih =>
    intro rest
    -- the closing parenthesis stops the sum inside
    have inner := ih value (.closing :: rest) (endsBelow_closing 2 rest)
    rw [moreSum_stops (endsBelow_closing 1 rest)] at inner
    simp [primary, inner]
  | primary h ih => exact fun rest => (prefixed_of_primary h rest).trans (ih value rest)
  | root _ ih =>
    intro rest
    obtain ⟨y, operand, root⟩ := Tree.value_root value
    rw [List.cons_append, prefixed, ih operand rest]
    simp [root]
  | prefixed _ ih => exact fun rest ends => power_stops ends (ih value rest)
  | @power ts us _ _ _ _ ihl ihr =>
    intro rest ends
    obtain ⟨y, z, left, right, applied⟩ := Tree.value_binary value
    -- the exponent is read first, as far as it goes
    have exponent := ihr right rest ends
    have shorter : (us ++ rest).length <
        (ts ++ .operator (.binary .pow) :: (us ++ rest)).length := by
      simp only [List.length_append, List.length_cons]
      omega
    rw [List.append_assoc, List.cons_append, power, ihl left]
    simp only [shorter, ↓reduceIte, exponent, Option.map_some, applied]
  | single h ih =>
    intro rest ends
    have shorter := List.length_pos_iff.mpr h.ne_nil
    rw [product, ih value rest ends]
    simp [shorter]
  | @product op ts us _ _ joins _ hr ihl ihr =>
    intro rest ends
    obtain ⟨y, z, left, right, applied⟩ := Tree.value_binary value
    have loose : (Operator.binary op).precedence < 3 := by rcases joins with rfl | rfl <;> decide
    -- one more factor is read behind those read so far
    have factor := ihr right rest ends
    have shorter := List.length_pos_iff.mpr hr.ne_nil
    rw [List.append_assoc, List.cons_append, ihl left _ (endsBelow_operator loose _), moreProduct]
    simp [joins, factor, shorter, applied]
  | alone h ih =>
    intro rest ends
    have shorter := List.length_pos_iff.mpr h.ne_nil
    have read := ih value rest (ends.mono (by decide))
    rw [moreProduct_stops ends] at read
    rw [sum, read]
    simp [shorter]
  | @sum op ts us _ _ joins _ hr ihl ihr =>
    intro rest ends
    obtain ⟨y, z, left, right, applied⟩ := Tree.value_binary value
    have loose : (Operator.binary op).precedence < 2 := by rcases joins with rfl | rfl <;> decide
    -- one more summand is read behind those read so far
    have summand := ihr right rest (ends.mono (by decide))
    rw [moreProduct_stops ends] at summand
    have shorter := List.length_pos_iff.mpr hr.ne_nil
    rw [List.append_assoc, List.cons_append, ihl left _ (endsBelow_operator loose _), moreSum]
    simp [joins, summand, shorter, applied]

/-- A whole expression whose literals denote numbers is read to the value of its tree. -/
theorem value?_of_derives {ts : List Token} {t : Tree} (h : Derives .sum ts t) {x : α}
    (value : t.value = .ok x) : value? ts = some x := by
  have read := reads_of_derives h value [] (endsBelow_nil 2)
  rw [List.append_nil, moreSum_stops (endsBelow_nil 1)] at read
  simp [value?, read]

end Descent

end DeskCalculator
