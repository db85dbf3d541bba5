import DeskCalculator.Proofs.Tree

/-!
# The grammar of expressions

Written with the loosest stratum first, where a star stands for any number of repetitions:

    sum       =  product (('+' | '-') product)*
    product   =  power (('*' | '/') power)*
    power     =  prefixed ('^' power)?
    prefixed  =  '√' prefixed | primary
    primary   =  literal | '(' sum ')'

`Derives` is this grammar together with the tree that each derivation stands for.
-/
namespace DeskCalculator

inductive Stratum where
  | sum
  | product
  | power
  | prefixed
  | primary
deriving DecidableEq

/-- The least precedence of an operator that stands in a stratum outside parentheses. -/
def Stratum.precedence : Stratum → Nat
  | sum => 1
  | product => 2
  | power => 3
  | prefixed => 4
  | primary => 5

/-- The tokens form an expression of the stratum, and the tree is its structure. -/
inductive Derives : Stratum → List Token → Tree → Prop
  | literal (text : List Char) : Derives .primary [.literal text] (.literal text)
  | group {ts t} : Derives .sum ts t → Derives .primary (.opening :: ts ++ [.closing]) t
  | primary {ts t} : Derives .primary ts t → Derives .prefixed ts t
  | root {ts t} : Derives .prefixed ts t → Derives .prefixed (.operator .root :: ts) (.root t)
  | prefixed {ts t} : Derives .prefixed ts t → Derives .power ts t
  | power {ts us t u} : Derives .prefixed ts t → Derives .power us u →
      Derives .power (ts ++ .operator (.binary .pow) :: us) (.binary .pow t u)
  | single {ts t} : Derives .power ts t → Derives .product ts t
  | product {op ts us t u} : op = .mul ∨ op = .div → Derives .product ts t → Derives .power us u →
      Derives .product (ts ++ .operator (.binary op) :: us) (.binary op t u)
  | alone {ts t} : Derives .product ts t → Derives .sum ts t
  | sum {op ts us t u} : op = .add ∨ op = .sub → Derives .sum ts t → Derives .product us u →
      Derives .sum (ts ++ .operator (.binary op) :: us) (.binary op t u)

variable {α : Type} [Arithmetic α]

theorem Derives.ne_nil {s : Stratum} {ts : List Token} {t : Tree} (h : Derives s ts t) :
    ts ≠ [] := by
  induction h with
  | literal | group | root => exact List.cons_ne_nil _ _
  | power | product | sum => simp
  | primary _ ih | prefixed _ ih | single _ ih | alone _ ih => exact ih

/-- A tree has its literals in the order in which they are written. -/
theorem Derives.findSome?_unreadable? {s : Stratum} {ts : List Token} {t : Tree}
    (h : Derives s ts t) : ts.findSome? (Token.unreadable? α) = t.unreadable? α := by
  induction h with
  | literal text => simp [Tree.unreadable?]
  | group _ ih => simp [List.findSome?_cons, List.findSome?_append, ih, Token.unreadable?]
  | root _ ih => simp [List.findSome?_cons, ih, Token.unreadable?, Tree.unreadable?]
  | power _ _ ihl ihr | product _ _ _ ihl ihr | sum _ _ _ ihl ihr =>
    simp [List.findSome?_append, List.findSome?_cons, ihl, ihr, Token.unreadable?,
      Tree.unreadable?]
  | primary _ ih | prefixed _ ih | single _ ih | alone _ ih => exact ih

end DeskCalculator
