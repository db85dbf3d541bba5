import DeskCalculator.Number.Decimal

/-!
# The shortest decimal of a double

The shortest decimal that reads back to a given double. On the grid of decimals with a given
number of digits only the two neighbours of the exact value can be nearest to it, so the search
tries those two, the nearer first, for one digit, two digits and so on. Seventeen digits always
suffice.
-/
namespace DeskCalculator

namespace Decimal

/-- The two neighbours of a positive number among the decimals with so many digits, the nearer
first; a number half-way has the greater one first. -/
def neighbours (digits : Nat) (x : Rat) : List Decimal :=
  let place := lastPlace digits x
  let scaled := x / (10 : Rat) ^ place
  let below := scaled.floor.toNat
  if scaled - below < 1 / 2 then [⟨below, place⟩, ⟨below + 1, place⟩]
  else [⟨below + 1, place⟩, ⟨below, place⟩]

end Decimal

namespace FiniteDouble

def readsBack (x : FiniteDouble) (d : Decimal) : Bool :=
  decide (d.toDouble x.negative = .finite x)

/-- The shortest decimal that reads back to a double other than zero, without trailing zeros. -/
def shortest (x : FiniteDouble) : Decimal :=
  let found := (List.range 17).findSome? fun count =>
    (Decimal.neighbours (count + 1) x.magnitude).find? x.readsBack
  (found.getD (.nearest 17 x.magnitude)).normalize

end FiniteDouble

end DeskCalculator
