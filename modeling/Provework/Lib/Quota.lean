import Mathlib.Algebra.Order.BigOperators.Group.Finset
import Mathlib.Algebra.Order.BigOperators.Group.List
import Mathlib.Algebra.Order.Ring.Nat
import Mathlib.Order.Interval.Finset.Nat

/-!
# Quotas

Items come from numbered sources, at most `quota` from each. Then there are at most
as many as the sources allow together, and what they weigh is bounded with them.
-/

namespace Provework.Lib

variable {α : Type} {source weight : α → Nat} {items : List α} {lo hi quota size : Nat}

end Provework.Lib
