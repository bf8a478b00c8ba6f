import Mathlib.Tactic

/-!
# Binary search

The size-halving search of a sorted list by a three-way comparison with the wanted element.
-/

namespace Base

variable {α : Type}

/-- Halve the window of `size` elements from `base` on, keeping the last not greater one. -/
def searchBase (cmp : α → Ordering) (l : List α) (size base : Nat) : Nat :=
  if size ≤ 1 then base
  else
    let half := size / 2
    let mid := base + half
    searchBase cmp l (size - half) (if l[mid]?.map cmp = some .gt then base else mid)
termination_by size

def binarySearchBy (cmp : α → Ordering) (l : List α) : Option Nat :=
  let base := searchBase cmp l l.length 0
  if l[base]?.map cmp = some .eq then some base else none

end Base
