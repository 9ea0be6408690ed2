import Formulary.Expression

/-!
# The cache of a compiler

A cache keeps the expressions of the texts that were used last, at most as many as its capacity. Its
entries are in the order of their last use, the latest first: using an entry moves it to the front,
and an entry that is put in front may push the one at the end out. A cache of capacity zero keeps
nothing.
-/

set_option autoImplicit false
set_option relaxedAutoImplicit false

namespace Formulary

/-- The expressions of the texts that were used last, the latest first. -/
structure Cache where
  capacity : Nat
  entries : List (String × Expression)

namespace Cache

/-- The cache that keeps nothing yet. -/
def empty (capacity : Nat) : Cache := ⟨capacity, []⟩

/-- The expression that is kept for a text. -/
def find? (cache : Cache) (text : String) : Option Expression := cache.entries.lookup text

/-- Puts an expression in front as the one for a text. An earlier one for the text is dropped, and
the entries beyond the capacity are dropped as well. -/
def put (cache : Cache) (text : String) (expression : Expression) : Cache :=
  { cache with
    entries := ((text, expression) :: cache.entries.filter (·.1 != text)).take cache.capacity }

/-- Drops all entries. -/
def clear (cache : Cache) : Cache := .empty cache.capacity

theorem length_entries_put_le (cache : Cache) (text : String) (expression : Expression) :
    (cache.put text expression).entries.length ≤ cache.capacity :=
  List.length_take_le _ _

end Cache

end Formulary
