/-!
# The journal of a compilation

What a compilation did, line by line. A journal has a capacity; when it is full the oldest record makes
room for the newest, and the journal counts what it gave up.
-/

namespace Cityscape

/-- A message and the source line it is about. -/
structure Record where
  line : Nat
  message : String
  deriving DecidableEq, Repr

/-- The newest records, oldest first, and how many older ones were given up. Specification, section 10.3. -/
structure Journal where
  capacity : Nat
  records : List Record := []
  dropped : Nat := 0
  deriving DecidableEq, Repr

namespace Journal

/-- The records a journal keeps unless told otherwise. Specification, section 10.4. -/
def defaultCapacity : Nat := 256

/-- A journal without records. -/
def empty (capacity : Nat) : Journal :=
  { capacity }

/-- Adds a record; a full journal gives up its oldest one, and one without capacity the new one. -/
def record (journal : Journal) (line : Nat) (message : String) : Journal :=
  if journal.capacity = 0 then
    { journal with dropped := journal.dropped + 1 }
  else if journal.capacity ≤ journal.records.length then
    { journal with
      records := journal.records.drop 1 ++ [⟨line, message⟩]
      dropped := journal.dropped + 1 }
  else
    { journal with records := journal.records ++ [⟨line, message⟩] }

/-- The records kept. -/
def size (journal : Journal) : Nat :=
  journal.records.length

/-- Whether no record is kept. -/
def isEmpty (journal : Journal) : Bool :=
  journal.records.isEmpty

/-- One line for each record, after a line for those that were dropped. -/
def render (journal : Journal) : List String :=
  let lines := journal.records.map fun r ↦ "line " ++ toString r.line ++ ": " ++ r.message
  if journal.dropped = 0 then lines
  else ("(" ++ toString journal.dropped ++ " earlier messages dropped)") :: lines

end Journal

end Cityscape
