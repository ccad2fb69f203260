/-!
What searches find, and whether they find everything.
-/

namespace Horn

/-- What a search finds, and whether it finds everything. -/
structure Found (α : Type) where
  results : List α
  complete : Bool

namespace Found

def one (a : α) : Found α := ⟨[a], true⟩

def union (fs : List (Found α)) : Found α := ⟨fs.flatMap (·.results), fs.all (·.complete)⟩

def most : Nat := 512

/-- The first results, as many as are kept at most. -/
def cut (f : Found α) : Found α :=
  if most < f.results.length then ⟨f.results.take most, false⟩ else f

/-- What a further search finds from each result. -/
def andThen (f : Found α) (g : α → Found β) : Found β :=
  let gs := union (f.results.map g)
  cut ⟨gs.results, f.complete && gs.complete⟩

end Found

end Horn
