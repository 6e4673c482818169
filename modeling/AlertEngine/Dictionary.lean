import Std.Data.ExtTreeMap

/-!
# Dictionaries

Associations keep their entries in ascending order of the keys, and two of them are equal as soon
as they answer every look-up alike.
-/

namespace AlertEngine

abbrev Dictionary (α : Type) := Std.ExtTreeMap String α

/-- The dictionary with the given entries, where the last one of a key counts. -/
def Dictionary.ofEntries {α : Type} (entries : List (String × α)) : Dictionary α :=
  entries.foldl (fun d e => d.insert e.1 e.2) ∅

end AlertEngine
