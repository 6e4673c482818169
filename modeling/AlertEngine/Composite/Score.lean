import AlertEngine.Binary64

/-!
# Scores

The score of a group is the sum of the weights of the rules that fail in it. A rule counts once,
with the highest weight under which it fails.

* `ScoreItem`: one rule failing on one series.
* `bestWeights`: the highest weight of every rule, in the order in which the rules first come.
* `score`: their sum.
-/

namespace AlertEngine

/-- A rule that fails on a series. -/
structure ScoreItem where
  ruleKey : String
  ruleHash : String
  weight : Float
  value : Float
  identity : String
  timestamp : Int64
deriving DecidableEq

namespace ScoreItem

/-- Some highest weights after one more weight of a rule. The highest weight of a rule starts from
the most negative finite double, and NaN never raises it. -/
def raise (hash : String) (weight : Float) : List (String × Float) → List (String × Float)
  | [] => [(hash, Binary64.larger Binary64.lowest weight)]
  | (h, best) :: rest =>
    if h = hash then (h, Binary64.larger best weight) :: rest
    else (h, best) :: raise hash weight rest

def bestWeights (items : List ScoreItem) : List (String × Float) :=
  items.foldl (fun best item => raise item.ruleHash item.weight best) []

def score (items : List ScoreItem) : Float := Binary64.sum ((bestWeights items).map Prod.snd)

end ScoreItem

end AlertEngine
