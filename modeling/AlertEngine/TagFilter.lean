import AlertEngine.Dictionary
import AlertEngine.Error
import AlertEngine.Text.Basic

/-!
# Tag filters

Conditions on the tags of a metric, such as `host^=web` or `idc!=[bj|sh]`.

* `TagFilter`: a key, a kind of match and the values to match against.
* `TagFilter.compile`: one filter from its key part and its value part.
* `TagFilter.parse`: the filters of a text, with commas between them.
* `TagFilter.admits`, `TagFilter.accepts`: whether a value, or a set of tags, meets a filter.
-/

namespace AlertEngine

inductive TagMatch where
  | equal
  | notEqual
  | startsWith
  | endsWith
  | contains
deriving DecidableEq, Repr

namespace TagMatch

def ofMarker? : Char → Option TagMatch
  | '^' => some startsWith
  | '$' => some endsWith
  | '*' => some contains
  | '!' => some notEqual
  | _ => none

/-- Whether a value matches a needle; of `notEqual` this is the equality that is forbidden. -/
def hits (kind : TagMatch) (value needle : String) : Bool :=
  match kind with
  | equal => value == needle
  | notEqual => value == needle
  | startsWith => needle.toList.isPrefixOf value.toList
  | endsWith => needle.toList.isSuffixOf value.toList
  | contains => Text.isInfix needle.toList value.toList

end TagMatch

structure TagFilter where
  key : String
  kind : TagMatch
  needles : List String
deriving DecidableEq, Repr

namespace TagFilter

def cutMarker (key : List Char) : List Char × TagMatch :=
  match key.getLast? with
  | none => (key, .equal)
  | some c =>
    match TagMatch.ofMarker? c with
    | some kind => (key.dropLast, kind)
    | none => (key, .equal)

def needlesOf (value : List Char) : List (List Char) :=
  match (Text.stripFirst? '[' value).bind (Text.stripLast? ']') with
  | some inner => (Text.splitOn '|' inner).map Text.trim
  | none => [value]

/-- The key part and the value part of a filter. A key that comes without a value and has an equals
sign with something behind it is both in one. -/
def cutKey (key value : List Char) : List Char × List Char :=
  match Text.cutAt? '=' key with
  | some (k, rest) => if value.isEmpty && !rest.isEmpty then (k, rest) else (key, value)
  | none => (key, value)

/-- A filter from its key part, with a marker for the kind of match at its end, and its value
part. One equals sign may stand behind the marker. -/
def compileChars (key value : List Char) : Except RuleError TagFilter :=
  let (key, value) := cutKey key value
  let key := Text.trim key
  let key := (Text.stripLast? '=' key).getD key
  let (key, kind) := cutMarker key
  let key := Text.trim key
  if key.isEmpty then .error (.malformedTagFilter (String.ofList (key ++ '=' :: value)))
  else .ok ⟨String.ofList key, kind, (needlesOf (Text.trim value)).map String.ofList⟩

def compile (key value : String) : Except RuleError TagFilter :=
  compileChars key.toList value.toList

def parseOne (text : List Char) : Except RuleError TagFilter :=
  match Text.cutAt? '=' text with
  | some (key, value) => compileChars key value
  | none => .error (.malformedTagFilter (String.ofList text))

/-- The filters of a text, with commas between them; what is blank between two commas is passed
over. -/
def parse (text : String) : Except RuleError (List TagFilter) :=
  (((Text.splitOn ',' text.toList).map Text.trim).filter fun part => !part.isEmpty).mapM parseOne

/-- Whether a value of the tag meets a filter. An empty value is different from nothing that is not
empty. -/
def admits (f : TagFilter) (value : String) : Bool :=
  match f.kind with
  | .notEqual =>
    !(value.isEmpty && f.needles.any fun n => !n.isEmpty) &&
      !f.needles.any (f.kind.hits value)
  | kind => f.needles.any (kind.hits value)

def accepts (f : TagFilter) (tags : Dictionary String) : Bool :=
  match tags[f.key]? with
  | some value => f.admits value
  | none => false

end TagFilter

end AlertEngine
