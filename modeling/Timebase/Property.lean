import Timebase.Time.Instant
/-!
# Properties

Named values that describe a state, in groups nested to any depth, and their flat list: one entry
for each property that is not a group, under the names that lead to it.
-/

namespace Timebase

inductive Property where
  | flag (name : String) (value : Bool)
  | count (name : String) (value : Nat)
  | time (name : String) (value : Instant)
  | group (name : String) (members : List Property)

namespace Property

def name : Property → String
  | .flag name _ | .count name _ | .time name _ | .group name _ => name

/-- Text of the value alone. -/
def text : Property → String
  | .flag _ value => if value then "yes" else "no"
  | .count _ value => toString value
  | .time _ value => value.text
  | .group _ members => "(" ++ toString members.length ++ " properties)"

/-- A name inside a group; the outermost level has no name to show. -/
def path (outer name : String) : String :=
  if outer.isEmpty then name else outer ++ " / " ++ name

mutual

/-- Entries of one property inside a group. -/
def entries (outer : String) : Property → List (String × String)
  | .group name members => entriesOf (path outer name) members
  | .flag name value => [(path outer name, (flag name value).text)]
  | .count name value => [(path outer name, (count name value).text)]
  | .time name value => [(path outer name, (time name value).text)]

/-- Entries of properties inside a group, depth first. -/
def entriesOf (outer : String) : List Property → List (String × String)
  | [] => []
  | p :: rest => entries outer p ++ entriesOf outer rest

end

/-- The flat list of properties at the outermost level. -/
def flatten (properties : List Property) : List (String × String) := entriesOf "" properties

end Property
end Timebase
