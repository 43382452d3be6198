import HookLint.Data.Value
import HookLint.Syntax.Node

/-!
# Encoding — syntax trees as values

A node is an array of its field, its kind, its flags, its byte range and its children, which are
left out if there are none.  The flags add up: 1 for a rule of the grammar, 2 for a token that the
parser supplied, 4 for a tree that holds an error.
-/

namespace HookLint.Syntax.Node

/-- The node with the given entries. -/
def ofEntries (field kind : String) (flags start stop : Int) (children : List Node) : Node where
  kind := .ofName kind
  field := Field.ofName? field
  named := flags.toNat.testBit 0
  missing := flags.toNat.testBit 1
  broken := flags.toNat.testBit 2
  start := start.toNat
  stop := stop.toNat
  children := children

mutual

/-- The tree that a value encodes. -/
def ofValue? : Value → Option Node
  | .array [.string field, .string kind, .int flags, .int start, .int stop] =>
    some (ofEntries field kind flags start stop [])
  | .array [.string field, .string kind, .int flags, .int start, .int stop, .array children] =>
    (ofValues? children).map (ofEntries field kind flags start stop)
  | _ => none

/-- The trees that values encode. -/
def ofValues? : List Value → Option (List Node)
  | [] => some []
  | v :: vs => do some ((← ofValue? v) :: (← ofValues? vs))

end

end HookLint.Syntax.Node
