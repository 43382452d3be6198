import HookLint.Options.Basic
import HookLint.Options.Readers

/-!
# Validation — from values to options

Every fault of the input is listed, in the order of its location.  Switches take truth values, the
numbers zero and one, and the usual words for yes and no.  A setting under both of its names is
taken from the camel-case one, and the other is an unknown member.
-/

namespace HookLint.Options

open Stability

/-- A step to a part of a value. -/
inductive Segment where
  | name (s : String)
  | index (i : Nat)
deriving DecidableEq, Repr

/-- The text of a step. -/
def Segment.text : Segment → String
  | .name s => s
  | .index i => toString i

/-- What is wrong with a part of a value. -/
inductive ProblemKind where
  /-- The member is no setting. -/
  | unknownMember
  /-- The value is none that could be a switch. -/
  | notSwitch
  /-- The number or word stands for neither yes nor no. -/
  | unclearSwitch
  | notList
  | notTable
  | notText
  /-- The text is no regular expression. -/
  | badPattern
  /-- The pattern asks for too many repetitions. -/
  | excessivePattern
  /-- The options themselves are no object. -/
  | notOptions
deriving DecidableEq, Repr

/-- A fault and its location. -/
structure Problem where
  location : List Segment
  kind : ProblemKind
deriving DecidableEq, Repr

/-- A result, or all the faults that prevent it. -/
abbrev Checked (α : Type) := Except (List Problem) α

namespace Checked

/-- Two results, or the faults of both. -/
def both {α β γ : Type} (f : α → β → γ) : Checked α → Checked β → Checked γ
  | .ok a, .ok b => .ok (f a b)
  | .ok _, .error qs => .error qs
  | .error ps, .ok _ => .error ps
  | .error ps, .error qs => .error (ps ++ qs)

/-- All results, or the faults of all. -/
def all {α : Type} : List (Checked α) → Checked (List α)
  | [] => .ok []
  | c :: cs => both List.cons c (all cs)

/-- The faults, if there is no result. -/
def problems {α : Type} : Checked α → List Problem
  | .ok _ => []
  | .error ps => ps

end Checked

/-! ### Switches -/

/-- The words for yes. -/
def yesWords : List String := ["true", "t", "yes", "y", "on", "1"]

/-- The words for no. -/
def noWords : List String := ["false", "f", "no", "n", "off", "0"]

/-- The switch that a whole number sets.  Numbers beyond 64 bits are none. -/
def switchOfInt (n : Int) : Except ProblemKind Bool :=
  if n = 0 then .ok false
  else if n = 1 then .ok true
  else if -9223372036854775808 ≤ n ∧ n ≤ 9223372036854775807 then .error .unclearSwitch
  else .error .notSwitch

/-- The switch that a value sets. -/
def readSwitch : Value → Except ProblemKind Bool
  | .bool b => .ok b
  | .int n => switchOfInt n
  | .decimal digits exponent =>
    match (Binary64.ofDecimal digits.natAbs exponent).whole? with
    | some n =>
      if n < Binary64.scaleUp 1 63 then switchOfInt (if digits < 0 then -(n : Int) else n)
      else .error .notSwitch
    | none => .error .notSwitch
  | .string s =>
    if yesWords.contains s.toLower then .ok true
    else if noWords.contains s.toLower then .ok false
    else .error .unclearSwitch
  | .null | .mark _ | .array _ | .object _ => .error .notSwitch

/-- The switch that a value at a location sets. -/
def switchAt (location : List Segment) (v : Value) : Checked Bool :=
  match readSwitch v with
  | .ok b => .ok b
  | .error kind => .error [⟨location, kind⟩]

/-! ### Specs of hooks -/

/-- A list of switches. -/
def switchesAt (location : List Segment) : Value → Checked (List Bool)
  | .array items =>
    Checked.all (items.mapIdx fun i v => switchAt (location ++ [.index i]) v)
  | _ => .error [⟨location, .notList⟩]

/-- A table of switches. -/
def tableAt (location : List Segment) : Value → Checked (Assoc String Bool)
  | .object members =>
    Checked.all (members.map fun m => (switchAt (location ++ [.name m.1]) m.2).map (m.1, ·))
  | _ => .error [⟨location, .notTable⟩]

/-- A spec: a switch, a list of switches or a table of switches.  If a value is none of the three,
it has the faults of all three readings. -/
def specAt (location : List Segment) (v : Value) : Checked Spec :=
  let whole := switchAt (location ++ [.name "bool"]) v
  let positions := switchesAt (location ++ [.name "list[bool]"]) v
  let keys := tableAt (location ++ [.name "dict[str,bool]"]) v
  match whole, positions, keys with
  | .ok b, _, _ => .ok (.whole b)
  | _, .ok bs, _ => .ok (.positions bs)
  | _, _, .ok ks => .ok (.keys ks)
  | .error ps, .error qs, .error rs => .error (ps ++ qs ++ rs)

/-- The specs of hooks by their names. -/
def specsAt (location : List Segment) : Value → Checked (Assoc String Spec)
  | .object members =>
    Checked.all (members.map fun m => (specAt (location ++ [.name m.1]) m.2).map (m.1, ·))
  | _ => .error [⟨location, .notTable⟩]

/-- A pattern, or nothing. -/
def patternAt (readers : Readers) (location : List Segment) : Value → Checked (Option Pattern)
  | .null => .ok none
  | .string s =>
    match readers.pattern s with
    | .ok search => .ok (some ⟨s, search⟩)
    | .error .malformed => .error [⟨location, .badPattern⟩]
    | .error .excessive => .error [⟨location, .excessivePattern⟩]
  | _ => .error [⟨location, .notText⟩]

/-! ### Options -/

/-- The name under which a setting is given. -/
def givenName? (members : Assoc String Value) (s : Setting) : Option String :=
  if Assoc.has members s.camel then some s.camel
  else if Assoc.has members s.snake then some s.snake
  else none

/-- Reads a setting where it is given, or takes its default. -/
def readSetting {α : Type} (members : Assoc String Value) (s : Setting) (default : α)
    (read : List Segment → Value → Checked α) : Checked α :=
  match givenName? members s with
  | some name => (Assoc.get? members name).elim (.ok default) (read [.name name])
  | none => .ok default

/-- The members that are not read as settings. -/
def unknownMembers (members : Assoc String Value) : List Problem :=
  let known := Setting.all.filterMap (givenName? members)
  (members.filter fun m => !known.contains m.1).map fun m => ⟨[.name m.1], .unknownMember⟩

/-- The texts of a location, by which faults are ordered. -/
def Problem.order (p : Problem) : List String := p.location.map Segment.text

/-- The faults in the order of their locations. -/
def sorted (ps : List Problem) : List Problem :=
  ps.mergeSort fun p q => !decide (q.order < p.order)

/-- The options that the members of an object write. -/
def ofMembers (readers : Readers) (members : Assoc String Value) : Checked Options :=
  let known : Checked Options :=
    Checked.both (fun f (reportStatic : Bool) => f reportStatic)
      (Checked.both (fun f (additional : Option Pattern) => f additional)
        (Checked.both (fun checkMemoized specs additional reportStatic =>
            ({ checkMemoized, staticHooks := specs, additionalHooks := additional, reportStatic } :
              Options))
          (readSetting members .checkMemoized false switchAt)
          (readSetting members .staticHooks [] specsAt))
        (readSetting members .additionalHooks none (patternAt readers)))
      (readSetting members .reportStatic false switchAt)
  match known, unknownMembers members with
  | .ok o, [] => .ok o
  | known, extra => .error (sorted (known.problems ++ extra))

/-- The options that a value writes. -/
def ofValue (readers : Readers) : Value → Checked Options
  | .object members => ofMembers readers members
  | _ => .error [⟨[], .notOptions⟩]

/-- The options with some settings given anew: they are read again, the new values over the old. -/
def withOverrides (o : Options) (readers : Readers) (overrides : List (Setting × Value)) :
    Checked Options :=
  ofMembers readers
    (overrides.foldl (fun m e => Assoc.put m e.1.snake e.2) (o.members Setting.snake))

end HookLint.Options
