import HookLint.Toml.Scalar

/-!
# Toml.Reader — reading TOML text

A document is a list of lines: pairs of a key and a value, and the headers of tables and of items of
arrays of tables.  A table is opened by one header only; what a dotted key made may not be opened by
a header later; what a value made may not be extended.
-/

namespace HookLint.Toml

open Text

/-- A dotted key. -/
abbrev Key := List String

/-- The members of a table. -/
abbrev Table := Assoc String Value

/-- Changes the table under a key, making the tables on the way.  A key leads into the last item of
an array of tables, if `lists` says so, and through no other value. -/
def updateAt (lists : Bool) (f : Table → Option Table) : Key → Table → Option Table
  | [], table => f table
  | k :: ks, table =>
    match Assoc.get? table k with
    | none => (updateAt lists f ks []).map fun t => Assoc.put table k (.object t)
    | some (.object inner) =>
      (updateAt lists f ks inner).map fun t => Assoc.put table k (.object t)
    | some (.array items) =>
      match lists, items.getLast? with
      | true, some (.object inner) =>
        (updateAt lists f ks inner).map fun t =>
          Assoc.put table k (.array (items.dropLast ++ [.object t]))
      | _, _ => none
    | some _ => none

/-- Adds a member to a table that lacks it. -/
def addMember (name : String) (v : Value) (table : Table) : Option Table :=
  if Assoc.has table name then none else some (Assoc.put table name v)

/-- Adds an empty table to an array of tables. -/
def addItem (name : String) (table : Table) : Option Table :=
  match Assoc.get? table name with
  | none => some (Assoc.put table name (.array [.object []]))
  | some (.array items) => some (Assoc.put table name (.array (items ++ [.object []])))
  | some _ => none

/-- Whether a value may be extended by no header and no key. -/
def isContainer : Value → Bool
  | .array _ | .object _ => true
  | _ => false

/-! ### Values -/

/-- The rest after white space, line ends and comments. -/
def skipLines? (cs : List Char) : Option (Rest cs) :=
  match Rest.dropWhile (fun c => isSpace c || c = '\n') cs with
  | ⟨r, hr⟩ =>
    match take? '#' r with
    | none => some ⟨r, hr⟩
    | some ⟨s, hs⟩ =>
      if (s.takeWhile (· ≠ '\n')).any isControl then none
      else
        match Rest.dropWhile (· ≠ '\n') s with
        | ⟨t, ht⟩ =>
          (skipLines? t).map fun u =>
            ⟨u.1, Nat.le_trans u.2 (Nat.le_trans ht (Nat.le_trans (Nat.le_of_lt hs) hr))⟩
termination_by cs.length
decreasing_by exact Nat.lt_of_le_of_lt ht (Nat.lt_of_lt_of_le hs hr)

/-- The key of a pair, with the sign after it and the white space around that. -/
def pairKey? (cs : List Char) : Option (Key × Less cs) := do
  let (key, r) ← key? cs
  let s ← take? '=' r.1
  some (key, r.trans (s.trans (skipSpace s.1)).le)

/-- An inline table under construction.  Tables and arrays that are values of it may not be
extended. -/
structure Inline where
  table : Table := []
  frozen : List Key := []

/-- Adds a pair to an inline table. -/
def Inline.add? (i : Inline) (key : Key) (v : Value) : Option Inline := do
  if i.frozen.any fun f => f.isPrefixOf key then none
  let table ← updateAt false (addMember (key.getLastD "") v) key.dropLast i.table
  some ⟨table, if isContainer v then key :: i.frozen else i.frozen⟩

mutual

/-- A value. -/
def value (cs : List Char) : Parsed (Value × Less cs) :=
  match take? '[' cs, take? '\x7b' cs with
  | some ⟨t, ht⟩, _ =>
    match skipLines? t with
    | none => .error .malformed
    | some ⟨u, hu⟩ =>
      match items u with
      | .error e => .error e
      | .ok (vs, ⟨r, hr⟩) => .ok (.array vs, ⟨r, by omega⟩)
  | none, some ⟨t, ht⟩ =>
    match skipSpace t with
    | ⟨u, hu⟩ =>
      match take? '\x7d' u with
      | some ⟨r, hr⟩ => .ok (.object [], ⟨r, by omega⟩)
      | none =>
        match pairs {} u with
        | .error e => .error e
        | .ok (i, ⟨r, hr⟩) => .ok (.object i.table, ⟨r, by omega⟩)
  | none, none => scalarValue cs
termination_by 2 * cs.length

/-- The items of an array up to its closing bracket; a comma may follow the last. -/
def items (cs : List Char) : Parsed (List Value × Less cs) :=
  match take? ']' cs with
  | some r => .ok ([], r)
  | none =>
    match value cs with
    | .error e => .error e
    | .ok (v, ⟨r, hr⟩) =>
      match skipLines? r with
      | none => .error .malformed
      | some ⟨u, hu⟩ =>
        match take? ']' u, take? ',' u with
        | some ⟨w, hw⟩, _ => .ok ([v], ⟨w, by omega⟩)
        | none, some ⟨w, hw⟩ =>
          match skipLines? w with
          | none => .error .malformed
          | some ⟨x, hx⟩ =>
            match items x with
            | .error e => .error e
            | .ok (vs, ⟨y, hy⟩) => .ok (v :: vs, ⟨y, by omega⟩)
        | none, none => .error .malformed
termination_by 2 * cs.length + 1

/-- The pairs of an inline table up to its closing brace; at least one.  Each is added before the
next one is read. -/
def pairs (i : Inline) (cs : List Char) : Parsed (Inline × Less cs) :=
  match pairKey? cs with
  | none => .error .malformed
  | some (key, ⟨r, hr⟩) =>
    match value r with
    | .error e => .error e
    | .ok (v, ⟨t, ht⟩) =>
      match i.add? key v with
      | none => .error .malformed
      | some i =>
        match skipSpace t with
        | ⟨u, hu⟩ =>
          match take? '\x7d' u, take? ',' u with
          | some ⟨w, hw⟩, _ => .ok (i, ⟨w, by omega⟩)
          | none, some ⟨w, hw⟩ =>
            match skipSpace w with
            | ⟨x, hx⟩ =>
              match pairs i x with
              | .error e => .error e
              | .ok (i, ⟨y, hy⟩) => .ok (i, ⟨y, by omega⟩)
          | none, none => .error .malformed
termination_by 2 * cs.length + 1

end

/-! ### Documents -/

/-- A line of a document. -/
inductive Statement where
  | pair (key : Key) (v : Value)
  | table (key : Key)
  | item (key : Key)

/-- The header of a table or of an item, after its first bracket. -/
def header? (cs : List Char) : Option (Statement × Less cs) :=
  match take? '[' cs with
  | some r => do
    let s := skipSpace r.1
    let (key, t) ← key? s.1
    let u ← take? ']' t.1
    let w ← take? ']' u.1
    some (.item key, r.trans (s.trans (t.trans (u.trans w.le).le).le))
  | none => do
    let s := skipSpace cs
    let (key, t) ← key? s.1
    let u ← take? ']' t.1
    some (.table key, s.shrink (t.trans u.le))

/-- The statement of a line. -/
def statement (cs : List Char) : Parsed (Statement × Less cs) :=
  match take? '[' cs with
  | some r => .ofOption ((header? r.1).map fun (s, t) => (s, r.trans t.le))
  | none =>
    match pairKey? cs with
    | none => .error .malformed
    | some (key, r) => (value r.1).map fun (v, s) => (.pair key v, r.trans s.le)

/-- A document under construction: its members, the table that pairs go to, and which keys may be
opened or extended no more. -/
structure Document where
  root : Table := []
  header : Key := []
  /-- Opened by a header, or made by a dotted key. -/
  closed : List Key := []
  /-- Made by a value. -/
  frozen : List Key := []
  /-- Made by a dotted key since the last header; closed from the next header on. -/
  pending : List Key := []

namespace Document

/-- Whether the table under a key may not be extended. -/
def isFrozen (d : Document) (key : Key) : Bool := d.frozen.any fun f => f.isPrefixOf key

/-- Closes what dotted keys made. -/
def settle (d : Document) : Document := { d with closed := d.pending ++ d.closed, pending := [] }

/-- Opens a table. -/
def openTable? (d : Document) (key : Key) : Option Document := do
  let d := d.settle
  if d.closed.contains key || d.isFrozen key then none
  let root ← updateAt true some key d.root
  some { d with root, header := key, closed := key :: d.closed }

/-- Opens a new item of an array of tables; what was said of the tables below earlier items is
forgotten. -/
def openItem? (d : Document) (key : Key) : Option Document := do
  let d := d.settle
  if d.isFrozen key then none
  let root ← updateAt true (addItem (key.getLastD "")) key.dropLast d.root
  let keep := fun k : Key => !key.isPrefixOf k
  some { d with root, header := key, closed := key :: d.closed.filter keep,
                frozen := d.frozen.filter keep }

/-- The keys of the tables that a dotted key leads through. -/
def passed (header key : Key) : List Key :=
  (List.range (key.length - 1)).map fun i => header ++ key.take (i + 1)

/-- Adds a pair to the open table. -/
def addPair? (d : Document) (key : Key) (v : Value) : Option Document := do
  let through := passed d.header key
  if through.any d.closed.contains then none
  let parent := d.header ++ key.dropLast
  if d.isFrozen parent then none
  let root ← updateAt true (addMember (key.getLastD "") v) parent d.root
  let frozen := if isContainer v then (d.header ++ key) :: d.frozen else d.frozen
  some { d with root, frozen, pending := through ++ d.pending }

/-- The document after one more statement. -/
def add? (d : Document) : Statement → Option Document
  | .pair key v => d.addPair? key v
  | .table key => d.openTable? key
  | .item key => d.openItem? key

end Document

/-- The document that the statements of a text make, one on a line.  Each is added before the next
one is read. -/
def document (d : Document) (cs : List Char) : Parsed Document :=
  match Rest.dropWhile (fun c => isSpace c || c = '\n') cs with
  | ⟨[], _⟩ => .ok d
  | ⟨c :: t, _hr⟩ =>
    if c = '#' then
      if (t.takeWhile (· ≠ '\n')).any isControl then .error .malformed
      else
        match Rest.dropWhile (· ≠ '\n') t with
        | ⟨s, _hs⟩ => document d s
    else
      match statement (c :: t) with
      | .error e => .error e
      | .ok (st, ⟨r, _hr⟩) =>
        match d.add? st with
        | none => .error .malformed
        | some d =>
          match skipSpace r with
          | ⟨s, _hs⟩ =>
            match skipComment? s with
            | none => .error .malformed
            | some ⟨[], _⟩ => .ok d
            | some ⟨e :: u, _hu⟩ => if e = '\n' then document d u else .error .malformed
termination_by cs.length
decreasing_by
  all_goals
    simp_all
    omega

/-- Line ends in one form: a carriage return before a line feed is dropped. -/
def unifyLineEnds : List Char → List Char
  | '\r' :: '\n' :: cs => '\n' :: unifyLineEnds cs
  | c :: cs => c :: unifyLineEnds cs
  | [] => []

/-- The table that a text writes. -/
def read (text : String) : Parsed Table :=
  (document {} (unifyLineEnds text.toList)).map Document.root

end HookLint.Toml
