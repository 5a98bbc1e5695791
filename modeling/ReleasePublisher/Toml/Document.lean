import ReleasePublisher.Toml.Scalar

/-!
# TOML documents

The statements of a text are carried out one after the other on a tree of tables. A name may be
given a value once; a table may be opened by a header once; tables that came into being on the way
to another may be opened later, those made by dotted keys may not.

## Main definitions

* `Toml.Node`: a value, a table, or an array of tables
* `Toml.insert`: gives a dotted key a value
* `Toml.openTable`, `Toml.openElement`: carry out headers
* `Toml.parse text`: the table of a whole text
-/

namespace ReleasePublisher.Toml

/-- A span of characters. -/
structure Span where
  start : Nat
  stop : Nat
  deriving DecidableEq, Repr

/-- A name, and where it stands. -/
structure Name where
  text : String
  span : Span
  deriving DecidableEq, Repr

/-- How a table came into being. -/
inductive TableOrigin where
  /-- By a header of its own, or as the whole document. -/
  | header
  /-- On the way to a table with a header. -/
  | passed
  /-- By a dotted key. -/
  | dotted
  /-- As an inline value. -/
  | inline
  deriving DecidableEq, Repr

/-- A value, a table, or an array of tables. A table that came into being without a place of its
own has no span. -/
inductive Node where
  | scalar (s : Scalar) (span : Span)
  | array (items : List Node) (span : Span)
  | table (origin : TableOrigin) (entries : List (Name × Node)) (span : Option Span)
  | tables (elements : List Node) (span : Span)
  deriving Repr

/-- Where a node stands, if it has a place of its own. -/
def Node.span? : Node → Option Span
  | .scalar _ s => some s
  | .array _ s => some s
  | .table _ _ s => s
  | .tables _ s => some s

/-- The entries of a table. -/
abbrev Entries := List (Name × Node)

/-- The fault of a name that is given twice. -/
def duplicate (n : Name) : Fault :=
  ⟨"duplicate key", n.span.start, n.span.stop⟩

/-- The fault of a dotted key that leads through a value. -/
def throughValue (n : Name) : Fault :=
  ⟨"cannot extend a value with a dotted key", n.span.start, n.span.stop⟩

/-- The node of a name. -/
def find? (entries : Entries) (n : Name) : Option Node :=
  (entries.find? (·.1.text == n.text)).map (·.2)

/-- The entries with the node of a name changed, or with a new one at the end. -/
def set (entries : Entries) (n : Name) (v : Node) : Entries :=
  if entries.any (·.1.text == n.text) then
    entries.map fun e => if e.1.text == n.text then (e.1, v) else e
  else entries ++ [(n, v)]

/-- Carries out a change of the entries below a node that a key leads through. -/
def within (dotted : Bool) (n : Name) (change : Entries → TableOrigin → Except Fault Entries) :
    Node → Except Fault Node
  | .table origin entries span =>
    -- A table that was opened elsewhere is closed to dotted keys; an inline one to all keys.
    if dotted && (origin == .header || origin == .inline) then .error (duplicate n)
    else if origin == .inline then .error (throughValue n)
    else (change entries origin).map fun entries => .table origin entries span
  | .tables elements span =>
    -- A key through an array of tables leads into the last of them.
    match elements.getLast? with
    | some (.table origin entries s) =>
      (change entries origin).map fun entries =>
        .tables (elements.dropLast ++ [.table origin entries s]) span
    | _ => .error (throughValue n)
  | _ => .error (throughValue n)

/-- Carries out a change of the entries that a path of names leads to. Tables that are missing on
the way come into being, with the origin `made`. -/
def descend (dotted : Bool) (made : TableOrigin)
    (change : Entries → TableOrigin → Except Fault Entries) :
    List Name → Entries → TableOrigin → Except Fault Entries
  | [], entries, origin => change entries origin
  | n :: path, entries, _ =>
    let go : Entries → TableOrigin → Except Fault Entries :=
      descend dotted made change path
    match find? entries n with
    | none => (go [] made).map fun inner => set entries n (.table made inner none)
    | some node => (within dotted n go node).map fun node => set entries n node

/-- Gives a dotted key a value. The last table on the way must have been made by dotted keys, and
only then. -/
def insert (key : List Name) (v : Node) (entries : Entries) (origin : TableOrigin) :
    Except Fault Entries :=
  match key.getLast? with
  | none => .ok entries
  | some n =>
    let put (entries : Entries) (origin : TableOrigin) : Except Fault Entries :=
      -- A key without dots has no table on the way, so its table must not have been made by dots.
      if (origin == .dotted) == (key.length == 1) then .error (duplicate n)
      else if (find? entries n).isSome then .error (duplicate n)
      else .ok (entries ++ [(n, v)])
    descend true .dotted put key.dropLast entries origin

/-- Opens a table by a header. A table that exists may be opened if it came into being on the way
to another. -/
def openTable (n : Name) (span : Span) (entries : Entries) : Except Fault Entries :=
  match find? entries n with
  | none => .ok (entries ++ [(n, .table .header [] (some span))])
  -- The table keeps what was put into it on the way to others, and gets a place of its own.
  | some (.table .passed inner _) => .ok (set entries n (.table .header inner (some span)))
  | some _ => .error (duplicate n)

/-- Opens a new element of an array of tables by a header. -/
def openElement (n : Name) (span : Span) (entries : Entries) : Except Fault Entries :=
  let element : Node := .table .header [] (some span)
  match find? entries n with
  | none => .ok (entries ++ [(n, .tables [element] span)])
  | some (.tables elements s) => .ok (set entries n (.tables (elements ++ [element]) s))
  | some _ => .error (duplicate n)

/-- Reads the names of a key. -/
def readKey (key : List Token) : Except Fault (List Name) :=
  key.mapM fun t => (readName t).map fun text => ⟨text, t.start, t.stop⟩

mutual

/-- Reads a value. -/
def readValue : RawValue → Except Fault Node
  | .scalar t => (readScalar t).map fun s => .scalar s ⟨t.start, t.stop⟩
  | .array start stop items => (readItems items).map fun items => .array items ⟨start, stop⟩
  | .inline start stop entries =>
    (readEntries entries []).map fun entries => .table .inline entries (some ⟨start, stop⟩)

/-- Reads the items of an array. -/
def readItems : List RawValue → Except Fault (List Node)
  | [] => .ok []
  | v :: vs => do return (← readValue v) :: (← readItems vs)

/-- Reads the entries of an inline table and adds them to those there are. -/
def readEntries : List (List Token × RawValue) → Entries → Except Fault Entries
  | [], entries => .ok entries
  | (key, v) :: rest, entries => do
    let names ← readKey key
    let v ← readValue v
    readEntries rest (← insert names v entries .inline)

end

/-- A document while it is read: its entries, and the names of the table that is open. -/
structure Building where
  entries : Entries
  current : List Name
  deriving Repr

/-- Carries out a statement. -/
def carryOut (b : Building) : Statement → Except Fault Building
  | .assignment key v => do
    let names ← readKey key
    let v ← readValue v
    let entries ← descend false .passed (insert names v) b.current b.entries .header
    return { b with entries := entries }
  | .header isArray key start stop => do
    let names ← readKey key
    match names.getLast? with
    | none => return b
    | some n =>
      let span : Span := ⟨start, stop⟩
      let change (entries : Entries) (_ : TableOrigin) : Except Fault Entries :=
        if isArray then openElement n span entries else openTable n span entries
      let entries ← descend false .passed change names.dropLast b.entries .header
      -- Assignments that follow belong to this table.
      return ⟨entries, names⟩

/-- The entries of a whole text. -/
def parse (text : List Char) : Except Fault Entries := do
  let b ← (← statements text).foldlM carryOut ⟨[], []⟩
  return b.entries

end ReleasePublisher.Toml
