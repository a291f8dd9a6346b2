/-!
# TOML values

Values of a TOML 1.0 document, which can be compared, and the building of its tables. Which tables
may still be extended depends on how they came to be.
-/

namespace HdlInterface.Toml

/-- A value. Floats, dates and times are kept as they are written. -/
inductive Value
  | string (s : String)
  | integer (n : Int64)
  | float (text : String)
  | boolean (b : Bool)
  | dateTime (text : String)
  | array (items : List Value)
  | table (entries : List (String × Value))
deriving Inhabited

/-- The entries of a table, in order. -/
abbrev Entries := List (String × Value)

/-- The value stored under a key. -/
def Entries.value? (entries : Entries) (key : String) : Option Value :=
  (entries.find? fun e => e.1 == key).map Prod.snd

/-! ## Equality -/

mutual

/-- Floats, dates and times are compared as they are written, tables with their order. -/
def Value.beq : Value → Value → Bool
  | .string s, .string t => s == t
  | .integer n, .integer k => n == k
  | .float s, .float t => s == t
  | .boolean b, .boolean c => b == c
  | .dateTime s, .dateTime t => s == t
  | .array vs, .array ws => beqItems vs ws
  | .table m, .table n => beqEntries m n
  | _, _ => false

def beqItems : List Value → List Value → Bool
  | [], [] => true
  | v :: vs, w :: ws => v.beq w && beqItems vs ws
  | _, _ => false

def beqEntries : List (String × Value) → List (String × Value) → Bool
  | [], [] => true
  | (key, v) :: m, (key', w) :: n => key == key' && v.beq w && beqEntries m n
  | _, _ => false

end

mutual

theorem Value.beq_iff : (v w : Value) → (v.beq w = true ↔ v = w)
  | .array vs, w => by cases w <;> simp [Value.beq, beqItems_iff vs]
  | .table m, w => by cases w <;> simp [Value.beq, beqEntries_iff m]
  | .string _, w | .integer _, w | .float _, w | .boolean _, w | .dateTime _, w => by
      cases w <;> simp [Value.beq]

theorem beqItems_iff : (vs ws : List Value) → (beqItems vs ws = true ↔ vs = ws)
  | [], ws => by cases ws <;> simp [beqItems]
  | v :: vs, ws => by cases ws <;> simp [beqItems, Value.beq_iff v, beqItems_iff vs]

theorem beqEntries_iff : (m n : List (String × Value)) → (beqEntries m n = true ↔ m = n)
  | [], n => by cases n <;> simp [beqEntries]
  | (key, v) :: m, n => by
      cases n <;> simp [beqEntries, Prod.ext_iff, Value.beq_iff v, beqEntries_iff m]

end

instance : DecidableEq Value := fun v w => decidable_of_iff _ (Value.beq_iff v w)

/-! ## Tables under construction -/

/-- How a table came to be. -/
inductive Origin
  /-- by a header of its own -/
  | header
  /-- on the way to the table of a header -/
  | implied
  /-- by a dotted key -/
  | dotted
deriving DecidableEq

inductive Node
  /-- a value, with inline tables closed to additions -/
  | value (v : Value)
  | table (origin : Origin) (entries : List (String × Node))
  /-- the tables of a repeated header in double brackets -/
  | tables (items : List (List (String × Node)))

/-- The entries of a table under construction. -/
abbrev Nodes := List (String × Node)

namespace Nodes

def node? (nodes : Nodes) (key : String) : Option Node :=
  (nodes.find? fun e => e.1 == key).map Prod.snd

/-- Stores a node in the place of its key, or at the end. -/
def assign (nodes : Nodes) (key : String) (n : Node) : Nodes :=
  match nodes with
  | [] => [(key, n)]
  | e :: rest => if e.1 = key then (key, n) :: rest else e :: assign rest key n

/-- Changes the table at a path. Tables missing on the way are created; a repeated table is entered
at its last item. A dotted key enters no table that has a header of its own. -/
def modifyAt (byDottedKey : Bool) (change : Origin → Nodes → Option Nodes) :
    List String → Origin → Nodes → Option Nodes
  | [], origin, nodes => change origin nodes
  | key :: path, _, nodes =>
      match nodes.node? key with
      | none => do
          let origin := if byDottedKey then .dotted else .implied
          let inner ← modifyAt byDottedKey change path origin []
          some (assign nodes key (.table origin inner))
      | some (.table origin inner) =>
          if byDottedKey ∧ origin = .header then
            none
          else do
            let inner ← modifyAt byDottedKey change path origin inner
            some (assign nodes key (.table origin inner))
      | some (.tables items) => do
          let inner ← modifyAt byDottedKey change path .header (items.getLast?.getD [])
          some (assign nodes key (.tables (items.dropLast ++ [inner])))
      | some (.value _) => none

/-- Stores a value under a dotted key, `path` being its parts before the last. A table reached
through a path must be one that dotted keys made, and no key may be stored twice. -/
def store (path : List String) (key : String) (v : Value) (nodes : Nodes) : Option Nodes :=
  modifyAt true
    (fun origin nodes =>
      if (path ≠ [] ∧ origin ≠ .dotted) ∨ (nodes.node? key).isSome then none
      else some (assign nodes key (.value v)))
    path .header nodes

/-- A key with its parts before the last, its last part, and a value. -/
abbrev Pair := List String × String × Value

/-- Stores all pairs, one after the other. -/
def storeAll (pairs : List Pair) (nodes : Nodes) : Option Nodes :=
  pairs.foldlM (fun nodes pair => store pair.1 pair.2.1 pair.2.2 nodes) nodes

/-- Adds the table of a header with its pairs: a table is defined once, but may have been entered
on the way to another. -/
def addTable (path : List String) (key : String) (pairs : List Pair) (nodes : Nodes) :
    Option Nodes :=
  modifyAt false
    (fun _ nodes =>
      match nodes.node? key with
      | none => do some (assign nodes key (.table .header (← storeAll pairs [])))
      | some (.table .implied inner) => do
          some (assign nodes key (.table .header (← storeAll pairs inner)))
      | some _ => none)
    path .header nodes

/-- Adds one more table under a header in double brackets. -/
def addItem (path : List String) (key : String) (pairs : List Pair) (nodes : Nodes) :
    Option Nodes :=
  modifyAt false
    (fun _ nodes =>
      match nodes.node? key with
      | none => do some (assign nodes key (.tables [← storeAll pairs []]))
      | some (.tables items) => do
          some (assign nodes key (.tables (items ++ [← storeAll pairs []])))
      | some _ => none)
    path .header nodes

end Nodes

/-! ## Finished tables -/

mutual

def Node.finish : Node → Value
  | .value v => v
  | .table _ entries => .table (finishEntries entries)
  | .tables items => .array (finishItems items)

def finishEntries : List (String × Node) → List (String × Value)
  | [] => []
  | (key, n) :: rest => (key, n.finish) :: finishEntries rest

def finishItems : List (List (String × Node)) → List Value
  | [] => []
  | entries :: rest => .table (finishEntries entries) :: finishItems rest

end

end HdlInterface.Toml
