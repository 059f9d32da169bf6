import HalLink.Toml.Keys
import HalLink.Toml.Value

/-!
Tables under construction. A table can be written in pieces, under headers and through dotted keys,
so each one remembers what brought it about: that decides which later pieces may add to it.
-/

set_option autoImplicit false

namespace HalLink.Toml

inductive Origin where
  /-- A header or braces wrote the table; its own header may not come again. -/
  | defined
  /-- A header below it implied the table; its own header may still come. -/
  | implied
  /-- A dotted key made the table; only dotted keys and headers below it may add to it. -/
  | dotted
  deriving DecidableEq, Repr

/-- What a key leads to: a finished value, a table, or the tables of an array of tables, the latest
first, for that is the one later pieces belong to. -/
inductive Node where
  | value (v : Value)
  | table (origin : Origin) (entries : List (String × Node))
  | tables (elements : List (List (String × Node)))

abbrev Entries := List (String × Node)

def Entries.find? (entries : Entries) (key : String) : Option Node := entries.lookup key

def Entries.put (key : String) (node : Node) : Entries → Entries
  | [] => [(key, node)]
  | (k, n) :: rest => if k = key then (key, node) :: rest else (k, n) :: put key node rest

/-- Changes the table that a header's `path` leads to, making the tables that are missing. The
last of an array of tables stands for the array; a finished value ends the path. -/
def Entries.modifyAt (change : Entries → Option Entries) : List String → Entries → Option Entries
  | [], entries => change entries
  | key :: path, entries =>
    match entries.find? key with
    | none => do return entries.put key (.table .implied (← modifyAt change path []))
    | some (.table origin inner) => do
      return entries.put key (.table origin (← modifyAt change path inner))
    | some (.tables (last :: earlier)) => do
      return entries.put key (.tables ((← modifyAt change path last) :: earlier))
    | some (.tables []) | some (.value _) => none

/-- Adds an entry under a dotted key. The tables on the way may not have a header or braces of
their own, and the last of them has to come from dotted keys. -/
def Entries.insert (key : String) (v : Value) : List String → Entries → Option Entries
  | [], entries =>
    match entries.find? key with
    | none => some (entries.put key (.value v))
    | some _ => none
  | parent :: path, entries =>
    match entries.find? parent with
    | none => do return entries.put parent (.table .dotted (← insert key v path []))
    | some (.table origin inner) =>
      if origin = .defined ∨ (path = [] ∧ origin ≠ .dotted) then none
      else do return entries.put parent (.table origin (← insert key v path inner))
    | some (.tables (last :: earlier)) =>
      if path = [] then none
      else do return entries.put parent (.tables ((← insert key v path last) :: earlier))
    | some (.tables []) | some (.value _) => none

def Entries.openTable (key : String) (entries : Entries) : Option Entries :=
  match entries.find? key with
  | none => some (entries.put key (.table .defined []))
  | some (.table .implied inner) => some (entries.put key (.table .defined inner))
  | some _ => none

def Entries.openElement (key : String) (entries : Entries) : Option Entries :=
  match entries.find? key with
  | none => some (entries.put key (.tables [[]]))
  | some (.tables elements) => some (entries.put key (.tables ([] :: elements)))
  | some _ => none

mutual

def Node.toValue : Node → Value
  | .value v => v
  | .table _ entries => .table (entriesToValues entries)
  | .tables elements => .array (elementsToValues elements).reverse

def entriesToValues : List (String × Node) → List (String × Value)
  | [] => []
  | (key, node) :: rest => (key, node.toValue) :: entriesToValues rest

def elementsToValues : List (List (String × Node)) → List Value
  | [] => []
  | entries :: rest => .table (entriesToValues entries) :: elementsToValues rest

end

theorem entriesToValues_eq_map (entries : Entries) :
    entriesToValues entries = entries.map fun (key, node) => (key, node.toValue) := by
  induction entries with
  | nil => rfl
  | cons entry entries ih => rw [entriesToValues, ih, List.map_cons]

theorem elementsToValues_eq_map (tables : List Entries) :
    elementsToValues tables = tables.map fun table => .table (entriesToValues table) := by
  induction tables with
  | nil => rfl
  | cons table tables ih => rw [elementsToValues, ih, List.map_cons]

end HalLink.Toml
