import Airtime.Document.Basic

/-!
Tables of a TOML text while it is read. A dotted key may add to tables that dotted keys made, a header
may add to tables that headers only passed through, and nothing is ever given twice.
-/

namespace Airtime.Document.Toml

/-- How a table came to be. -/
inductive Origin where
  | header
  | passed
  | dotted
  deriving DecidableEq

inductive Node where
  | value (d : Document)
  | table (origin : Origin) (fields : List (String × Node))
  | tables (all : List (List (String × Node)))

abbrev Tree := List (String × Node)

namespace Tree

def replace (t : Tree) (name : String) (node : Node) : Tree :=
  (name, node) :: t.filter (·.1 ≠ name)

/-- Adds the value of a dotted key, given as the tables on its way and its last part. -/
def add (key : String) (d : Document) : List String → Tree → Option Tree
  | [], t => if (t.lookup key).isSome then none else some ((key, .value d) :: t)
  | name :: path, t =>
    match t.lookup name with
    | none => (add key d path []).map fun s => (name, .table .dotted s) :: t
    | some (.table .dotted s) => (add key d path s).map fun s => t.replace name (.table .dotted s)
    | some (.table .passed s) =>
      if path.isEmpty then none
      else (add key d path s).map fun s => t.replace name (.table .passed s)
    | some (.tables (last :: before)) =>
      if path.isEmpty then none
      else (add key d path last).map fun s => t.replace name (.tables (s :: before))
    | some _ => none

/-- Changes the table that a header reaches by a path, making the tables that are missing. -/
def reach (change : Tree → Option Tree) : List String → Tree → Option Tree
  | [], t => change t
  | name :: path, t =>
    match t.lookup name with
    | none => (reach change path []).map fun s => (name, .table .passed s) :: t
    | some (.table origin s) => (reach change path s).map fun s => t.replace name (.table origin s)
    | some (.tables (last :: before)) =>
      (reach change path last).map fun s => t.replace name (.tables (s :: before))
    | some _ => none

def define (name : String) (fill : Tree → Option Tree) (t : Tree) : Option Tree :=
  match t.lookup name with
  | none => (fill []).map fun s => (name, .table .header s) :: t
  | some (.table .passed s) => (fill s).map fun s => t.replace name (.table .header s)
  | some _ => none

def append (name : String) (fill : Tree → Option Tree) (t : Tree) : Option Tree :=
  match t.lookup name with
  | none => (fill []).map fun s => (name, .tables [s]) :: t
  | some (.tables all) => (fill []).map fun s => t.replace name (.tables (s :: all))
  | some _ => none

end Tree

mutual

def Node.toDocument : Node → Document
  | .value d => d
  | .table _ fields => .record (fieldsToDocuments fields)
  | .tables all => .list (tablesToDocuments all).reverse

def fieldsToDocuments : List (String × Node) → List (String × Document)
  | [] => []
  | (name, node) :: rest => (name, node.toDocument) :: fieldsToDocuments rest

def tablesToDocuments : List (List (String × Node)) → List Document
  | [] => []
  | fields :: rest => .record (fieldsToDocuments fields) :: tablesToDocuments rest

end

def Tree.toDocument (t : Tree) : Document := .record (fieldsToDocuments t)

end Airtime.Document.Toml
