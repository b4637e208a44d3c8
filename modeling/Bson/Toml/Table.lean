import Bson.Double.Basic
import Bson.OrderedMap

/-!
# TOML tables

What a TOML text holds, and how tables grow as its lines are read.

A table remembers its `Origin`, because a table may be written once only: a header may complete a
table that stands on the way to another header, a dotted key may extend a table that dotted keys
have made, and nothing else may be opened again.
-/

namespace Bson.Toml

/-- How a table came to be. -/
inductive Origin
  /-- It has a header of its own, or is the outermost, or stands in braces. -/
  | written
  /-- It lies on the way to a table that has a header. -/
  | passed
  /-- It lies on the way to a value with a dotted key. -/
  | dotted
  deriving DecidableEq

/-- What stands under a key. -/
inductive Item
  | string (s : String)
  | integer (n : Int64)
  | float (x : Double)
  | boolean (b : Bool)
  | dateTime
  | array (items : List Item)
  /-- A table in braces. -/
  | inlineTable (origin : Origin) (fields : OrderedMap Item)
  | table (origin : Origin) (fields : OrderedMap Item)
  /-- An array of tables, the last of them first. -/
  | tableArray (tables : List (OrderedMap Item))

/-- The fields of a table. -/
abbrev Table := OrderedMap Item

namespace Table

/-- Changes the table at the end of a path of keys, which is made if it is not there. A change is
given the origin of the table as well. With `dotted` the path is a dotted key and may pass only
through tables that are not written out. -/
def changeAt (dotted : Bool) (change : Origin → Table → Option Table) :
    List String → Origin → Table → Option Table
  | [], origin, t => change origin t
  | key :: path, _, t =>
    match t.get? key with
    | none =>
      let origin := if dotted then .dotted else .passed
      (changeAt dotted change path origin .empty).map fun inner => t.insert key (.table origin inner)
    | some (.table origin inner) =>
      if dotted ∧ origin = .written then none
      else
        (changeAt dotted change path origin inner).map fun inner =>
          t.insert key (.table origin inner)
    | some (.tableArray (last :: before)) =>
      (changeAt dotted change path .written last).map fun last =>
        t.insert key (.tableArray (last :: before))
    | some _ => none

/-- The same for a table in braces, whose tables stand in braces too. -/
def changeInline (change : Origin → Table → Option Table) :
    List String → Origin → Table → Option Table
  | [], origin, t => change origin t
  | key :: path, _, t =>
    match t.get? key with
    | none =>
      (changeInline change path .dotted .empty).map fun inner =>
        t.insert key (.inlineTable .dotted inner)
    | some (.inlineTable origin inner) =>
      if origin = .written then none
      else
        (changeInline change path origin inner).map fun inner =>
          t.insert key (.inlineTable origin inner)
    | some _ => none

/-- Stores a value under a new key, at the end of a path that is empty or ends in a table which
dotted keys have made. -/
def store (path : List String) (key : String) (item : Item) (origin : Origin) (t : Table) :
    Option Table :=
  if t.contains key ∨ (origin = .dotted ↔ path = []) then none else some (t.insert key item)

/-- Stores a value under a dotted key. -/
def storeDotted (path : List String) (key : String) (item : Item) (t : Table) : Option Table :=
  changeAt true (store path key item) path .written t

/-- Stores a value under a dotted key of a table in braces. -/
def storeInline (t : Table) (path : List String) (key : String) (item : Item) : Option Table :=
  changeInline (store path key item) path .written t

end Table

/-- A text as far as it is read: the outermost table without the one that is open, and the open
one with its path. -/
structure Outline where
  root : Table
  /-- The path of the open table; empty for the outermost one. -/
  path : List String
  /-- Whether the open table is the next of an array of tables. -/
  isItem : Bool
  fields : Table

namespace Outline

/-- The outline of the empty text. -/
def empty : Outline := ⟨.empty, [], false, .empty⟩

/-- Puts the open table in its place. -/
def close (o : Outline) : Option Table :=
  match o.path.getLast? with
  | none => some o.fields
  | some key =>
    Table.changeAt false (fun _ t =>
      if o.isItem then
        match t.get? key with
        | none => some (t.insert key (.tableArray [o.fields]))
        | some (.tableArray tables) => some (t.insert key (.tableArray (o.fields :: tables)))
        | some _ => none
      else some (t.insert key (.table .written o.fields))) o.path.dropLast .written o.root

/-- The fields that the table under a key has before its header is read; `none` if it has been
written already. -/
def reopened (t : Table) (key : String) : Option Table :=
  match t.get? key with
  | none => some .empty
  | some (.table .passed fields) => some fields
  | some _ => none

/-- Whether an item may be added to the array of tables under a key. -/
def takesItem (t : Table) (key : String) : Bool :=
  match t.get? key with
  | none => true
  | some (.tableArray _) => true
  | some _ => false

/-- The table at the end of a path as a header finds it. -/
def lookAt (root : Table) (path : List String) : Option Table :=
  match path, root with
  | [], t => some t
  | key :: path, t =>
    match t.get? key with
    | none => some .empty
    | some (.table _ inner) => lookAt inner path
    | some (.tableArray (last :: _)) => lookAt last path
    | some _ => none

/-- Opens the table of a header. -/
def openTable (o : Outline) (path : List String) : Option Outline := do
  let root ← o.close
  let key ← path.getLast?
  let fields ← reopened (← lookAt root path.dropLast) key
  return ⟨root, path, false, fields⟩

/-- Opens the next item of an array of tables. -/
def openItem (o : Outline) (path : List String) : Option Outline := do
  let root ← o.close
  let key ← path.getLast?
  if takesItem (← lookAt root path.dropLast) key then return ⟨root, path, true, .empty⟩ else none

/-- Stores a value under a dotted key of the open table. -/
def store (o : Outline) (path : List String) (key : String) (item : Item) : Option Outline :=
  (o.fields.storeDotted path key item).map fun fields => { o with fields }

end Outline

end Bson.Toml
