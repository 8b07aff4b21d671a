import HeaderSync.Text.Basic

/-!
# TOML documents

A `Toml` is a value of a TOML document. A table remembers how it came about, because that decides
what may be added to it later: a table is defined once, by a header, by dotted keys or in braces.

* `Toml.insert?`: adds a value under a possibly dotted key.
* `Toml.openTable?`, `Toml.openRow?`: what a header `[key]` or `[[key]]` does.
* `Toml.at?`: changes the table that a header has opened.
-/

namespace HeaderSync

/-- How a table came about. -/
inductive TomlOrigin where
  /-- By a header, or as the document itself. -/
  | header
  /-- On the way to a header further down. -/
  | implied
  /-- By a dotted key. -/
  | dotted
  /-- In braces. -/
  | braces
deriving DecidableEq, Repr

inductive Toml where
  | string (t : Text)
  | boolean (b : Bool)
  /-- A number, a date or a time. -/
  | scalar
  | array (items : List Toml)
  | table (origin : TomlOrigin) (entries : List (Text × Toml))
  /-- The tables of headers `[[key]]`. -/
  | rows (tables : List Toml)
deriving Repr

namespace Toml

def emptyDocument : Toml := table .header []

/-- Changes the entry of `key`, or adds one at the end. -/
def alter? (key : Text) (f : Option Toml → Option Toml) :
    List (Text × Toml) → Option (List (Text × Toml))
  | [] => (f none).map fun v => [(key, v)]
  | (k, v) :: rest =>
    if k = key then (f (some v)).map fun v => (k, v) :: rest
    else (alter? key f rest).map fun rest => (k, v) :: rest

/-- Changes the last of some tables. -/
def alterLast? (f : Toml → Option Toml) : List Toml → Option (List Toml)
  | [] => none
  | [t] => (f t).map fun t => [t]
  | t :: rest => (alterLast? f rest).map fun rest => t :: rest

/-- Changes the table at the end of `path`. Tables on the way that do not exist are made. Dotted
keys do not pass a table that a header has defined, and nothing passes a table in braces or a value.
-/
def descend? (dotted : Bool) (f : Toml → Option Toml) : (path : List Text) → Toml → Option Toml
  | [], t => f t
  | key :: path, table origin entries =>
    (alter? key (fun
      | none => descend? dotted f path (table (if dotted then .dotted else .implied) [])
      | some (rows tables) => (alterLast? (descend? dotted f path) tables).map rows
      | some (table inner entries) =>
        if inner = .braces || (dotted && inner = .header) then none
        else descend? dotted f path (table inner entries)
      | some _ => none) entries).map (table origin)
  | _ :: _, _ => none

/-- Adds an entry with a key of one part. It has to be new. A dotted key only adds to a table that
dotted keys have made, and any other key only to one that they have not. -/
def insertKey? (dotted : Bool) (key : Text) (value : Toml) : Toml → Option Toml
  | table origin entries =>
    if (origin == .dotted) != dotted then none
    else (alter? key (fun
      | none => some value
      | some _ => none) entries).map (table origin)
  | _ => none

/-- Adds an entry below a table. -/
def insert? (t : Toml) (path : List Text) (key : Text) (value : Toml) : Option Toml :=
  descend? true (insertKey? (!path.isEmpty) key value) path t

/-- The header `[path.key]`. -/
def openTable? (path : List Text) (key : Text) (t : Toml) : Option Toml :=
  descend? false (fun
    | table origin entries =>
      (alter? key (fun
        | none => some (table .header [])
        | some (table .implied inner) => some (table .header inner)
        | some _ => none) entries).map (table origin)
    | _ => none) path t

/-- The header `[[path.key]]`. -/
def openRow? (path : List Text) (key : Text) (t : Toml) : Option Toml :=
  descend? false (fun
    | table origin entries =>
      (alter? key (fun
        | none => some (rows [table .header []])
        | some (rows tables) => some (rows (tables ++ [table .header []]))
        | some _ => none) entries).map (table origin)
    | _ => none) path t

/-- Changes the table that a header with this path has opened. -/
def at? (path : List Text) (f : Toml → Option Toml) (t : Toml) : Option Toml :=
  descend? false f path t

end Toml

end HeaderSync
