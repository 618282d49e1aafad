import HtmlLint.Toml.Value

/-! # The tables of a configuration while it is read

A table can be named by a header, by a part of a longer header, or by a dotted key, and each of
these may only be extended in its own ways.  A tree keeps for every table how it came to be
there. -/

namespace HtmlLint.Toml

/-- How a table came to be there. -/
inductive Origin where
  /-- it is part of a longer header -/
  | implied
  /-- it is part of a dotted key -/
  | dotted
  /-- it has a header of its own -/
  | headed
  deriving DecidableEq, Inhabited

/-- What a key stands for while the text is read. -/
inductive Item where
  /-- a value, which is complete -/
  | value (v : Value)
  | table (origin : Origin) (entries : List (String × Item))
  /-- a table for each time the header was repeated -/
  | tables (items : List (List (String × Item)))
  deriving Inhabited

/-- The keys of a table while the text is read. -/
abbrev Entries := List (String × Item)

/-- Change what a key stands for, or add the key; the change may be refused. -/
def update (key : String) (change : Option Item → Option Item) : Entries → Option Entries
  | [] => (change none).map fun i => [(key, i)]
  | (k, i) :: rest =>
    if k = key then (change (some i)).map fun i => (k, i) :: rest
    else (update key change rest).map ((k, i) :: ·)

/-- Change the table that a header leads to. -/
def atHeader (change : Entries → Option Entries) : List String → Entries → Option Entries
  | [], entries => change entries
  | key :: path, entries =>
    update key (fun
      | none => (atHeader change path []).map (Item.table .implied)
      | some (.table origin inner) => (atHeader change path inner).map (Item.table origin)
      | some (.tables items) =>
        items.getLast?.bind fun last =>
          (atHeader change path last).map fun last => .tables (items.dropLast ++ [last])
      | some (.value _) => none) entries

/-- Put a value under a dotted key.  The tables on the way must not have a header, and can get none
later; those of a repeated header may only be passed through. -/
def insertDotted (key : String) (v : Value) : List String → Entries → Option Entries
  | [], entries =>
    update key (fun
      | none => some (.value v)
      | some _ => none) entries
  | part :: path, entries =>
    update part (fun
      | none => (insertDotted key v path []).map (Item.table .dotted)
      | some (.table origin inner) =>
        if origin = .headed then none
        else (insertDotted key v path inner).map (Item.table .dotted)
      | some (.tables items) =>
        if path.isEmpty then none
        else
          items.getLast?.bind fun last =>
            (insertDotted key v path last).map fun last => .tables (items.dropLast ++ [last])
      | some (.value _) => none) entries

/-- Give a table its header. -/
def openTable (key : String) (entries : Entries) : Option Entries :=
  update key (fun
    | none => some (.table .headed [])
    | some (.table .implied inner) => some (.table .headed inner)
    | some _ => none) entries

/-- Begin one more table under a repeated header. -/
def repeatTable (key : String) (entries : Entries) : Option Entries :=
  update key (fun
    | none => some (.tables [[]])
    | some (.tables items) => some (.tables (items ++ [[]]))
    | some _ => none) entries

mutual

/-- The value that a key stands for in the end. -/
def Item.toValue : Item → Value
  | .value v => v
  | .table _ entries => .table (NameMap.ofList (entriesToValues entries)).entries
  | .tables items => .array (tablesToValues items)

/-- The values of all keys. -/
def entriesToValues : List (String × Item) → List (String × Value)
  | [] => []
  | (key, i) :: rest => (key, i.toValue) :: entriesToValues rest

/-- The tables of a repeated header. -/
def tablesToValues : List (List (String × Item)) → List Value
  | [] => []
  | entries :: rest =>
    .table (NameMap.ofList (entriesToValues entries)).entries :: tablesToValues rest

end

/-- The table that was read. -/
def Entries.toTable (entries : Entries) : Table :=
  NameMap.ofList (entriesToValues entries)

end HtmlLint.Toml
