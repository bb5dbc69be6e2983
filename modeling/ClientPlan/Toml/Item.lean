import ClientPlan.Decimal.Shortest
import ClientPlan.Shape
import ClientPlan.Toml.Number

/-!
# Values of a TOML text

A table remembers how it came about, because that decides what may still be added to it.
-/

namespace ClientPlan.Toml

/-- How a table came about. -/
inductive Origin where
  /-- Written between braces. -/
  | inline
  /-- Named by the first parts of a dotted key. -/
  | dotted
  /-- Named by the first parts of a header. -/
  | implied
  /-- Opened by a header. -/
  | header
deriving DecidableEq, Repr

/-- A value. -/
inductive Item where
  | text (value : String)
  | boolean (value : Bool)
  | scalar (value : Scalar)
  | list (items : List Item)
  | table (origin : Origin) (members : List (String × Item))
  /-- The tables opened by headers in double brackets. -/
  | tables (elements : List (List (String × Item)))
deriving Repr, Inhabited

/-- The members of a table in order. -/
abbrev Members := List (String × Item)

/-- Floating-point numbers in messages have no exponent, and the greater of two equally near decimals
is taken. -/
def messageLayout : Decimal.Layout := ⟨.up, fun _ => true⟩

/-- The text of a floating-point number. -/
def floatingText : Decimal.Binary64 → String
  | .finite negative magnitude => Decimal.signedText messageLayout negative magnitude
  | .infinite negative => if negative then "-inf" else "inf"
  | .notNumber => "NaN"

/-- What a message calls a value. -/
def Item.found : Item → Found
  | .text value => .text value
  | .boolean value => .boolean value
  | .scalar (.integer value) => .integer value
  | .scalar (.floating value) => .floating (floatingText value)
  | .scalar .moment => .map
  | .list _ | .tables _ => .sequence
  | .table _ _ => .map

/-- Changes the member of a key, or adds one after all others. -/
def alter (key : String) (change : Option Item → Option Item) : Members → Option Members
  | [] => (change none).map fun item => [(key, item)]
  | (other, item) :: rest =>
    if other = key then (change (some item)).map fun item => (other, item) :: rest
    else (alter key change rest).map ((other, item) :: ·)

/-- Changes the last of several tables. -/
def alterLast (change : Members → Option Members) (elements : List Members) :
    Option (List Members) :=
  match elements.getLast? with
  | none => none
  | some last => (change last).map fun last => elements.dropLast ++ [last]

/-- Adds a value under a dotted key. The key may only extend tables that keys or headers have named
in passing, and the table it ends in must be one that keys have named, or the one at hand. -/
def put (item : Item) : (path : List String) → (key : String) → Members → Option Members
  | [], key, members => alter key (fun held => if held.isSome then none else some item) members
  | name :: path, key, members =>
    alter name (fun
      | none => (put item path key []).map (.table .dotted)
      | some (.table .dotted inner) => (put item path key inner).map (.table .dotted)
      | some (.table .implied inner) =>
        if path.isEmpty then none else (put item path key inner).map (.table .implied)
      | some (.tables elements) =>
        if path.isEmpty then none else (alterLast (put item path key) elements).map .tables
      | some _ => none) members

/-- A dotted key with its value. -/
structure Pair where
  path : List String
  key : String
  value : Item
deriving Repr, Inhabited

/-- Adds pairs in order. -/
def putAll (pairs : List Pair) (members : Members) : Option Members :=
  pairs.foldlM (fun members pair => put pair.value pair.path pair.key members) members

/-- Changes the table that the first parts of a header name. A list of tables stands for its last
one. -/
def descend (change : Members → Option Members) : List String → Members → Option Members
  | [], members => change members
  | name :: path, members =>
    alter name (fun
      | none => (descend change path []).map (.table .implied)
      | some (.table .inline _) => none
      | some (.table origin inner) => (descend change path inner).map (.table origin)
      | some (.tables elements) => (alterLast (descend change path) elements).map .tables
      | some _ => none) members

/-- A header: its path, its key, and whether it opens one of several tables. -/
structure Header where
  path : List String
  key : String
  repeated : Bool
deriving DecidableEq, Repr

/-- Opens a table with pairs. A table that was only named in passing so far keeps its members, and
moves after all others. -/
def openTable (key : String) (pairs : List Pair) (members : Members) : Option Members :=
  let others := members.filter fun member => member.1 ≠ key
  match members.lookup key with
  | none => (putAll pairs []).map fun inner => others ++ [(key, .table .header inner)]
  | some (.table .implied held) =>
    (putAll pairs held).map fun inner => others ++ [(key, .table .header inner)]
  | some _ => none

/-- Opens one more of several tables with pairs. -/
def openElement (key : String) (pairs : List Pair) (members : Members) : Option Members :=
  alter key (fun
    | none => (putAll pairs []).map fun inner => .tables [inner]
    | some (.tables elements) => (putAll pairs []).map fun inner => .tables (elements ++ [inner])
    | some _ => none) members

/-- Adds the table of a header. -/
def openSection (root : Members) (header : Header) (pairs : List Pair) : Option Members :=
  descend
    (if header.repeated then openElement header.key pairs else openTable header.key pairs)
    header.path root

end ClientPlan.Toml
