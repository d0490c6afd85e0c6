import FileDepot.Decimal.Binary64

/-!
# TOML values

The values of a TOML document. A table remembers how it came about, since that decides whether
later lines may add to it.
-/

namespace FileDepot.Toml

/-- A calendar date. -/
structure Date where
  year : Nat
  month : Nat
  day : Nat
deriving DecidableEq, Repr

/-- A time of day, to the nanosecond. -/
structure Time where
  hour : Nat
  minute : Nat
  second : Nat
  nanosecond : Nat
deriving DecidableEq, Repr

/-- A date, a time of day or both, and the distance from universal time in minutes. -/
structure Datetime where
  date : Option Date := none
  time : Option Time := none
  offset : Option Int := none
deriving DecidableEq, Repr

/-- How a table came about. -/
inductive TableForm where
  /-- By a header of its own. -/
  | header
  /-- By a header of a table in it. -/
  | implied
  /-- By a dotted key. -/
  | dotted
  /-- In braces; nothing can be added any more. -/
  | inline
deriving DecidableEq, Repr

/-- A value. The fields of a table are in the order of the document. -/
inductive Value where
  | string (s : String)
  | integer (n : Int)
  | float (x : Binary64)
  | boolean (b : Bool)
  | datetime (d : Datetime)
  | array (items : List Value)
  /-- An array of tables, each begun by a header. -/
  | tables (items : List Value)
  | table (form : TableForm) (fields : List (String × Value))

/-- A table in the making. -/
structure Table where
  form : TableForm := .header
  fields : List (String × Value) := []

namespace Table

/-- The value of a key. -/
def get? (t : Table) (key : String) : Option Value :=
  t.fields.lookup key

/-- Gives a key a value, in its place if it has one already. -/
def put (t : Table) (key : String) (v : Value) : Table :=
  if (t.get? key).isSome then
    { t with fields := t.fields.map fun (k, old) => (k, if k = key then v else old) }
  else { t with fields := t.fields ++ [(key, v)] }

/-- Takes a key out. -/
def erase (t : Table) (key : String) : Table :=
  { t with fields := t.fields.filter (·.1 ≠ key) }

/-- The table as a value. -/
def toValue (t : Table) : Value :=
  .table t.form t.fields

/-- Whether keys under a path may still make this table their own. -/
def isImplicit (t : Table) : Bool :=
  t.form = .implied || t.form = .dotted

end Table

/-- A table, as far as the rest of a document may add to it. -/
def Value.openTable? : Value → Option Table
  | .table .inline _ => none
  | .table form fields => some ⟨form, fields⟩
  | _ => none

end FileDepot.Toml
