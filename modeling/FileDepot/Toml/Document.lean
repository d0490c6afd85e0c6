import FileDepot.Toml.Quoted

/-!
# TOML documents

Values, keys and lines, and the tables that the lines of a document make. Headers and dotted keys
make the tables on their way; a table that has a header or stands in braces is not opened a second
time.
-/

namespace FileDepot.Toml

/-- Arrays and braces nest less deeply than this, and dotted keys have fewer parts. -/
def depthLimit : Nat := 80

namespace Table

/-- Changes the table at the end of a path. Tables on the way that do not exist are made; the last
one of an array of tables stands for the array. A dotted key passes only through tables that have
no header. -/
def descend (dotted : Bool) (change : Table → Option Table) : List String → Table → Option Table
  | [], t => change t
  | key :: path, t =>
    match t.get? key with
    | none => do
      let child ← descend dotted change path { form := if dotted then .dotted else .implied }
      some (t.put key child.toValue)
    | some (.tables items) => do
      let last ← items.getLast?.bind Value.openTable?
      let child ← descend dotted change path last
      some (t.put key (.tables (items.dropLast ++ [child.toValue])))
    | some v => do
      let child ← v.openTable?
      if dotted && !child.isImplicit then none
      else
        let child ← descend dotted change path child
        some (t.put key child.toValue)

/-- Gives a new key a value. A table made by dotted keys takes dotted keys only, and any other
table does not take them. -/
def add (isDotted : Bool) (key : String) (v : Value) (t : Table) : Option Table :=
  if (t.form = .dotted) ≠ isDotted then none
  else if (t.get? key).isSome then none
  else some (t.put key v)

/-- Adds a value under a dotted key. -/
def insert (t : Table) (path : List String) (key : String) (v : Value) : Option Table :=
  descend true (add (!path.isEmpty) key v) path t

end Table

namespace Scan

/-- Characters of an unquoted key. -/
def isBare (c : Char) : Bool :=
  c.isAlphanum || c = '_' || c = '-'

/-- One part of a key. -/
def keyPart (cs : List Char) : Option (String × List Char) :=
  let bare := cs.takeWhile isBare
  if bare.isEmpty then lineString cs else some (String.ofList bare, cs.drop bare.length)

/-- The parts of a key, at most `fuel` of them, with blanks around each. -/
def keyParts : Nat → Scan (List String)
  | 0, _ => none
  | fuel + 1, cs => do
    let (part, cs) ← keyPart (skipBlanks cs)
    let cs := skipBlanks cs
    match cs with
    | '.' :: rest => do
      let (parts, rest) ← keyParts fuel rest
      some (part :: parts, rest)
    | _ => some ([part], cs)

/-- A key: the path to its table and its last part. -/
def key (cs : List Char) : Option ((List String × String) × List Char) := do
  let (parts, cs) ← keyParts (depthLimit - 1) cs
  let last ← parts.getLast?
  some ((parts.dropLast, last), cs)

/-- A comment, if there is one. -/
def skipComment : List Char → List Char
  | '#' :: rest => rest.dropWhile isPlain
  | cs => cs

/-- Blanks, line ends and comments; every round takes at least one character. -/
def skipFiller : Nat → List Char → List Char
  | 0, cs => cs
  | fuel + 1, cs =>
    let rest := skipComment (skipLines cs)
    if rest.length < cs.length then skipFiller fuel rest else cs

/-- Blanks, line ends and comments between the items of an array. -/
def filler (cs : List Char) : List Char :=
  skipFiller cs.length cs

/-- Items of an array up to its closing bracket; a comma may stand before it. -/
def arrayItems (value : Scan Value) : Nat → Scan (List Value)
  | 0, _ => none
  | fuel + 1, cs =>
    match filler cs with
    | ']' :: rest => some ([], rest)
    | cs => do
      let (v, rest) ← value cs
      match filler rest with
      | ',' :: rest => do
        let (vs, rest) ← arrayItems value fuel rest
        some (v :: vs, rest)
      | ']' :: rest => some ([v], rest)
      | _ => none

/-- Pairs of a table in braces up to its closing brace, added to the table; no comma may stand
before it. -/
def inlineFields (value : Scan Value) : Nat → Table → Scan Table
  | 0, _, _ => none
  | fuel + 1, t, cs => do
    let ((path, name), rest) ← key cs
    let ((), rest) ← char '=' rest
    let (v, rest) ← value (skipBlanks rest)
    let t ← t.insert path name v
    match skipBlanks rest with
    | ',' :: rest => inlineFields value fuel t rest
    | '\x7d' :: rest => some (t, rest)
    | _ => none

/-- A value in which arrays and braces nest less deeply than `depth`. -/
def valueUpTo : Nat → Scan Value
  | 0, _ => none
  | depth + 1, cs =>
    match cs with
    | '[' :: rest =>
      if depth = 0 then none
      else (arrayItems (valueUpTo depth) (rest.length + 1) rest).map fun (vs, rest) =>
        (.array vs, rest)
    | '\x7b' :: rest =>
      if depth = 0 then none
      else
        match skipBlanks rest with
        | '\x7d' :: rest => some (.table .inline [], rest)
        | _ => (inlineFields (valueUpTo depth) (rest.length + 1) {} rest).map fun (t, rest) =>
          (.table .inline t.fields, rest)
    | c :: _ =>
      if c = '"' || c.toNat = 0x27 then (string cs).map fun (s, rest) => (.string s, rest)
      else if c.isDigit || c = '+' || c = '-' then numeral cs
      else word cs
    | [] => none

/-- A value. -/
def value (cs : List Char) : Option (Value × List Char) :=
  valueUpTo depthLimit cs

/-- The end of a line: blanks, a comment, and a line end or the end of the document. -/
def endOfLine (cs : List Char) : Option (List Char) :=
  match skipComment (skipBlanks cs) with
  | [] => some []
  | cs => (newline cs).map Prod.snd

end Scan

/-- A line of a document. -/
inductive Line where
  | pair (path : List String) (key : String) (value : Value)
  | header (path : List String) (key : String)
  | arrayHeader (path : List String) (key : String)

namespace Scan

/-- A line that is not blank. -/
def line : Scan Line
  | '[' :: '[' :: rest => do
    let ((path, name), rest) ← key rest
    let ((), rest) ← char ']' rest
    let ((), rest) ← char ']' rest
    let rest ← endOfLine rest
    some (.arrayHeader path name, rest)
  | '[' :: rest => do
    let ((path, name), rest) ← key rest
    let ((), rest) ← char ']' rest
    let rest ← endOfLine rest
    some (.header path name, rest)
  | cs => do
    let ((path, name), rest) ← key cs
    let ((), rest) ← char '=' rest
    let (v, rest) ← value (skipBlanks rest)
    let rest ← endOfLine rest
    some (.pair path name v, rest)

/-- The lines of a document that are not blank. Every line takes at least one character. -/
def lines : Nat → List Char → Option (List Line)
  | 0, cs => if cs.isEmpty then some [] else none
  | fuel + 1, cs =>
    match filler cs with
    | [] => some []
    | cs => do
      let (l, rest) ← line cs
      let ls ← lines fuel rest
      some (l :: ls)

end Scan

/-- What the lines so far have made: the finished tables, and the one that lines are being added
to with the place it will take. -/
structure Draft where
  root : Table := {}
  /-- The path and key of the current table, and whether it is an item of an array; none before the
  first header. -/
  place : Option (List String × String × Bool) := none
  current : Table := {}

namespace Draft

/-- Puts the current table in its place. -/
def finish (d : Draft) : Option Table :=
  match d.place with
  | none => some d.current
  | some (path, key, false) =>
    Table.descend false (fun parent => some (parent.put key d.current.toValue)) path d.root
  | some (path, key, true) =>
    let push (parent : Table) : Option Table :=
      match parent.get? key with
      | none => some (parent.put key (.tables [d.current.toValue]))
      | some (.tables items) => some (parent.put key (.tables (items ++ [d.current.toValue])))
      | some _ => none
    Table.descend false push path d.root

/-- The table that a header begins: a new one, or one made on the way to an earlier header, which
leaves its old place. -/
def beginTable (root : Table) (path : List String) (key : String) : Option Draft := do
  let parent ← Table.descend false some path root
  let found := (parentOf path parent).get? key
  match found with
  | none => some { root := parent, place := some (path, key, false) }
  | some v =>
    let t ← v.openTable?
    if t.form = .implied then
      let root ← Table.descend false (fun p => some (p.erase key)) path root
      some { root, place := some (path, key, false), current := { t with form := .header } }
    else none
where
  /-- The table at the end of a path that exists. -/
  parentOf : List String → Table → Table
    | [], t => t
    | k :: ks, t =>
      match t.get? k with
      | some (.tables items) => parentOf ks ((items.getLast?.bind Value.openTable?).getD {})
      | some v => parentOf ks (v.openTable?.getD {})
      | none => {}

/-- The table that the header of an array item begins. -/
def beginItem (root : Table) (path : List String) (key : String) : Option Draft := do
  let claim (parent : Table) : Option Table :=
    match parent.get? key with
    | none => some (parent.put key (.tables []))
    | some (.tables _) => some parent
    | some _ => none
  let root ← Table.descend false claim path root
  some { root, place := some (path, key, true) }

/-- The effect of a line. -/
def add (d : Draft) : Line → Option Draft
  | .pair path key v => do
    let current ← d.current.insert path key v
    some { d with current }
  | .header path key => do
    let root ← d.finish
    beginTable root path key
  | .arrayHeader path key => do
    let root ← d.finish
    beginItem root path key

end Draft

/-- The fields of a document, in its order. A byte order mark in front does not count. -/
def parse? (text : String) : Option (List (String × Value)) := do
  let cs := text.toList
  let cs := if cs.head? = some '\ufeff' then cs.tail else cs
  let ls ← Scan.lines (cs.length + 1) cs
  let d ← ls.foldlM Draft.add {}
  let root ← d.finish
  some root.fields

end FileDepot.Toml
