import FileDepot.Toml.Scalar

/-!
# TOML quotation

Strings in double quotes, which know escapes, and in single quotes, which do not; either may span
lines between triple quotes. Line ends inside are read as line feeds.
-/

namespace FileDepot.Toml.Scan

/-- Characters of a text that may stand in a comment: no control characters but the tab. -/
def isPlain (c : Char) : Bool :=
  c = '\t' || (' ' ≤ c && c ≤ '~') || 0x80 ≤ c.toNat

/-- Characters that stand for themselves between double quotes. -/
def isBasic (c : Char) : Bool :=
  isPlain c && c ≠ '"' && c ≠ '\\'

/-- Characters that may stand between single quotes. -/
def isLiteral (c : Char) : Bool :=
  isPlain c && c.toNat ≠ 0x27

/-- A line end. -/
def newline : Scan Unit
  | '\n' :: rest => some ((), rest)
  | '\r' :: '\n' :: rest => some ((), rest)
  | _ => none

/-- Blanks within a line. -/
def skipBlanks (cs : List Char) : List Char :=
  cs.dropWhile fun c => c = ' ' || c = '\t'

/-- Blanks and line ends; a lone carriage return stops them. -/
def skipLines : List Char → List Char
  | '\r' :: '\n' :: rest => skipLines rest
  | c :: rest => if c = ' ' || c = '\t' || c = '\n' then skipLines rest else c :: rest
  | [] => []

/-- The character of `count` hexadecimal digits; surrogates are none. -/
def codePoint (count : Nat) (cs : List Char) : Option (Char × List Char) :=
  let ds := cs.take count
  let n := number 16 ds
  if ds.length = count && ds.all isHexDigit && n.isValidChar then some (Char.ofNat n, cs.drop count)
  else none

/-- What a backslash stands for. -/
def escape : Scan Char
  | 'b' :: rest => some ('\x08', rest)
  | 't' :: rest => some ('\t', rest)
  | 'n' :: rest => some ('\n', rest)
  | 'f' :: rest => some ('\x0c', rest)
  | 'r' :: rest => some ('\r', rest)
  | '"' :: rest => some ('"', rest)
  | '\\' :: rest => some ('\\', rest)
  | 'u' :: rest => codePoint 4 rest
  | 'U' :: rest => codePoint 8 rest
  | _ => none

/-- The rest of a one-line string in double quotes. The fuel bounds the characters. -/
def basicBody : Nat → Scan (List Char)
  | 0, _ => none
  | fuel + 1, cs =>
    match cs with
    | '"' :: rest => some ([], rest)
    | '\\' :: rest => do
      let (c, rest) ← escape rest
      let (body, rest) ← basicBody fuel rest
      some (c :: body, rest)
    | c :: rest =>
      if isBasic c then do
        let (body, rest) ← basicBody fuel rest
        some (c :: body, rest)
      else none
    | [] => none

/-- A backslash at the end of a line: it joins the lines and drops the blanks between. -/
def lineJoin (cs : List Char) : Option (List Char) := do
  let ((), rest) ← newline (skipBlanks cs)
  some (skipLines rest)

/-- The rest of a string in triple double quotes; one or two quotes may stand before the closing
three. -/
def basicLines : Nat → Scan (List Char)
  | 0, _ => none
  | fuel + 1, cs =>
    match cs with
    | '"' :: '"' :: '"' :: '"' :: '"' :: rest => some (['"', '"'], rest)
    | '"' :: '"' :: '"' :: '"' :: rest => some (['"'], rest)
    | '"' :: '"' :: '"' :: rest => some ([], rest)
    | '\\' :: rest =>
      match lineJoin rest with
      | some rest => basicLines fuel rest
      | none => do
        let (c, rest) ← escape rest
        let (body, rest) ← basicLines fuel rest
        some (c :: body, rest)
    | c :: rest =>
      if isBasic c || c = '"' then do
        let (body, rest) ← basicLines fuel rest
        some (c :: body, rest)
      else do
        let ((), rest) ← newline cs
        let (body, rest) ← basicLines fuel rest
        some ('\n' :: body, rest)
    | [] => none

/-- The rest of a string in triple single quotes. -/
def literalLines : Nat → Scan (List Char)
  | 0, _ => none
  | fuel + 1, cs =>
    match cs with
    | '\'' :: '\'' :: '\'' :: '\'' :: '\'' :: rest => some (['\'', '\''], rest)
    | '\'' :: '\'' :: '\'' :: '\'' :: rest => some (['\''], rest)
    | '\'' :: '\'' :: '\'' :: rest => some ([], rest)
    | c :: rest =>
      if isPlain c then do
        let (body, rest) ← literalLines fuel rest
        some (c :: body, rest)
      else do
        let ((), rest) ← newline cs
        let (body, rest) ← literalLines fuel rest
        some ('\n' :: body, rest)
    | [] => none

/-- A line end right behind opening triple quotes does not count. -/
def skipNewline (cs : List Char) : List Char :=
  match newline cs with
  | some ((), rest) => rest
  | none => cs

/-- A one-line string in single quotes. -/
def literal (cs : List Char) : Option (String × List Char) :=
  let body := cs.takeWhile isLiteral
  (char '\'' (cs.drop body.length)).map fun ((), rest) => (String.ofList body, rest)

/-- A one-line string in either kind of quotes. -/
def lineString : Scan String
  | '"' :: rest => (basicBody (rest.length + 1) rest).map fun (body, rest) =>
      (String.ofList body, rest)
  | '\'' :: rest => literal rest
  | _ => none

/-- A string in any kind of quotes. -/
def string : Scan String
  | '"' :: '"' :: '"' :: rest =>
    (basicLines (rest.length + 1) (skipNewline rest)).map fun (body, rest) =>
      (String.ofList body, rest)
  | '\'' :: '\'' :: '\'' :: rest =>
    (literalLines (rest.length + 1) (skipNewline rest)).map fun (body, rest) =>
      (String.ofList body, rest)
  | cs => lineString cs

end FileDepot.Toml.Scan
