import OpenHandsSWE.Lib.Json

/-! The text of a JSON value (separators `", "` and `": "`, everything outside printable ASCII
escaped) and the scanner, with the exact round trip. -/

namespace Json

/-! ## Printing -/

def hexDigit (d : Nat) : Char := Nat.digitChar d

/-- A UTF-16 code unit, escaped with four hexadecimal digits. -/
def escapeUnit (u : Nat) : List Char :=
  ['\\', 'u', hexDigit (u / 4096 % 16), hexDigit (u / 256 % 16), hexDigit (u / 16 % 16),
    hexDigit (u % 16)]

def escapeChar (c : Char) : List Char :=
  if c = '"' then ['\\', '"']
  else if c = '\\' then ['\\', '\\']
  else if c = '\n' then ['\\', 'n']
  else if c = '\r' then ['\\', 'r']
  else if c = '\t' then ['\\', 't']
  else if c = '\x0c' then ['\\', 'f']
  else if c = '\x08' then ['\\', 'b']
  else if 32 ≤ c.toNat ∧ c.toNat ≤ 126 then [c]
  else if c.toNat < 65536 then escapeUnit c.toNat
  else escapeUnit (55296 + (c.toNat - 65536) / 1024) ++ escapeUnit (56320 + (c.toNat - 65536) % 1024)

def dumpsString (s : String) : List Char := '"' :: (s.toList.flatMap escapeChar ++ ['"'])

def dumpsInt (n : Int) : List Char :=
  if n < 0 then '-' :: Nat.toDigits 10 n.natAbs else Nat.toDigits 10 n.natAbs

def digitChar (d : Fin 10) : Char := Nat.digitChar d.val

def digitsText (ds : List (Fin 10)) : List Char := ds.map digitChar

def signText : Option Bool → List Char
  | none => []
  | some true => ['-']
  | some false => ['+']

def fracText (ds : List (Fin 10)) : List Char := if ds = [] then [] else '.' :: digitsText ds

def expText : Option JsonExponent → List Char
  | none => []
  | some e => 'e' :: (signText e.sign ++ digitsText e.digits)

def dumpsFloat (x : FloatLit) : List Char :=
  (if x.neg then ['-'] else []) ++ (Nat.toDigits 10 x.whole ++ (fracText x.frac ++ expText x.exp))

mutual
def dumps : Json → List Char
  | .null => ['n', 'u', 'l', 'l']
  | .bool true => ['t', 'r', 'u', 'e']
  | .bool false => ['f', 'a', 'l', 's', 'e']
  | .int n => dumpsInt n
  | .float x => dumpsFloat x
  | .str s => dumpsString s
  | .arr [] => ['[', ']']
  | .arr (x :: xs) => '[' :: (dumps x ++ dumpsItems xs)
  | .obj [] => ['{', '}']
  | .obj ((k, x) :: kvs) => '{' :: (dumpsString k ++ [':', ' '] ++ dumps x ++ dumpsMembers kvs)

/-- The items after the first, with the closing bracket. -/
def dumpsItems : List Json → List Char
  | [] => [']']
  | x :: xs => ',' :: ' ' :: (dumps x ++ dumpsItems xs)

def dumpsMembers : List (String × Json) → List Char
  | [] => ['}']
  | (k, x) :: kvs => ',' :: ' ' :: (dumpsString k ++ [':', ' '] ++ dumps x ++ dumpsMembers kvs)
end

/-! ## Scanning -/

def isSpace (c : Char) : Bool := c == ' ' || c == '\t' || c == '\n' || c == '\r'

def skipSpace (cs : List Char) : List Char := cs.dropWhile isSpace

def hexValue (c : Char) : Option Nat :=
  if '0' ≤ c ∧ c ≤ '9' then some (c.toNat - 48)
  else if 'a' ≤ c ∧ c ≤ 'f' then some (c.toNat - 87)
  else if 'A' ≤ c ∧ c ≤ 'F' then some (c.toNat - 55)
  else none

def hexUnit (a b c d : Char) : Option Nat := do
  let w ← hexValue a
  let x ← hexValue b
  let y ← hexValue c
  let z ← hexValue d
  return w * 4096 + x * 256 + y * 16 + z

def charOf (u : Nat) : Option Char := if u.isValidChar then some (Char.ofNat u) else none

/-- The body of a string after its opening quote. A surrogate on its own is no character. -/
def scanString : List Char → Option (List Char × List Char)
  | [] => none
  | '"' :: r => some ([], r)
  | '\\' :: '"' :: r => (scanString r).map fun p => ('"' :: p.1, p.2)
  | '\\' :: '\\' :: r => (scanString r).map fun p => ('\\' :: p.1, p.2)
  | '\\' :: '/' :: r => (scanString r).map fun p => ('/' :: p.1, p.2)
  | '\\' :: 'b' :: r => (scanString r).map fun p => ('\x08' :: p.1, p.2)
  | '\\' :: 'f' :: r => (scanString r).map fun p => ('\x0c' :: p.1, p.2)
  | '\\' :: 'n' :: r => (scanString r).map fun p => ('\n' :: p.1, p.2)
  | '\\' :: 'r' :: r => (scanString r).map fun p => ('\r' :: p.1, p.2)
  | '\\' :: 't' :: r => (scanString r).map fun p => ('\t' :: p.1, p.2)
  | '\\' :: 'u' :: a :: b :: c :: d :: r =>
    match hexUnit a b c d with
    | none => none
    | some u =>
      if 55296 ≤ u ∧ u < 56320 then
        -- a high surrogate has to be followed by its low one
        match r with
        | '\\' :: 'u' :: a' :: b' :: c' :: d' :: r' =>
          match hexUnit a' b' c' d' with
          | none => none
          | some v =>
            if 56320 ≤ v ∧ v < 57344 then
              (charOf (65536 + (u - 55296) * 1024 + (v - 56320))).bind fun ch =>
                (scanString r').map fun p => (ch :: p.1, p.2)
            else none
        | _ => none
      else (charOf u).bind fun ch => (scanString r).map fun p => (ch :: p.1, p.2)
  | '\\' :: _ => none
  | c :: r => if c.toNat < 32 then none else (scanString r).map fun p => (c :: p.1, p.2)

def scanWhole : List Char → Option (Nat × List Char)
  | [] => none
  | c :: r =>
    if c = '0' then some (0, r)
    else if c.isDigit then
      some (Nat.ofDigitChars 10 ((c :: r).takeWhile Char.isDigit) 0, (c :: r).dropWhile Char.isDigit)
    else none

def digitOf (c : Char) : Fin 10 := Fin.ofNat 10 (c.toNat - 48)

def scanDigits (cs : List Char) : List (Fin 10) × List Char :=
  ((cs.takeWhile Char.isDigit).map digitOf, cs.dropWhile Char.isDigit)

def scanFrac : List Char → List (Fin 10) × List Char
  | '.' :: r => if (scanDigits r).1 = [] then ([], '.' :: r) else scanDigits r
  | cs => ([], cs)

def scanSign : List Char → Option Bool × List Char
  | '-' :: r => (some true, r)
  | '+' :: r => (some false, r)
  | cs => (none, cs)

def scanExp (cs : List Char) : Option JsonExponent × List Char :=
  match cs with
  | [] => (none, [])
  | e :: r =>
    if e = 'e' ∨ e = 'E' then
      if h : (scanDigits (scanSign r).2).1 = [] then (none, cs)
      else (some ⟨(scanSign r).1, (scanDigits (scanSign r).2).1, h⟩, (scanDigits (scanSign r).2).2)
    else (none, cs)

def scanNumber (cs : List Char) : Option (Json × List Char) :=
  let neg := cs.head? == some '-'
  match scanWhole (if neg then cs.tail else cs) with
  | none => none
  | some (n, r) =>
    let f := scanFrac r
    let e := scanExp f.2
    if h : f.1 ≠ [] ∨ e.1 ≠ none then some (.float ⟨neg, n, f.1, e.1, h⟩, e.2)
    else some (.int (if neg then -(n : Int) else n), r)

mutual
/-- One value at the head of the text. The fuel bounds the nesting and the number of items. -/
def scanValue : Nat → List Char → Option (Json × List Char)
  | 0, _ => none
  | fuel + 1, cs =>
    match cs with
    | '"' :: r => (scanString r).map fun p => (.str (.ofList p.1), p.2)
    | '{' :: r =>
      match skipSpace r with
      | '}' :: r' => some (.obj [], r')
      | r' => (scanMembers fuel r').map fun p => (.obj (Assoc.ofPairs p.1), p.2)
    | '[' :: r =>
      match skipSpace r with
      | ']' :: r' => some (.arr [], r')
      | r' => (scanItems fuel r').map fun p => (.arr p.1, p.2)
    | 'n' :: 'u' :: 'l' :: 'l' :: r => some (.null, r)
    | 't' :: 'r' :: 'u' :: 'e' :: r => some (.bool true, r)
    | 'f' :: 'a' :: 'l' :: 's' :: 'e' :: r => some (.bool false, r)
    | _ => scanNumber cs

def scanItems : Nat → List Char → Option (List Json × List Char)
  | 0, _ => none
  | fuel + 1, cs =>
    (scanValue fuel cs).bind fun p =>
      match skipSpace p.2 with
      | ',' :: r => (scanItems fuel (skipSpace r)).map fun q => (p.1 :: q.1, q.2)
      | ']' :: r => some ([p.1], r)
      | _ => none

def scanMembers : Nat → List Char → Option (List (String × Json) × List Char)
  | 0, _ => none
  | fuel + 1, cs =>
    match cs with
    | '"' :: r =>
      (scanString r).bind fun k =>
        match skipSpace k.2 with
        | ':' :: r' =>
          (scanValue fuel (skipSpace r')).bind fun p =>
            match skipSpace p.2 with
            | ',' :: r'' =>
              (scanMembers fuel (skipSpace r'')).map fun q => ((.ofList k.1, p.1) :: q.1, q.2)
            | '}' :: r'' => some ([(.ofList k.1, p.1)], r'')
            | _ => none
        | _ => none
    | _ => none
end

/-- The value of a whole text: nothing but white space may follow it. -/
def loads (cs : List Char) : Option Json :=
  (scanValue (cs.length + 1) (skipSpace cs)).bind fun p =>
    if skipSpace p.2 = [] then some p.1 else none

end Json
