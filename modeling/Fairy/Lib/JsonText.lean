import Mathlib.Data.Nat.Digits.Defs
import Mathlib.Data.List.Lex
import Mathlib.Data.List.Sort

/-!
The text of JSON values as Python's `json` module reads and writes it.
-/

namespace Fairy.Lib

/-- A Python string, by its code points; a surrogate may stand in it alone. -/
abbrev PyString := List Nat

def PyString.ofString (s : String) : PyString := s.toList.map Char.toNat

namespace JsonText

inductive Value
  | null
  | bool (b : Bool)
  | int (n : Int)
  /-- A number that `json.loads` makes a float, by its text. -/
  | float (literal : List Char)
  | str (s : PyString)
  | arr (items : List Value)
  | obj (fields : List (PyString × Value))

/-- `fields[key] = value`, for a dict whose entries stand in the order of their insertion. -/
def put (fields : List (PyString × Value)) (key : PyString) (value : Value) :
    List (PyString × Value) :=
  if key ∈ fields.map Prod.fst then fields.map fun f => if f.1 = key then (key, value) else f
  else fields ++ [(key, value)]

/-- `fields.get(key)`. -/
def get? (fields : List (PyString × Value)) (key : PyString) : Option Value :=
  (fields.find? fun f => f.1 = key).map Prod.snd

/-! ### Reading -/

def isSpace (c : Char) : Bool := c == ' ' || c == '\t' || c == '\n' || c == '\r'

def skip (input : List Char) : List Char := input.dropWhile isSpace

def isDigit (c : Char) : Bool := decide (48 ≤ c.toNat ∧ c.toNat ≤ 57)

def hexDigit (c : Char) : Option Nat :=
  let n := c.toNat
  if 48 ≤ n ∧ n ≤ 57 then some (n - 48)
  else if 97 ≤ n ∧ n ≤ 102 then some (n - 87)
  else if 65 ≤ n ∧ n ≤ 70 then some (n - 55)
  else none

def hexNumber (digits : List Char) : Option Nat :=
  (digits.mapM hexDigit).map fun values => values.foldl (fun n d => n * 16 + d) 0

def unescape : Char → Option Nat
  | '"' => some 34
  | '\\' => some 92
  | '/' => some 47
  | 'b' => some 8
  | 'f' => some 12
  | 'n' => some 10
  | 'r' => some 13
  | 't' => some 9
  | _ => none

/-- A string behind its opening quote, each `\u` escape being read for itself. -/
def units : List Char → Option (List Nat × List Char)
  | [] => none
  | '"' :: rest => some ([], rest)
  | '\\' :: 'u' :: a :: b :: c :: d :: rest =>
    match hexNumber [a, b, c, d], units rest with
    | some n, some (s, rest') => some (n :: s, rest')
    | _, _ => none
  | '\\' :: c :: rest =>
    match unescape c, units rest with
    | some n, some (s, rest') => some (n :: s, rest')
    | _, _ => none
  | c :: rest =>
    if c.toNat < 32 ∨ c = '\\' then none
    else (units rest).map fun (s, rest') => (c.toNat :: s, rest')

def isHigh (n : Nat) : Prop := 0xd800 ≤ n ∧ n < 0xdc00

def isLow (n : Nat) : Prop := 0xdc00 ≤ n ∧ n < 0xe000

instance : DecidablePred isHigh := fun _ => inferInstanceAs (Decidable (_ ∧ _))

instance : DecidablePred isLow := fun _ => inferInstanceAs (Decidable (_ ∧ _))

/-- A high surrogate and the low one behind it make one code point. -/
def join : List Nat → PyString
  | [] => []
  | [n] => [n]
  | h :: l :: rest =>
    if isHigh h ∧ isLow l then (0x10000 + (h - 0xd800) * 0x400 + (l - 0xdc00)) :: join rest
    else h :: join (l :: rest)

/-- `scanstring` behind the opening quote. -/
def string (input : List Char) : Option (PyString × List Char) :=
  (units input).map fun (s, rest) => (join s, rest)

/-- The fraction of a number, if it has one, and what follows it. -/
def fraction : List Char → List Char × List Char
  | '.' :: d :: rest =>
    if isDigit d then
      ('.' :: d :: rest.takeWhile isDigit, rest.dropWhile isDigit)
    else ([], '.' :: d :: rest)
  | rest => ([], rest)

def sign : List Char → List Char × List Char
  | '+' :: rest => (['+'], rest)
  | '-' :: rest => (['-'], rest)
  | rest => ([], rest)

def exponent : List Char → List Char × List Char
  | e :: rest =>
    if (e = 'e' ∨ e = 'E') ∧ (sign rest).2.takeWhile isDigit ≠ [] then
      (e :: (sign rest).1 ++ (sign rest).2.takeWhile isDigit, (sign rest).2.dropWhile isDigit)
    else ([], e :: rest)
  | [] => ([], [])

def natural (digits : List Char) : Nat :=
  digits.foldl (fun n d => n * 10 + (d.toNat - 48)) 0

/-- The digits before the fraction: a zero stands alone. -/
def whole : List Char → List Char
  | '0' :: _ => ['0']
  | rest => rest.takeWhile isDigit

/-- A number behind its sign. -/
def unsigned (negative : Bool) (input : List Char) : Option (Value × List Char) :=
  let digits := whole input
  let (f, rest) := fraction (input.drop digits.length)
  let (e, rest) := exponent rest
  if digits = [] then none
  else if f = [] ∧ e = [] then
    some (.int (if negative then -(natural digits : Int) else natural digits), rest)
  else some (.float ((if negative then ['-'] else []) ++ digits ++ f ++ e), rest)

def number : List Char → Option (Value × List Char)
  | '-' :: rest => unsigned true rest
  | input => unsigned false input

/-- The values that are words. -/
def constants : List (List Char × Value) :=
  [("null".toList, .null), ("true".toList, .bool true), ("false".toList, .bool false),
    ("NaN".toList, .float "NaN".toList), ("Infinity".toList, .float "Infinity".toList),
    ("-Infinity".toList, .float "-Infinity".toList)]

/-- A value without parts that is no string. -/
def scalar (input : List Char) : Option (Value × List Char) :=
  match constants.find? fun c => c.1.isPrefixOf input with
  | some (word, v) => some (v, input.drop word.length)
  | none => number input

mutual

/-- `scan_once`, to the depth of the fuel. -/
def value : Nat → List Char → Option (Value × List Char)
  | 0, _ => none
  | fuel + 1, input =>
    match input with
    | '"' :: rest => (string rest).map fun (s, rest) => (.str s, rest)
    | '{' :: rest =>
      match skip rest with
      | '}' :: rest => some (.obj [], rest)
      | rest => (fields fuel [] rest).map fun (fs, rest) => (.obj fs, rest)
    | '[' :: rest =>
      match skip rest with
      | ']' :: rest => some (.arr [], rest)
      | rest => (items fuel rest).map fun (vs, rest) => (.arr vs, rest)
    | input => scalar input

/-- The items of an array that has at least one more. -/
def items : Nat → List Char → Option (List Value × List Char)
  | 0, _ => none
  | fuel + 1, input =>
    match value fuel input with
    | none => none
    | some (v, rest) =>
      match skip rest with
      | ']' :: rest => some ([v], rest)
      | ',' :: rest => (items fuel (skip rest)).map fun (vs, rest) => (v :: vs, rest)
      | _ => none

/-- The entries of an object that has at least one more. -/
def fields : Nat → List (PyString × Value) → List Char →
    Option (List (PyString × Value) × List Char)
  | 0, _, _ => none
  | fuel + 1, read, input =>
    match input with
    | '"' :: rest =>
      match string rest with
      | none => none
      | some (key, rest) =>
        match skip rest with
        | ':' :: rest =>
          match value fuel (skip rest) with
          | none => none
          | some (v, rest) =>
            match skip rest with
            | '}' :: rest => some (put read key v, rest)
            | ',' :: rest => fields fuel (put read key v) (skip rest)
            | _ => none
        | _ => none
    | _ => none

end

/-- `json.loads`. -/
def loads (text : List Char) : Option Value :=
  match value (2 * text.length + 1) (skip text) with
  | none => none
  | some (v, rest) => if skip rest = [] then some v else none

/-! ### Writing -/

def hexChar (n : Nat) : Char := if n < 10 then Char.ofNat (n + 48) else Char.ofNat (n + 87)

/-- `\uXXXX`. -/
def unicodeEscape (n : Nat) : List Char :=
  ['\\', 'u', hexChar (n / 4096 % 16), hexChar (n / 256 % 16), hexChar (n / 16 % 16),
    hexChar (n % 16)]

/-- A code point as `ensure_ascii` writes it. -/
def escape (n : Nat) : List Char :=
  if n = 34 then ['\\', '"']
  else if n = 92 then ['\\', '\\']
  else if n = 10 then ['\\', 'n']
  else if n = 13 then ['\\', 'r']
  else if n = 9 then ['\\', 't']
  else if n = 12 then ['\\', 'f']
  else if n = 8 then ['\\', 'b']
  else if 32 ≤ n ∧ n < 127 then [Char.ofNat n]
  else if n < 0x10000 then unicodeEscape n
  else unicodeEscape (0xd800 + (n - 0x10000) / 0x400) ++
    unicodeEscape (0xdc00 + (n - 0x10000) % 0x400)

def quote (s : PyString) : List Char := '"' :: s.flatMap escape ++ ['"']

def decimal (n : Nat) : List Char :=
  if n = 0 then ['0'] else (Nat.digits 10 n).reverse.map fun d => Char.ofNat (d + 48)

mutual

/-- `json.dumps` with the separators `,` and `:`. -/
def dumps : Value → List Char
  | .null => "null".toList
  | .bool true => "true".toList
  | .bool false => "false".toList
  | .int n => if n < 0 then '-' :: decimal n.natAbs else decimal n.natAbs
  | .float literal => literal
  | .str s => quote s
  | .arr vs => '[' :: dumpItems vs ++ [']']
  | .obj fs => '{' :: dumpFields fs ++ ['}']

def dumpItems : List Value → List Char
  | [] => []
  | [v] => dumps v
  | v :: vs => dumps v ++ ',' :: dumpItems vs

def dumpFields : List (PyString × Value) → List Char
  | [] => []
  | [(k, v)] => quote k ++ ':' :: dumps v
  | (k, v) :: fs => quote k ++ ':' :: dumps v ++ ',' :: dumpFields fs

end

/-- The entries of a dict by their keys, as `sort_keys` writes them. -/
def sortKeys (fields : List (PyString × Value)) : List (PyString × Value) :=
  fields.insertionSort fun a b => a.1 ≤ b.1

section

-- the equations of these functions are derived here once, and not by each proof that needs them
attribute [local simp] units join string unsigned scalar value items fields escape dumps dumpItems
  dumpFields

end

end JsonText

end Fairy.Lib
