/-
Values written as JSON text. The reader takes exactly the grammar of JSON; of numbers it keeps
those that are written as natural numbers, since records hold no others, and of strings those
that are text, since an escape may name half of a surrogate pair.
-/
namespace ObjectStore

inductive Json where
  | null
  | bool (b : Bool)
  /-- A number, if it is written as a natural number. -/
  | number (n : Option Nat)
  | string (s : Option String)
  | array (items : List Json)
  | object (members : List (Option String × Json))

namespace Json

def isBlank (c : Char) : Bool := c == ' ' || c == '\t' || c == '\n' || c == '\r'

def skipBlanks (s : List Char) : List Char := s.dropWhile isBlank

def hexDigit? (c : Char) : Option Nat :=
  if c.isDigit then some (c.toNat - '0'.toNat)
  else if 'a' ≤ c ∧ c ≤ 'f' then some (c.toNat - 'a'.toNat + 10)
  else if 'A' ≤ c ∧ c ≤ 'F' then some (c.toNat - 'A'.toNat + 10)
  else none

def unit? (a b c d : Char) : Option Nat := do
  return ((← hexDigit? a) * 16 + (← hexDigit? b)) * 256 + (← hexDigit? c) * 16 + (← hexDigit? d)

/-- A piece of a string: a character, or a unit of UTF-16 given by its number. -/
inductive Piece where
  | char (c : Char)
  | unit (n : Nat)

/-- The character that a letter behind a backslash stands for. -/
def escaped? : Char → Option Char
  | '"' => some '"'
  | '\\' => some '\\'
  | '/' => some '/'
  | 'b' => some '\x08'
  | 'f' => some '\x0c'
  | 'n' => some '\n'
  | 'r' => some '\r'
  | 't' => some '\t'
  | _ => none

/-- The pieces up to the closing quote, and what follows it. -/
def pieces? : List Char → Option (List Piece × List Char)
  | '"' :: rest => some ([], rest)
  | '\\' :: 'u' :: a :: b :: c :: d :: rest => do
      let n ← unit? a b c d
      let (more, rest) ← pieces? rest
      return (.unit n :: more, rest)
  | '\\' :: c :: rest => do
      let c ← escaped? c
      let (more, rest) ← pieces? rest
      return (.char c :: more, rest)
  | c :: rest => do
      if c.toNat < 0x20 ∨ c = '\\' then none
      let (more, rest) ← pieces? rest
      return (.char c :: more, rest)
  | [] => none

def isHighUnit (n : Nat) : Bool := 0xD800 ≤ n && n < 0xDC00
def isLowUnit (n : Nat) : Bool := 0xDC00 ≤ n && n < 0xE000

/-- The characters of a string, unless a surrogate stands alone. -/
def chars? : List Piece → Option (List Char)
  | [] => some []
  | .unit high :: .unit low :: rest =>
      if isHighUnit high ∧ isLowUnit low then
        (chars? rest).map (Char.ofNat (0x10000 + (high - 0xD800) * 0x400 + (low - 0xDC00)) :: ·)
      else if isHighUnit high ∨ isLowUnit high then none
      else (chars? (.unit low :: rest)).map (Char.ofNat high :: ·)
  | .unit n :: rest =>
      if isHighUnit n ∨ isLowUnit n then none else (chars? rest).map (Char.ofNat n :: ·)
  | .char c :: rest => (chars? rest).map (c :: ·)
termination_by l => l.length

def string? (s : List Char) : Option (Option String × List Char) := do
  let (pieces, rest) ← pieces? s
  return ((chars? pieces).map String.ofList, rest)

def digits? (s : List Char) : Option (List Char × List Char) :=
  let digits := s.takeWhile Char.isDigit
  if digits.isEmpty then none else some (digits, s.dropWhile Char.isDigit)

/-- The whole part of a number: a zero, or digits that do not begin with one. -/
def whole? : List Char → Option (List Char × List Char)
  | '0' :: rest => some (['0'], rest)
  | s => digits? s

def fraction? : List Char → Option (Bool × List Char)
  | '.' :: rest => (digits? rest).map fun p => (true, p.2)
  | s => some (false, s)

def exponent? : List Char → Option (Bool × List Char)
  | c :: rest =>
      if c = 'e' ∨ c = 'E' then
        let rest := match rest with
          | '+' :: more => more
          | '-' :: more => more
          | _ => rest
        (digits? rest).map fun p => (true, p.2)
      else some (false, c :: rest)
  | [] => some (false, [])

def natOfDigits (digits : List Char) : Nat :=
  digits.foldl (fun n c => 10 * n + (c.toNat - '0'.toNat)) 0

/-- A number without its sign. A fraction or an exponent keeps it from being natural. -/
def unsigned? (s : List Char) : Option (Option Nat × List Char) := do
  let (digits, rest) ← whole? s
  let (broken, rest) ← fraction? rest
  let (scaled, rest) ← exponent? rest
  return (if broken || scaled then none else some (natOfDigits digits), rest)

def number? : List Char → Option (Json × List Char)
  | '-' :: rest => (unsigned? rest).map fun p => (.number none, p.2)
  | s => (unsigned? s).map fun p => (.number p.1, p.2)

mutual

/-- One value, with no more than `fuel` nested or following it. -/
def value? : Nat → List Char → Option (Json × List Char)
  | 0, _ => none
  | fuel + 1, s =>
    match skipBlanks s with
    | 'n' :: 'u' :: 'l' :: 'l' :: rest => some (.null, rest)
    | 't' :: 'r' :: 'u' :: 'e' :: rest => some (.bool true, rest)
    | 'f' :: 'a' :: 'l' :: 's' :: 'e' :: rest => some (.bool false, rest)
    | '"' :: rest => (string? rest).map fun p => (.string p.1, p.2)
    | '[' :: rest =>
      match skipBlanks rest with
      | ']' :: rest => some (.array [], rest)
      | _ => (items? fuel rest).map fun p => (.array p.1, p.2)
    | '\x7b' :: rest =>
      match skipBlanks rest with
      | '\x7d' :: rest => some (.object [], rest)
      | _ => (members? fuel rest).map fun p => (.object p.1, p.2)
    | s => number? s

/-- One or more values, up to the closing bracket. -/
def items? : Nat → List Char → Option (List Json × List Char)
  | 0, _ => none
  | fuel + 1, s => do
    let (item, rest) ← value? fuel s
    match skipBlanks rest with
    | ',' :: rest => do
        let (more, rest) ← items? fuel rest
        return (item :: more, rest)
    | ']' :: rest => some ([item], rest)
    | _ => none

/-- One or more members, up to the closing brace. -/
def members? : Nat → List Char → Option (List (Option String × Json) × List Char)
  | 0, _ => none
  | fuel + 1, s => do
    match skipBlanks s with
    | '"' :: rest => do
        let (key, rest) ← string? rest
        match skipBlanks rest with
        | ':' :: rest => do
            let (value, rest) ← value? fuel rest
            match skipBlanks rest with
            | ',' :: rest => do
                let (more, rest) ← members? fuel rest
                return ((key, value) :: more, rest)
            | '\x7d' :: rest => some ([(key, value)], rest)
            | _ => none
        | _ => none
    | _ => none

end

/-- The value of a text that holds one value and nothing else. Every step of the reader takes a
character, so their number is enough fuel. -/
def parse? (text : String) : Option Json := do
  let s := text.toList
  let (value, rest) ← value? (s.length + 1) s
  if (skipBlanks rest).isEmpty then some value else none

/-- A string between quotes. What is written here is ASCII without quotes or backslashes. -/
def quoted (s : String) : String := "\"" ++ s ++ "\""

mutual

/-- The shortest text of a value: no blanks, members in the order given. -/
def text : Json → String
  | .null => "null"
  | .bool b => if b then "true" else "false"
  | .number n => toString (n.getD 0)
  | .string s => quoted (s.getD "")
  | .array items => "[" ++ ",".intercalate (itemTexts items) ++ "]"
  | .object members => "\x7b" ++ ",".intercalate (memberTexts members) ++ "\x7d"

def itemTexts : List Json → List String
  | [] => []
  | item :: rest => item.text :: itemTexts rest

def memberTexts : List (Option String × Json) → List String
  | [] => []
  | (key, value) :: rest => (quoted (key.getD "") ++ ":" ++ value.text) :: memberTexts rest

end

end Json

end ObjectStore
