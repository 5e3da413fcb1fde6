import ScopeScore.Proofs.Decimal.Numeral
import ScopeScore.Report.Json

set_option autoImplicit false

/-! # Reading JSON

A reader for JSON, apart from the writer of reports: blanks between tokens, escapes of every sort in
strings, numbers with fractions and exponents, nested arrays and objects (`Json.read?`). A text that
is no JSON is refused, and so is a string with half of a surrogate pair.

A text is taken apart into tokens first (`tokens?`), and a value is read from these (`readValue?`). A
string is read as UTF-16 units, since an escape gives one unit and a character may need two
(`readUnits?`, `ofUnits?`). Numbers are kept exactly, as digits times a power of ten.
-/

namespace ScopeScore.Json

/-- What a text in JSON says. Members of an object keep their order. -/
inductive Value where
  | null
  | boolean (b : Bool)
  /-- The number `digits · 10^exponent`. -/
  | number (digits exponent : Int)
  | string (s : String)
  | array (items : List Value)
  | object (members : List (String × Value))
deriving Repr, Inhabited

/-! ## Strings -/

/-- The value of a hexadecimal digit. -/
def hexValue? (c : Char) : Option Nat :=
  if '0' ≤ c ∧ c ≤ '9' then some (c.toNat - '0'.toNat)
  else if 'a' ≤ c ∧ c ≤ 'f' then some (c.toNat - 'a'.toNat + 10)
  else if 'A' ≤ c ∧ c ≤ 'F' then some (c.toNat - 'A'.toNat + 10)
  else none

/-- The value of hexadecimal digits. -/
def hexNumber? (ds : List Char) : Option Nat :=
  ds.foldlM (fun n d => (hexValue? d).map (16 * n + ·)) 0

/-- The character that a letter stands for behind a backslash. -/
def letterMeaning? : Char → Option Char
  | '"' => some '"'
  | '\\' => some '\\'
  | '/' => some '/'
  | 'b' => some '\x08'
  | 'f' => some '\x0c'
  | 'n' => some '\n'
  | 'r' => some '\r'
  | 't' => some '\t'
  | _ => none

/-- The units of a string up to its closing quotation mark, and what comes behind that. -/
def readUnits? : List Char → Option (List Nat × List Char)
  | [] => none
  | '"' :: rest => some ([], rest)
  | '\\' :: 'u' :: a :: b :: c :: d :: rest => do
      let unit ← hexNumber? [a, b, c, d]
      (readUnits? rest).map (Prod.map (unit :: ·) id)
  | '\\' :: letter :: rest => do
      let c ← letterMeaning? letter
      (readUnits? rest).map (Prod.map (units c ++ ·) id)
  | c :: rest =>
      if c = '\\' ∨ c.toNat < 0x20 then none
      else (readUnits? rest).map (Prod.map (units c ++ ·) id)

/-- The characters of UTF-16 units. -/
def ofUnits? : List Nat → Option (List Char)
  | [] => some []
  | u :: us =>
      if u < 0xD800 ∨ 0xDFFF < u then (ofUnits? us).map (Char.ofNat u :: ·)
      else
        -- half of a pair, which needs its other half
        match us with
        | [] => none
        | v :: us =>
            if u < 0xDC00 ∧ 0xDC00 ≤ v ∧ v ≤ 0xDFFF then
              (ofUnits? us).map (Char.ofNat (0x10000 + (u - 0xD800) * 0x400 + (v - 0xDC00)) :: ·)
            else none

/-- A string behind its opening quotation mark. -/
def readString? (cs : List Char) : Option (String × List Char) := do
  let (us, rest) ← readUnits? cs
  let s ← ofUnits? us
  return (String.ofList s, rest)

/-! ## Numbers and words -/

/-- The digits behind a point, if there is one. -/
def readFraction? : List Char → Option (List Char × List Char)
  | '.' :: cs => Decimal.digits? cs
  | cs => some ([], cs)

/-- The exponent behind an `e`, if there is one. -/
def readExponent? : List Char → Option (Int × List Char)
  | [] => some (0, [])
  | c :: cs =>
      if c = 'e' ∨ c = 'E' then do
        let (negative, cs) := Decimal.splitSign cs
        let (ds, rest) ← Decimal.digits? cs
        return (Decimal.signed negative ds, rest)
      else some (0, c :: cs)

/-- A number at the front of a text. -/
def readNumber? (cs : List Char) : Option (Value × List Char) := do
  let (negative, cs) := Decimal.splitMinus cs
  let (whole, cs) ← Decimal.whole? cs
  let (fraction, cs) ← readFraction? cs
  let (exponent, cs) ← readExponent? cs
  return (.number (Decimal.signed negative (whole ++ fraction)) (exponent - fraction.length), cs)

/-- The values that have names. -/
def words : List (String × Value) :=
  [("null", .null), ("true", .boolean true), ("false", .boolean false)]

/-- A word at the front of a text. -/
def readWord? (cs : List Char) : Option (Value × List Char) :=
  words.findSome? fun (name, v) => (name.toList.isPrefixOf? cs).map fun rest => (v, rest)

/-! ## Tokens -/

/-- A mark of punctuation, or a value that is no array and no object. -/
inductive Token where
  | openArray
  | closeArray
  | openObject
  | closeObject
  | comma
  | colon
  | plain (v : Value)
deriving Repr, Inhabited

def isBlank (c : Char) : Bool := c == ' ' || c == '\t' || c == '\n' || c == '\r'

def punctuation? : Char → Option Token
  | '[' => some .openArray
  | ']' => some .closeArray
  | '\x7b' => some .openObject
  | '\x7d' => some .closeObject
  | ',' => some .comma
  | ':' => some .colon
  | _ => none

/-- A string, a word or a number at the front of a text. -/
def readPlain? : List Char → Option (Value × List Char)
  | '"' :: cs => (readString? cs).map (Prod.map .string id)
  | cs => readWord? cs <|> readNumber? cs

/-- The tokens of a text. What is behind a value is read only if it is shorter, as it always is. -/
def tokens? : List Char → Option (List Token)
  | [] => some []
  | c :: cs =>
      if isBlank c then tokens? cs
      else
        match punctuation? c with
        | some t => (tokens? cs).map (t :: ·)
        | none => do
            let (v, rest) ← readPlain? (c :: cs)
            if _h : rest.length ≤ cs.length then (tokens? rest).map (.plain v :: ·) else none
termination_by cs => cs.length

/-! ## Values -/

mutual

/-- A value at the front of some tokens, and what comes behind it. -/
def readValue? : List Token → Option (Value × List Token)
  | .plain v :: ts => some (v, ts)
  | .openArray :: .closeArray :: ts => some (.array [], ts)
  | .openArray :: ts => (readItems? ts).map (Prod.map .array id)
  | .openObject :: .closeObject :: ts => some (.object [], ts)
  | .openObject :: ts => (readMembers? ts).map (Prod.map .object id)
  | _ => none
termination_by ts => 2 * ts.length

/-- The items of an array that is not empty, and what comes behind its closing bracket. -/
def readItems? (ts : List Token) : Option (List Value × List Token) :=
  match readValue? ts with
  | some (v, .comma :: rest) =>
      if _h : rest.length < ts.length then (readItems? rest).map (Prod.map (v :: ·) id) else none
  | some (v, .closeArray :: rest) => some ([v], rest)
  | _ => none
termination_by 2 * ts.length + 1

/-- The members of an object that is not empty, and what comes behind its closing brace. -/
def readMembers? : List Token → Option (List (String × Value) × List Token)
  | .plain (.string name) :: .colon :: ts =>
      match readValue? ts with
      | some (v, .comma :: rest) =>
          if _h : rest.length < ts.length then
            (readMembers? rest).map (Prod.map ((name, v) :: ·) id)
          else none
      | some (v, .closeObject :: rest) => some ([(name, v)], rest)
      | _ => none
  | _ => none
termination_by ts => 2 * ts.length + 1

end

/-- What a text says, if it is JSON. -/
def read? (text : String) : Option Value := do
  let ts ← tokens? text.toList
  match readValue? ts with
  | some (v, []) => some v
  | _ => none

end ScopeScore.Json
