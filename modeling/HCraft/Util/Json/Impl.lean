import HCraft.Util.Binary
import HCraft.Util.Fault

/-!
This module contains the JSON writer and reader. Characters are bytes, in the "C" locale.
-/

namespace HCraft

/--
`double` with the operators of the standard streams at their default settings.
-/
class Double (ν : Type) where
  ofNat : Nat → ν
  /-- `operator<<` -/
  write : ν → Bytes
  /-- `operator>>` -/
  read : Bytes → ν

/--
The members of an object stand in the order in which they are visited.
-/
inductive JValue (ν : Type) where
  | null
  | bool (val : Bool)
  | number (val : ν)
  | string (val : Bytes)
  | array (vals : List (JValue ν))
  | object (vals : List (Bytes × JValue ν))

structure JsonFormat where
  indent : Int
  elemPerLine : Bool
  elemDist : Int
  commaSpaces : Int
  colSpaceBefore : Int
  colSpaceAfter : Int
  braceInLine : Bool
  bracketInLine : Bool
  elemsPerLine : Int
  deriving DecidableEq, Repr

def JsonFormat.packed : JsonFormat :=
  { indent := 0, elemPerLine := false, elemDist := 0, commaSpaces := 0, colSpaceBefore := 0,
    colSpaceAfter := 0, braceInLine := false, bracketInLine := false, elemsPerLine := 1 }

def JsonFormat.nice : JsonFormat :=
  { indent := 4, elemPerLine := true, elemDist := 0, commaSpaces := 1, colSpaceBefore := 0,
    colSpaceAfter := 1, braceInLine := false, bracketInLine := false, elemsPerLine := 2 }

namespace JsonWriter

/--
`std::string (n, c)`, which throws if `n` is a negative number taken for a size.
-/
def fill (n : Int) (c : UInt8) : Except Fault Bytes :=
  if n < 0 then .error .uncaught else .ok (List.replicate n.toNat c)

def escape (c : UInt8) : Bytes :=
  if c = 34 then
    [92, 34] -- \"
  else if c = 92 then
    [92, 92] -- \\
  else if c = 8 then
    [92, 98] -- \b
  else if c = 12 then
    [92, 102] -- \f
  else if c = 10 then
    [92, 110] -- \n
  else if c = 13 then
    [92, 114] -- \r
  else if c = 9 then
    [92, 116] -- \t
  else
    [c]

def encodeStr (str : Bytes) : Bytes :=
  34 :: str.flatMap escape ++ [34]

section Format

variable (fmt : JsonFormat)

def indentation (depth : Nat) : Except Fault Bytes :=
  fill (Bin.wrap32 (fmt.indent * depth)) 32

/--
The brace or bracket that a container starts with.
-/
def opening (inLine : Bool) (depth : Nat) (brace : UInt8) : Except Fault Bytes :=
  if inLine then
    (indentation fmt depth).map (fun spaces => 10 :: spaces ++ [brace])
  else
    .ok [brace]

def newline : Bytes :=
  if fmt.elemPerLine then [10] else []

/--
What comes between one element and the next.
-/
def separator (last : Bool) : Except Fault Bytes :=
  if last then
    .ok []
  else do
    let spaces ← fill fmt.commaSpaces 32
    let lines ← fill fmt.elemDist 10
    return 44 :: spaces ++ lines

def memberIndent (depth : Nat) : Except Fault Bytes :=
  if fmt.indent = 0 then .ok [] else indentation fmt (depth + 1)

/--
`i % fmt.elems_per_line == 0`
-/
def startsLine (i : Nat) : Except Fault Bool :=
  if fmt.elemsPerLine = 0 then
    .error .divisionByZero
  else
    .ok (Int.tmod i fmt.elemsPerLine = 0)

def elemIndent (depth i : Nat) : Except Fault Bytes :=
  if fmt.indent = 0 then
    .ok []
  else do
    let starts ← startsLine fmt i
    if starts then indentation fmt (depth + 1) else return []

def elemEnd (i count : Nat) : Except Fault Bytes :=
  if !fmt.elemPerLine then
    .ok []
  else if i + 1 = count then
    .ok [10]
  else do
    let starts ← startsLine fmt (i + 1)
    return if starts then [10] else []

end Format

variable {ν : Type} [Double ν]

mutual

def write (fmt : JsonFormat) (depth : Nat) : JValue ν → Except Fault Bytes
  | .object vals => do
    let open' ← opening fmt fmt.braceInLine depth 123 -- {
    let body ← writeMembers fmt depth vals.length 0 vals
    let spaces ← indentation fmt depth
    return open' ++ newline fmt ++ body ++ spaces ++ [125] -- }
  | .array vals => do
    let open' ← opening fmt fmt.bracketInLine depth 91 -- [
    let body ← writeElems fmt depth vals.length 0 vals
    let spaces ← indentation fmt depth
    return open' ++ newline fmt ++ body ++ spaces ++ [93] -- ]
  | .string val => .ok (encodeStr val)
  | .number val => .ok (Double.write val)
  | .bool val => .ok (if val then [116, 114, 117, 101] else [102, 97, 108, 115, 101])
  | .null => .ok [110, 117, 108, 108]

/--
The loop of `_write_object` from member `i` on.
-/
def writeMembers (fmt : JsonFormat) (depth count : Nat)
    : Nat → List (Bytes × JValue ν) → Except Fault Bytes
  | _, [] => .ok []
  | i, (key, val) :: vals => do
    let indent ← memberIndent fmt depth
    let before ← fill fmt.colSpaceBefore 32
    let after ← fill fmt.colSpaceAfter 32
    let out ← write fmt (depth + 1) val
    let sep ← separator fmt (i + 1 = count)
    let rest ← writeMembers fmt depth count (i + 1) vals
    return indent ++ encodeStr key ++ before ++ [58] ++ after ++ out ++ sep ++ newline fmt ++ rest

/--
The loop of `_write_array` from element `i` on.
-/
def writeElems (fmt : JsonFormat) (depth count : Nat)
    : Nat → List (JValue ν) → Except Fault Bytes
  | _, [] => .ok []
  | i, val :: vals => do
    let indent ← elemIndent fmt depth i
    let out ← write fmt (depth + 1) val
    let sep ← separator fmt (i + 1 = count)
    let ending ← elemEnd fmt i count
    let rest ← writeElems fmt depth count (i + 1) vals
    return indent ++ out ++ sep ++ ending ++ rest

end

end JsonWriter

/--
A stream from its next character on.
-/
structure LexerStream where
  strm : Bytes
  ln : Int
  col : Int
  deriving DecidableEq, Repr

namespace LexerStream

def new (strm : Bytes) : LexerStream :=
  { strm, ln := 1, col := 1 }

/--
`none` stands for `EOF`.
-/
def get (ls : LexerStream) : Option UInt8 × LexerStream :=
  match ls.strm with
  | [] => (none, ls)
  | n :: strm =>
    if n = 10 then
      (some n, { strm, ln := ls.ln + 1, col := 1 })
    else
      (some n, { strm, ln := ls.ln, col := ls.col + 1 })

def peek (ls : LexerStream) : Option UInt8 :=
  ls.strm.head?

/--
One `get` for each of the characters ahead that satisfy `p`.
-/
def getWhile (p : UInt8 → Bool) (ls : LexerStream) : LexerStream :=
  (ls.strm.takeWhile p).foldl (fun ls _ => ls.get.2) ls

end LexerStream

/--
`json_parse_error`, and a reader that has run out of fuel.
-/
inductive JsonParseError where
  | error (what : String) (ln col : Int)
  | outOfFuel
  deriving DecidableEq, Repr

namespace JsonReader

def isspace (c : UInt8) : Bool :=
  c = 32 || (9 ≤ c && c ≤ 13)

def isdigit (c : UInt8) : Bool :=
  48 ≤ c && c ≤ 57

def throwAt {α : Type} (what : String) (ls : LexerStream) : Except JsonParseError α :=
  .error (.error what ls.ln ls.col)

def skipWhite (ls : LexerStream) : LexerStream :=
  ls.getWhile isspace

/--
`strm.get ()` has to return `c`.
-/
def expect (c : UInt8) (what : String) (ls : LexerStream) : Except JsonParseError LexerStream :=
  let (n, ls) := ls.get
  if n = some c then .ok ls else throwAt what ls

/--
What a backslash and `c` stand for.
-/
def unescape (c : UInt8) : Bytes :=
  if c = 34 then
    [34]
  else if c = 92 then
    [92]
  else if c = 47 then
    [47]
  else if c = 98 then
    [8]
  else if c = 102 then
    [12]
  else if c = 110 then
    [10]
  else if c = 114 then
    [13]
  else if c = 116 then
    [9]
  else
    []

/--
The loop of `_read_str`. Every round takes a character.
-/
def readStrLoop : Nat → Bytes → LexerStream → Except JsonParseError (Bytes × LexerStream)
  | 0, _, _ => .error .outOfFuel
  | fuel + 1, out, ls =>
    match ls.get with
    | (none, ls) => throwAt "unexpected EOF inside JSON string" ls
    | (some 34, ls) => .ok (out, ls)
    | (some 92, ls) =>
      match ls.get with
      | (none, ls) => throwAt "unexpected EOF inside JSON string" ls
      | (some c, ls) => readStrLoop fuel (out ++ unescape c) ls
    | (some c, ls) => readStrLoop fuel (out ++ [c]) ls

def readStr (ls : LexerStream) : Except JsonParseError (Bytes × LexerStream) := do
  let ls ← expect 34 "expected '\"' at start of JSON string" (skipWhite ls)
  readStrLoop (ls.strm.length + 1) [] ls

def isNumberChar (c : UInt8) : Bool :=
  isdigit c || c = 46 || c = 45

variable {ν : Type} [Double ν]

def readNumber (ls : LexerStream) : ν × LexerStream :=
  (Double.read (ls.strm.takeWhile isNumberChar), ls.getWhile isNumberChar)

/--
The characters of a keyword, one `get` after the other.
-/
def expectAll (word : Bytes) (what : String) (ls : LexerStream)
    : Except JsonParseError LexerStream :=
  match word with
  | [] => .ok ls
  | c :: word => do
    let ls ← expect c what ls
    expectAll word what ls

def readBool (ls : LexerStream) : Except JsonParseError (Bool × LexerStream) :=
  match (skipWhite ls).get with
  | (some 116, ls) => do
    let ls ← expectAll [114, 117, 101] "expected 'true' or 'false'" ls
    return (true, ls)
  | (some 102, ls) => do
    let ls ← expectAll [97, 108, 115, 101] "expected 'true' or 'false'" ls
    return (false, ls)
  | (_, ls) => throwAt "expected 'true' or 'false'" ls

def readNull (ls : LexerStream) : Except JsonParseError LexerStream :=
  expectAll [110, 117, 108, 108] "expected 'null'" (skipWhite ls)

/--
`j_object::set`
-/
def setMember (key : Bytes) (val : JValue ν) : List (Bytes × JValue ν) → List (Bytes × JValue ν)
  | [] => [(key, val)]
  | (key', val') :: vals =>
    if key' = key then (key, val) :: vals else (key', val') :: setMember key val vals

/--
What has to follow an element: a comma, which is taken, or the end, which is not.
-/
def readSeparator (close : UInt8) (what : String) (ls : LexerStream)
    : Except JsonParseError LexerStream :=
  let ls := skipWhite ls
  if ls.peek = some 44 then
    .ok ls.get.2
  else if ls.peek = some close then
    .ok ls
  else
    throwAt what ls

def beginObject (ls : LexerStream) : Except JsonParseError LexerStream :=
  expect 123 "expected '\x7b' at start of JSON object" (skipWhite ls)

def beginArray (ls : LexerStream) : Except JsonParseError LexerStream :=
  expect 91 "expected '[' at start of JSON array" (skipWhite ls)

mutual

def read : Nat → LexerStream → Except JsonParseError (JValue ν × LexerStream)
  | 0, _ => .error .outOfFuel
  | fuel + 1, ls =>
    let ls := skipWhite ls
    match ls.peek with
    | none => throwAt "invalid JSON value" ls
    | some c =>
      if c = 123 then do
        let ls ← beginObject ls
        let (vals, ls) ← readMembers fuel [] ls
        return (.object vals, ls)
      else if c = 91 then do
        let ls ← beginArray ls
        let (vals, ls) ← readElems fuel [] ls
        return (.array vals, ls)
      else if c = 34 then do
        let (val, ls) ← readStr ls
        return (.string val, ls)
      else if c = 116 ∨ c = 102 then do
        let (val, ls) ← readBool ls
        return (.bool val, ls)
      else if c = 110 then do
        let ls ← readNull ls
        return (.null, ls)
      else if isdigit c then
        let (val, ls) := readNumber ls
        .ok (.number val, ls)
      else
        throwAt "invalid JSON value" ls

/--
The loop of `_read_object`.
-/
def readMembers : Nat → List (Bytes × JValue ν) → LexerStream
    → Except JsonParseError (List (Bytes × JValue ν) × LexerStream)
  | 0, _, _ => .error .outOfFuel
  | fuel + 1, obj, ls =>
    let ls := skipWhite ls
    if ls.peek = some 125 then
      .ok (obj, ls.get.2)
    else do
      let (key, ls) ← readStr ls
      let ls ← expect 58 "expected ':' between name/value pair" (skipWhite ls)
      let (val, ls) ← read fuel (skipWhite ls)
      let ls ← readSeparator 125 "expected ',' or '\x7d' after name/value pair" ls
      readMembers fuel (setMember key val obj) ls

/--
The loop of `_read_array`.
-/
def readElems : Nat → List (JValue ν) → LexerStream
    → Except JsonParseError (List (JValue ν) × LexerStream)
  | 0, _, _ => .error .outOfFuel
  | fuel + 1, arr, ls =>
    let ls := skipWhite ls
    if ls.peek = some 93 then
      .ok (arr, ls.get.2)
    else do
      let (val, ls) ← read fuel ls
      let ls ← readSeparator 93 "expected ',' or ']' after array element" ls
      readElems fuel (arr ++ [val]) ls

end

/--
`_read_object`. A value and the loop around it may both stand at the same character, so twice as much
fuel as characters is enough.
-/
def readObject (ls : LexerStream)
    : Except JsonParseError (List (Bytes × JValue ν) × LexerStream) := do
  let ls ← beginObject ls
  readMembers (2 * ls.strm.length + 1) [] ls

end JsonReader

end HCraft
