import HCraft.Util.Binary

/-!
This module contains how the options and arguments of a command are parsed.
-/

namespace HCraft

inductive CommandFault where
  | parseError (what : Bytes) -- a `command_parse_error`
  | undefined -- `front ()` of an empty vector
  | outOfFuel

structure Argument where
  val : Bytes
  spc : Nat -- space count before arg
  deriving DecidableEq

structure CommandOption where
  shortName : UInt8
  longName : Bytes
  argReq : Bool
  req : Bool
  arg : Option Argument
  enc : Bool
  deriving DecidableEq

/--
`ss` is what is left of the input. To look ahead is to look at its first byte, and to `unget` is to
go on with the stream as it was before.
-/
structure CommandReader where
  opts : List CommandOption
  args : List Argument
  argi : Nat
  ss : Bytes
  pOpts : Bool -- false if stopped parsing opts (after --)
  spc : Nat -- space count before last arg

/--
`std::isspace` in the "C" locale
-/
def isSpace (c : UInt8) : Bool :=
  c == 32 || (9 ≤ c && c ≤ 13)

/--
`std::isalpha` in the "C" locale
-/
def isAlpha (c : UInt8) : Bool :=
  (65 ≤ c && c ≤ 90) || (97 ≤ c && c ≤ 122)

namespace CommandReader

def text (what : String) : Bytes :=
  what.toUTF8.data.toList

def skipWhitespace (reader : CommandReader) : CommandReader :=
  { reader with
    ss := reader.ss.dropWhile isSpace
    spc := (reader.ss.takeWhile isSpace).length }

/--
The loop of `parse_string` behind the first quote: the value, and what is left.
-/
def parseStringLoop (val : Bytes) : Bytes → Except CommandFault (Bytes × Bytes)
  | [] => .error (.parseError (text "encountered unterminated string"))
  | c :: ss =>
    if c = 34 then -- "
      .ok (val, ss)
    else if c = 92 then -- \
      match ss with
      | [] => .error (.parseError (text "expected escape sequence after '\\'"))
      | c :: ss =>
        if c = 92 then
          parseStringLoop (val ++ [92] ++ [c]) ss
        else if c = 34 then
          parseStringLoop (val ++ [34] ++ [c]) ss
        else
          .error (.parseError (text "invalid escape sequence in string"))
    else
      parseStringLoop (val ++ [c]) ss

def parseString (reader : CommandReader) : Except CommandFault (Argument × CommandReader) := do
  let (val, ss) ← parseStringLoop [] (reader.ss.drop 1) -- skip "
  return ({ val, spc := reader.spc }, { reader with ss })

def parseArg (reader : CommandReader) : Except CommandFault (Option Argument × CommandReader) := do
  match reader.ss with
  | [] => return (none, reader)
  | c :: _ =>
    if c = 34 then -- "
      let (arg, reader) ← reader.parseString
      return (some arg, reader)
    else
      let val := reader.ss.takeWhile (!isSpace ·)
      let ss := reader.ss.dropWhile (!isSpace ·)
      return (some { val, spc := reader.spc }, { reader with ss })

/--
The option at `i` has been encountered.
-/
def markEnc (reader : CommandReader) (i : Nat) : CommandReader :=
  { reader with opts := reader.opts.modify i (fun opt => { opt with enc := true }) }

def setArg (reader : CommandReader) (i : Nat) (arg : Option Argument) : CommandReader :=
  { reader with opts := reader.opts.modify i (fun opt => { opt with arg }) }

/--
The argument behind `--name` if there is a `=`
-/
def parseLongArg (reader : CommandReader) (i : Nat) : Except CommandFault CommandReader :=
  if reader.ss.head? = some 61 then do -- =
    let (arg, reader) ← parseArg { reader with ss := reader.ss.drop 1 }
    return reader.setArg i arg
  else
    return reader

def parseLongOpt (reader : CommandReader) : Except CommandFault CommandReader :=
  let ss := reader.ss.drop 1 -- skip -
  if ss.head?.all isSpace then
    -- end of options
    return { reader with ss, pOpts := false }
  else
    let name := ss.takeWhile (fun c => c != 61 && !isSpace c)
    let ss := ss.dropWhile (fun c => c != 61 && !isSpace c)
    match reader.opts.findIdx? (·.longName == name) with
    | none => .error (.parseError (text "unknown option --" ++ name))
    | some i => do
      let reader ← (markEnc { reader with ss } i).parseLongArg i
      if reader.opts[i]?.any (fun opt => opt.argReq && opt.arg.isNone) then
        .error (.parseError (text "expected argument after option (--" ++ name ++ text ")"))
      else
        return reader

/--
The loop over the letters of `-xyz`: the options they stand for.
-/
def parseLetters (reader : CommandReader) (encOpts : List Nat)
    : Bytes → Except CommandFault (List Nat × CommandReader)
  | [] => .ok (encOpts, { reader with ss := [] })
  | optc :: ss =>
    if !isAlpha optc then
      .ok (encOpts, { reader with ss := optc :: ss })
    else
      match reader.opts.findIdx? (·.shortName == optc) with
      | none => .error (.parseError (text "unknown option -" ++ [optc]))
      | some i => (reader.markEnc i).parseLetters (encOpts ++ [i]) ss

/--
What is done with the options behind `-`
-/
def parseShort (reader : CommandReader) : List Nat → Except CommandFault CommandReader
  | [] => .error .undefined
  | [i] =>
    if reader.opts[i]?.any (·.argReq) then do
      let (arg, reader) ← reader.skipWhitespace.parseArg
      let reader := reader.setArg i arg
      if arg.isNone then
        .error (.parseError (text "expected argument after option (-"
          ++ (reader.opts[i]?.map (·.shortName)).toList ++ text ")"))
      else
        return reader
    else
      return reader
  | encOpts =>
    if encOpts.any (fun i => reader.opts[i]?.any (·.argReq)) then
      .error (.parseError (text "options must not take arguments when grouped"))
    else
      return reader

def parseOpt (reader : CommandReader) : Except CommandFault CommandReader :=
  let ss := reader.ss.drop 1 -- skip -
  if ss.head? = some 45 then -- -
    parseLongOpt { reader with ss }
  else do
    let (encOpts, reader) ← reader.parseLetters [] ss
    reader.parseShort encOpts

def parseNext (reader : CommandReader) : Except CommandFault CommandReader := do
  match reader.ss with
  | [] => return reader
  | c :: ss =>
    if c = 45 && ss.head?.any (fun c => c == 45 || isAlpha c) && reader.pOpts then -- -
      reader.parseOpt
    else
      let (arg, reader) ← reader.parseArg
      return { reader with args := reader.args ++ arg.toList } -- never null, `c` is part of it

/--
The loop of `parse`. Every turn takes a byte at least, so there are no more turns than bytes.
-/
def parseLoop : Nat → CommandReader → Except CommandFault CommandReader
  | 0, _ => .error .outOfFuel
  | fuel + 1, reader => do
    let reader := reader.skipWhitespace
    if reader.ss = [] then
      return reader
    else
      let reader ← reader.parseNext
      parseLoop fuel reader

def parse (reader : CommandReader) (input : Bytes) : Except CommandFault CommandReader := do
  let reader := { reader with ss := input, pOpts := true, spc := 0 }
  let reader ← parseLoop (input.length + 1) reader
  return { reader with argi := 0 }

def new : CommandReader :=
  { opts := [], args := [], argi := 0, ss := [], pOpts := true, spc := 0 }

def addOpt (reader : CommandReader) (shortName : UInt8) (longName : Bytes) (argReq req : Bool)
    : CommandReader :=
  { reader with
    opts := reader.opts ++ [{ shortName, longName, argReq, req, arg := none, enc := false }] }

/--
`none` if it throws
-/
def opt (reader : CommandReader) (longName : Bytes) : Option CommandOption :=
  reader.opts.find? (·.longName == longName)

end CommandReader

end HCraft
