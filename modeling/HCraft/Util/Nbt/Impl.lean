import HCraft.Util.ByteBuffer

/-!
This module contains the NBT writer and reader.
-/

namespace HCraft

/--
A tag without its name. The writer is told the element type of a list, of type `δ`, which the reader
does not keep. Numbers are bit patterns.
-/
inductive NbtTag (δ : Type) where
  | byte (val : UInt8)
  | short (val : UInt16)
  | int (val : UInt32)
  | long (val : UInt64)
  | float (val : UInt32)
  | double (val : UInt64)
  | byteArray (data : Bytes)
  | string (val : Bytes)
  | list (eltype : δ) (vals : List (NbtTag δ))
  | compound (tags : List (Bytes × NbtTag δ))
  | intArray (data : List UInt32)

namespace NbtTag

def id {δ : Type} : NbtTag δ → UInt8
  | byte _ => 1
  | short _ => 2
  | int _ => 3
  | long _ => 4
  | float _ => 5
  | double _ => 6
  | byteArray _ => 7
  | string _ => 8
  | list _ _ => 9
  | compound _ => 10
  | intArray _ => 11

end NbtTag

/--
The bytes of a `const char *` in front of its end.
-/
def cstr (s : Bytes) : Bytes :=
  s.takeWhile (· ≠ 0)

inductive NbtFrameType where
  | list
  | compound
  deriving DecidableEq, Repr

structure NbtFrame where
  type : NbtFrameType
  lenPos : Nat
  len : Nat

structure NbtWriter where
  buf : ByteBuffer
  frms : List NbtFrame

namespace NbtWriter

def new : NbtWriter :=
  { buf := .new, frms := [⟨.compound, 0, 0⟩] }

def emitTagStart (buf : ByteBuffer) (id : UInt8) (name : Option Bytes)
    : Except Fault ByteBuffer :=
  match name with
  | none => .error .readOutside -- `strlen` of a null pointer
  | some name => do
    let buf ← buf.putByte id
    let buf ← buf.putShortBe ((cstr name).length % 2 ^ 16)
    buf.putBytes (cstr name)

/--
What all `put_*` and `start_*` begin with.
-/
def startTag (w : NbtWriter) (id : UInt8) (name : Option Bytes) : Except Fault NbtWriter :=
  match w.frms with
  | [] => .error .readOutside -- `top` of an empty stack
  | frm :: frms =>
    let frms := { frm with len := frm.len + 1 } :: frms
    if frm.type ≠ .list then do
      let buf ← emitTagStart w.buf id name
      .ok { buf, frms }
    else
      .ok { w with frms }

def putByte (w : NbtWriter) (val : UInt8) (name : Option Bytes) : Except Fault NbtWriter := do
  let w ← w.startTag 1 name
  let buf ← w.buf.putByte val
  .ok { w with buf }

def putShort (w : NbtWriter) (val : UInt16) (name : Option Bytes) : Except Fault NbtWriter := do
  let w ← w.startTag 2 name
  let buf ← w.buf.putShortBe val.toNat
  .ok { w with buf }

def putInt (w : NbtWriter) (val : UInt32) (name : Option Bytes) : Except Fault NbtWriter := do
  let w ← w.startTag 3 name
  let buf ← w.buf.putIntBe val.toNat
  .ok { w with buf }

def putLong (w : NbtWriter) (val : UInt64) (name : Option Bytes) : Except Fault NbtWriter := do
  let w ← w.startTag 4 name
  let buf ← w.buf.putLongBe val.toNat
  .ok { w with buf }

def putFloat (w : NbtWriter) (val : UInt32) (name : Option Bytes) : Except Fault NbtWriter := do
  let w ← w.startTag 5 name
  let buf ← w.buf.putIntBe val.toNat
  .ok { w with buf }

def putDouble (w : NbtWriter) (val : UInt64) (name : Option Bytes) : Except Fault NbtWriter := do
  let w ← w.startTag 6 name
  let buf ← w.buf.putLongBe val.toNat
  .ok { w with buf }

def putByteArray (w : NbtWriter) (arr : Bytes) (name : Option Bytes)
    : Except Fault NbtWriter := do
  let w ← w.startTag 7 name
  let buf ← w.buf.putIntBe arr.length
  let buf ← buf.putBytes arr
  .ok { w with buf }

def putInts (buf : ByteBuffer) : List UInt32 → Except Fault ByteBuffer
  | [] => .ok buf
  | v :: arr => do
    let buf ← buf.putIntBe v.toNat
    putInts buf arr

def putIntArray (w : NbtWriter) (arr : List UInt32) (name : Option Bytes)
    : Except Fault NbtWriter := do
  let w ← w.startTag 11 name
  let buf ← w.buf.putIntBe arr.length
  let buf ← putInts buf arr
  .ok { w with buf }

def putString (w : NbtWriter) (val : Bytes) (name : Option Bytes) : Except Fault NbtWriter := do
  let w ← w.startTag 8 name
  let buf ← w.buf.putShortBe (val.length % 2 ^ 16)
  let buf ← buf.putBytes val
  .ok { w with buf }

def startList (w : NbtWriter) (tagType : UInt8) (name : Option Bytes)
    : Except Fault NbtWriter := do
  let w ← w.startTag 9 name
  let buf ← w.buf.putByte tagType
  let lenPos := buf.pos
  let buf ← buf.putIntBe 0
  .ok { buf, frms := ⟨.list, lenPos, 0⟩ :: w.frms }

def endList (w : NbtWriter) : Except Fault NbtWriter :=
  match w.frms with
  | [] => .error .readOutside
  | frm :: frms => do
    let ppos := w.buf.pos
    let buf ← (w.buf.seek frm.lenPos).putIntBe frm.len
    .ok { buf := buf.seek ppos, frms }

def startCompound (w : NbtWriter) (name : Option Bytes) : Except Fault NbtWriter := do
  let w ← w.startTag 10 name
  .ok { w with frms := ⟨.compound, 0, 0⟩ :: w.frms }

def endCompound (w : NbtWriter) : Except Fault NbtWriter :=
  match w.frms with
  | [] => .error .readOutside
  | _ :: frms => do
    let buf ← w.buf.putByte 0
    .ok { buf, frms }

end NbtWriter

namespace NbtTag

mutual

/--
The calls that write a tag. The elements of a list have no names.
-/
def write : NbtTag UInt8 → Option Bytes → NbtWriter → Except Fault NbtWriter
  | byte val, name, w => w.putByte val name
  | short val, name, w => w.putShort val name
  | int val, name, w => w.putInt val name
  | long val, name, w => w.putLong val name
  | float val, name, w => w.putFloat val name
  | double val, name, w => w.putDouble val name
  | byteArray data, name, w => w.putByteArray data name
  | string val, name, w => w.putString val name
  | list eltype vals, name, w => do
    let w ← w.startList eltype name
    let w ← writeVals vals w
    w.endList
  | compound tags, name, w => do
    let w ← w.startCompound name
    let w ← writeTags tags w
    w.endCompound
  | intArray data, name, w => w.putIntArray data name

def writeVals : List (NbtTag UInt8) → NbtWriter → Except Fault NbtWriter
  | [], w => .ok w
  | t :: ts, w => do
    let w ← t.write none w
    writeVals ts w

def writeTags : List (Bytes × NbtTag UInt8) → NbtWriter → Except Fault NbtWriter
  | [], w => .ok w
  | (name, t) :: ts, w => do
    let w ← t.write (some name) w
    writeTags ts w

end

end NbtTag

/--
`data` is what the block has from the cursor on.
-/
structure NbtCursor where
  data : Bytes
  avail : Int

inductive NbtCompressionStrategy where
  | raw
  | gzip
  | zlib
  deriving DecidableEq, Repr

inductive NbtError where
  | readError (what : String)
  | fault (fault : Fault)
  deriving DecidableEq, Repr

namespace NbtReader

def unexpectedEof : NbtError :=
  .readError "unexpected EOF"

def advance (s : NbtCursor) (n : Int) : Except NbtError NbtCursor :=
  if n < 0 then
    .error (.fault .noProgress)
  else if s.data.length < n then
    .error (.fault .readOutside)
  else
    .ok ⟨s.data.drop n.toNat, s.avail - n⟩

/--
A number of `n` bytes.
-/
def readFixed {α : Type} (n : Nat) (read : Bytes → Option α) (s : NbtCursor)
    : Except NbtError (α × NbtCursor) :=
  if s.avail < n then
    .error unexpectedEof
  else
    match read s.data with
    | none => .error (.fault .readOutside)
    | some v => do
      let s ← advance s n
      .ok (v, s)

def readPayloadByte (s : NbtCursor) : Except NbtError (UInt8 × NbtCursor) :=
  if s.avail = 0 then
    .error unexpectedEof
  else
    match s.data.head? with
    | none => .error (.fault .readOutside)
    | some v => do
      let s ← advance s 1
      .ok (v, s)

def readPayloadShort (s : NbtCursor) : Except NbtError (Nat × NbtCursor) :=
  readFixed 2 Bin.readShortBe s

def readPayloadInt (s : NbtCursor) : Except NbtError (Int × NbtCursor) :=
  readFixed 4 Bin.readIntBe s

def readPayloadLong (s : NbtCursor) : Except NbtError (Nat × NbtCursor) :=
  readFixed 8 Bin.readLongBe s

def readPayloadByteArray (s : NbtCursor) : Except NbtError (Bytes × NbtCursor) := do
  let (len, s) ← readFixed 4 Bin.readIntBe s
  if s.avail < len then
    .error unexpectedEof
  else if len < 0 then
    .error (.fault .wrappedSize) -- `new unsigned char [len]`
  else if s.data.length < len then
    .error (.fault .readOutside)
  else
    let data := s.data.take len.toNat
    let s ← advance s len
    .ok (data, s)

def readPayloadString (s : NbtCursor) : Except NbtError (Bytes × NbtCursor) := do
  let (len, s) ← readFixed 2 Bin.readShortBe s
  if s.avail < len then
    .error unexpectedEof
  else if s.data.length < len then
    .error (.fault .readOutside)
  else
    let str := s.data.take len
    let s ← advance s len
    .ok (cstr str, s)

def readInts : Nat → Bytes → Option (List UInt32)
  | 0, _ => some []
  | n + 1, data =>
    match Bin.readIntBe data with
    | none => none
    | some v => (readInts n (data.drop 4)).map (UInt32.ofNat (Bin.unsigned32 v) :: ·)

def readPayloadIntArray (s : NbtCursor) : Except NbtError (List UInt32 × NbtCursor) := do
  let (len, s) ← readFixed 4 Bin.readIntBe s
  if s.avail < Bin.wrap32 (len * 4) then
    .error unexpectedEof
  else if len < 0 then
    .error (.fault .wrappedSize) -- `new int [len]`
  else
    match readInts len.toNat s.data with
    | none => .error (.fault .readOutside)
    | some vals => do
      let s ← advance s (Bin.wrap32 (len * 4))
      .ok (vals, s)

/--
`map[name] = tag`
-/
def setTag (name : Bytes) (t : NbtTag Unit)
    : List (Bytes × NbtTag Unit) → List (Bytes × NbtTag Unit)
  | [] => [(name, t)]
  | (n, t') :: tags => if n = name then (n, t) :: tags else (n, t') :: setTag name t tags

/--
The name of a tag, behind its id.
-/
def readName (s : NbtCursor) : Except NbtError (Bytes × NbtCursor) := do
  let (len, s) ← readFixed 2 Bin.readShortBe s
  let slen : Int := if len < 2 ^ 15 then len else len - 2 ^ 16
  if slen + 1 < 0 then
    .error (.fault .wrappedSize) -- `new char [slen + 1]`
  else if s.avail < slen then
    .error unexpectedEof
  else if slen < 0 then
    .error (.fault .wrappedSize) -- `memcpy`
  else if s.data.length < slen then
    .error (.fault .readOutside)
  else
    let name := s.data.take slen.toNat
    let s ← advance s slen
    .ok (cstr name, s)

/--
The elements are read by `vals`.
-/
def readPayloadList
    (vals : UInt8 → Nat → NbtCursor → Except NbtError (List (NbtTag Unit) × NbtCursor))
    (s : NbtCursor) : Except NbtError (NbtTag Unit × NbtCursor) :=
  if s.avail < 5 then
    .error unexpectedEof
  else do
    let (tagid, s) ← readPayloadByte s
    let (count, s) ← readFixed 4 Bin.readIntBe s
    let (ts, s) ← vals tagid count.toNat s
    .ok (.list () ts, s)

mutual

/--
The fuel bounds the depth of the calls. It does not run out.
-/
def readPayload : Nat → UInt8 → NbtCursor → Except NbtError (NbtTag Unit × NbtCursor)
  | 0, _, _ => .error (.fault .noProgress)
  | fuel + 1, id, s =>
    if id = 1 then
      (readPayloadByte s).map (fun (v, s) => (.byte v, s))
    else if id = 2 then
      (readPayloadShort s).map (fun (v, s) => (.short (UInt16.ofNat v), s))
    else if id = 3 then
      (readPayloadInt s).map (fun (v, s) => (.int (UInt32.ofNat (Bin.unsigned32 v)), s))
    else if id = 4 then
      (readPayloadLong s).map (fun (v, s) => (.long (UInt64.ofNat v), s))
    else if id = 5 then
      (readPayloadInt s).map (fun (v, s) => (.float (UInt32.ofNat (Bin.unsigned32 v)), s))
    else if id = 6 then
      (readPayloadLong s).map (fun (v, s) => (.double (UInt64.ofNat v), s))
    else if id = 7 then
      (readPayloadByteArray s).map (fun (data, s) => (.byteArray data, s))
    else if id = 8 then
      (readPayloadString s).map (fun (val, s) => (.string val, s))
    else if id = 9 then
      readPayloadList (readVals fuel) s
    else if id = 10 then do
      let (tags, s) ← readTags fuel [] s
      .ok (.compound tags, s)
    else if id = 11 then
      (readPayloadIntArray s).map (fun (data, s) => (.intArray data, s))
    else
      .error (.readError "invalid tag id")

def readVals : Nat → UInt8 → Nat → NbtCursor → Except NbtError (List (NbtTag Unit) × NbtCursor)
  | 0, _, _, _ => .error (.fault .noProgress)
  | _ + 1, _, 0, s => .ok ([], s)
  | fuel + 1, id, count + 1, s => do
    let (t, s) ← readPayload fuel id s
    let (ts, s) ← readVals fuel id count s
    .ok (t :: ts, s)

/--
The loop of `_read_payload_compound`.
-/
def readTags : Nat → List (Bytes × NbtTag Unit) → NbtCursor
    → Except NbtError (List (Bytes × NbtTag Unit) × NbtCursor)
  | 0, _, _ => .error (.fault .noProgress)
  | fuel + 1, tags, s =>
    if s.avail = 0 then
      .error unexpectedEof
    else
      match s.data.head? with
      | none => .error (.fault .readOutside)
      | some b =>
        if b = 0 then do
          -- consume TAG_End
          let s ← advance s 1
          .ok (tags, s)
        else do
          match ← readTag fuel s with
          | (none, _) => .error unexpectedEof
          | (some (name, t), s) => readTags fuel (setTag name t tags) s

def readTag : Nat → NbtCursor → Except NbtError (Option (Bytes × NbtTag Unit) × NbtCursor)
  | 0, _ => .error (.fault .noProgress)
  | fuel + 1, s =>
    if s.avail = 0 then
      .ok (none, s)
    else do
      let (id, s) ← readPayloadByte s
      let (name, s) ← readName s
      let (t, s) ← readPayload fuel id s
      .ok (some (name, t), s)

end

/--
`read` with `NBT_RAW`: the name of the compound, and its tags.
-/
def readRaw (data : Bytes) : Except NbtError (Bytes × List (Bytes × NbtTag Unit)) := do
  match ← readTag (2 * data.length + 1) ⟨data, data.length⟩ with
  | (some (name, .compound tags), _) => .ok (name, tags)
  | _ => .error (.readError "expected NBT compound tag")

end NbtReader

end HCraft
