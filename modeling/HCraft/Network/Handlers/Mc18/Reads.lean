import HCraft.Network.Handlers.Mc18

/-!
This module contains what the functions of the 1.8 packet handler read from a packet. What else they
do is left out.
-/

namespace HCraft

/--
The calls that read from a packet.
-/
inductive ReaderCall : Type → Type where
  | readBool : ReaderCall Bool
  | readByte : ReaderCall UInt8
  | readShort : ReaderCall UInt16
  | readLong : ReaderCall UInt64
  | readFloat : ReaderCall UInt32
  | readDouble : ReaderCall UInt64
  | readVarint : ReaderCall Int
  | readString (len : Nat) : ReaderCall (Option Bytes)
  | readBytes (len : Nat) : ReaderCall Bytes

def ReaderCall.run {α : Type} (call : ReaderCall α) (reader : PacketReader)
    : Option (α × PacketReader) :=
  match call with
  | .readBool => reader.readBool
  | .readByte => reader.readByte
  | .readShort => reader.readShort
  | .readLong => reader.readLong
  | .readFloat => reader.readFloat
  | .readDouble => reader.readDouble
  | .readVarint => reader.readVarint
  | .readString len => reader.readString len
  | .readBytes len => reader.readBytes len

/--
What a function reads, each call with what comes next depending on its result.
-/
inductive Reads where
  | done
  /-- the function gives the packet up: it disconnects or throws -/
  | refused
  /-- nobody knows what is called -/
  | wild
  | call {α : Type} (call : ReaderCall α) (next : α → Reads)

namespace Mc18PacketHandler

open Reads ReaderCall

/--
An id of -1 stands for no item.
-/
def readSlot (next : Reads) : Reads :=
  call readShort fun id =>
    if id = 0xFFFF then
      next
    else
      call readByte fun _ => -- count
      call readShort fun _ => -- damage
      call readByte fun more =>
        if more = 0 then next else refused -- throws

def readPos (next : Reads) : Reads :=
  call readLong fun _ => next

def handleH00 : Reads :=
  call readVarint fun proto =>
    if proto ≠ 47 then
      refused
    else
      call (readString 256) fun _ => -- nobody looks whether there is one
      call readShort fun _ => -- port
      call readVarint fun st =>
        if st ≠ 1 ∧ st ≠ 2 then refused else done

def handleS00 : Reads :=
  done

def handleS01 : Reads :=
  call readLong fun _ => done

def handleL00 : Reads :=
  call (readString 256) fun name =>
    if name = none then refused else done

/--
A byte array behind its length.
-/
def readArray (next : Reads) : Reads :=
  call readVarint fun len =>
    if len < 0 ∨ len > 128 then
      refused
    else
      call (readBytes len.toNat) fun _ => next

def handleL01 : Reads :=
  readArray (readArray done)

def handleP00 : Reads :=
  call readVarint fun _ => done

def handleP01 : Reads :=
  call (readString 119) fun str =>
    if str = none then refused else done

def handleP03 : Reads :=
  call readBool fun _ => done

def handleP04 : Reads :=
  call readDouble fun _ =>
  call readDouble fun _ =>
  call readDouble fun _ =>
  call readBool fun _ => done

def handleP05 : Reads :=
  call readFloat fun _ =>
  call readFloat fun _ =>
  call readBool fun _ => done

def handleP06 : Reads :=
  call readDouble fun _ =>
  call readDouble fun _ =>
  call readDouble fun _ =>
  call readFloat fun _ =>
  call readFloat fun _ =>
  call readBool fun _ => done

def handleP07 : Reads :=
  call readByte fun _ =>
  readPos (call readByte fun _ => done)

def handleP08 : Reads :=
  readPos (call readByte fun _ =>
    readSlot (
      call readByte fun _ =>
      call readByte fun _ =>
      call readByte fun _ => done))

def handleP09 : Reads :=
  call readShort fun slot =>
    if slot > 8 then refused else done -- a negative one is large here

def handleP0d : Reads :=
  call readByte fun _ => done

def handleP0e : Reads :=
  call readByte fun _ =>
  call readShort fun _ =>
  call readByte fun _ =>
  call readShort fun _ =>
  call readByte fun _ => readSlot done

def handleP10 : Reads :=
  call readShort fun slot =>
    readSlot (if slot < 1 ∨ slot > 44 then refused else done)

def Handler.reads : Handler → Reads
  | .h00 => handleH00
  | .s00 => handleS00
  | .s01 => handleS01
  | .l00 => handleL00
  | .l01 => handleL01
  | .p00 => handleP00
  | .p01 => handleP01
  | .p03 => handleP03
  | .p04 => handleP04
  | .p05 => handleP05
  | .p06 => handleP06
  | .p07 => handleP07
  | .p08 => handleP08
  | .p09 => handleP09
  | .p0d => handleP0d
  | .p0e => handleP0e
  | .p10 => handleP10
  | .xx => done

def callEntry (table : List Handler) (opc : Int) : Reads :=
  if opc < 0 then
    wild
  else
    match table[opc.toNat]? with
    | none => wild
    | some handler => handler.reads

/--
What `handle` and the function that it calls read.
-/
def reads (handler : Mc18PacketHandler) : Reads :=
  if !handler.conn then
    done
  else
    call readVarint fun _ => -- length
    call readVarint fun opc =>
      match handler.state with
      | .handshake => if opc > 0x00 then refused else callEntry handshakeTable opc
      | .status => if opc > 0x01 then refused else callEntry statusTable opc
      | .login => if opc > 0x01 then refused else callEntry loginTable opc
      | .play => if opc > 0x19 then refused else callEntry playTable opc

end Mc18PacketHandler

end HCraft
