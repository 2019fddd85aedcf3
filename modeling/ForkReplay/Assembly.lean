import ForkReplay.Evm.Opcode
import ForkReplay.Word

/-!
# Assembling code

Contract code put together from pieces. A push takes as many bytes as it is given, at
most 32, and numbers are pushed in the fewest bytes.
-/

namespace ForkReplay

namespace Assembly

def pushBytes (bytes : List UInt8) : List UInt8 := Evm.Opcode.pushByte bytes.length :: bytes

/-- A push of a number in the fewest bytes; none for zero. -/
def pushNumber (value : UInt64) : List UInt8 :=
  pushBytes ((Bytes.ofNat 8 value.toNat).octets.dropWhile fun byte => byte == 0)

def pushWord (value : Word) : List UInt8 := pushBytes value.toBytes.octets

/-- The bytes filled up to a word with zeros. -/
def padWord (bytes : List UInt8) : List UInt8 := bytes ++ List.replicate (32 - bytes.length) 0

/-- The pieces of 32 bytes that a byte string consists of; the last may be shorter. -/
def chunks (bytes : List UInt8) : List (List UInt8) :=
  if _h : bytes = [] then []
  else bytes.take 32 :: chunks (bytes.drop 32)
  termination_by bytes.length
  decreasing_by
    have := List.length_pos_iff.mpr _h
    simp only [List.length_drop]
    omega

def storeWord (offset : UInt64) (bytes : List UInt8) : List UInt8 :=
  pushBytes (padWord bytes) ++ pushNumber offset ++ [0x52]

/-- Code that stores pieces of memory, one word after the other. -/
def storeChunks (offset : UInt64) : List (List UInt8) → List UInt8
  | [] => []
  | chunk :: rest => storeWord offset chunk ++ storeChunks (offset + 32) rest

/-- Code that stores a byte string in memory, in whole words. -/
def mstore (offset : UInt64) (bytes : List UInt8) : List UInt8 := storeChunks offset (chunks bytes)

def sstore (slot : UInt64) (value : Word) : List UInt8 :=
  pushWord value ++ pushNumber slot ++ [0x55]

def increment (slot delta : UInt64) : List UInt8 :=
  pushNumber delta ++ pushNumber slot ++ [0x54, 0x01] ++ pushNumber slot ++ [0x55]

def stop : List UInt8 := [0x00]

/-- Code that puts a byte string into memory and ends with `opcode` on it. -/
def endWith (opcode : UInt8) (data : List UInt8) : List UInt8 :=
  mstore 0 data ++ pushNumber (UInt64.ofNat data.length) ++ pushNumber 0 ++ [opcode]

def revertWith (data : List UInt8) : List UInt8 := endWith 0xfd data

def returnWith (data : List UInt8) : List UInt8 := endWith 0xf3 data

end Assembly

/-- A piece of code. -/
inductive Piece where
  /-- Bytes as they stand. -/
  | raw (bytes : List UInt8)
  | push (bytes : List UInt8)
  | number (value : UInt64)
  | word (value : Word)
  | mstore (offset : UInt64) (bytes : List UInt8)
  | sstore (slot : UInt64) (value : Word)
  | increment (slot delta : UInt64)
  | stop
  | revertWith (data : List UInt8)
  | returnWith (data : List UInt8)
deriving DecidableEq, Repr

namespace Piece

/-- Whether there is code for a piece. -/
def isSound : Piece → Bool
  | .push bytes => bytes.length ≤ 32
  | _ => true

def code : Piece → List UInt8
  | .raw bytes => bytes
  | .push bytes => Assembly.pushBytes bytes
  | .number value => Assembly.pushNumber value
  | .word value => Assembly.pushWord value
  | .mstore offset bytes => Assembly.mstore offset bytes
  | .sstore slot value => Assembly.sstore slot value
  | .increment slot delta => Assembly.increment slot delta
  | .stop => Assembly.stop
  | .revertWith data => Assembly.revertWith data
  | .returnWith data => Assembly.returnWith data

end Piece

/-- The code of pieces, one after the other; none if there is no code for one of them. -/
def assemble? (pieces : List Piece) : Option (List UInt8) :=
  if pieces.all Piece.isSound then some (pieces.flatMap Piece.code) else none

end ForkReplay
