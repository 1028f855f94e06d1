import Reassembly.Bytes
import Reassembly.Seq
import Reassembly.Time

/-!
The header of a stored block: 40 bytes before the block's payload area. It says what the block holds,
which stream positions its frames cover, how much of the area is used, and when it last changed. A
block is open until it is complete; a complete block that has been left alone for the idle time is
ready to be read.
-/

namespace Reassembly.Block

inductive Kind where
  | unknown
  | addr
  | l3Payload
  | l4Payload
  | l7Payload
  | startFlow
  | endFlow
  deriving DecidableEq, Inhabited

namespace Kind

def ofWord (word : UInt32) : Kind :=
  match word.toNat with
  | 1 => .addr
  | 2 => .l3Payload
  | 3 => .l4Payload
  | 4 => .l7Payload
  | 5 => .startFlow
  | 6 => .endFlow
  | _ => .unknown

def toWord : Kind → UInt32
  | .unknown => 0
  | .addr => 1
  | .l3Payload => 2
  | .l4Payload => 3
  | .l7Payload => 4
  | .startFlow => 5
  | .endFlow => 6

def isPayload : Kind → Bool
  | .l3Payload | .l4Payload | .l7Payload => true
  | _ => false

def name : Kind → String
  | .unknown => "Unknown"
  | .addr => "Addr"
  | .l3Payload => "L3Payload"
  | .l4Payload => "L4Payload"
  | .l7Payload => "L7Payload"
  | .startFlow => "StartFlow"
  | .endFlow => "EndFlow"

@[simp] theorem ofWord_toWord (kind : Kind) : ofWord kind.toWord = kind := by cases kind <;> rfl

end Kind

def freeWord : UInt32 := 0xFFFFFFFF

def headerSize : Nat := 40

def initialSize : Nat := 4

def frameLengthSize : Nat := 4

structure Header where
  kind : Kind
  reserved : UInt32
  isComplete : Bool
  hasData : Bool
  base : Seq
  lastUpdate : Micros
  lastAccepted : Seq
  usedLen : UInt64
  deriving DecidableEq, Inhabited

namespace Header

/-- An open block without frames, whose payload area begins with `used` bytes. -/
def fresh (kind : Kind) (base : Seq) (used : UInt64) (now : Micros) : Header where
  kind := kind
  reserved := 0
  isComplete := false
  hasData := false
  base := base
  lastUpdate := now
  lastAccepted := base.pred
  usedLen := used

def used (h : Header) : Nat := h.usedLen.toNat

def endSeq (h : Header) : Seq := if h.hasData then h.lastAccepted.advance 1 else h.base

/-- Left alone for longer than `idle`. A timestamp of zero never expires. -/
def expired (h : Header) (now idle : Micros) : Bool :=
  0 < h.usedLen && h.lastUpdate != 0 && idle < elapsed now h.lastUpdate

/-- Complete, and left alone since for longer than `idle`: safe to read out. -/
def isReady (h : Header) (now idle : Micros) : Bool := h.isComplete && h.expired now idle

/-- Whether a frame of `len` bytes fits an area of `capacity` bytes. A header that counts nearly 2^64
bytes as used lets the sum come round. -/
def hasRoom (h : Header) (len capacity : Nat) : Bool :=
  wordSum (wordSum h.used frameLengthSize) len ≤ capacity

def close (h : Header) : Header := { h with isComplete := true }

def accept (h : Header) (start : Seq) (len : Nat) (now : Micros) : Header :=
  { h with
    base := if h.hasData then h.base else start
    hasData := true
    usedLen := h.usedLen + UInt64.ofNat (frameLengthSize + len)
    lastAccepted := (start.advance len).pred
    lastUpdate := now }

def toBytes (h : Header) : ByteArray :=
  Bytes.ofU32 h.kind.toWord ++ Bytes.ofU32 h.reserved ++ Bytes.ofFlag h.isComplete
    ++ Bytes.ofFlag h.hasData ++ Bytes.zeros 2 ++ Bytes.ofU32 h.base.word
    ++ Bytes.ofU64 h.lastUpdate ++ Bytes.ofU32 h.lastAccepted.word ++ Bytes.zeros 4
    ++ Bytes.ofU64 h.usedLen

def ofBytes (bytes : ByteArray) : Header where
  kind := .ofWord (Bytes.u32At bytes 0)
  reserved := Bytes.u32At bytes 4
  isComplete := Bytes.flagAt bytes 8
  hasData := Bytes.flagAt bytes 9
  base := ⟨Bytes.u32At bytes 12⟩
  lastUpdate := Bytes.u64At bytes 16
  lastAccepted := ⟨Bytes.u32At bytes 24⟩
  usedLen := Bytes.u64At bytes 32

end Header

end Reassembly.Block
