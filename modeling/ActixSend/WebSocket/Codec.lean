import Mathlib.Data.List.Basic

/-! # WebSocket messages and the codec

The types of the codec's crate that the streams of a connection handle. The
codec itself is a parameter: it appends the encoding of a message to the buffer
or fails and leaves it, and it takes a frame off the front of what was read.
-/

namespace ActixSend.WebSocket

set_option autoImplicit false

abbrev Bytes := List UInt8

inductive CloseCode
  | normal
  | other (code : Nat)
  deriving DecidableEq

structure CloseReason where
  code : CloseCode
  description : Option String
  deriving DecidableEq

def CloseReason.ofCode (code : CloseCode) : CloseReason := ⟨code, none⟩

/-- `Item`, a part of a fragmented message. -/
inductive Item
  | firstText (data : Bytes)
  | firstBinary (data : Bytes)
  | cont (data : Bytes)
  | last (data : Bytes)
  deriving DecidableEq

inductive Message
  | text (data : String)
  | binary (data : Bytes)
  | continuation (item : Item)
  | ping (data : Bytes)
  | pong (data : Bytes)
  | nop
  | close (reason : Option CloseReason)
  deriving DecidableEq

inductive Frame
  | text (data : Bytes)
  | binary (data : Bytes)
  | continuation (item : Item)
  | ping (data : Bytes)
  | pong (data : Bytes)
  | close (reason : Option CloseReason)
  deriving DecidableEq

structure Codec where
  State : Type
  Error : Type
  new : State
  encode : State → Message → State × Except Error Bytes
  decode : State → Bytes → State × Bytes × Except Error (Option Frame)

/-- `ProtocolError` as far as the streams tell it apart: the codec's own
errors, and the two kinds they wrap into `Io`. -/
inductive ProtocolError (C : Codec)
  | codec (e : C.Error)
  | utf8 (data : Bytes)
  | stream (text : String)

namespace Message

def isClose : Message → Bool
  | .close _ => true
  | _ => false

def isFrame : Message → Bool
  | .nop => false
  | _ => true

def isLocal : Message → Bool
  | .continuation _ => false
  | .nop => false
  | _ => true

end Message

def shortFrame (opcode : UInt8) (payload : Bytes) : Bytes :=
  (0x80 ||| opcode) :: UInt8.ofNat payload.length :: payload

/-- A codec for concrete runs with short messages and no incoming frames. -/
def shortCodec : Codec where
  State := Unit
  Error := Unit
  new := ()
  encode _ msg := ((), match msg with
    | .text data => .ok (shortFrame 0x1 (data.toList.map fun c => UInt8.ofNat c.toNat))
    | .binary data => .ok (shortFrame 0x2 data)
    | .continuation _ => .error ()
    | .ping data => .ok (shortFrame 0x9 data)
    | .pong data => .ok (shortFrame 0xA data)
    | .nop => .ok []
    | .close none => .ok (shortFrame 0x8 [])
    | .close (some _) => .ok (shortFrame 0x8 [0x03, 0xE8]))
  decode _ buf := ((), buf, .ok none)

end ActixSend.WebSocket
