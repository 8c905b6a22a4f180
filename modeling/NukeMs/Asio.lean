import NukeMs.MessageLayer

namespace NukeMs

open SegmentationLayerBase

structure ErrorCode where
  operationAborted : Bool
  message : String
  deriving DecidableEq, Repr

def endOfFile : ErrorCode := ⟨false, "End of file"⟩

/-- The outcome of an operation; a read that succeeds has filled its buffer with these bytes. -/
abbrev Completion := Except ErrorCode (List Byte)

inductive Operation
  | readHeader
  | readBody (size : ℕ)
  | write (buffer : List Byte)
  deriving DecidableEq

namespace Operation

def isRead : Operation → Bool
  | .readHeader | .readBody _ => true
  | .write _ => false

def admits (op : Operation) : Completion → Bool
  | .error _ => true
  | .ok bytes =>
    match op with
    | .readHeader => bytes.length = headerLength
    | .readBody size => bytes.length = size
    | .write _ => bytes = []

end Operation

/-- How often a bound handler is copied is up to `boost::bind` and the library: there are
`starting` temporary copies beside the one that a pending operation keeps, and `calling` copies
while a handler runs. Each copy has a reference of its own, and there is room for them beside the
read and one write. -/
class HandlerCopies where
  starting : ℕ
  calling : ℕ
  few : starting + calling + 3 < 2 ^ 32

abbrev bindCopies : HandlerCopies := ⟨2, 1, by decide⟩

end NukeMs
