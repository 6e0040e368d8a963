import Compaction.Task.Document
import Compaction.Task.Packed

/-!
# Encoded tasks

A task is encoded after a header of four bytes with the version of its form: version 1 is a document, version 2 is
packed.
-/

namespace Compaction.Task

/-- The version that is written if none is asked for. -/
def currentVersion : Int := 2

def isSupported (version : Int) : Bool := version = 1 || version = 2

def encodeBody (version : Int) (t : Task) : Except Fault (List UInt8) :=
  if version = 1 then Document.write t else Packed.pack t

def encode (t : Task) (version : Int) : Except Fault (List UInt8) :=
  if !isSupported version then .error (Fault.unsupportedVersion version).raised
  else match encodeBody version t with
    | .ok body => .ok (Word.toBytes 4 version.toNat ++ body)
    | .error f => .error (Fault.encodingFailed t.partition f).raised

/-- The version in the header. -/
def readVersion (bytes : List UInt8) : Except Fault Int :=
  if (bytes.take 4).length = 4 then .ok (Word.ofBytes (bytes.take 4)) else .error (.tooShort bytes.length)

def decodeBody (depth : Nat) (version : Int) (body : List UInt8) : Except Fault Task :=
  if version = 1 then Document.read depth body else Packed.unpack body

/-- Whether a fault is reported as one of decoding; a number without bounds and values nested too deep are not. -/
def isDecodingFault (f : Fault) : Bool :=
  match f.kind with
  | .overflow | .tooDeep => false
  | _ => true

/-- The task of an encoding that has to be of the given version. A document may be nested as deep as `depth`. -/
def decode (depth : Nat) (version : Int) (bytes : List UInt8) : Except Fault Task := do
  let found ← readVersion bytes
  if found ≠ version then throw (Fault.versionMismatch version found).raised
  if !isSupported version then throw (Fault.unsupportedVersion version).raised
  match decodeBody depth version (bytes.drop 4) with
  | .ok t => return t
  | .error f => if isDecodingFault f then throw (.decodingFailed version f) else throw f

end Compaction.Task
