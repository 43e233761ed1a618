import ProxyTiming.Stream.Scripted

/-!
# Noting the first byte

A stream is wrapped so that the moment is noted at which the first byte is read.
The wrapper passes every operation on as it is; only a read that brings at least
one byte leaves a note, and only if there is none yet.

A read puts what it finds behind the bytes that are in a buffer already, as far as
there is room.  The wrapper does not look at them: a read has brought something if
it has succeeded and there is more in the buffer than before.
-/

namespace ProxyTiming.Stream

inductive Op where
  | read (size : Nat)
  | write (bytes : List UInt8)
  | writeVectored (buffers : List (List UInt8))
  | flush
  | shutdown
  | isVectored
deriving DecidableEq

inductive Result where
  | bytes (bytes : List UInt8)
  | count (n : Nat)
  | done
  | flag (b : Bool)
  | failed (reason : String)
deriving DecidableEq

namespace Result

def ofRead : Except String (List UInt8) → Result
  | .ok bs => .bytes bs
  | .error reason => .failed reason

def ofWrite : Except String Nat → Result
  | .ok n => .count n
  | .error reason => .failed reason

end Result

structure Buffer where
  filled : List UInt8
  /-- How many bytes it holds when it is full. -/
  size : Nat

namespace Buffer

def ofSize (size : Nat) : Buffer := ⟨[], size⟩

/-- What a read into an empty buffer has come to. -/
def result : Except String Unit × Buffer → Result
  | (.ok (), b) => .bytes b.filled
  | (.error reason, _) => .failed reason

end Buffer

namespace Scripted

/-- One read into what is left of a buffer. -/
def fill (b : Buffer) (s : Scripted) : (Except String Unit × Buffer) × Scripted :=
  match s.read (b.size - b.filled.length) with
  | (.ok bytes, s) => ((.ok (), { b with filled := b.filled ++ bytes }), s)
  | (.error reason, s) => ((.error reason, b), s)

def flush (s : Scripted) : Scripted := { s with flushes := s.flushes + 1 }

def shutdown (s : Scripted) : Scripted := { s with shutdowns := s.shutdowns + 1 }

/-- One operation on the bare stream. -/
def perform (op : Op) (s : Scripted) : Result × Scripted :=
  match op with
  | .read size => let (r, s) := s.read size; (.ofRead r, s)
  | .write bytes => let (r, s) := s.write bytes; (.ofWrite r, s)
  | .writeVectored buffers => let (r, s) := s.writeAllBuffers buffers; (.ofWrite r, s)
  | .flush => (.done, s.flush)
  | .shutdown => (.done, s.shutdown)
  | .isVectored => (.flag s.vectored, s)

end Scripted

/-- A stream, and the moment of its first byte. -/
structure FirstByte (τ : Type) where
  inner : Scripted
  stamp : Option τ

namespace FirstByte

variable {τ : Type}

/-- One read into what is left of a buffer, at a moment. -/
def fill (now : τ) (b : Buffer) (s : FirstByte τ) : (Except String Unit × Buffer) × FirstByte τ :=
  match s.inner.fill b with
  | ((.ok (), b'), inner) =>
    ((.ok (), b'),
      ⟨inner, if b.filled.length < b'.filled.length then s.stamp.or (some now) else s.stamp⟩)
  | ((.error reason, b'), inner) => ((.error reason, b'), ⟨inner, s.stamp⟩)

/-- One operation on the wrapped stream, at a moment. -/
def perform (now : τ) (op : Op) (s : FirstByte τ) : Result × FirstByte τ :=
  match op with
  | .read size => let (r, s) := s.fill now (.ofSize size); (Buffer.result r, s)
  | .write bytes => let (r, inner) := s.inner.write bytes; (.ofWrite r, { s with inner := inner })
  | .writeVectored buffers =>
    let (r, inner) := s.inner.writeAllBuffers buffers
    (.ofWrite r, { s with inner := inner })
  | .flush => (.done, { s with inner := s.inner.flush })
  | .shutdown => (.done, { s with inner := s.inner.shutdown })
  | .isVectored => (.flag s.inner.vectored, s)

end FirstByte

end ProxyTiming.Stream
