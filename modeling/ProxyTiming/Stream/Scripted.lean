import ProxyTiming.Socks.Negotiation

/-!
# Scripted streams

A stream whose reads follow a script.  One read hands out at most one chunk and
leaves what did not fit; an empty chunk is the end of the stream for one read, and
so is the end of the script for all further ones.  Writes are accepted up to a
limit, in part if need be; beyond it a write accepts nothing, or fails.

From these partial reads and writes the whole ones are made that a dialogue
needs.
-/

namespace ProxyTiming.Stream

open ProxyTiming.Socks

inductive Chunk where
  | data (bytes : List UInt8)
  | failure (reason : String)
deriving DecidableEq

structure Scripted where
  reads : List Chunk
  written : List UInt8
  /-- How many bytes may be written altogether. -/
  limit : Option Nat
  /-- Whether a write beyond the limit fails. -/
  failing : Bool
  /-- Whether the stream claims to take several buffers at once. -/
  vectored : Bool
  flushes : Nat
  shutdowns : Nat
deriving DecidableEq

namespace Scripted

/-- A stream that reads this script and takes whatever is written. -/
def ofReads (reads : List Chunk) : Scripted where
  reads := reads
  written := []
  limit := none
  failing := false
  vectored := false
  flushes := 0
  shutdowns := 0

def unread (s : Scripted) : List UInt8 :=
  s.reads.flatMap fun
    | .data bytes => bytes
    | .failure _ => []

def read (n : Nat) (s : Scripted) : Except String (List UInt8) × Scripted :=
  match s.reads with
  | [] => (.ok [], s)
  | .failure reason :: rest => (.error reason, { s with reads := rest })
  | .data bytes :: rest =>
    if bytes.length ≤ n then (.ok bytes, { s with reads := rest })
    else (.ok (bytes.take n), { s with reads := .data (bytes.drop n) :: rest })

def room (s : Scripted) (n : Nat) : Nat :=
  match s.limit with
  | none => n
  | some limit => min n (limit - s.written.length)

def closedMessage : String := "pipe closed"

/-- One write: how many bytes were accepted. -/
def write (bytes : List UInt8) (s : Scripted) : Except String Nat × Scripted :=
  let n := s.room bytes.length
  if n = 0 ∧ bytes ≠ [] ∧ s.failing then (.error closedMessage, s)
  else (.ok n, { s with written := s.written ++ bytes.take n })

def writeAllBuffers (buffers : List (List UInt8)) (s : Scripted) :
    Except String Nat × Scripted :=
  s.write buffers.flatten

/-! ### Whole messages -/

def writeZeroMessage : String := "write zero"

/-- Writes all bytes, in as many writes as it takes.  Every write takes a byte, so that the
number of bytes is fuel enough. -/
def sendWithin : Nat → List UInt8 → Scripted → Fate Unit × Scripted
  | 0, _, s => (.value (), s)
  | fuel + 1, bytes, s =>
    if bytes.isEmpty then (.value (), s)
    else
      match s.write bytes with
      | (.error reason, s) => (.lost reason, s)
      | (.ok n, s) =>
        if n = 0 then (.lost writeZeroMessage, s) else sendWithin fuel (bytes.drop n) s

def sendAll (bytes : List UInt8) (s : Scripted) : Fate Unit × Scripted :=
  sendWithin (bytes.length + 1) bytes s

/-- Reads until `n` bytes are there, in as many reads as it takes.  Every read brings a byte, so
that the number of bytes is fuel enough. -/
def receiveWithin : Nat → List UInt8 → Nat → Scripted → Fate (List UInt8) × Scripted
  | 0, done, _, s => (.value done, s)
  | fuel + 1, done, n, s =>
    if n = 0 then (.value done, s)
    else
      match s.read n with
      | (.error reason, s) => (.lost reason, s)
      | (.ok [], s) => (.lost earlyEndMessage, s)
      | (.ok bytes, s) => receiveWithin fuel (done ++ bytes) (n - bytes.length) s

def receiveExactly (n : Nat) (s : Scripted) : Fate (List UInt8) × Scripted :=
  receiveWithin (n + 1) [] n s

def channel : Channel Scripted := ⟨sendAll, receiveExactly⟩

def negotiate (d : Destination) (c : Option Credentials) (s : Scripted) :
    Except TrialError Unit × Scripted :=
  match (negotiation d c).over channel s with
  | (some (.ok ()), s) => (.ok (), s)
  | (some (.error f), s) => (.error f.error, s)
  | (none, s) => (.error (Failure.lost earlyEndMessage).error, s)

end Scripted

end ProxyTiming.Stream
