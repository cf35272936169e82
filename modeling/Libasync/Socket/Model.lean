import Libasync.Promise.Model
import Mathlib.Data.Int.Notation

/-! # Data model and write paths of a socket

A system call is modelled by the answer of the kernel. The answers to the calls of one
operation are given to it as a list, which it has to use up. -/

namespace Libasync.Socket

open Promise

abbrev Byte := UInt8

/-- A file descriptor; -1 is no descriptor. -/
abbrev Fd := ℤ

/-- `SOCK_BUFFER_SIZE` -/
def sockBufferSize : ℕ := 1024

/-- `N_BYTES_PER_ROUND` -/
def nBytesPerRound : ℕ := 4096

inductive Errno where
  | again
  | wouldBlock
  | inProgress
  | other (code : ℕ)
  deriving DecidableEq, Repr

/-- The test `(errno == EAGAIN) || (errno == EWOULDBLOCK)`. -/
def Errno.blocked : Errno → Bool
  | .again | .wouldBlock => true
  | _ => false

/-- What a system call returns: a count, or -1 with `errno` set. -/
inductive Answer where
  | ret (count : ℕ)
  | err (errno : Errno)
  deriving DecidableEq, Repr

/-- The kernel can answer a `::write` of `len` bytes like this: it accepts some of them, and none
only if there are none. -/
def Answer.toWrite (len : ℕ) : Answer → Bool
  | .ret count => decide (count ≤ len) && (decide (0 < count) || decide (len = 0))
  | .err _ => true

/-! ## Socket data -/

/-- `Socket::Status` -/
inductive Status where
  | idle
  | connecting
  | connected
  | halfClosed
  | closed
  deriving DecidableEq, Repr

/-- `SocketError::Reason` -/
inductive Reason where
  | create
  | makeNonBlock
  | reuseAddr
  | bind
  | listen
  | connect
  | accept
  | read
  | write
  | getLocalAddr
  | close
  deriving DecidableEq, Repr

structure SocketError where
  reason : Reason
  errorNum : Errno
  deriving DecidableEq, Repr

structure PromiseQueueItem where
  target : ℕ
  ctx : Ref
  deriving DecidableEq, Repr

structure SocketData where
  fd : Fd
  status : Status := .idle
  buffer : List Byte := []
  bytesRead : ℕ := 0
  bytesWritten : ℕ := 0
  writePromiseQueue : List PromiseQueueItem := []
  deriving DecidableEq, Repr

/-! ## The write loops -/

inductive FlushExit where
  | completed
  | blocked
  | failed (errno : Errno)
  deriving DecidableEq, Repr

/-- The end of a write loop: the final offset in the buffer, the bytes that the kernel has
accepted on the way, and why the loop has ended. -/
structure Flush where
  offset : ℕ
  accepted : List Byte
  exit : FlushExit
  deriving DecidableEq, Repr

def FlushExit.ofErrno (errno : Errno) : FlushExit :=
  if errno.blocked then .blocked else .failed errno

/-- The bytes accepted by a round come before those of the following rounds. -/
def Flush.after (accepted : List Byte) (result : Flush × List Answer) : Flush × List Answer :=
  ({ result.1 with accepted := accepted ++ result.1.accepted }, result.2)

/-- The loop of `Socket::write`: a round first, and then the test for completion. The answers that
the loop has not used are returned. -/
def writeLoop (buffer : List Byte) : ℕ → List Answer → Option (Flush × List Answer)
  | _, [] => none
  | offset, answer :: answers =>
      let writeLen := min nBytesPerRound (buffer.length - offset)
      if answer.toWrite writeLen then
        match answer with
        | .err errno => some (⟨offset, [], .ofErrno errno⟩, answers)
        | .ret count =>
            let accepted := (buffer.drop offset).take count
            if buffer.length ≤ offset + count then
              some (⟨offset + count, accepted, .completed⟩, answers)
            else (writeLoop buffer (offset + count) answers).map (Flush.after accepted)
      else none

/-- The write loop of `Socket::reactor_on_event`, with the size of a round as a parameter: the
test for an empty rest comes first. -/
def flushLoop (roundSize : ℕ) (buffer : List Byte) :
    ℕ → List Answer → Option (Flush × List Answer)
  | offset, [] => if buffer.length ≤ offset then some (⟨offset, [], .completed⟩, []) else none
  | offset, answer :: answers =>
      if buffer.length ≤ offset then some (⟨offset, [], .completed⟩, answer :: answers)
      else
        let writeLen := min (buffer.length - offset) roundSize
        if answer.toWrite writeLen then
          match answer with
          | .err errno => some (⟨offset, [], .ofErrno errno⟩, answers)
          | .ret count =>
              (flushLoop roundSize buffer (offset + count) answers).map
                (Flush.after ((buffer.drop offset).take count))
        else none

/-! ## The write paths -/

/-- What an operation leaves behind: also when it leaves by an exception. -/
structure Result (V E F R : Type*) where
  sock : SocketData
  promises : State V E F
  accepted : List Byte
  result : Except SocketError R

/-- Resolve the promises of the queue up to the first one whose target is not reached. -/
def resolveWritePromises {V E F : Type*} [Blank V] (bytesWritten : ℕ) :
    List PromiseQueueItem → State V E F → List PromiseQueueItem × State V E F
  | [], s => ([], s)
  | item :: items, s =>
      if bytesWritten < item.target then (item :: items, s)
      else resolveWritePromises bytesWritten items (s.resolveImpl item.ctx Blank.blank)

namespace SocketData

variable {V E F : Type*} [Blank V]

/-- Count the written bytes and cut them off the buffer. -/
def advance (sock : SocketData) (offset : ℕ) : SocketData :=
  { sock with
    bytesWritten := sock.bytesWritten + offset
    buffer := sock.buffer.drop offset }

/-- `Socket::write` -/
def write (sock : SocketData) (s : State V E F) (data : List Byte) (answers : List Answer) :
    Option (Result V E F Ref) :=
  let sock := { sock with buffer := sock.buffer ++ data }
  match writeLoop sock.buffer 0 answers with
  | some (flush, []) =>
      match flush.exit with
      | .failed errno => some ⟨sock, s, flush.accepted, .error ⟨.write, errno⟩⟩
      | .completed =>
          let (s, p) := s.resolvedVoid
          some ⟨sock.advance flush.offset, s, flush.accepted, .ok p⟩
      | .blocked =>
          let sock := sock.advance flush.offset
          let (s, p) := s.create
          let item := ⟨sock.bytesWritten + sock.buffer.length, p⟩
          some ⟨{ sock with writePromiseQueue := sock.writePromiseQueue ++ [item] }, s,
            flush.accepted, .ok p⟩
  | _ => none

/-- The write branch of `Socket::reactor_on_event`. -/
def onWritable (sock : SocketData) (s : State V E F) (answers : List Answer) :
    Option (Result V E F Unit) :=
  match flushLoop sockBufferSize sock.buffer 0 answers with
  | some (flush, []) =>
      match flush.exit with
      | .failed errno => some ⟨sock, s, flush.accepted, .error ⟨.write, errno⟩⟩
      | _ =>
          let sock := sock.advance flush.offset
          let (items, s) := resolveWritePromises sock.bytesWritten sock.writePromiseQueue s
          some ⟨{ sock with writePromiseQueue := items }, s, flush.accepted, .ok ()⟩
  | _ => none

end SocketData

end Libasync.Socket
