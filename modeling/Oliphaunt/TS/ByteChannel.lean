import Oliphaunt.Model.Ring
import Oliphaunt.Model.Transition

/-!
# Oliphaunt — the WASIX byte channel

`wasix/sdks/ts/src/protocol/byte-channel.ts`: a bounded single-producer /
single-consumer byte channel over two `SharedArrayBuffer`s. The control words
are read and written with `Atomics`, the payload by plain copies.

Every `Atomics.load`, `Atomics.store`, `Atomics.notify` and payload copy is one
step here, so any interleaving of the two realms is a schedule of `step`.
Local computation (the comparison of two loaded offsets, `Math.min`, the loop
test) is folded into the step that produced its operands.

The endpoints differ only in how they wait: `Atomics.wait` and `waitAsync` sleep
on a control word that still has the expected value until it is notified, the
fallback without `waitAsync` sleeps for a timer tick.
-/

namespace Oliphaunt.ByteChannel

def wasixByteChannelChunkBytes : Nat := 64 * 1024

def wasixChannelBytes : Nat := 256 * 1024 + 1

/-- How an endpoint waits for a control word to change. -/
inductive WaitMode where
  | wait
  | waitAsync
  | timer
deriving DecidableEq, Repr

/-- The shared control words and payload of one channel. `PROTOCOL_STATE` is
not part of the byte flow and is left out. -/
structure Memory where
  readOffset : Nat
  writeOffset : Nat
  closed : Nat
  failed : Nat
  data : Nat → UInt8

/-- `createWasixByteChannel`: fresh shared buffers are zeroed. -/
def createWasixByteChannel : Memory where
  readOffset := 0
  writeOffset := 0
  closed := 0
  failed := 0
  data := fun _ => 0

def writableBytes (read write capacity : Nat) : Nat :=
  if write < read then read - write - 1
  else if read = 0 then capacity - write - 1
  else capacity - write

/-- `consume`: the contiguous bytes a reader may take. -/
def availableBytes (read write capacity : Nat) : Nat :=
  if write ≥ read then write - read else capacity - read

/-- One `writeWasixByteChannel` or `writeWasixByteChannelSync` call. -/
structure WriteCall where
  mode : WaitMode
  input : List UInt8
deriving DecidableEq, Repr

/-- Where the producer stands: the next atomic operation it performs. -/
inductive ProducerPc where
  | idle
  | checkFailed
  | checkClosed
  | loadRead
  | loadWrite (read : Nat)
  | wait (read : Nat)
  | asleep
  | copy (write count : Nat)
  | storeWrite (write count : Nat)
  | notifyWrite (count : Nat)
  -- closeWasixByteChannel
  | storeClosed
  | closeNotifyRead
  | closeNotifyWrite
  | done
  | threw
deriving DecidableEq, Repr

structure Producer where
  pc : ProducerPc
  mode : WaitMode
  input : List UInt8
  offset : Nat
  /-- the calls still to come; the channel is closed after the last one -/
  calls : List WriteCall
deriving DecidableEq, Repr

/-- The `while (offset < input.length)` test of a write call. -/
def Producer.loop (p : Producer) : Producer :=
  if p.offset < p.input.length then { p with pc := .checkFailed }
  else { p with pc := .idle }

inductive ConsumerPc where
  | idle
  | checkFailed
  | loadRead
  | loadWrite (read : Nat)
  | copy (read count : Nat)
  | storeRead (read count : Nat) (output : List UInt8)
  | notifyRead (output : List UInt8)
  | loadClosed (write : Nat)
  | wait (write : Nat)
  | asleep
  | threw
deriving DecidableEq, Repr

structure Consumer where
  pc : ConsumerPc
  mode : WaitMode
  maximumBytes : Nat
  /-- what the read calls returned so far, in order; `[]` is end of stream -/
  results : List (List UInt8)
deriving DecidableEq, Repr

structure State where
  mem : Memory
  producer : Producer
  consumer : Consumer

/-- `Atomics.notify(control, WRITE_OFFSET)`: only the consumer sleeps there. -/
def State.notifyWriteOffset (s : State) : State :=
  if s.consumer.pc = .asleep ∧ s.consumer.mode ≠ .timer then
    { s with consumer := { s.consumer with pc := .checkFailed } }
  else s

/-- `Atomics.notify(control, READ_OFFSET)`: only the producer sleeps there. -/
def State.notifyReadOffset (s : State) : State :=
  if s.producer.pc = .asleep ∧ s.producer.mode ≠ .timer then
    { s with producer := s.producer.loop }
  else s

def State.setProducer (s : State) (pc : ProducerPc) : State :=
  { s with producer := { s.producer with pc := pc } }

def State.setConsumer (s : State) (pc : ConsumerPc) : State :=
  { s with consumer := { s.consumer with pc := pc } }

/-- The next atomic operation of `writeWasixByteChannel(Sync)` and, after the
last call, of `closeWasixByteChannel`. -/
def producerStep (s : State) : Option State :=
  let p := s.producer
  match p.pc with
  | .idle =>
    match p.calls with
    | [] => some (s.setProducer .storeClosed)
    | call :: rest =>
      let entered : Producer :=
        { p with mode := call.mode, input := call.input, offset := 0, calls := rest }
      some { s with producer := entered.loop }
  | .checkFailed =>
    some (s.setProducer (if s.mem.failed ≠ 0 then .threw else .checkClosed))
  | .checkClosed =>
    some (s.setProducer (if s.mem.closed ≠ 0 then .threw else .loadRead))
  | .loadRead => some (s.setProducer (.loadWrite s.mem.readOffset))
  | .loadWrite read =>
    let write := s.mem.writeOffset
    let writable := writableBytes read write wasixChannelBytes
    if writable = 0 then some (s.setProducer (.wait read))
    else
      let count := min (min writable (p.input.length - p.offset)) wasixByteChannelChunkBytes
      some (s.setProducer (.copy write count))
  | .wait read =>
    if p.mode = .timer ∨ s.mem.readOffset = read then some (s.setProducer .asleep)
    else some { s with producer := p.loop }
  | .asleep => none
  | .copy write count =>
    some { s with
      mem := { s.mem with
        data := Ring.blit s.mem.data write ((p.input.drop p.offset).take count) }
      producer := { p with pc := .storeWrite write count } }
  | .storeWrite write count =>
    some { s with
      mem := { s.mem with writeOffset := (write + count) % wasixChannelBytes }
      producer := { p with pc := .notifyWrite count } }
  | .notifyWrite count =>
    let advanced : Producer := { p with offset := p.offset + count }
    some { s.notifyWriteOffset with producer := advanced.loop }
  | .storeClosed =>
    some { s with
      mem := { s.mem with closed := 1 }
      producer := { p with pc := .closeNotifyRead } }
  | .closeNotifyRead => some (s.setProducer .closeNotifyWrite)
  | .closeNotifyWrite => some (s.notifyWriteOffset.setProducer .done)
  | .done => none
  | .threw => none

/-- Record the result of a read call and wait for the next one. -/
def Consumer.return (c : Consumer) (output : List UInt8) : Consumer :=
  { c with pc := .idle, results := c.results ++ [output] }

/-- The next atomic operation of `readWasixByteChannel(Sync)`. -/
def consumerStep (s : State) : Option State :=
  let c := s.consumer
  match c.pc with
  | .idle => none
  | .checkFailed =>
    some (s.setConsumer (if s.mem.failed ≠ 0 then .threw else .loadRead))
  | .loadRead => some (s.setConsumer (.loadWrite s.mem.readOffset))
  | .loadWrite read =>
    let write := s.mem.writeOffset
    if read ≠ write then
      -- consume rejects a maximum that is not a positive integer
      if c.maximumBytes = 0 then some (s.setConsumer .threw)
      else
        let available := availableBytes read write wasixChannelBytes
        some (s.setConsumer (.copy read (min available c.maximumBytes)))
    else some (s.setConsumer (.loadClosed write))
  | .copy read count =>
    some (s.setConsumer (.storeRead read count (Ring.slice s.mem.data read count)))
  | .storeRead read count output =>
    some { s with
      mem := { s.mem with readOffset := (read + count) % wasixChannelBytes }
      consumer := { c with pc := .notifyRead output } }
  | .notifyRead output => some { s.notifyReadOffset with consumer := c.return output }
  | .loadClosed write =>
    if s.mem.closed ≠ 0 then some { s with consumer := c.return [] }
    else some (s.setConsumer (.wait write))
  | .wait write =>
    if c.mode = .timer ∨ s.mem.writeOffset = write then some (s.setConsumer .asleep)
    else some (s.setConsumer .checkFailed)
  | .asleep => none
  | .threw => none

inductive Action where
  | producer
  | consumer
  /-- the consumer makes its next read call -/
  | startRead (mode : WaitMode) (maximumBytes : Nat)
  | producerTimer
  | consumerTimer
deriving DecidableEq, Repr

def step (s : State) : Action → Option State
  | .producer => producerStep s
  | .consumer => consumerStep s
  | .startRead mode maximumBytes =>
    if s.consumer.pc = .idle then
      some { s with consumer :=
        { s.consumer with pc := .checkFailed, mode := mode, maximumBytes := maximumBytes } }
    else none
  | .producerTimer =>
    if s.producer.pc = .asleep ∧ s.producer.mode = .timer then
      some { s with producer := s.producer.loop }
    else none
  | .consumerTimer =>
    if s.consumer.pc = .asleep ∧ s.consumer.mode = .timer then
      some (s.setConsumer .checkFailed)
    else none

/-- A fresh channel: the producer is about to make its calls and then close. -/
def start (calls : List WriteCall) : State where
  mem := createWasixByteChannel
  producer := { pc := .idle, mode := .wait, input := [], offset := 0, calls := calls }
  consumer := { pc := .idle, mode := .wait, maximumBytes := 0, results := [] }

/-- Everything the producer's calls write, in order. -/
def stream (calls : List WriteCall) : List UInt8 := (calls.map WriteCall.input).flatten

/-- The bytes a consumer has when it sees its first end of stream. -/
def beforeEof : List (List UInt8) → List UInt8
  | [] => []
  | [] :: _ => []
  | chunk :: rest => chunk ++ beforeEof rest

end Oliphaunt.ByteChannel
