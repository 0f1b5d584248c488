import Oliphaunt.TS.ByteChannel

/-!
# Wakeups of a closed byte channel

`closeWasixByteChannel` and `failWasixByteChannel` may be called by any party and at any
time. They store the flags and then notify both offsets, so that an endpoint which sleeps
on an offset sees the flag.

The flag is not the word that an endpoint sleeps on: an endpoint that has loaded CLOSED
as unset still goes to sleep when the notification of its offset falls between that load
and the wait (`reader_sleeps_after_close`).

* `closed_channel_wakes` — no endpoint sleeps on a closed channel when no notification falls
  there.
-/

namespace Oliphaunt.ByteChannel

open Transition Option Producer

/-- Where a call of `closeWasixByteChannel` or `failWasixByteChannel` stands. -/
inductive ClosePc where
  | storeFailed
  | storeClosed
  | notifyRead
  | notifyWrite
  | done
deriving DecidableEq, Repr

/-- The next atomic operation of such a call. -/
def closeStep (s : State) : ClosePc → Option (State × ClosePc)
  | .storeFailed => some ({ s with mem := { s.mem with failed := 1 } }, .storeClosed)
  | .storeClosed => some ({ s with mem := { s.mem with closed := 1 } }, .notifyRead)
  | .notifyRead => some (s.notifyReadOffset, .notifyWrite)
  | .notifyWrite => some (s.notifyWriteOffset, .done)
  | .done => none

/-- A channel with the calls that close it or let it fail. -/
structure Closable where
  channel : State
  parties : List ClosePc

inductive CloseAction where
  | endpoint (action : Action)
  | closeWasixByteChannel
  | failWasixByteChannel
  | party (i : Nat)
  /-- the caller of a read or write has caught its error and may call again -/
  | caughtRead
  | caughtWrite
deriving DecidableEq, Repr

def Closable.step (s : Closable) : CloseAction → Option Closable
  | .endpoint action =>
    (ByteChannel.step s.channel action).map fun channel => { s with channel := channel }
  | .closeWasixByteChannel => some { s with parties := s.parties ++ [.storeClosed] }
  | .failWasixByteChannel => some { s with parties := s.parties ++ [.storeFailed] }
  | .party i =>
    (s.parties[i]?.bind (closeStep s.channel)).map fun out =>
      { channel := out.1, parties := s.parties.set i out.2 }
  | .caughtRead =>
    if s.channel.consumer.pc = .threw then
      some { s with channel := s.channel.setConsumer .idle }
    else none
  | .caughtWrite =>
    if s.channel.producer.pc = .threw then
      some { s with channel := s.channel.setProducer .idle }
    else none

def Closable.start (calls : List WriteCall) : Closable := ⟨ByteChannel.start calls, []⟩

/-! ## The property and the condition -/

/-- Suspended on READ_OFFSET; without `waitAsync` a timer ends the wait. -/
@[simp] def Producer.suspended (p : Producer) : Bool := p.pc = .asleep && p.mode ≠ .timer

/-- Suspended on WRITE_OFFSET. -/
@[simp] def Consumer.suspended (c : Consumer) : Bool := c.pc = .asleep && c.mode ≠ .timer

/-- Between the load of CLOSED and the wait on READ_OFFSET that may follow. -/
@[simp] def Producer.committed (p : Producer) : Bool :=
  p.mode ≠ .timer &&
    match p.pc with
    | .loadRead | .loadWrite _ | .wait _ => true
    | _ => false

/-- Between the load of CLOSED and the wait on WRITE_OFFSET. -/
@[simp] def Consumer.committed (c : Consumer) : Bool :=
  c.mode ≠ .timer &&
    match c.pc with
    | .wait _ => true
    | _ => false

/-- Some closing party has made both of its notifications. -/
def Closable.finished (s : Closable) : Bool :=
  s.channel.producer.pc = .done || s.parties.contains .done

/-- An endpoint sleeps although the channel is closed and everyone was notified. -/
def Closable.LostWakeup (s : Closable) : Prop :=
  (s.channel.mem.closed ≠ 0 ∨ s.channel.mem.failed ≠ 0) ∧ s.finished = true ∧
    (s.channel.consumer.suspended = true ∨ s.channel.producer.suspended = true)

instance (s : Closable) : Decidable s.LostWakeup := inferInstanceAs (Decidable (_ ∧ _ ∧ _))

/-- A closing party notifies no endpoint that is about to sleep. -/
def Notified (s : Closable) : CloseAction → Prop
  | .party i =>
    (s.parties[i]? = some .notifyRead → s.channel.producer.committed = false) ∧
      (s.parties[i]? = some .notifyWrite → s.channel.consumer.committed = false)
  | .endpoint .producer =>
    s.channel.producer.pc = .closeNotifyWrite → s.channel.consumer.committed = false
  | _ => True

instance : ∀ s a, Decidable (Notified s a)
  | _, .party _ => inferInstanceAs (Decidable (_ ∧ _))
  | s, .endpoint .producer => inferInstanceAs
      (Decidable (s.channel.producer.pc = .closeNotifyWrite → s.channel.consumer.committed = false))
  | _, .endpoint .consumer | _, .endpoint (.startRead _ _) | _, .endpoint .producerTimer
  | _, .endpoint .consumerTimer | _, .closeWasixByteChannel | _, .failWasixByteChannel
  | _, .caughtRead | _, .caughtWrite => instDecidableTrue

/-! ## What the notifications have reached -/

/-- Neither asleep nor about to sleep: the next load of CLOSED comes first. -/
@[simp] def Producer.Awake (p : Producer) : Prop := p.suspended = false ∧ p.committed = false

@[simp] def Consumer.Awake (c : Consumer) : Prop := c.suspended = false ∧ c.committed = false

/-- The notifications that a party at this point has made have been of use. -/
def Reached (s : State) : ClosePc → Prop
  | .storeFailed | .storeClosed => True
  | .notifyRead => s.mem.closed ≠ 0
  | .notifyWrite => s.mem.closed ≠ 0 ∧ s.producer.Awake
  | .done => s.mem.closed ≠ 0 ∧ s.producer.Awake ∧ s.consumer.Awake

/-- The producer's own call, after its last write. -/
def Producer.closing (p : Producer) : ClosePc :=
  match p.pc with
  | .closeNotifyRead => .notifyRead
  | .closeNotifyWrite => .notifyWrite
  | .done => .done
  | _ => .storeClosed

structure AllReached (s : Closable) : Prop where
  parties : ∀ pc ∈ s.parties, Reached s.channel pc
  producer : Reached s.channel s.channel.producer.closing

theorem Producer.loop_awake (p : Producer) : p.loop.Awake := by
  simp only [loop]
  split <;> simp

theorem Producer.loop_closing (p : Producer) : p.loop.closing = .storeClosed := by
  simp only [loop]
  split <;> rfl

variable {s : State}

theorem notifyReadOffset_awake (h : s.producer.committed = false) :
    s.notifyReadOffset.producer.Awake := by
  simp only [State.notifyReadOffset]
  split
  · exact s.producer.loop_awake
  · rename_i hawake
    exact ⟨by simpa using hawake, h⟩

theorem notifyWriteOffset_awake (h : s.consumer.committed = false) :
    s.notifyWriteOffset.consumer.Awake := by
  simp only [State.notifyWriteOffset]
  split
  · simp
  · rename_i hawake
    exact ⟨by simpa using hawake, h⟩

/-- What every step keeps: the flag, and with the flag set an endpoint that is awake. -/
structure Keeps (s t : State) : Prop where
  closed : s.mem.closed ≠ 0 → t.mem.closed ≠ 0
  producer : s.mem.closed ≠ 0 → s.producer.Awake → t.producer.Awake
  consumer : s.mem.closed ≠ 0 → s.consumer.Awake → t.consumer.Awake

variable {pc : ClosePc}

/-- A step of another party leaves a notification as useful as it was. -/
theorem Reached.keeps (h : Reached s pc) (hkeeps : Keeps s t) : Reached t pc := by
  cases pc with
  | storeFailed | storeClosed => trivial
  | notifyRead => exact hkeeps.closed h
  | notifyWrite => exact ⟨hkeeps.closed h.1, hkeeps.producer h.1 h.2⟩
  | done => exact ⟨hkeeps.closed h.1, hkeeps.producer h.1 h.2.1, hkeeps.consumer h.1 h.2.2⟩

theorem keeps_notifyReadOffset (s : State) : Keeps s s.notifyReadOffset := by
  simp only [State.notifyReadOffset]
  split
  · exact ⟨id, fun _ _ => s.producer.loop_awake, fun _ => id⟩
  · exact ⟨id, fun _ => id, fun _ => id⟩

theorem keeps_notifyWriteOffset (s : State) : Keeps s s.notifyWriteOffset := by
  refine ⟨?_, ?_, fun _ h => notifyWriteOffset_awake h.2⟩ <;>
    simp only [State.notifyWriteOffset] <;> split <;> first | exact id | exact fun _ => id

theorem keeps_setProducer {pc : ProducerPc}
    (h : s.mem.closed ≠ 0 → s.producer.Awake → { s.producer with pc := pc }.Awake) :
    Keeps s (s.setProducer pc) := ⟨id, h, fun _ => id⟩

theorem keeps_setConsumer {pc : ConsumerPc}
    (h : s.mem.closed ≠ 0 → s.consumer.Awake → { s.consumer with pc := pc }.Awake) :
    Keeps s (s.setConsumer pc) := ⟨id, fun _ => id, h⟩

/-- No producer step clears CLOSED, and none puts an endpoint to sleep on a closed channel
that was awake. -/
theorem keeps_producerStep (h : producerStep s = some t) : Keeps s t := by
  have hnotify := keeps_notifyWriteOffset s
  simp only [producerStep] at h
  split at h <;> (try split at h) <;> cases h
  case h_8 | h_9 | h_11 =>
    refine ⟨fun _ => by simp_all, ?_, fun _ => id⟩
    simp
  case h_10 => exact ⟨hnotify.closed, fun _ _ => loop_awake _, hnotify.consumer⟩
  case h_13 =>
    refine ⟨hnotify.closed, ?_, hnotify.consumer⟩
    simp [State.setProducer]
  all_goals first
    | exact ⟨id, fun _ _ => loop_awake _, fun _ => id⟩
    | exact keeps_setProducer (by simp_all)

/-- No consumer step clears CLOSED, and none puts an endpoint to sleep on a closed channel
that was awake. -/
theorem keeps_consumerStep (h : consumerStep s = some t) : Keeps s t := by
  have hnotify := keeps_notifyReadOffset s
  have hreturn : ∀ output, (s.consumer.return output).Awake := by
    simp [Consumer.return]
  simp only [consumerStep] at h
  split at h <;> (try split at h) <;> (try split at h) <;> cases h
  case h_6 =>
    refine ⟨id, fun _ => id, ?_⟩
    simp
  case h_7 => exact ⟨hnotify.closed, hnotify.producer, fun _ _ => hreturn _⟩
  case h_8.isTrue => exact ⟨id, fun _ => id, fun _ _ => hreturn _⟩
  all_goals
    exact keeps_setConsumer (by simp_all)

/-- The producer's own call gets as far as any other party's. -/
theorem reached_producerStep (h : producerStep s = some t)
    (hnotified : s.producer.pc = .closeNotifyWrite → s.consumer.committed = false)
    (hs : Reached s s.producer.closing) : Reached t t.producer.closing := by
  simp only [producerStep] at h
  split at h <;> (try split at h) <;> cases h
  case h_11 => exact one_ne_zero
  case h_12 heq =>
    rw [closing, heq] at hs
    refine ⟨hs, ?_⟩
    simp [State.setProducer]
  case h_13 heq =>
    rw [closing, heq] at hs
    refine ⟨(keeps_notifyWriteOffset s).closed hs.1, ?_, notifyWriteOffset_awake (hnotified heq)⟩
    simp [State.setProducer]
  all_goals first
    | trivial
    | rw [loop_closing]; trivial

theorem closing_notifyReadOffset (s : State) :
    s.notifyReadOffset.producer.closing = s.producer.closing := by
  simp only [State.notifyReadOffset]
  split
  · rename_i hasleep
    rw [loop_closing, closing, hasleep.1]
  · rfl

theorem closing_consumerStep (h : consumerStep s = some t) :
    t.producer.closing = s.producer.closing := by
  have hnotify := closing_notifyReadOffset s
  simp only [consumerStep] at h
  split at h <;> (try split at h) <;> (try split at h) <;> cases h <;> first | rfl | exact hnotify

variable {channel : State}

theorem AllReached.keep {s : Closable} (h : AllReached s) (hkeeps : Keeps s.channel channel)
    (hclosing : channel.producer.closing = s.channel.producer.closing) :
    AllReached { s with channel := channel } :=
  ⟨fun pc hpc => (h.parties pc hpc).keeps hkeeps, hclosing ▸ h.producer.keeps hkeeps⟩

theorem AllReached.endpoint {s : Closable} (h : AllReached s)
    (hnotified : Notified s (.endpoint action)) (hstep : step s.channel action = some channel) :
    AllReached { s with channel := channel } := by
  cases action with
  | producer =>
    have hkeeps := keeps_producerStep hstep
    exact ⟨fun pc hpc => (h.parties pc hpc).keeps hkeeps,
      reached_producerStep hstep hnotified h.producer⟩
  | consumer => exact h.keep (keeps_consumerStep hstep) (closing_consumerStep hstep)
  | startRead mode maximumBytes =>
    obtain ⟨-, ⟨⟩⟩ := ite_none_right_eq_some.mp hstep
    refine h.keep ⟨id, fun _ => id, fun _ _ => ?_⟩ rfl
    simp
  | producerTimer =>
    obtain ⟨hasleep, ⟨⟩⟩ := ite_none_right_eq_some.mp hstep
    refine h.keep ⟨id, fun _ _ => s.channel.producer.loop_awake, fun _ => id⟩ ?_
    rw [loop_closing, closing, hasleep.1]
  | consumerTimer =>
    obtain ⟨-, ⟨⟩⟩ := ite_none_right_eq_some.mp hstep
    refine h.keep (keeps_setConsumer fun _ _ => ?_) rfl
    simp

/-- One step of a call of `closeWasixByteChannel` or `failWasixByteChannel`: its notification
is of use unless the endpoint had already committed to sleep. -/
theorem closeStep_reached (h : Reached s pc)
    (hread : pc = .notifyRead → s.producer.committed = false)
    (hwrite : pc = .notifyWrite → s.consumer.committed = false)
    (hstep : closeStep s pc = some out) :
    Keeps s out.1 ∧ out.1.producer.closing = s.producer.closing ∧ Reached out.1 out.2 := by
  cases pc with
  | storeFailed =>
    cases hstep
    exact ⟨⟨id, fun _ => id, fun _ => id⟩, rfl, trivial⟩
  | storeClosed =>
    cases hstep
    exact ⟨⟨fun _ => one_ne_zero, fun _ => id, fun _ => id⟩, rfl, one_ne_zero⟩
  | notifyRead =>
    cases hstep
    have hkeeps := keeps_notifyReadOffset s
    exact ⟨hkeeps, closing_notifyReadOffset s, hkeeps.closed h, notifyReadOffset_awake (hread rfl)⟩
  | notifyWrite =>
    cases hstep
    have hkeeps := keeps_notifyWriteOffset s
    refine ⟨hkeeps, ?_, hkeeps.closed h.1, hkeeps.producer h.1 h.2,
      notifyWriteOffset_awake (hwrite rfl)⟩
    simp only [State.notifyWriteOffset]
    split <;> rfl
  | done => cases hstep

/-- A step of any party keeps the invariant, as long as no notification falls between an
endpoint's load of CLOSED and its wait. -/
theorem AllReached.step (s : Closable) (a : CloseAction) (t : Closable) (h : AllReached s)
    (hnotified : Notified s a) (hstep : s.step a = some t) : AllReached t := by
  cases a with
  | endpoint action =>
    obtain ⟨channel, hchannel, rfl⟩ := map_eq_some_iff.mp hstep
    exact h.endpoint hnotified hchannel
  | closeWasixByteChannel | failWasixByteChannel =>
    cases hstep
    refine ⟨fun pc hpc => ?_, h.producer⟩
    rcases List.mem_append.mp hpc with hpc | hpc
    · exact h.parties pc hpc
    · rw [List.mem_singleton.mp hpc]
      trivial
  | party i =>
    obtain ⟨out, hout, rfl⟩ := map_eq_some_iff.mp hstep
    obtain ⟨pc, hpc, hout⟩ := bind_eq_some_iff.mp hout
    obtain ⟨hkeeps, hclosing, hreached⟩ :=
      closeStep_reached (h.parties pc (List.mem_of_getElem? hpc))
      (fun heq => hnotified.1 (heq ▸ hpc)) (fun heq => hnotified.2 (heq ▸ hpc)) hout
    refine ⟨fun pc' hpc' => ?_, hclosing ▸ h.producer.keeps hkeeps⟩
    rcases List.mem_or_eq_of_mem_set hpc' with hpc' | rfl
    · exact (h.parties pc' hpc').keeps hkeeps
    · exact hreached
  | caughtRead =>
    obtain ⟨-, ⟨⟩⟩ := ite_none_right_eq_some.mp hstep
    refine h.keep (keeps_setConsumer fun _ _ => ?_) rfl
    simp
  | caughtWrite =>
    obtain ⟨hthrew, ⟨⟩⟩ := ite_none_right_eq_some.mp hstep
    refine h.keep (keeps_setProducer fun _ _ => ?_) ?_
    · simp
    · simp only [State.setProducer, closing, hthrew]

/-- Once every call has finished, both endpoints are awake. -/
theorem AllReached.awake {s : Closable} (h : AllReached s) (hfinished : s.finished = true) :
    s.channel.producer.Awake ∧ s.channel.consumer.Awake := by
  rcases Bool.or_eq_true_iff.mp hfinished with hdone | hdone
  · have hproducer := h.producer
    rw [closing, of_decide_eq_true hdone] at hproducer
    exact hproducer.2
  · exact (h.parties .done (List.contains_iff_mem.mp hdone)).2

/-- In every run whose closing parties notify no endpoint that is about to sleep, no
endpoint sleeps once a closing party has made its notifications. -/
theorem closed_channel_wakes {calls : List WriteCall} {as : List CloseAction} {s : Closable}
    (hnotified : Along Closable.step Notified (Closable.start calls) as)
    (hrun : run Closable.step (Closable.start calls) as = some s) : ¬ s.LostWakeup := by
  have hstart : AllReached (Closable.start calls) := by
    refine ⟨fun pc hpc => absurd hpc List.not_mem_nil, trivial⟩
  have hs := run_invariant_along AllReached.step hstart hnotified hrun
  rintro ⟨-, hfinished, hasleep⟩
  obtain ⟨hproducer, hconsumer⟩ := hs.awake hfinished
  rw [hproducer.1, hconsumer.1] at hasleep
  exact hasleep.elim Bool.false_ne_true Bool.false_ne_true

/-- A reader that sleeps before the producer closes the channel. -/
def sleeperRun : List CloseAction :=
  .endpoint (.startRead .wait 1) :: List.replicate 5 (.endpoint .consumer) ++
    List.replicate 4 (.endpoint .producer)

/-- A reader that sleeps when the channel is closed is woken. -/
theorem closed_channel_wakes_sleeper :
    ∃ s, run Closable.step (Closable.start []) sleeperRun = some s ∧ s.finished = true ∧
      ¬ s.LostWakeup := by
  refine exists_run (f := Closable.finished) (v := true)
    (by decide +kernel) fun s hrun hfinished => ?_
  exact ⟨hfinished, closed_channel_wakes (by decide +kernel) hrun⟩

/-- The reader loads CLOSED, the producer closes the channel, and the reader goes to
sleep on an offset that nobody will change or notify again. -/
theorem reader_sleeps_after_close :
    ∃ s, run Closable.step (Closable.start [])
      (.endpoint (.startRead .wait 1) :: List.replicate 4 (.endpoint .consumer) ++
        List.replicate 4 (.endpoint .producer) ++ [.endpoint .consumer]) = some s ∧
      s.LostWakeup := by
  decide +kernel

end Oliphaunt.ByteChannel
