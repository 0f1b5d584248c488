import Mathlib.Data.List.TakeDrop
import Oliphaunt.TS.ByteChannel

/-!
# Oliphaunt — end of stream on the byte channel

The ring invariant of the channel and what it says about end of stream.

Ghost positions `R ≤ W` count the bytes the consumer has released and the
producer has published; the control words are these positions modulo the
capacity (`Inv`). Each side may act on a *stale* copy of the other side's
offset. Staleness is harmless for the ring: an old read offset understates the
free space and an old write offset understates the available bytes, so
`inv_step` needs no assumption on the schedule.

It is not harmless for end of stream. `readWasixByteChannelSync` loads
`WRITE_OFFSET` *before* `CLOSED`; when the producer publishes its last bytes
and closes between the two loads, the consumer reports end of stream with
bytes still in the ring. `eof_complete_iff` says that this window is the only
defect.

* `ring_integrity` — the bytes are read in order, and none is overwritten before it is read;
* `eof_complete_iff` — when end of stream comes after the last byte;
* `eof_before_last_byte` — a run in which it comes before.
-/

namespace Oliphaunt.ByteChannel

open Transition List Producer

theorem wasixChannelBytes_pos : 0 < wasixChannelBytes := by
  decide

variable {W : Nat} {n write : Nat}

/-- What a producer may write, computed from a read position `R'` that may be
out of date: it fits before the end of the ring and leaves one cell free. -/
theorem writableBytes_fits (hRW : R' ≤ W) (hlap : W < R' + wasixChannelBytes)
    (hn : n ≤ writableBytes (R' % wasixChannelBytes) (W % wasixChannelBytes)
      wasixChannelBytes) : W % wasixChannelBytes + n ≤ wasixChannelBytes ∧
      W + n < R' + wasixChannelBytes := by
  have hW := Nat.mod_lt W wasixChannelBytes_pos
  have hR := Nat.mod_lt R' wasixChannelBytes_pos
  unfold writableBytes at hn
  rcases Ring.offset_cases hRW hlap with ⟨hle, hdist⟩ | ⟨hlt, hdist⟩
  · rw [if_neg (by omega)] at hn
    split at hn <;> omega
  · rw [if_pos hlt] at hn
    omega

variable {R : Nat}

/-- What a consumer may read, computed from a write position `W'` that may be
out of date: it is published and does not cross the end of the ring. -/
theorem availableBytes_fits (hRW : R ≤ W') (hlap : W' < R + wasixChannelBytes)
    (hn : n ≤ availableBytes (R % wasixChannelBytes) (W' % wasixChannelBytes)
      wasixChannelBytes) : R + n ≤ W' ∧ R % wasixChannelBytes + n ≤ wasixChannelBytes := by
  have hW := Nat.mod_lt W' wasixChannelBytes_pos
  have hR := Nat.mod_lt R wasixChannelBytes_pos
  unfold availableBytes at hn
  rcases Ring.offset_cases hRW hlap with ⟨hle, hdist⟩ | ⟨hlt, hdist⟩
  · rw [if_pos hle] at hn
    omega
  · rw [if_neg (by omega)] at hn
    omega

theorem availableBytes_pos {read : Nat} (hne : read ≠ write) (hread : read < wasixChannelBytes) :
    0 < availableBytes read write wasixChannelBytes := by
  unfold availableBytes
  split <;> omega

/-- The bytes of the producer's calls that are not published yet. -/
def Producer.unpublished (p : Producer) : List UInt8 :=
  match p.pc with
  | .notifyWrite count => p.input.drop (p.offset + count) ++ stream p.calls
  | _ => p.input.drop p.offset ++ stream p.calls

/-- The bytes the consumer has released from the ring. -/
def Consumer.received (c : Consumer) : List UInt8 :=
  match c.pc with
  | .notifyRead output => c.results.flatten ++ output
  | _ => c.results.flatten

/-- What the producer's local variables say about the ring. -/
def Producer.Local (bytes : List UInt8) (data : Nat → UInt8) (p : Producer)
    (R W : Nat) : Prop :=
  match p.pc with
  | .idle => p.input.length ≤ p.offset
  | .loadWrite read =>
    ∃ R', R' ≤ R ∧ W < R' + wasixChannelBytes ∧ read = R' % wasixChannelBytes
  | .copy write count =>
    write = W % wasixChannelBytes ∧ count ≤ p.input.length - p.offset ∧
      W % wasixChannelBytes + count ≤ wasixChannelBytes ∧
      W + count < R + wasixChannelBytes
  | .storeWrite write count =>
    write = W % wasixChannelBytes ∧ count ≤ p.input.length - p.offset ∧
      W + count < R + wasixChannelBytes ∧
      Ring.Holds data wasixChannelBytes bytes R (W + count)
  | .storeClosed | .closeNotifyRead | .closeNotifyWrite | .done =>
    p.input.length ≤ p.offset ∧ p.calls = []
  | _ => True

/-- What the consumer's local variables say about the ring. -/
def Consumer.Local (bytes : List UInt8) (c : Consumer) (R W : Nat) : Prop :=
  match c.pc with
  | .loadWrite read => read = R % wasixChannelBytes
  | .copy read count =>
    read = R % wasixChannelBytes ∧ 0 < count ∧ R + count ≤ W ∧
      R % wasixChannelBytes + count ≤ wasixChannelBytes
  | .storeRead read count output =>
    read = R % wasixChannelBytes ∧ 0 < count ∧ R + count ≤ W ∧
      output = (bytes.drop R).take count
  | .notifyRead output => output ≠ []
  | .loadClosed write => write = R % wasixChannelBytes
  | _ => True

/-- The producer has stored `CLOSED`. -/
def ProducerPc.HasClosed (pc : ProducerPc) : Prop :=
  pc = .closeNotifyRead ∨ pc = .closeNotifyWrite ∨ pc = .done

/-- The ring invariant: `R` bytes are released and `W` published. -/
structure Inv (bytes : List UInt8) (s : State) (R W : Nat) : Prop where
  order : R ≤ W
  lap : W < R + wasixChannelBytes
  published : W ≤ bytes.length
  read : s.mem.readOffset = R % wasixChannelBytes
  write : s.mem.writeOffset = W % wasixChannelBytes
  holds : Ring.Holds s.mem.data wasixChannelBytes bytes R W
  pending : bytes.drop W = s.producer.unpublished
  received : s.consumer.received = bytes.take R
  closed : s.mem.closed ≠ 0 → s.producer.pc.HasClosed
  producer : s.producer.Local bytes s.mem.data R W
  consumer : s.consumer.Local bytes R W

/-- Nothing is published or released when a channel starts. -/
theorem inv_start (calls : List WriteCall) : Inv (stream calls) (start calls) 0 0 where
  order := Nat.le_refl 0
  lap := by simpa using wasixChannelBytes_pos
  published := Nat.zero_le _
  read := rfl
  write := rfl
  holds := fun _ _ h => absurd h (Nat.not_lt_zero _)
  pending := rfl
  received := rfl
  closed := fun h => absurd rfl h
  producer := Nat.le_refl 0
  consumer := trivial

/-! ## Local facts under the other side's moves -/

variable {bytes : List UInt8}

/-- What the producer knows stays true when the consumer releases more bytes: its copy of the
read offset only understates the free space. -/
theorem Producer.Local.released {p : Producer} (h : p.Local bytes data R W) (hR : R ≤ R₂) :
    p.Local bytes data R₂ W := by
  unfold Local at h ⊢
  split at h
  · exact h
  · obtain ⟨R', hR', hlap, hread⟩ := h
    exact ⟨R', by omega, hlap, hread⟩
  · obtain ⟨hw, hc, hfit, hfree⟩ := h
    exact ⟨hw, hc, hfit, by omega⟩
  · obtain ⟨hw, hc, hfree, hholds⟩ := h
    exact ⟨hw, hc, by omega, hholds.mono hR (Nat.le_refl _)⟩
  all_goals exact h

/-- What the consumer knows stays true when the producer publishes more bytes: its copy of the
write offset only understates what is there. -/
theorem Consumer.Local.published {c : Consumer} (h : c.Local bytes R W) (hW : W ≤ W₂) :
    c.Local bytes R W₂ := by
  unfold Consumer.Local at h ⊢
  split at h
  · exact h
  · obtain ⟨hr, hc, hin, hfit⟩ := h
    exact ⟨hr, hc, by omega, hfit⟩
  · obtain ⟨hr, hc, hin, hout⟩ := h
    exact ⟨hr, hc, by omega, hout⟩
  all_goals exact h

theorem Producer.loop_local (bytes : List UInt8) (data : Nat → UInt8) (p : Producer)
    (R W : Nat) : p.loop.Local bytes data R W := by
  unfold loop
  split
  · trivial
  · exact Nat.le_of_not_lt ‹_›

/-- Moving on to the next call loses no byte that is still to be published. -/
theorem Producer.loop_unpublished (p : Producer) :
    p.loop.unpublished = p.input.drop p.offset ++ stream p.calls := by
  unfold loop
  split <;> rfl

variable {s : State}

theorem notifyWriteOffset_inv (h : Inv bytes s R W) : Inv bytes s.notifyWriteOffset R W := by
  unfold State.notifyWriteOffset
  split <;> try exact h
  rename_i hsleep
  refine { h with received := ?_, consumer := trivial }
  have hr := h.received
  simp only [Consumer.received, hsleep.1] at hr
  exact hr

theorem notifyReadOffset_inv (h : Inv bytes s R W) : Inv bytes s.notifyReadOffset R W := by
  unfold State.notifyReadOffset
  split <;> try exact h
  rename_i hsleep
  refine { h with
    pending := ?_, closed := ?_, producer := loop_local _ _ _ _ _ }
  · rw [h.pending, loop_unpublished, unpublished, hsleep.1]
  · intro hc
    rcases h.closed hc with hpc | hpc | hpc <;> rw [hsleep.1] at hpc <;> cases hpc

/-- A notification wakes the consumer; it changes neither the producer nor what was read. -/
theorem notifyWriteOffset_frame (s : State) :
    s.notifyWriteOffset.producer = s.producer ∧
      s.notifyWriteOffset.consumer.results = s.consumer.results := by
  unfold State.notifyWriteOffset
  split <;> exact ⟨rfl, rfl⟩

section

variable (h : Inv bytes s R W)

include h

/-- A producer before its close has not closed the channel. -/
theorem Inv.not_closed (hpc : ¬ s.producer.pc.HasClosed) : s.mem.closed = 0 := by
  by_contra hne
  exact hpc (h.closed hne)

/-- A producer before its close moves on, with the same bytes still to publish. -/
theorem inv_moveProducer {pc : ProducerPc} (hpc : s.producer.pc = pc) (hopen : ¬ pc.HasClosed)
    (hpending : p.unpublished = unpublished { s.producer with pc := pc })
    (hlocal : p.Local bytes s.mem.data R W) : Inv bytes { s with producer := p } R W := by
  subst hpc
  exact { h with
    pending := h.pending.trans hpending.symm
    closed := fun hc => absurd (h.not_closed hopen) hc
    producer := hlocal }

theorem inv_setConsumer {pc : ConsumerPc} (hpc : s.consumer.pc = pc)
    (hreceived : Consumer.received { s.consumer with pc := pc' } =
      Consumer.received { s.consumer with pc := pc })
    (hlocal : Consumer.Local bytes { s.consumer with pc := pc' } R W) :
    Inv bytes (s.setConsumer pc') R W := by
  subst hpc
  exact { h with received := hreceived.trans h.received, consumer := hlocal }

/-- Once the channel is closed everything is published. -/
theorem Inv.all_published (hclosed : s.mem.closed ≠ 0) : W = bytes.length := by
  have hlocal := h.producer
  have hpending := h.pending
  have hempty : bytes.drop W = [] := by
    rcases h.closed hclosed with hpc | hpc | hpc
    all_goals
      simp only [Local, hpc] at hlocal
      rw [hpending, unpublished, hpc]
      simp [hlocal.1, hlocal.2, stream]
  have hle := drop_eq_nil_iff.mp hempty
  have := h.published
  omega

/-- The bytes a producer copies are the next ones of the stream. -/
theorem Inv.next_bytes {count : Nat}
    (hpc : s.producer.unpublished =
      s.producer.input.drop s.producer.offset ++ stream s.producer.calls)
    (hcount : count ≤ s.producer.input.length - s.producer.offset) :
    ((s.producer.input.drop s.producer.offset).take count).length = count ∧
      ∀ i < count, ((s.producer.input.drop s.producer.offset).take count)[i]? =
        bytes[W + i]? := by
  constructor
  · simp [length_take, length_drop]
    omega
  · intro i hi
    rw [List.getElem?_take_of_lt hi, ← List.getElem?_drop, h.pending, hpc,
      List.getElem?_append_left]
    simp only [length_drop]
    omega

variable {t : State}

/-- A producer step keeps the ring, and may publish more. -/
theorem producer_step_inv (hstep : producerStep s = some t) : ∃ W', Inv bytes t R W' := by
  have hlocal := h.producer
  have hpending := h.pending
  simp only [producerStep] at hstep
  split at hstep
  all_goals
    rename_i hpc
    simp only [Local, unpublished, hpc] at hlocal hpending
    have hmove := fun p => inv_moveProducer (p := p) h hpc
    simp only [ProducerPc.HasClosed, reduceCtorEq, or_self, not_false_eq_true,
      true_imp_iff] at hmove
  case h_1 =>
    split at hstep <;> cases hstep
    case h_1 hcalls => exact ⟨W, hmove _ rfl ⟨hlocal, hcalls⟩⟩
    case h_2 call rest hcalls =>
      refine ⟨W, hmove _ ?_ (loop_local ..)⟩
      rw [loop_unpublished]
      simp [unpublished, hcalls, drop_eq_nil_of_le hlocal, stream]
  case h_2 | h_3 =>
    cases hstep
    refine ⟨W, hmove _ ?_ ?_⟩ <;> split <;> first | rfl | trivial
  case h_4 =>
    cases hstep
    exact ⟨W, hmove _ rfl ⟨R, Nat.le_refl R, h.lap, h.read⟩⟩
  case h_5 read =>
    obtain ⟨R', hR', hlap, hread⟩ := hlocal
    split at hstep <;> cases hstep
    · exact ⟨W, hmove _ rfl trivial⟩
    · -- the free space seen through the stale offset is free now
      obtain ⟨hfit, hfree⟩ := writableBytes_fits (n := min (min
          (writableBytes read s.mem.writeOffset wasixChannelBytes)
          (s.producer.input.length - s.producer.offset)) wasixByteChannelChunkBytes)
        (Nat.le_trans hR' h.order) hlap (by rw [hread, h.write]; omega)
      exact ⟨W, hmove _ rfl
        ⟨h.write, Nat.le_trans (Nat.min_le_left _ _) (Nat.min_le_right _ _), hfit, by omega⟩⟩
  case h_6 read =>
    split at hstep <;> cases hstep
    · exact ⟨W, hmove _ rfl trivial⟩
    · exact ⟨W, hmove _ (loop_unpublished _) (loop_local ..)⟩
  case h_8 write count =>
    cases hstep
    obtain ⟨hwrite, hcount, hfit, hfree⟩ := hlocal
    obtain ⟨hlen, hnext⟩ := h.next_bytes (by simp [unpublished, hpc]) hcount
    have hholds := Ring.holds_blit h.holds (by rw [hlen]; exact hfit)
      (by rw [hlen]; exact hfree) (by rw [hlen]; exact hnext)
    rw [hlen, ← hwrite] at hholds
    exact ⟨W, { h with
      holds := hholds.mono (Nat.le_refl R) (Nat.le_add_right W count)
      pending := hpending
      closed := fun hc => by simpa [hpc, ProducerPc.HasClosed] using h.closed hc
      producer := ⟨hwrite, hcount, hfree, hholds⟩ }⟩
  case h_9 write count =>
    cases hstep
    obtain ⟨hwrite, hcount, hfree, hholds⟩ := hlocal
    have hlen := congrArg List.length hpending
    simp only [length_drop, length_append] at hlen
    have horder := h.order
    have hpublished := h.published
    refine ⟨W + count, { h with
      order := by omega
      lap := hfree
      published := by omega
      write := by simp [hwrite, Nat.add_mod]
      holds := hholds
      pending := ?_
      closed := fun hc => by simpa [hpc, ProducerPc.HasClosed] using h.closed hc
      producer := trivial
      consumer := h.consumer.published (Nat.le_add_right W count) }⟩
    rw [← drop_drop, hpending, unpublished,
      drop_append_of_le_length (by simpa using hcount), drop_drop]
  case h_10 count =>
    cases hstep
    have hsame := (notifyWriteOffset_frame s).1
    refine ⟨W, inv_moveProducer (notifyWriteOffset_inv h) ((congrArg _ hsame).trans hpc)
      (by simp [ProducerPc.HasClosed]) ?_ (loop_local ..)⟩
    rw [loop_unpublished, hsame]
    rfl
  case h_11 =>
    cases hstep
    exact ⟨W, { h with pending := hpending, closed := fun _ => .inl rfl, producer := hlocal }⟩
  case h_12 =>
    cases hstep
    exact ⟨W, { h with
      pending := hpending, closed := fun _ => .inr (.inl rfl), producer := hlocal }⟩
  case h_13 =>
    cases hstep
    rw [State.setProducer, (notifyWriteOffset_frame s).1]
    exact ⟨W, { notifyWriteOffset_inv h with
      pending := hpending, closed := fun _ => .inr (.inr rfl), producer := hlocal }⟩
  all_goals cases hstep

/-- A consumer step keeps the ring, and may release more. -/
theorem consumer_step_inv (hstep : consumerStep s = some t) : ∃ R', Inv bytes t R' W := by
  have hlocal := h.consumer
  have hreceived := h.received
  simp only [consumerStep] at hstep
  split at hstep
  all_goals
    rename_i hpc
    simp only [Consumer.Local, Consumer.received, hpc] at hlocal hreceived
  case h_2 =>
    cases hstep
    refine ⟨R, inv_setConsumer h hpc ?_ ?_⟩ <;> split <;> first | rfl | trivial
  case h_3 =>
    cases hstep
    exact ⟨R, inv_setConsumer h hpc rfl h.read⟩
  case h_4 read =>
    split at hstep
    · rename_i hne
      split at hstep <;> cases hstep
      · exact ⟨R, inv_setConsumer h hpc rfl trivial⟩
      · have hread : read < wasixChannelBytes :=
          hlocal ▸ Nat.mod_lt R wasixChannelBytes_pos
        have hpos := availableBytes_pos hne hread
        obtain ⟨hin, hfit⟩ := availableBytes_fits
          (n := min (availableBytes read s.mem.writeOffset wasixChannelBytes)
            s.consumer.maximumBytes)
          h.order h.lap (by rw [hlocal, h.write]; omega)
        exact ⟨R, inv_setConsumer h hpc rfl ⟨hlocal, Nat.lt_min.mpr ⟨hpos, by omega⟩, hin, hfit⟩⟩
    · rename_i heq
      cases hstep
      exact ⟨R, inv_setConsumer h hpc rfl ((not_not.mp heq).symm.trans hlocal)⟩
  case h_5 read count =>
    cases hstep
    obtain ⟨hread, hpos, hin, hfit⟩ := hlocal
    refine ⟨R, inv_setConsumer h hpc rfl ⟨hread, hpos, hin, ?_⟩⟩
    rw [hread]
    exact Ring.slice_of_holds h.holds hin hfit
  case h_6 read count output =>
    cases hstep
    obtain ⟨hread, hpos, hin, hout⟩ := hlocal
    have hlap := h.lap
    have hpublished := h.published
    refine ⟨R + count, { h with
      order := hin
      lap := by omega
      read := by simp [hread, Nat.add_mod]
      holds := h.holds.mono (Nat.le_add_right R count) (Nat.le_refl W)
      received := ?_
      producer := h.producer.released (Nat.le_add_right R count)
      consumer := ?_ }⟩
    · simp only [Consumer.received]
      rw [hreceived, hout, take_add]
    · -- a chunk is never empty, so it cannot be mistaken for end of stream
      show output ≠ []
      intro hnil
      have hlen := congrArg List.length (hout.symm.trans hnil)
      simp only [length_take, length_drop, length_nil] at hlen
      omega
  case h_7 output =>
    cases hstep
    refine ⟨R, { notifyReadOffset_inv h with received := ?_, consumer := trivial }⟩
    simpa [Consumer.received, Consumer.return] using hreceived
  case h_8 write =>
    split at hstep <;> cases hstep
    · refine ⟨R, { h with received := ?_, consumer := trivial }⟩
      simpa [Consumer.received, Consumer.return] using hreceived
    · exact ⟨R, inv_setConsumer h hpc rfl trivial⟩
  case h_9 write =>
    split at hstep <;> cases hstep <;> exact ⟨R, inv_setConsumer h hpc rfl trivial⟩
  all_goals cases hstep

/-- **The ring invariant is inductive.** Every step of either side keeps it, whatever copies
of the other side's offset the two have loaded. -/
theorem inv_step (hstep : step s a = some t) : ∃ R' W', Inv bytes t R' W' := by
  cases a with
  | producer =>
    obtain ⟨W', h'⟩ := producer_step_inv h hstep
    exact ⟨R, W', h'⟩
  | consumer =>
    obtain ⟨R', h'⟩ := consumer_step_inv h hstep
    exact ⟨R', W, h'⟩
  | startRead mode maximumBytes =>
    obtain ⟨hidle, ⟨⟩⟩ := Option.ite_none_right_eq_some.mp hstep
    refine ⟨R, W, { h with received := ?_, consumer := trivial }⟩
    rw [← h.received]
    simp [Consumer.received, hidle]
  | producerTimer =>
    obtain ⟨hsleep, ⟨⟩⟩ := Option.ite_none_right_eq_some.mp hstep
    exact ⟨R, W, inv_moveProducer h hsleep.1 (by simp [ProducerPc.HasClosed])
      (loop_unpublished _) (loop_local ..)⟩
  | consumerTimer =>
    obtain ⟨hsleep, ⟨⟩⟩ := Option.ite_none_right_eq_some.mp hstep
    exact ⟨R, W, inv_setConsumer h hsleep.1 rfl trivial⟩

end

/-- The slot lies between the two offsets: it holds a published byte that the consumer has
not released, whether it copied it already or not. -/
def Memory.Occupied (m : Memory) (slot : Nat) : Prop :=
  if m.readOffset ≤ m.writeOffset then m.readOffset ≤ slot ∧ slot < m.writeOffset
  else m.readOffset ≤ slot ∨ slot < m.writeOffset

instance (m : Memory) (slot : Nat) : Decidable (m.Occupied slot) := by
  unfold Memory.Occupied
  infer_instance

/-- What a producer is about to write is free, and lies within the ring. -/
theorem Inv.copy_free (h : Inv bytes s R W) {count : Nat} (hpc : s.producer.pc = .copy write count)
    (hle : write ≤ slot) (hlt : slot < write + count) :
    slot < wasixChannelBytes ∧ ¬ s.mem.Occupied slot := by
  have hlocal := h.producer
  simp only [Local, hpc] at hlocal
  rw [Memory.Occupied, h.read, h.write]
  rcases Ring.offset_cases h.order h.lap with ⟨hsame, -⟩ | ⟨hnext, hdist⟩
  · rw [if_pos hsame]
    omega
  · -- the writer is a lap ahead: the free slots end at the reader
    rw [if_neg (by omega)]
    omega

theorem step_calls (hstep : step s a = some t) : t.producer.calls <:+ s.producer.calls := by
  have hloop : ∀ p : Producer, p.loop.calls = p.calls := by
    intro p
    unfold loop
    split <;> rfl
  have hread : s.notifyReadOffset.producer.calls = s.producer.calls := by
    unfold State.notifyReadOffset
    split
    · exact hloop _
    · rfl
  have hwrite := (notifyWriteOffset_frame s).1
  cases a with
  | producer =>
    simp only [step, producerStep] at hstep
    repeat' split at hstep
    all_goals cases hstep
    case h_2 call rest hcalls =>
      rw [hloop, hcalls]
      exact suffix_cons call rest
    all_goals simp [State.setProducer, hloop, hwrite]
  | consumer =>
    simp only [step, consumerStep] at hstep
    repeat' split at hstep
    all_goals cases hstep
    all_goals simp [State.setConsumer, hread]
  | startRead | producerTimer | consumerTimer =>
    obtain ⟨-, ⟨⟩⟩ := Option.ite_none_right_eq_some.mp hstep
    simp [State.setConsumer, hloop]

/-- What was received belongs to the calls that were made. -/
theorem Inv.received_prefix {calls : List WriteCall} (h : Inv (stream calls) s R W)
    (hmade : made ++ s.producer.calls = calls) : s.consumer.results.flatten <+: stream made := by
  have hstream : stream calls = stream made ++ stream s.producer.calls := by
    rw [← hmade, stream, map_append, flatten_append]
    rfl
  have hlength : R ≤ (stream made).length := by
    have hpending := congrArg List.length h.pending
    have hunpublished : (stream s.producer.calls).length ≤ s.producer.unpublished.length := by
      unfold unpublished
      split <;> exact length_append ▸ Nat.le_add_left _ _
    have horder := h.order
    have hpublished := h.published
    rw [hstream, length_append] at hpublished
    rw [hstream, length_drop, length_append] at hpending
    omega
  have hreceived : s.consumer.results.flatten <+: s.consumer.received := by
    unfold Consumer.received
    split
    · exact prefix_append _ _
    · exact prefix_refl _
  rw [h.received, hstream, take_append_of_le_length hlength] at hreceived
  refine hreceived.trans ?_
  exact take_prefix _ _

/-- For every sequence of write calls and every schedule: the bytes that reads returned are
a prefix of the bytes of the write calls made so far, both offsets are below the capacity,
and the producer overwrites no byte that the consumer still has to copy. -/
theorem ring_integrity (calls : List WriteCall) (schedule : List Action) (t : State)
    (hrun : run step (start calls) schedule = some t) :
    (∃ made, made ++ t.producer.calls = calls ∧ t.consumer.results.flatten <+: stream made) ∧
      t.mem.readOffset < wasixChannelBytes ∧ t.mem.writeOffset < wasixChannelBytes ∧
      ∀ write count slot, t.producer.pc = .copy write count → write ≤ slot →
        slot < write + count → slot < wasixChannelBytes ∧ ¬ t.mem.Occupied slot := by
  obtain ⟨⟨R, W, h⟩, made, hmade⟩ := run_invariant
    (P := fun s => (∃ R W, Inv (stream calls) s R W) ∧ s.producer.calls <:+ calls)
    (fun s a m hs hstep => ⟨hs.1.elim fun _ hW => hW.elim fun _ h => inv_step h hstep,
      (step_calls hstep).trans hs.2⟩)
    ⟨⟨0, 0, inv_start calls⟩, suffix_refl _⟩ hrun
  refine ⟨⟨made, hmade, h.received_prefix hmade⟩, ?_, ?_, fun write count slot hpc hle hlt =>
    h.copy_free hpc hle hlt⟩
  · rw [h.read]
    exact Nat.mod_lt R wasixChannelBytes_pos
  · rw [h.write]
    exact Nat.mod_lt W wasixChannelBytes_pos

/-- The producer is about to copy its second call while the consumer has the first byte. -/
def secondCopy : List Action :=
  List.replicate 8 .producer ++ .startRead .wait 1 :: List.replicate 6 .consumer ++
    List.replicate 5 .producer

/-- The second call copies into the ring after the first byte was read. -/
theorem ring_integrity_second_copy :
    ∃ s, run step (start [⟨.wait, [7]⟩, ⟨.timer, [8, 9]⟩]) secondCopy = some s ∧
      s.producer.pc = .copy 1 2 ∧ ¬ s.mem.Occupied 1 := by
  refine exists_run (f := fun s => s.producer.pc) (v := .copy 1 2) (by decide +kernel)
    fun s hrun hpc => ?_
  exact ⟨hpc, ((ring_integrity _ _ s hrun).2.2.2 1 2 1 hpc (by decide) (by decide)).2⟩

variable {results : List (List UInt8)}

theorem beforeEof_append_of_mem (h : [] ∈ results)
    (more : List (List UInt8)) : beforeEof (results ++ more) = beforeEof results := by
  induction results with
  | nil => simp at h
  | cons chunk rest ih => cases chunk <;> simp_all [beforeEof]

theorem beforeEof_append_eof (h : [] ∉ results) :
    beforeEof (results ++ [[]]) = results.flatten := by
  induction results with
  | nil => rfl
  | cons chunk rest ih => cases chunk <;> simp_all [beforeEof]

theorem beforeEof_length_le (results : List (List UInt8)) :
    (beforeEof results).length ≤ results.flatten.length := by
  induction results with
  | nil => simp [beforeEof]
  | cons chunk rest ih => cases chunk <;> simp_all [beforeEof]

/-- When a consumer's `CLOSED` load reads 1, the write offset it loaded before
is still the current one. -/
def EofCheckCurrent (s : State) (a : Action) : Prop :=
  match a, s.consumer.pc with
  | .consumer, .loadClosed write => s.mem.closed ≠ 0 → s.mem.writeOffset = write
  | _, _ => True

instance (s : State) (a : Action) : Decidable (EofCheckCurrent s a) := by
  unfold EofCheckCurrent
  split <;> infer_instance

section

variable (h : Inv bytes s R W)

include h

/-- A step appends at most one result; an empty one comes from a `CLOSED` load
that read 1. -/
theorem step_results (hstep : step s a = some t) : t.consumer.results = s.consumer.results ∨
      (∃ chunk, chunk ≠ [] ∧ t.consumer.results = s.consumer.results ++ [chunk]) ∨
      (a = .consumer ∧ (∃ write, s.consumer.pc = .loadClosed write) ∧ s.mem.closed ≠ 0 ∧
        t.consumer.results = s.consumer.results ++ [[]]) := by
  cases a with
  | producer =>
    left
    have hnotify := (notifyWriteOffset_frame s).2
    simp only [step, producerStep] at hstep
    repeat' split at hstep
    all_goals first | cases hstep; rfl | cases hstep; exact hnotify | cases hstep
  | consumer =>
    have hlocal := h.consumer
    simp only [step] at hstep
    unfold consumerStep at hstep
    cases hpc : s.consumer.pc with
    | notifyRead output =>
      simp only [hpc, Option.some.injEq] at hstep
      simp only [Consumer.Local, hpc] at hlocal
      subst hstep
      exact .inr (.inl ⟨output, hlocal, rfl⟩)
    | loadClosed write =>
      simp only [hpc] at hstep
      split at hstep <;> cases hstep
      · exact .inr (.inr ⟨rfl, ⟨write, rfl⟩, ‹_›, rfl⟩)
      · exact .inl rfl
    | _ =>
      left
      simp only [hpc] at hstep
      repeat' split at hstep
      all_goals cases hstep <;> rfl
  | startRead | producerTimer | consumerTimer =>
    obtain ⟨-, ⟨⟩⟩ := Option.ite_none_right_eq_some.mp hstep
    exact .inl rfl

/-- What a consumer had at its first end of stream never changes again. -/
theorem run_beforeEof (heof : [] ∈ s.consumer.results) (hrun : run step s schedule = some t) :
    beforeEof t.consumer.results = beforeEof s.consumer.results := by
  refine (run_invariant (P := fun m => (∃ R W, Inv bytes m R W) ∧
    [] ∈ m.consumer.results ∧
    beforeEof m.consumer.results = beforeEof s.consumer.results)
    ?_ ⟨⟨R, W, h⟩, heof, rfl⟩ hrun).2.2
  rintro m a m' ⟨⟨R, W, hm⟩, hmem, heq⟩ hstep
  refine ⟨inv_step hm hstep, ?_⟩
  rcases step_results hm hstep with hr | ⟨chunk, _, hr⟩ | ⟨_, _, _, hr⟩
  · exact hr ▸ ⟨hmem, heq⟩
  all_goals
    rw [hr, beforeEof_append_of_mem hmem]
    exact ⟨mem_append_left _ hmem, heq⟩

/-- At an end-of-stream step everything is received exactly when the loaded
write offset is still current. -/
theorem eof_step_complete_iff (hpc : s.consumer.pc = .loadClosed write)
    (hclosed : s.mem.closed ≠ 0) :
    s.consumer.results.flatten = bytes ↔ s.mem.writeOffset = write := by
  have hlocal := h.consumer
  have hreceived := h.received
  simp only [Consumer.Local, hpc] at hlocal
  simp only [Consumer.received, hpc] at hreceived
  have hW := h.all_published hclosed
  rw [hreceived, take_eq_self_iff, h.write, hlocal, eq_comm,
    Ring.mod_eq_iff h.order h.lap]
  have := h.order
  omega

end

/-- **End of stream.** For every sequence of write calls, every schedule of the
two sides and every choice of read calls: once the consumer has seen an end of
stream, the chunks before the first one are the whole stream if and only if
every `CLOSED` load that read 1 still saw the loaded write offset in place. -/
theorem eof_complete_iff (calls : List WriteCall) (schedule : List Action) (t : State)
    (hrun : run step (start calls) schedule = some t) (heof : [] ∈ t.consumer.results) :
    beforeEof t.consumer.results = stream calls ↔
      Along step EofCheckCurrent (start calls) schedule := by
  constructor
  · -- a stale end of stream would have been frozen into the result
    intro hcomplete
    suffices hgen : ∀ (as : List Action) (s : State) (R W : Nat),
        Inv (stream calls) s R W → run step s as = some t →
        Along step EofCheckCurrent s as from
      hgen schedule _ 0 0 (inv_start calls) hrun
    intro as
    induction as with
    | nil => intros; trivial
    | cons a rest ih =>
      intro s R W h hrun
      obtain ⟨m, hm, hrest⟩ := run_cons_some hrun
      obtain ⟨R', W', hinv⟩ := inv_step h hm
      refine ⟨?_, fun m' hm' => ?_⟩
      · unfold EofCheckCurrent
        split
        · rename_i write hpc
          intro hclosed
          have hres : m.consumer.results = s.consumer.results ++ [[]] := by
            simp only [step, consumerStep, hpc, if_pos hclosed, Option.some.injEq] at hm
            rw [← hm]
            rfl
          have hfrozen := run_beforeEof hinv (by rw [hres]; simp) hrest
          have hlen := beforeEof_length_le (s.consumer.results ++ [[]])
          have hreceived := h.received
          simp only [Consumer.received, hpc] at hreceived
          rw [← hres, ← hfrozen, hcomplete, hres] at hlen
          rw [← eof_step_complete_iff h hpc hclosed, hreceived, take_eq_self_iff]
          simp [hreceived] at hlen
          omega
        · trivial
      · obtain rfl : m = m' := Option.some.inj (hm.symm.trans hm')
        exact ih m R' W' hinv hrest
  · intro halong
    refine (run_invariant_along (C := EofCheckCurrent) (P := fun s =>
      (∃ R W, Inv (stream calls) s R W) ∧
      ([] ∈ s.consumer.results → beforeEof s.consumer.results = stream calls))
      ?_ ⟨⟨0, 0, inv_start calls⟩, by simp [start]⟩ halong hrun).2 heof
    rintro s a m ⟨⟨R, W, h⟩, hgood⟩ hok hstep
    refine ⟨inv_step h hstep, fun hmem => ?_⟩
    by_cases hold : [] ∈ s.consumer.results
    · rcases step_results h hstep with hr | ⟨chunk, _, hr⟩ | ⟨_, _, _, hr⟩ <;> rw [hr]
      · exact hgood hold
      all_goals exact (beforeEof_append_of_mem hold _).trans (hgood hold)
    · rcases step_results h hstep with hr | ⟨chunk, hchunk, hr⟩ | ⟨rfl, ⟨write, hpc⟩, hclosed, hr⟩
      · exact absurd (hr ▸ hmem) hold
      · rw [hr] at hmem
        simp [hold, Ne.symm hchunk] at hmem
      · rw [hr, beforeEof_append_eof hold, eof_step_complete_iff h hpc hclosed]
        simp only [EofCheckCurrent, hpc] at hok
        exact hok hclosed

/-- A producer that writes one byte and closes while the consumer is between
its `WRITE_OFFSET` and `CLOSED` loads. -/
def racingClose : List Action :=
  [.startRead .wait 1, .consumer, .consumer, .consumer] ++
    List.replicate 12 .producer ++ [.consumer]

/-- The race loses the byte: the consumer sees end of stream first. -/
theorem eof_before_last_byte :
    ∃ s, run step (start [⟨.wait, [7]⟩]) racingClose = some s ∧
      [] ∈ s.consumer.results ∧
      beforeEof s.consumer.results ≠ stream [⟨.wait, [7]⟩] := by
  refine ⟨_, rfl, ?_, ?_⟩ <;> decide

/-- The producer runs to completion before the consumer drains. -/
def drainAfterClose : List Action :=
  List.replicate 12 .producer ++ .startRead .wait 4 :: List.replicate 6 .consumer ++
    .startRead .wait 4 :: List.replicate 4 .consumer

/-- A reader that starts after the close drains the ring before it reports end of stream. -/
theorem eof_complete_after_close :
    ∃ s, run step (start [⟨.wait, [7]⟩]) drainAfterClose = some s ∧
      beforeEof s.consumer.results = stream [⟨.wait, [7]⟩] := by
  refine ⟨_, rfl, ?_⟩
  rw [eof_complete_iff [⟨.wait, [7]⟩] drainAfterClose _ rfl (by decide)]
  decide

end Oliphaunt.ByteChannel
