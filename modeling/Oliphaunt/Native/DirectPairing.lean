import Oliphaunt.Native.DirectExec

/-!
# Responses of direct calls belong to their requests

In a run whose requests have one boundary each, the only ReadyForQuery of a request
is the last thing the backend answers to it. The wait of a call therefore ends
when the output buffer holds the whole answer and nothing else, and the next
call finds the backend with nothing left to read, to process or to write
(`Inv`). What is left of a request leads to its ReadyForQuery (`Answerable`), and
the backend has finitely many steps to take before it (`Backend.decreases`).

* `exec_protocol_pairs_responses` — each call returns the answer to its own request,
  and every call that waits comes to that;
* `second_response_returned_late` — with two boundaries in a request the wait ends at
  the first.
-/

namespace Oliphaunt.Native

open Bytes FrontendProtocol Transition List

/-- None of the messages is a ReadyForQuery. -/
def Quiet (messages : List Frame) : Prop := ∀ m ∈ messages, m.tag ≠ readyTag

/-- A ReadyForQuery ends the messages and is the only one. -/
def EndsReady (messages : List Frame) : Prop :=
  ∃ body ready, messages = body ++ [ready] ∧ Quiet body ∧ ready.tag = readyTag

/-- The scan offset stands between two messages, before any ReadyForQuery. -/
def AtFrame (out : Output) (messages : List Frame) : Prop :=
  ∃ done rest, messages = done ++ rest ∧ Quiet done ∧
    out.scanOff = (encodeAll done).length ∧ out.scanOff ≤ out.bytes.length

variable {messages : List Frame}

theorem EndsReady.not_quiet (h : EndsReady messages) :
    ¬ Quiet messages := by
  obtain ⟨body, ready, rfl, -, htag⟩ := h
  intro hquiet
  exact hquiet ready (by simp) htag

variable {f : Frame} {rest : List Frame}

theorem EndsReady.tail (h : EndsReady (f :: rest))
    (htag : f.tag ≠ readyTag) : EndsReady rest := by
  obtain ⟨body, ready, heq, hbody, hready⟩ := h
  cases body with
  | nil =>
    obtain ⟨rfl, -⟩ := List.cons.inj heq
    exact absurd hready htag
  | cons g body =>
    obtain ⟨-, rfl⟩ := List.cons.inj heq
    exact ⟨body, ready, rfl, fun m hm => hbody m (.tail g hm), hready⟩

variable {done : List Frame}

theorem EndsReady.drop_quiet (h : EndsReady (done ++ rest))
    (hdone : Quiet done) : EndsReady rest := by
  induction done with
  | nil => exact h
  | cons f done ih =>
    exact ih (h.tail (hdone f (.head _)))
      (fun m hm => hdone m (.tail f hm))

theorem EndsReady.eq_singleton (h : EndsReady (f :: rest))
    (htag : f.tag = readyTag) : rest = [] := by
  obtain ⟨body, ready, heq, hbody, -⟩ := h
  cases body with
  | nil => exact (List.cons.inj heq).2
  | cons g body =>
    obtain ⟨rfl, -⟩ := List.cons.inj heq
    exact absurd htag (hbody f (.head _))

variable {bytes request : List UInt8} {count : Nat}

theorem lengthField_append (h : 5 ≤ bytes.length) (more : List UInt8) :
    lengthField (bytes ++ more) = lengthField bytes := by
  rw [lengthField, lengthField, drop_append_of_le_length (by omega),
    take_append_of_le_length (by rw [length_drop]; omega)]

variable {out : Output} {unwritten : List UInt8}

/-- What a scan makes of the buffer while `unwritten` is still missing: it reports a
ReadyForQuery exactly when the messages end with one and all of them have been written. -/
def Scanned (out : Output) (unwritten : List UInt8) (messages : List Frame)
    (result : Output × Bool) : Prop :=
  result.1.bytes = out.bytes ∧
    ((result.2 = false ∧ result.1.ready = false ∧ AtFrame result.1 messages ∧
        (Quiet messages ∨ unwritten ≠ [])) ∨
      (result.2 = true ∧ result.1.ready = true ∧ result.1.scanOff = out.bytes.length ∧
        EndsReady messages ∧ unwritten = []))

/-- What is left of the buffer behind whole frames begins with the next one. -/
theorem drop_written {bytes unwritten : List UInt8} {done rest : List Frame}
    (h : bytes ++ unwritten = encodeAll (done ++ f :: rest))
    (hdone : (encodeAll done).length ≤ bytes.length) :
    bytes.drop (encodeAll done).length ++ unwritten = f.encode ++ encodeAll rest := by
  have hdrop := congrArg (List.drop (encodeAll done).length) h
  rwa [encodeAll_append, drop_left, drop_append_of_le_length hdone, encodeAll_cons] at hdrop

/-- The header of a frame can be read as soon as its five bytes are there. -/
theorem header_written {bytes unwritten more : List UInt8}
    (h : bytes ++ unwritten = f.encode ++ more) (hlong : 5 ≤ bytes.length) (hfits : f.Fits) :
    lengthField bytes = f.body.length + 4 ∧ bytes.head? = some f.tag := by
  constructor
  · rw [← lengthField_append hlong unwritten, h, lengthField_encode hfits]
  · have hne : bytes ≠ [] := by
      rintro rfl
      cases hlong
    have hhead := congrArg List.head? h
    rwa [List.head?_append, List.head?_eq_some_head hne, Option.some_or,
      ← List.head?_eq_some_head hne] at hhead

/-- A scan of a part of the messages from the end of `done`. -/
theorem scanFrom_spec
    (hbytes : out.bytes ++ unwritten = encodeAll messages) (hfits : ∀ m ∈ messages, m.Fits)
    (hframe : AtFrame out messages) (hready : out.ready = false)
    (hends : Quiet messages ∨ EndsReady messages) :
    ∀ rest done : List Frame, messages = done ++ rest → Quiet done →
      (encodeAll done).length ≤ out.bytes.length →
      Scanned out unwritten messages (scanFrom out (encodeAll done).length) := by
  intro rest
  induction rest with
  | nil =>
    intro done hsplit hquiet hdone
    have hlength := congrArg List.length hbytes
    rw [hsplit, append_nil, length_append] at hlength
    rw [scanFrom, if_neg (by omega)]
    refine ⟨rfl, .inl ⟨hready, hready, ⟨done, [], hsplit, hquiet, rfl, hdone⟩, .inl ?_⟩⟩
    rwa [hsplit, append_nil]
  | cons f rest ih =>
    intro done hsplit hquiet hdone
    have hf : f.Fits := hfits f (by rw [hsplit]; simp)
    -- what is left of the buffer begins with the frame, as far as it is written
    have htail := drop_written (hsplit ▸ hbytes) hdone
    have hlength := congrArg List.length htail
    rw [length_append, length_append, length_drop, Frame.length_encode] at hlength
    rw [scanFrom]
    by_cases hheader : (encodeAll done).length + 5 ≤ out.bytes.length
    swap
    · rw [if_neg hheader]
      refine ⟨rfl, .inl ⟨hready, hready, ⟨done, f :: rest, hsplit, hquiet, rfl, hdone⟩, .inr ?_⟩⟩
      rintro rfl
      rw [length_nil] at hlength
      omega
    have hlong : 5 ≤ (out.bytes.drop (encodeAll done).length).length := by
      rw [length_drop]
      omega
    obtain ⟨hfield, hhead⟩ := header_written htail hlong hf
    rw [if_pos hheader]
    simp only [hfield]
    by_cases hpart : out.bytes.length - (encodeAll done).length < 1 + (f.body.length + 4)
    · rw [if_pos hpart]
      refine ⟨rfl, .inl ⟨rfl, hready, hframe, .inr ?_⟩⟩
      rintro rfl
      rw [length_nil] at hlength
      omega
    rw [if_neg hpart, hhead]
    by_cases htag : f.tag = readyTag
    · have hready : EndsReady messages :=
        hends.resolve_left fun h => h f (by rw [hsplit]; simp) htag
      have hnil := ((hsplit ▸ hready).drop_quiet hquiet).eq_singleton htag
      subst hnil
      rw [encodeAll_nil, length_nil] at hlength
      rw [if_pos (congrArg some htag)]
      refine ⟨rfl, .inr ⟨rfl, rfl, ?_, hready, ?_⟩⟩
      · show (encodeAll done).length + (1 + (f.body.length + 4)) = out.bytes.length
        omega
      · exact length_eq_zero_iff.mp (by omega)
    · have hnext : (encodeAll (done ++ [f])).length =
          (encodeAll done).length + (1 + (f.body.length + 4)) := by
        rw [encodeAll_append, length_append, encodeAll_cons, encodeAll_nil,
          append_nil, Frame.length_encode]
        omega
      rw [if_neg (fun h => htag (Option.some.inj h)), ← hnext]
      refine ih (done ++ [f]) (by rw [hsplit]; simp) ?_ (by omega)
      intro m hm
      rcases mem_append.mp hm with hm | hm
      · exact hquiet m hm
      · rw [mem_singleton.mp hm]
        exact htag

/-- The scan finds a ReadyForQuery exactly if the buffer holds the whole answer. -/
theorem scanReadyForQuery_spec
    (hbytes : out.bytes ++ unwritten = encodeAll messages) (hfits : ∀ m ∈ messages, m.Fits)
    (hframe : AtFrame out messages) (hready : out.ready = false)
    (hends : Quiet messages ∨ EndsReady messages) :
    Scanned out unwritten messages (scanReadyForQuery out) := by
  obtain ⟨done, rest, hsplit, hquiet, hoff, hle⟩ := id hframe
  rw [scanReadyForQuery, hoff]
  exact scanFrom_spec hbytes hfits hframe hready hends rest done hsplit hquiet (hoff ▸ hle)

variable {earlier : List (List UInt8)}

theorem owner_last (hlow : earlier.flatten.length ≤ offset)
    (hhigh : offset < earlier.flatten.length + request.length) :
    owner (earlier ++ [request]) offset = earlier.length := by
  induction earlier generalizing offset with
  | nil =>
    rw [flatten_nil, length_nil, Nat.zero_add] at hhigh
    rw [nil_append, owner, if_pos hhigh]
    rfl
  | cons first earlier ih =>
    rw [flatten_cons, length_append] at hlow hhigh
    rw [cons_append, owner, if_neg (by omega), ih (by omega) (by omega), length_cons]

/-- How far the answer to the request of a waiting call has come: before its
ReadyForQuery, with the ReadyForQuery on its way, and with the whole answer in
the output buffer. -/
inductive Phase (mode : Mode) (out : Output) (unwritten : List UInt8)
    (left messages : List Frame) : Prop where
  | open (hquiet : Quiet messages) (hready : out.ready = false)
      (hframe : AtFrame out messages) (hleft : left ≠ [] → Answerable mode left)
      (hmode : left = [] → mode = .closed)
  | answered (hleft : left = []) (hmode : mode = .normal) (hends : EndsReady messages)
      (hready : out.ready = false) (hframe : AtFrame out messages)
  | seen (hleft : left = []) (hmode : mode = .normal) (hends : EndsReady messages)
      (hready : out.ready = true) (hoff : out.scanOff = out.bytes.length)
      (hwritten : unwritten = [])

/-- A call waits: the frames `done` of its request have been answered with `messages`,
the frames `left` are on their way to the backend. -/
structure Busy (s : State) (earlier : List (List UInt8)) (done left messages : List Frame) :
    Prop where
  requests : s.requests = earlier ++ [encodeAll (done ++ left)]
  returned : s.returned.length = earlier.length
  fits : ∀ f ∈ left, f.Fits
  remaining : left ≠ [] → Remaining left
  unread : s.received ++ s.input = encodeAll left
  processed : s.processed = earlier.flatten.length + (encodeAll done).length
  response : s.responses[earlier.length]? = some (encodeAll messages)
  sendable : ∀ m ∈ messages, m.Fits
  written : s.output.bytes ++ s.unwritten = encodeAll messages
  phase : Phase s.mode s.output s.unwritten left messages

/-- No call waits: the backend is gone, or it has nothing left to do. -/
structure Idle (s : State) : Prop where
  returned : s.returned.length = s.requests.length
  drained : s.exited = true ∨ (s.input = [] ∧ s.received = [] ∧ s.unwritten = [] ∧
    s.mode = .normal ∧ s.processed = s.requests.flatten.length)

structure Inv (s : State) : Prop where
  exact : ∀ k bytes, s.returned[k]? = some (.ok bytes) → s.responses[k]? = some bytes ∧
    (s.requests.take (k + 1)).flatten.length ≤ s.processed
  lengths : s.responses.length = s.requests.length
  idle : s.waiting = false → Idle s
  busy : s.waiting = true → ∃ earlier done left messages, Busy s earlier done left messages
  gone : s.exited = true → s.mode = .closed

theorem inv_init : Inv State.init where
  exact := by simp [State.init]
  lengths := rfl
  idle := fun _ => ⟨rfl, .inr ⟨rfl, rfl, rfl, rfl, rfl⟩⟩
  busy := by simp [State.init]
  gone := by simp [State.init]

variable {s : State}

/-- A call finds the backend drained and adds one request with one boundary. -/
theorem inv_call (hinv : Inv s) (hwait : s.waiting = false) (hone : oneBoundary request = true) :
    Inv (s.call request) := by
  obtain ⟨frames, rfl, hfits, hremaining, hanswerable⟩ := oneBoundary_frames hone
  have hidle := hinv.idle hwait
  rw [State.call]
  split
  · exact hinv
  split
  · exact hinv
  rename_i hexited
  obtain ⟨hinput, hreceived, hunwritten, hmode, hprocessed⟩ := hidle.drained.resolve_left hexited
  rw [if_neg (not_not.mpr hinput)]
  refine ⟨?_, ?_, nofun, fun _ => ⟨s.requests, [], frames, [], ?_⟩, hinv.gone⟩
  · intro k bytes hk
    obtain ⟨hresponse, hdone⟩ := hinv.exact k bytes hk
    have hlt : k < s.returned.length := (List.getElem?_eq_some_iff.mp hk).1
    have hreturned := hidle.returned
    have hlengths := hinv.lengths
    rw [List.getElem?_append_left (by omega), take_append_of_le_length (by omega)]
    exact ⟨hresponse, hdone⟩
  · rw [length_append, length_append, hinv.lengths]
    rfl
  · exact
      { requests := rfl
        returned := hidle.returned
        fits := hfits
        remaining := fun _ => hremaining
        unread := by rw [hreceived]; rfl
        processed := by rw [hprocessed]; rfl
        response := by
          rw [← hinv.lengths, List.getElem?_concat_length]
          rfl
        sendable := by simp
        written := by rw [hunwritten]; rfl
        phase := .open (by simp [Quiet]) rfl ⟨[], [], rfl, by simp [Quiet], rfl, Nat.le_refl 0⟩
          (fun _ => hmode ▸ hanswerable) (fun hnil => absurd hnil hremaining.ne_nil) }

variable {t : State}

theorem Inv.of_busy (hinv : Inv s)
    (hreturned : t.returned = s.returned) (hrequests : t.requests = s.requests)
    (hprocessed : s.processed ≤ t.processed) (hlengths : t.responses.length = s.responses.length)
    (hresponses : ∀ k, k < s.returned.length → t.responses[k]? = s.responses[k]?)
    (hwait : t.waiting = true) (hgone : t.exited = true → t.mode = .closed)
    (hbusy : ∃ earlier done left messages, Busy t earlier done left messages) : Inv t where
  exact := by
    intro k bytes hk
    rw [hreturned] at hk
    obtain ⟨hresponse, hdone⟩ := hinv.exact k bytes hk
    have hlt : k < s.returned.length := (List.getElem?_eq_some_iff.mp hk).1
    rw [hresponses k hlt, hrequests]
    exact ⟨hresponse, by omega⟩
  lengths := by rw [hlengths, hrequests, hinv.lengths]
  idle := by
    intro h
    cases hwait.symm.trans h
  busy := fun _ => hbusy
  gone := hgone

/-- Between two calls nothing is left anywhere. -/
theorem Inv.drained (hinv : Inv s) (hwait : s.waiting = false)
    (hexited : (!s.exited) = true) :
    s.input = [] ∧ s.received = [] ∧ s.unwritten = [] ∧ s.mode = .normal ∧
      s.processed = s.requests.flatten.length := by
  refine (hinv.idle hwait).drained.resolve_left fun h => ?_
  rw [h] at hexited
  cases hexited

/-- The backend reads part of the input. -/
theorem inv_read (hinv : Inv s) (hstep : step s (.read count) = some t) : Inv t := by
  rw [step] at hstep
  split_ifs at hstep with hcount
  obtain ⟨hpos, hle, hexited⟩ := hcount
  cases hstep
  rcases Bool.eq_false_or_eq_true s.waiting with hwait | hwait
  · obtain ⟨earlier, done, left, messages, hbusy⟩ := hinv.busy hwait
    refine hinv.of_busy rfl rfl (Nat.le_refl _) rfl (fun _ _ => rfl) hwait hinv.gone
      ⟨earlier, done, left, messages, ?_⟩
    exact
      { hbusy with
        unread := by
          show s.received ++ s.input.take count ++ s.input.drop count = _
          rw [append_assoc, take_append_drop, hbusy.unread] }
  · have hinput := (hinv.drained hwait hexited).1
    rw [hinput, length_nil] at hle
    omega

variable {left : List Frame}

/-- The frame the backend takes is the first one left, and the rest of the request is
as before. -/
theorem Busy.split {rest : List UInt8} (h : Busy s earlier done left messages)
    (hsplit : splitFrame s.received = some (f, rest)) :
    ∃ left', left = f :: left' ∧ rest ++ s.input = encodeAll left' := by
  have hwhole := splitFrame_append hsplit s.input
  rw [h.unread] at hwhole
  cases left with
  | nil => cases hwhole
  | cons g left' =>
    rw [encodeAll_cons, splitFrame_encode (h.fits g (.head _))] at hwhole
    obtain ⟨rfl, hrest⟩ := Prod.mk.inj (Option.some.inj hwhole)
    exact ⟨left', rfl, hrest.symm⟩

theorem AtFrame.append (h : AtFrame out messages)
    (more : List Frame) : AtFrame out (messages ++ more) := by
  obtain ⟨done, rest, rfl, hquiet, hoff, hle⟩ := h
  exact ⟨done, rest ++ more, append_assoc _ _ _, hquiet, hoff, hle⟩

theorem Quiet.append (hms : Quiet ms) (hns : Quiet ns) : Quiet (ms ++ ns) := by
  intro m hm
  exact (mem_append.mp hm).elim (hms m) (hns m)

variable {mode : Mode}

theorem react_ready (h : (react mode kind outcome).2 = true) :
    (react mode kind outcome).1 = .normal := by
  cases mode with
  | normal => cases kind <;> cases outcome <;> simp_all [react]
  | skipping => cases kind <;> cases outcome <;> simp_all [react]
  | closed => cases kind <;> cases outcome <;> simp_all [react]
  | copyIn extended =>
    cases extended <;> cases kind <;> cases outcome <;> simp_all [react, copyFailed]

variable {reply : Reply}

theorem Phase.process (h : Phase mode out unwritten (f :: left) messages) (hreply : reply.Sendable)
    (hremaining : Remaining (f :: left))
    (hcopy : reply.outcome = .copyIn →
      f.kind = .execute ∧ ∃ g ∈ left, endsCopy g.kind = true) :
    Phase (react mode (.ofTag f.tag) reply.outcome).1 out (unwritten ++ bytes) left
      (messages ++ answer mode f reply) := by
  cases h with
  | answered hleft => cases hleft
  | seen hleft => cases hleft
  | «open» hquiet hready hframe hopen _ =>
    have hmessages : Quiet reply.messages := hreply.1.1
    rcases react_answerable hremaining (hopen (cons_ne_nil f left)) hcopy with
      ⟨hsent, hleft⟩ | ⟨hsent, hlast, hrest⟩
    · have hanswer : answer mode f reply = reply.messages ++ [readyFrame reply.status] := by
        rw [answer, hsent, if_pos rfl]
      rw [hanswer]
      refine .answered hleft (react_ready hsent) ?_ hready (hframe.append _)
      exact ⟨messages ++ reply.messages, readyFrame reply.status,
        (append_assoc _ _ _).symm, hquiet.append hmessages, rfl⟩
    · have hanswer : answer mode f reply = reply.messages := by
        rw [answer, hsent, if_neg (by decide), append_nil]
      rw [hanswer]
      exact .open (hquiet.append hmessages) hready (hframe.append _) hrest hlast

theorem fits_answer (h : reply.Sendable) :
    ∀ m ∈ answer mode f reply, m.Fits := by
  intro m hm
  rcases mem_append.mp hm with hm | hm
  · exact h.2 m hm
  · split_ifs at hm
    · rw [mem_singleton.mp hm]
      show [reply.status].length + 4 < 2 ^ 32
      rw [length_singleton]
      omega
    · cases hm

/-- The backend processes one message. -/
theorem inv_process (hinv : Inv s) (hone : OneBoundary s (.process reply))
    (hstep : step s (.process reply) = some t) : Inv t := by
  rw [step] at hstep
  split_ifs at hstep with hblocked
  simp only [not_or, not_not] at hblocked
  obtain ⟨hexited, -, hreply⟩ := hblocked
  split at hstep
  · cases hstep
  · next f rest hsplit =>
    cases hstep
    rcases Bool.eq_false_or_eq_true s.waiting with hwait | hwait
    · obtain ⟨earlier, done, left, messages, hbusy⟩ := hinv.busy hwait
      obtain ⟨left', rfl, hrest⟩ := hbusy.split hsplit
      have hcopy : reply.outcome = .copyIn →
          f.kind = .execute ∧ ∃ g ∈ left', endsCopy g.kind = true := fun h =>
        copyEnds_encodeAll hbusy.fits (hbusy.unread ▸ hone h)
      have hlength : (encodeAll (done ++ f :: left')).length =
          (encodeAll done).length + (f.body.length + 5) + (encodeAll left').length := by
        rw [encodeAll_append, encodeAll_cons, length_append, length_append,
          Frame.length_encode]
        omega
      have howner : owner s.requests s.processed = earlier.length := by
        rw [hbusy.requests, hbusy.processed]
        exact owner_last (by omega) (by omega)
      have hresponses : (s.process f rest reply).responses =
          s.responses.modify earlier.length (· ++ encodeAll (answer s.mode f reply)) := by
        rw [← howner]
        rfl
      refine hinv.of_busy rfl rfl (Nat.le_add_right _ _) ?_ ?_ hwait (fun h => absurd h hexited)
        ⟨earlier, done ++ [f], left', messages ++ answer s.mode f reply, ?_⟩
      · rw [hresponses, length_modify]
      · intro k hk
        rw [hbusy.returned] at hk
        rw [hresponses, List.getElem?_modify_ne _ _ (by omega)]
      · exact
          { requests := by rw [append_assoc]; exact hbusy.requests
            returned := hbusy.returned
            fits := fun g hg => hbusy.fits g (.tail f hg)
            remaining := by
              intro hne
              rcases (hbusy.remaining (cons_ne_nil f left')).cons with h | h
              · exact absurd h.1 hne
              · exact h.1
            unread := hrest
            processed := by
              show s.processed + f.encode.length = _
              rw [hbusy.processed, encodeAll_append, length_append, encodeAll_cons,
                encodeAll_nil, append_nil]
              omega
            response := by
              rw [hresponses, List.getElem?_modify_eq, hbusy.response, encodeAll_append]
              rfl
            sendable := by
              intro m hm
              exact (mem_append.mp hm).elim (hbusy.sendable m) (fits_answer hreply m)
            written := by
              show s.output.bytes ++ (s.unwritten ++ _) = _
              rw [← append_assoc, hbusy.written, encodeAll_append]
            phase := hbusy.phase.process hreply (hbusy.remaining (cons_ne_nil f left')) hcopy }
    · have hreceived := (hinv.drained hwait (by simpa using hexited)).2.1
      rw [hreceived] at hsplit
      cases hsplit

/-- A write of `more` and the scan after it: the ReadyForQuery is found once all is
written. -/
theorem Phase.scan (h : Phase mode out (more ++ unwritten) left messages)
    (hbytes : out.bytes ++ more ++ unwritten = encodeAll messages)
    (hfits : ∀ m ∈ messages, m.Fits) :
    (scanReadyForQuery { out with bytes := out.bytes ++ more }).1.bytes = out.bytes ++ more ∧
      Phase mode (scanReadyForQuery { out with bytes := out.bytes ++ more }).1 unwritten left
        messages ∧
      ((scanReadyForQuery { out with bytes := out.bytes ++ more }).2 = true ↔
        EndsReady messages ∧ unwritten = []) := by
  have hgrow : AtFrame out messages → AtFrame { out with bytes := out.bytes ++ more } messages := by
    rintro ⟨done, rest, hsplit, hquiet, hoff, hle⟩
    refine ⟨done, rest, hsplit, hquiet, hoff, ?_⟩
    rw [length_append]
    exact Nat.le_add_right_of_le hle
  cases h with
  | «open» hquiet hready hframe hopen hmode =>
    obtain ⟨hsame, hresult⟩ :=
      scanReadyForQuery_spec hbytes hfits (hgrow hframe) hready (.inl hquiet)
    rcases hresult with ⟨hnone, hready', hframe', -⟩ | ⟨-, -, -, hends, -⟩
    · refine ⟨hsame, .open hquiet hready' hframe' hopen hmode, ?_⟩
      rw [hnone]
      simp only [Bool.false_eq_true, false_iff, not_and]
      exact fun hends => absurd hquiet hends.not_quiet
    · exact absurd hquiet hends.not_quiet
  | answered hleft hmode hends hready hframe =>
    obtain ⟨hsame, hresult⟩ :=
      scanReadyForQuery_spec hbytes hfits (hgrow hframe) hready (.inr hends)
    rcases hresult with ⟨hnone, hready', hframe', hmore⟩ | ⟨hfound, hready', hoff, -, hall⟩
    · refine ⟨hsame, .answered hleft hmode hends hready' hframe', ?_⟩
      rw [hnone]
      simp only [Bool.false_eq_true, false_iff, not_and]
      exact fun _ => hmore.resolve_left hends.not_quiet
    · refine ⟨hsame, .seen hleft hmode hends hready' ?_ hall, ?_⟩
      · rw [hoff, hsame]
      · rw [hfound]
        exact ⟨fun _ => ⟨hends, hall⟩, fun _ => rfl⟩
  | seen hleft hmode hends hready hoff hwritten =>
    obtain ⟨rfl, rfl⟩ := append_eq_nil_iff.mp hwritten
    have hscan : scanReadyForQuery { out with bytes := out.bytes ++ [] } =
        ({ out with bytes := out.bytes ++ [] }, true) := by
      have hend : ¬ out.scanOff + 5 ≤ out.bytes.length := by omega
      rw [append_nil, scanReadyForQuery, scanFrom]
      exact (if_neg hend).trans (by rw [hready])
    rw [hscan]
    refine ⟨rfl, .seen hleft hmode hends hready ?_ rfl, ?_⟩
    · rw [append_nil]
      exact hoff
    · exact ⟨fun _ => ⟨hends, rfl⟩, fun _ => rfl⟩

theorem Phase.rescan (h : Phase mode out unwritten left messages)
    (hbytes : out.bytes ++ unwritten = encodeAll messages) (hfits : ∀ m ∈ messages, m.Fits) :
    (scanReadyForQuery out).1.bytes = out.bytes ∧
      Phase mode (scanReadyForQuery out).1 unwritten left messages ∧
      ((scanReadyForQuery out).2 = true ↔ EndsReady messages ∧ unwritten = []) := by
  have hnil : ({ out with bytes := out.bytes ++ [] } : Output) = out := by
    rw [append_nil]
  have hnothing : Phase mode out ([] ++ unwritten) left messages := h
  have hscan := hnothing.scan (by rw [append_nil]; exact hbytes) hfits
  rwa [hnil, append_nil] at hscan

/-- The backend writes part of its answer, and the scan goes on. -/
theorem inv_write (hinv : Inv s) (hstep : step s (.write count) = some t) : Inv t := by
  rw [step] at hstep
  split_ifs at hstep with hcount
  obtain ⟨hpos, hle, hexited⟩ := hcount
  cases hstep
  rcases Bool.eq_false_or_eq_true s.waiting with hwait | hwait
  · obtain ⟨earlier, done, left, messages, hbusy⟩ := hinv.busy hwait
    have hphase := hbusy.phase
    rw [← take_append_drop count s.unwritten] at hphase
    have hwritten := hbusy.written
    rw [← take_append_drop count s.unwritten, ← append_assoc] at hwritten
    obtain ⟨hbytes, hnext, -⟩ := hphase.scan hwritten hbusy.sendable
    refine hinv.of_busy rfl rfl (Nat.le_refl _) rfl (fun _ _ => rfl) hwait hinv.gone
      ⟨earlier, done, left, messages, ?_⟩
    exact
      { hbusy with
        written := by
          show (scanReadyForQuery _).1.bytes ++ s.unwritten.drop count = _
          rw [hbytes, hwritten]
        phase := hnext }
  · have hunwritten := (hinv.drained hwait hexited).2.2.1
    rw [hunwritten, length_nil] at hle
    omega

/-- The backend exits. -/
theorem inv_exit (hinv : Inv s) (hstep : step s .exit = some t) : Inv t := by
  rw [step] at hstep
  split_ifs at hstep with hclosed
  cases hstep
  refine ⟨hinv.exact, hinv.lengths, ?_, ?_, fun _ => hclosed.1⟩
  · intro hwait
    exact ⟨(hinv.idle hwait).returned, .inl rfl⟩
  · intro hwait
    obtain ⟨earlier, done, left, messages, h⟩ := hinv.busy hwait
    exact ⟨earlier, done, left, messages, { h with }⟩

/-- The call returns the answer to its own request. -/
theorem Inv.returns (hinv : Inv s) (hbusy : Busy s earlier done left messages)
    (hreturned : t.returned = s.returned ++ [result]) (hrequests : t.requests = s.requests)
    (hprocessed : t.processed = s.processed) (hresponses : t.responses = s.responses)
    (hresult : ∀ bytes, result = .ok bytes → bytes = encodeAll messages ∧ left = [])
    (hwait : t.waiting = false) (hidle : Idle t) (hgone : t.exited = true → t.mode = .closed) :
    Inv t where
  exact := by
    intro k bytes hk
    rw [hreturned] at hk
    rw [hresponses, hrequests, hprocessed]
    rcases Nat.lt_or_ge k s.returned.length with hlt | hge
    · rw [List.getElem?_append_left hlt] at hk
      exact hinv.exact k bytes hk
    · obtain ⟨hlt, -⟩ := List.getElem?_eq_some_iff.mp hk
      rw [length_append, length_singleton] at hlt
      have hlast : k = s.returned.length := by omega
      subst hlast
      rw [List.getElem?_concat_length] at hk
      obtain ⟨rfl, rfl⟩ := hresult bytes (Option.some.inj hk)
      rw [hbusy.returned]
      refine ⟨hbusy.response, ?_⟩
      have hall : s.requests.take (earlier.length + 1) = s.requests :=
        take_of_length_le (by simp [hbusy.requests])
      refine Nat.le_of_eq ?_
      rw [hall, hbusy.requests, hbusy.processed, append_nil, flatten_append,
        length_append, flatten_singleton]
  lengths := by rw [hresponses, hrequests, hinv.lengths]
  idle := fun _ => hidle
  busy := by
    intro h
    cases hwait.symm.trans h
  gone := hgone

/-- The waiting call wakes and looks at the buffer. -/
theorem inv_wake (hinv : Inv s) (hstep : step s .wake = some t) : Inv t := by
  rw [step] at hstep
  split_ifs at hstep with hwait
  cases hstep
  obtain ⟨earlier, done, left, messages, hbusy⟩ := hinv.busy hwait
  have hcount : s.requests.length = s.returned.length + 1 := by
    rw [hbusy.requests, hbusy.returned, length_append, length_singleton]
  obtain ⟨hbytes, hphase, hfound⟩ := hbusy.phase.rescan hbusy.written hbusy.sendable
  rw [State.wake]
  by_cases hready : (scanReadyForQuery s.output).2 = true
  · obtain ⟨hends, hall⟩ := hfound.mp hready
    have hdone : left = [] ∧ s.mode = .normal := by
      cases hbusy.phase with
      | «open» hquiet => exact absurd hquiet hends.not_quiet
      | answered hleft hmode => exact ⟨hleft, hmode⟩
      | seen hleft hmode => exact ⟨hleft, hmode⟩
    obtain ⟨rfl, hmode⟩ := hdone
    simp only [hready, if_true]
    refine hinv.returns hbusy rfl rfl rfl rfl ?_ rfl ?_ hinv.gone
    · intro bytes hok
      cases hok
      refine ⟨?_, rfl⟩
      rw [hbytes, ← hbusy.written, hall, append_nil]
    · refine ⟨?_, .inr ⟨?_, ?_, hall, hmode, ?_⟩⟩
      · show (s.returned ++ _).length = s.requests.length
        rw [length_append, length_singleton, hcount]
      · exact (append_eq_nil_iff.mp hbusy.unread).2
      · exact (append_eq_nil_iff.mp hbusy.unread).1
      · show s.processed = s.requests.flatten.length
        rw [hbusy.requests, hbusy.processed, append_nil, flatten_append,
          length_append, flatten_singleton]
  · simp only [hready, if_false, Bool.false_eq_true]
    by_cases hexited : s.exited = true
    · rw [if_pos hexited]
      refine hinv.returns hbusy rfl rfl rfl rfl ?_ rfl ?_ hinv.gone
      · intro bytes hok
        cases hok
      · refine ⟨?_, .inl hexited⟩
        show (s.returned ++ _).length = s.requests.length
        rw [length_append, length_singleton, hcount]
    · rw [if_neg hexited]
      refine hinv.of_busy rfl rfl (Nat.le_refl _) rfl (fun _ _ => rfl) hwait hinv.gone
        ⟨earlier, done, left, messages, ?_⟩
      exact
        { hbusy with
          written := by
            show (scanReadyForQuery s.output).1.bytes ++ s.unwritten = _
            rw [hbytes, hbusy.written]
          phase := hphase }

/-- **Every step keeps the pairing**, in a run with one boundary for each request. -/
theorem inv_step (s : State) (a : Action) (t : State) (hinv : Inv s) (hone : OneBoundary s a)
    (hstep : step s a = some t) : Inv t := by
  cases a with
  | call request =>
    rw [step] at hstep
    split_ifs at hstep with hwait
    cases hstep
    exact inv_call hinv (Bool.eq_false_iff.mpr hwait) hone
  | read count => exact inv_read hinv hstep
  | process reply => exact inv_process hinv hone hstep
  | write count => exact inv_write hinv hstep
  | exit => exact inv_exit hinv hstep
  | wake => exact inv_wake hinv hstep

/-- The backend has nothing to read, no complete frame to process and nothing to
write. -/
def State.Quiescent (s : State) : Prop :=
  s.input = [] ∧ splitFrame s.received = none ∧ s.unwritten = []

/-- A call waits only as long as the backend has something to do, or is gone. -/
theorem Inv.returns_when_quiescent (hinv : Inv s) (hwait : s.waiting = true)
    (hquiescent : s.Quiescent) (hopen : s.mode ≠ .closed) :
    ∃ bytes, s.wake.returned = s.returned ++ [.ok bytes] ∧
      s.responses[s.returned.length]? = some bytes := by
  obtain ⟨hinput, hsplit, hunwritten⟩ := hquiescent
  obtain ⟨earlier, done, left, messages, hbusy⟩ := hinv.busy hwait
  have hleft : left = [] := by
    have hunread := hbusy.unread
    rw [hinput, append_nil] at hunread
    cases left with
    | nil => rfl
    | cons f left =>
      rw [hunread, encodeAll_cons, splitFrame_encode (hbusy.fits f (.head _))] at hsplit
      cases hsplit
  have hends : EndsReady messages := by
    cases hbusy.phase with
    | «open» _ _ _ _ hmode => exact absurd (hmode hleft) hopen
    | answered _ _ hends => exact hends
    | seen _ _ hends => exact hends
  obtain ⟨hbytes, -, hfound⟩ := hbusy.phase.rescan hbusy.written hbusy.sendable
  refine ⟨encodeAll messages, ?_, ?_⟩
  · rw [State.wake]
    simp only [hfound.mpr ⟨hends, hunwritten⟩, if_true, hbytes]
    rw [← hbusy.written, hunwritten, append_nil]
  · rw [hbusy.returned]
    exact hbusy.response

/-- The steps that a waiting call leaves to the backend. -/
def Backend (s : State) (a : Action) : Prop :=
  OneBoundary s a ∧ ((∃ count, a = .read count) ∨ (∃ reply, a = .process reply) ∨
    ∃ count, a = .write count)

/-- The waiting call finds the answer to its request, or the backend has ended the
connection. -/
def State.Returns (s : State) : Prop :=
  s.mode = .closed ∨ ∃ bytes, s.wake.returned = s.returned ++ [.ok bytes] ∧
    s.responses[s.returned.length]? = some bytes

/-- Bytes that the backend has to take, and bytes that it has to write. -/
def State.work (s : State) : Nat × Nat :=
  (2 * s.input.length + s.received.length, s.unwritten.length)

/-- Every step of the backend leaves less to do. -/
theorem Backend.decreases (ha : Backend s a) (hstep : step s a = some t) :
    t.waiting = s.waiting ∧ Prod.Lex (· < ·) (· < ·) t.work s.work := by
  obtain ⟨-, ⟨count, rfl⟩ | ⟨reply, rfl⟩ | ⟨count, rfl⟩⟩ := ha <;> rw [step] at hstep
  · split_ifs at hstep with hcount
    cases hstep
    refine ⟨rfl, .left _ _ ?_⟩
    simp only [length_drop, length_append, length_take]
    omega
  · split_ifs at hstep
    split at hstep
    · cases hstep
    · next f rest hsplit =>
      cases hstep
      exact ⟨rfl, .left _ _ (Nat.add_lt_add_left (splitFrame_length hsplit) _)⟩
  · split_ifs at hstep with hcount
    cases hstep
    refine ⟨rfl, .right _ ?_⟩
    rw [length_drop]
    omega

/-- A call that waits is answered after finitely many steps of the backend, whatever it
answers to the frames and however it splits its reads and writes. -/
theorem Inv.inevitably (hinv : Inv s) (hwait : s.waiting = true) :
    Inevitably step Backend State.Returns s := by
  refine inevitably_of_decreasing (I := fun s => Inv s ∧ s.waiting = true)
    (Prod.lex Nat.lt_wfRel Nat.lt_wfRel).wf State.work (fun s a t hs ha hstep => ?_)
    (fun s hs => ?_) ⟨hinv, hwait⟩
  · obtain ⟨hsame, hless⟩ := ha.decreases hstep
    exact ⟨⟨inv_step s a t hs.1 ha.1 hstep, hsame.trans hs.2⟩, hless⟩
  · obtain ⟨hinv, hwait⟩ := hs
    by_cases hopen : s.mode = .closed
    · exact .inl (.inl hopen)
    have hrunning : s.exited ≠ true := fun h => hopen (hinv.gone h)
    have henabled : ∀ a, Backend s a → (step s a).isSome = true →
        s.Returns ∨ ∃ a t, Backend s a ∧ step s a = some t := fun a ha hsome =>
      .inr ⟨a, _, ha, Option.eq_some_of_isSome hsome⟩
    by_cases hunwritten : s.unwritten = []
    · cases hsplit : splitFrame s.received with
      | some found =>
        have hsendable : Reply.Sendable ⟨.ok, [], 0x49⟩ := by decide
        refine henabled (.process ⟨.ok, [], 0x49⟩) ⟨by simp [OneBoundary], .inr (.inl ⟨_, rfl⟩)⟩ ?_
        simp [step, hrunning, hopen, hsendable, hsplit]
      | none =>
        by_cases hinput : s.input = []
        · exact .inl (.inr (hinv.returns_when_quiescent hwait ⟨hinput, hsplit, hunwritten⟩ hopen))
        · refine henabled (.read s.input.length) ⟨trivial, .inl ⟨_, rfl⟩⟩ ?_
          simp [step, hrunning, length_pos_iff, hinput]
    · refine henabled (.write s.unwritten.length) ⟨trivial, .inr (.inr ⟨_, rfl⟩)⟩ ?_
      simp [step, hrunning, length_pos_iff, hunwritten]

/-- **Responses belong to their requests.** In every run whose requests have one boundary
each, and in which a COPY finds its data in its own request, a call that returns bytes
returns exactly what the backend answers to its request, and all of the request has been
answered by then. Every call that waits returns so after finitely many steps of the
backend, unless the backend ends the connection. -/
theorem exec_protocol_pairs_responses {schedule : List Action} {s : State}
    (hone : Along step OneBoundary State.init schedule)
    (hrun : run step State.init schedule = some s) :
    (∀ k bytes, s.returned[k]? = some (.ok bytes) → s.responses[k]? = some bytes ∧
      (s.requests.take (k + 1)).flatten.length ≤ s.processed) ∧
      (s.waiting = true → Inevitably step Backend State.Returns s) := by
  have hinv : Inv s := run_invariant_along inv_step inv_init hone hrun
  exact ⟨hinv.exact, hinv.inevitably⟩

/-- A call with a Query has returned. A call with a Parse, which has failed, and a Sync
waits. -/
theorem exec_protocol_pairs_two_calls :
    let query := encodeAll [⟨0x51, [0]⟩]
    let series := encodeAll [⟨0x50, [0]⟩, ⟨0x53, []⟩]
    let select : Reply := ⟨.ok, [⟨0x43, [0]⟩], 0x49⟩
    let failed : Reply := ⟨.fail, [⟨0x45, [0]⟩], 0x49⟩
    let schedule : List Action :=
      [.call query, .read 6, .process select, .write 7, .wake, .write 5, .wake,
        .call series, .read 2, .read 4, .process failed, .write 3, .wake]
    ∃ s, run step State.init schedule = some s ∧ s.returned.length = 1 ∧
      (∀ k bytes, s.returned[k]? = some (.ok bytes) → s.responses[k]? = some bytes ∧
        (s.requests.take (k + 1)).flatten.length ≤ s.processed) ∧
      Inevitably step Backend State.Returns s := by
  intro query series select failed schedule
  have hone : Along step OneBoundary State.init schedule := by decide +kernel
  refine exists_run (f := fun s => (s.returned.length, s.waiting)) (v := (1, true))
    (by decide +kernel) fun s hrun hs => ?_
  obtain ⟨hreturned, hwaiting⟩ := Prod.mk.inj hs
  obtain ⟨hpairs, hreturns⟩ := exec_protocol_pairs_responses hone hrun
  exact ⟨hreturned, hpairs, hreturns hwaiting⟩

/-- Two Query frames in one request: the call returns with the answer to the first.
The next call, whose own request has not even been read, gets the answer to the
second. -/
theorem second_response_returned_late :
    let query := encodeAll [⟨0x51, [0]⟩]
    let first : Reply := ⟨.ok, [⟨0x43, [1, 0]⟩], 0x49⟩
    let second : Reply := ⟨.ok, [⟨0x43, [2, 0]⟩], 0x49⟩
    let firstResponse := encodeAll [⟨0x43, [1, 0]⟩, readyFrame 0x49]
    let secondResponse := encodeAll [⟨0x43, [2, 0]⟩, readyFrame 0x49]
    (run step State.init
      [.call (query ++ query), .read 12, .process first, .write 13, .wake,
        .call query, .process second, .write 13, .wake]).map
        (fun s => (s.returned, s.responses)) =
      some ([.ok firstResponse, .ok secondResponse],
        [firstResponse ++ secondResponse, []]) := by
  decide +kernel

end Oliphaunt.Native
