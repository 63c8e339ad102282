import SorterInterface.Transport

/-! # What the loop does to the machine

Outside the firmware the loop is seen by what it does: the calls it makes on the steppers, the
driver chips and the GPIO lines, and the frames it writes to the host (`effects`).  The protocol
says what each delimiter-terminated frame is owed (`Frame.effects`): for a frame that decodes to
a message addressed to the board with a right CRC, the calls the switch makes on that message and
then its response; for any other frame, nothing.

On every stream of whole frames (`Frame.Whole`: 8 to 255 stuffed bytes, whose messages carry
the payload they announce and do not make `HOME` read below `digital_input_pins`), the loop's
effects are exactly those the protocol owes, frame after frame (`run_effects_whole_frames`): no call is lost, made twice or made for a frame the checks reject,
and each response follows the calls of its own request.  Unlike the frame-level result of
`Transport`, this one holds across the `DRV_SET_MICROSTEPS` requests the switch leaves by
`continue`: such a request stays pending and is dispatched again after every read timeout, but
the switch makes no call on it, so it has no effect at all, and the next frame's delimiter
replaces it.  From every state the loop reaches, a read timeout finds no other message pending,
so where the reads time out never changes what the loop does (`effects_run_filter_timeouts`).

Between frames the loop is `Ready`: `rx_buffer` is empty, and no message is pending but one the
switch skips (`Quiet`).  Each whole frame takes the loop from one such state to the next
(`run_whole_frame`).
-/

namespace SorterInterface

open Message

/-- What the loop does that reaches outside the firmware: a call on a stepper, a driver chip or
a GPIO line, or a frame written to the host. -/
inductive Effect where
  | call (c : Call)
  | write (bytes : List UInt8)
  deriving DecidableEq, Repr

/-- The effect of an action, if it has one. -/
def Action.effect? : Action → Option Effect
  | .call c => some (.call c)
  | .write e => some (.write e)
  | _ => none

/-- The effects of the actions, in order. -/
def effects (acts : List Action) : List Effect :=
  acts.filterMap Action.effect?

@[simp] theorem effects_nil : effects [] = [] := rfl

@[simp] theorem effects_append (a b : List Action) : effects (a ++ b) = effects a ++ effects b :=
  List.filterMap_append a b _

@[simp] theorem effects_cons_decode (x : List UInt8) (r : Option (List UInt8)) (acts : List Action) :
    effects (.decode x r :: acts) = effects acts := rfl

@[simp] theorem effects_cons_dispatch (m : List UInt8) (n : Nat) (acts : List Action) :
    effects (.dispatch m n :: acts) = effects acts := rfl

@[simp] theorem effects_cons_write (e : List UInt8) (acts : List Action) :
    effects (.write e :: acts) = .write e :: effects acts := rfl

@[simp] theorem effects_calls (calls : List Call) : effects (calls.map .call) = calls.map .call := by
  induction calls with
  | nil => rfl
  | cons c calls ih => exact congrArg (Effect.call c :: ·) ih

/-- The call an effect is, if it is one. -/
def Effect.call? : Effect → Option Call
  | .call c => some c
  | .write _ => none

/-- The calls among the effects, in order. -/
def callsOf (es : List Effect) : List Call :=
  es.filterMap Effect.call?

@[simp] theorem callsOf_nil : callsOf [] = [] := rfl

@[simp] theorem callsOf_append (a b : List Effect) : callsOf (a ++ b) = callsOf a ++ callsOf b :=
  List.filterMap_append a b _

@[simp] theorem callsOf_write (e : List UInt8) : callsOf [.write e] = [] := rfl

@[simp] theorem callsOf_calls (calls : List Call) : callsOf (calls.map .call) = calls := by
  induction calls with
  | nil => rfl
  | cons c calls ih => exact congrArg (c :: ·) ih

theorem mem_callsOf_effects {c : Call} {acts : List Action} :
    c ∈ callsOf (effects acts) ↔ .call c ∈ acts := by
  induction acts with
  | nil => simp
  | cons a acts ih =>
    cases a <;> simp [effects, callsOf, Action.effect?, Effect.call?] at ih ⊢ <;> simp [ih]

/-! ## Between frames -/

/-- No message is pending but one the switch leaves by `continue`. -/
def Quiet (s : LoopState) : Prop :=
  s.msgLen ≤ 0 ∨ skipsResponse s.rxMessage

/-- The loop between two frames. -/
structure Ready (s : LoopState) : Prop where
  /-- `rx_buffer` is empty. -/
  rxBuffer_eq : s.rxBuffer = []
  quiet : Quiet s

/-- With no message pending but a skipped one, the end of an iteration has no effect and
changes nothing. -/
theorem finish_of_quiet (hw : Replies) {s : LoopState} (hs : Quiet s) :
    effects (finish hw s).1 = [] ∧ (finish hw s).2 = some s := by
  by_cases hpos : 0 < s.msgLen
  · rcases hs with h | h
    · omega
    · rw [finish_skip hw s hpos (dispatch_of_skipsResponse hw h)]
      exact ⟨rfl, rfl⟩
  · rw [finish_of_nonpos hw s (by omega)]
    exact ⟨rfl, rfl⟩

/-- Every iteration that does not stop at undefined behaviour ends with no message pending but
a skipped one: a response clears `msg_len`, and the encoding of a response that fits
`tx_message` never fails. -/
theorem quiet_finish {hw : Replies} {s s' : LoopState} (h : (finish hw s).2 = some s') :
    Quiet s' := by
  unfold finish at h
  split at h
  · split at h
    · cases h
    · cases h
      exact .inr (skipsResponse_of_dispatch ‹_›)
    · split at h
      · cases h
      · split at h
        · next hlen _ he =>
          rw [cobsEncode_isSome (by simp at hlen ⊢; omega)] at he
          cases he
        · cases h
          exact .inl (Int.le_refl 0)
  · cases h
    exact .inl (by omega)

/-- Once no message is pending but a skipped one, that stays so after every step. -/
theorem quiet_step {i : Input} {s s' : LoopState} (hs : Quiet s) (h : (step i s).2 = some s') :
    Quiet s' := by
  rcases step_cases i s with ⟨t, ht, hm, hl⟩ | ⟨pre, t, ht, -, -⟩
  · rw [ht] at h
    cases h
    unfold Quiet
    rwa [hm, hl]
  · rw [ht] at h
    exact quiet_finish h

/-- In every state the loop reaches, no message is pending but a skipped one. -/
theorem reachable_quiet {s : LoopState} (h : Reachable s) : Quiet s := by
  induction h with
  | start => exact .inl (Int.le_refl 0)
  | step i _ hs ih => exact quiet_step ih hs

/-- **Where the reads time out never matters.**  From every state the loop reaches, the calls it
makes and the frames it writes depend only on the bytes it reads, and on what the collaborators
answer when they come: removing every read timeout leaves them as they were.  A timeout finds no
message pending but one the switch skips, which it dispatches again to no effect. -/
theorem effects_run_filter_timeouts (s : LoopState) (hs : Reachable s) (is : List Input) :
    effects (run s is) = effects (run s (is.filter fun i => i.event.byte?.isSome)) := by
  induction is generalizing s with
  | nil => rfl
  | cons i is ih =>
    obtain ⟨e, hw⟩ := i
    cases e with
    | timeout =>
      obtain ⟨hfx, hfs⟩ := finish_of_quiet hw (reachable_quiet hs)
      rw [run_cons_of_some (i := ⟨.timeout, hw⟩) _ hfs, effects_append, step_timeout, hfx,
        List.nil_append, ih s hs]
      rfl
    | byte c =>
      rw [List.filter_cons_of_pos rfl]
      simp only [run]
      cases h : (step ⟨.byte c, hw⟩ s).2 with
      | none => rfl
      | some s' => rw [effects_append, effects_append, ih s' (.step _ hs h)]

/-- A `DRV_SET_MICROSTEPS` request with the count 3 on a board just started, which stays pending
through two read timeouts, then a `PING` whose bytes are split by a third. -/
theorem skipped_request_timeouts :
    Reachable (LoopState.start (List.replicate 254 0) (List.length_replicate _ _)) ∧
      effects (run (LoopState.start (List.replicate 254 0) (List.length_replicate _ _))
          ((encodeFrom [] (appendCrc [0, 0x21, 0, 4, 3, 0, 0, 0])).map (fun b => ⟨.byte b, .idle⟩) ++
            [⟨.byte 0, .idle⟩, ⟨.timeout, .idle⟩, ⟨.timeout, .idle⟩, ⟨.byte 1, .idle⟩,
              ⟨.byte 2, .idle⟩, ⟨.timeout, .idle⟩] ++
            ([2, 1, 5, 114, 11, 192, 34, 0] : List UInt8).map fun b => ⟨.byte b, .idle⟩)) =
        effects (run (LoopState.start (List.replicate 254 0) (List.length_replicate _ _))
          (List.filter (fun i => i.event.byte?.isSome)
            ((encodeFrom [] (appendCrc [0, 0x21, 0, 4, 3, 0, 0, 0])).map (fun b => ⟨.byte b, .idle⟩) ++
              [⟨.byte 0, .idle⟩, ⟨.timeout, .idle⟩, ⟨.timeout, .idle⟩, ⟨.byte 1, .idle⟩,
                ⟨.byte 2, .idle⟩, ⟨.timeout, .idle⟩] ++
              ([2, 1, 5, 114, 11, 192, 34, 0] : List UInt8).map fun b => ⟨.byte b, .idle⟩))) :=
  ⟨.start _ _, effects_run_filter_timeouts _ (.start _ _) _⟩

/-- Reads that return no zero byte and fit in `rx_buffer` fill it, with no effect, while no
message but a skipped one is pending. -/
theorem run_reads_quiet {s : LoopState} {is : List Input} (hq : Quiet s)
    (hbs : ∀ b ∈ bytesOf is, b ≠ 0) (h : s.rxBuffer.length + (bytesOf is).length ≤ 255) :
    ∃ s', after s is = some s' ∧ effects (run s is) = [] ∧
      s'.rxBuffer = s.rxBuffer ++ bytesOf is ∧ Quiet s' := by
  obtain ⟨s', ha, hb, hm, hl, hrun⟩ :=
    run_reads s (fun i _ _ => hq.imp id (dispatch_of_skipsResponse i.replies)) hbs h
  refine ⟨s', ha, by simp [hrun, effects, List.filterMap_map, Action.effect?], hb, ?_⟩
  unfold Quiet
  rwa [hm, hl]

/-! ## The protocol's effects -/

namespace Frame

/-- What the protocol owes the frame: for a frame that carries a message, the calls the switch
makes on it and then the response it builds, if it builds one; nothing for any other frame. -/
def effects (f : Frame) : List Effect :=
  match f.message? with
  | some m =>
    match dispatch f.replies m with
    | some (.respond c p, calls) =>
      calls.map .call ++ [.write (encodeFrom [] (appendCrc (responseBytes m c p)))]
    | some (.skip, calls) => calls.map .call
    | none => []
  | none => []

/-- The switch settles the message of a whole frame: it makes its calls and then answers it, or
leaves it by `continue`. -/
theorem Whole.settles {f : Frame} (hf : f.Whole) {m : List UInt8} (hm : f.message? = some m) :
    ∃ o calls, dispatch f.replies m = some (o, calls) ∧ callsOf f.effects = calls := by
  obtain ⟨o, calls, hd, -⟩ := dispatch_settled f.replies m (.inr (by
    obtain ⟨d, hd, -, -, rfl⟩ := message?_eq_some hm
    have := hf.payload_le _ hm
    have := cobsDecode_length_le hd
    simp only [List.length_take] at *
    omega)) (hf.not_below _ hm)
  exact ⟨o, calls, hd, by cases o <;> simp [Frame.effects, hm, hd]⟩

end Frame

/-- The delimiter of a whole frame, whose run fills `rx_buffer`, has the effects the protocol
owes the frame and leaves the loop ready for the next one. -/
theorem step_whole_frame (s : LoopState) {f : Frame} (hf : f.Whole)
    (hb : s.rxBuffer = bytesOf f.reads) :
    ∃ acts s', step ⟨.byte 0, f.replies⟩ s = (acts, some s') ∧ effects acts = f.effects ∧
      Ready s' := by
  have h8 : ¬ s.rxBuffer.length < 8 := by rw [hb]; have := hf.length_ge; omega
  cases hm : f.message? with
  | none =>
    -- the checks reject the run: only its decode is seen
    have hdel := delimit_rejected s fun d hd => Frame.message?_eq_none hm (hb ▸ hd)
    refine ⟨(delimit s).1, (delimit s).2,
      by rw [step_delimiter, finish_of_nonpos _ _ hdel, List.append_nil], ?_,
      (delimit_long s h8).2, .inl hdel⟩
    simp [(delimit_long s h8).1, Frame.effects, hm]
  | some m =>
    -- the checks accept the run: the switch runs on its message
    obtain ⟨d, hd, haddr, hcrc, rfl⟩ := Frame.message?_eq_some hm
    have h254 := cobsDecode_length_le hd
    have hpl := hf.payload_le _ hm
    simp only [List.length_take, Nat.min_eq_left (Nat.sub_le _ _)] at hpl
    obtain ⟨o, calls, hdsp, ho⟩ :=
      dispatch_settled f.replies (d.take (d.length - 4)) (.inr (by omega)) (hf.not_below _ hm)
    cases o with
    | respond c p =>
      exact ⟨_, _, step_answers_accepted s f.replies (hb ▸ hd) h8 haddr hcrc hpl hdsp ho,
        by simp [Frame.effects, hm, hdsp], rfl, .inl (Int.le_refl 0)⟩
    | skip =>
      -- the message stays pending, and the switch makes no call on it
      have hskip := dispatch_of_skipsResponse f.replies ho
      refine ⟨_, _, step_skips_accepted s f.replies (hb ▸ hd) h8 haddr hcrc hpl hskip,
        by simp [Frame.effects, hm, hskip], rfl, .inr ?_⟩
      exact skipsResponse_of_dispatch
        ((dispatch_congr f.replies (take_checkFrame_rxMessage s h254 hpl).symm).symm.trans hskip)

/-- A whole frame, from a loop ready for it, has the effects the protocol owes it, and leaves
the loop ready for the next one. -/
theorem run_whole_frame {s : LoopState} {f : Frame} (hs : Ready s) (hf : f.Whole) :
    ∃ s', after s f.inputs = some s' ∧ effects (run s f.inputs) = f.effects ∧ Ready s' := by
  obtain ⟨s₁, ha, hrun, hb, -⟩ :=
    run_reads_quiet hs.quiet hf.nonzero (by rw [hs.rxBuffer_eq]; simpa using hf.length_le)
  rw [hs.rxBuffer_eq, List.nil_append] at hb
  obtain ⟨acts, s', hstep, hacts, hs'⟩ := step_whole_frame s₁ hf hb
  refine ⟨s', by simp [Frame.inputs, after_append, ha, after, hstep], ?_, hs'⟩
  rw [Frame.inputs, run_append _ ha, effects_append, hrun, List.nil_append,
    run_cons_of_some _ (congrArg Prod.snd hstep), hstep]
  simpa [run] using hacts

/-- A stream of whole frames, from a loop ready for it, has the effects the protocol owes its
frames, and leaves the loop ready for more. -/
theorem run_whole_frames {s : LoopState} {fs : List Frame} (hs : Ready s)
    (hf : ∀ f ∈ fs, f.Whole) :
    ∃ s', after s (fs.flatMap Frame.inputs) = some s' ∧
      effects (run s (fs.flatMap Frame.inputs)) = fs.flatMap Frame.effects ∧ Ready s' := by
  induction fs generalizing s with
  | nil => exact ⟨s, rfl, rfl, hs⟩
  | cons f fs ih =>
    obtain ⟨s₁, ha₁, hrun₁, hs₁⟩ := run_whole_frame hs (hf f (List.mem_cons_self _ _))
    obtain ⟨s', ha, hrun, hs'⟩ := ih hs₁ fun f' h => hf f' (List.mem_cons_of_mem _ h)
    refine ⟨s', by rw [List.flatMap_cons, after_append, ha₁, Option.some_bind, ha], ?_, hs'⟩
    rw [List.flatMap_cons, run_append _ ha₁, effects_append, hrun₁, hrun, List.flatMap_cons]

/-- **The loop does to the machine exactly what the protocol asks, frame by frame.**  From a
state with an empty `rx_buffer` and no message pending but a skipped one, on every stream of
frames of 8 to 255 stuffed bytes whose messages announce no more payload than they carry and are
not a `HOME` with a negative sensor channel, the calls the loop makes and the frames it writes are, in order, those the protocol owes the frames:
for each frame that decodes to a message addressed to the board with a right CRC, the calls the
switch makes on the message and then its response, and nothing for the others, whatever the
collaborators answer and wherever the reads time out.  A `DRV_SET_MICROSTEPS` request with a bad
count has no effect, and the frames after it are served as if it had not been sent. -/
theorem run_effects_whole_frames (s : LoopState) (fs : List Frame) (hs : Ready s)
    (hf : ∀ f ∈ fs, f.Whole) :
    effects (run s (fs.flatMap Frame.inputs)) = fs.flatMap Frame.effects := by
  obtain ⟨-, -, h, -⟩ := run_whole_frames hs hf
  exact h

/-- A `DRV_SET_MICROSTEPS` request with the count 3, a `DIGITAL_WRITE` setting output 1, and a
`PING` with a corrupted CRC. -/
def microstepsWriteCorruptedPing : List Frame :=
  [.sent .idle [0, 0x21, 0, 4, 3, 0, 0, 0], .sent .idle [0, 0x31, 1, 4, 1, 0, 0, 0],
    .ofBytes .idle [1, 2, 2, 1, 5, 114, 11, 192, 35]]

set_option maxRecDepth 8000 in
/-- Those three frames, on a board just started. -/
theorem microsteps_write_corrupted_ping_effects :
    effects (run (LoopState.start (List.replicate 254 0) (List.length_replicate _ _))
        (microstepsWriteCorruptedPing.flatMap Frame.inputs)) =
      microstepsWriteCorruptedPing.flatMap Frame.effects :=
  run_effects_whole_frames _ _ ⟨rfl, .inl (Int.le_refl 0)⟩ (by decide)

/-! ## Views of the machine -/

/-- **A view of the machine that each request moves as an abstract state moves** is moved by
the calls the protocol owes a stream of whole frames as the accepted messages move that state,
in order: if the calls the switch makes on any request `m` take the view of `st` to the view of
`write st m`, whatever the collaborators answer, then the calls of the frames take the view of
`st` to the view of the state the frames' messages lead to.  Rejected frames move nothing. -/
theorem foldl_callsOf_frames {σ α : Type} (view : α → Call → α) (write : σ → List UInt8 → σ)
    (abs : σ → α) (h : ∀ {hw m o calls}, dispatch hw m = some (o, calls) →
      ∀ st, calls.foldl view (abs st) = abs (write st m))
    {fs : List Frame} (hf : ∀ f ∈ fs, f.Whole) (st : σ) :
    (callsOf (fs.flatMap Frame.effects)).foldl view (abs st) =
      abs ((fs.filterMap Frame.message?).foldl write st) := by
  induction fs generalizing st with
  | nil => rfl
  | cons f fs ih =>
    have hf' : ∀ f' ∈ fs, f'.Whole := fun f' h => hf f' (List.mem_cons_of_mem _ h)
    rw [List.flatMap_cons, callsOf_append, List.foldl_append]
    cases hm : f.message? with
    | none =>
      rw [List.filterMap_cons_none hm]
      simpa [Frame.effects, hm] using ih hf' st
    | some m =>
      obtain ⟨o, calls, hd, hcalls⟩ := (hf f (List.mem_cons_self _ _)).settles hm
      rw [hcalls, h hd, List.filterMap_cons_some hm, List.foldl_cons]
      exact ih hf' _

end SorterInterface
