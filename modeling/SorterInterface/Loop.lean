import SorterInterface.Cobs
import SorterInterface.Dispatch

/-! # The communication loop of `main`

`main` (lines 263–591) runs one loop for ever.  Its inner loop reads bytes with
`stdio_getchar_timeout_us(0)` into `rx_buffer` until no byte is waiting, a zero delimiter
arrives, or the buffer overflows.  At a delimiter the stuffed run is decoded into `rx_message`
and checked, and `msg_len` becomes the length of a message that passed, `-1` for one that did
not, and `0` for a run too short to hold a message.  When the inner loop breaks off and
`msg_len > 0`, the message is dispatched, its response gets a CRC, is encoded into `tx_buffer`
and written, and `msg_len` is cleared.

The loop is a transducer here: `step` takes one `Input` (the event the read returned, with the
collaborators' answers at that moment) and gives the observable `Action`s it causes and the
next state, or `none` once the C code has undefined behaviour.  `run` strings steps together.
`tx_message` is not part of the state: every response writes all the bytes of it that are
sent.

Everything a read can lead to is said once (`step_cases`): a byte is stored, or the iteration
ends with `finish`, after the decode of a delimiter; the results about single reads in the later
modules are case analyses on it.  The reads of a frame before its delimiter are said once as
well (`run_reads`).
-/

namespace SorterInterface

/-- What one call of `stdio_getchar_timeout_us(0)` returns: a byte, or `PICO_ERROR_TIMEOUT`
when none is waiting. -/
inductive Event where
  | byte (c : UInt8)
  | timeout
  deriving DecidableEq, Repr

/-- The byte a read returned, if it returned one. -/
def Event.byte? : Event → Option UInt8
  | .byte c => some c
  | .timeout => none

/-- One read of the loop: the event, and what the collaborators would answer a request
dispatched right after it. -/
structure Input where
  event : Event
  replies : Replies

/-- The bytes among the reads, in order. -/
def bytesOf (is : List Input) : List UInt8 :=
  is.filterMap fun i => i.event.byte?

/-- What the loop does that can be seen: a call of `COBS_decode` with its input and result, a
run of the dispatch `switch` on `rx_message` with `msg_len`, a call on a collaborator, a write
with `stdio_put_string`, and undefined behaviour, after which the C code promises nothing. -/
inductive Action where
  | decode (input : List UInt8) (output : Option (List UInt8))
  | dispatch (message : List UInt8) (msgLen : Nat)
  | call (c : Call)
  | write (bytes : List UInt8)
  | undefined
  deriving DecidableEq, Repr

/-- The variables of the loop: `rx_buffer[0 .. rx_buffer_pos)`, the 254 bytes of `rx_message`
with whatever earlier frames left in them, and `msg_len`. -/
structure LoopState where
  rxBuffer : List UInt8
  rxMessage : List UInt8
  msgLen : Int
  rxBuffer_length_le : rxBuffer.length ≤ 255
  rxMessage_length : rxMessage.length = 254

/-- The loop as `main` enters it, with `rx_message` holding whatever was on the stack. -/
def LoopState.start (rx : List UInt8) (h : rx.length = 254) : LoopState :=
  ⟨[], rx, 0, Nat.zero_le _, h⟩

/-- `d` copied over the front of `buf`, as `COBS_decode` writes its result into
`rx_message`; the buffer keeps its length. -/
def overwrite : List UInt8 → List UInt8 → List UInt8
  | [], _ => []
  | b :: buf, [] => b :: buf
  | _ :: buf, x :: d => x :: overwrite buf d

@[simp] theorem length_overwrite (buf d : List UInt8) : (overwrite buf d).length = buf.length := by
  induction buf generalizing d with
  | nil => rfl
  | cons b buf ih => cases d <;> simp [overwrite, ih]

/-- The response `r` the switch built in `tx_message`: the request's address and channel, the
command byte and payload the case chose, and `payload_length`. -/
def responseBytes (m : List UInt8) (command : UInt8) (payload : List UInt8) : List UInt8 :=
  [Message.devAddress m, command, Message.channel m, payload.length.toUInt8] ++ payload

/-- The checks after a successful decode of `d` into `rx` (lines 301–317): the address byte,
then the CRC of `rx_message[0 .. res - 4)` against the word in `rx_message[res - 4 .. res)`;
`msg_len` is `res - 4` if both pass and `-1` otherwise, and `rx_buffer_pos` is reset. -/
def checkFrame (s : LoopState) (d : List UInt8) : LoopState :=
  let rx := overwrite s.rxMessage d
  { rxBuffer := []
    rxMessage := rx
    msgLen :=
      if rx.getD 0 0 ≠ deviceAddress then -1
      else if crc32 (rx.take (d.length - 4)) ≠ readLe32 ((rx.drop (d.length - 4)).take 4) then -1
      else (d.length : Int) - 4
    rxBuffer_length_le := Nat.zero_le _
    rxMessage_length := (length_overwrite _ _).trans s.rxMessage_length }

/-- The delimiter branch (lines 288–317).  A run of fewer than eight bytes sets `msg_len` to
`0` and leaves `rx_buffer_pos` as it is; a longer one is decoded, and a failed decode sets
`msg_len` to `-1` and resets `rx_buffer_pos`. -/
def delimit (s : LoopState) : List Action × LoopState :=
  if s.rxBuffer.length < 8 then ([], { s with msgLen := 0 })
  else
    ([.decode s.rxBuffer (cobsDecode s.rxBuffer 254)],
      match cobsDecode s.rxBuffer 254 with
      | none => { s with msgLen := -1, rxBuffer := [], rxBuffer_length_le := Nat.zero_le _ }
      | some d => checkFrame s d)

/-- The end of an iteration of the outer loop (lines 328–590).  With `msg_len > 0` the message
is dispatched; a response gets its CRC appended, is encoded into the 255-byte `tx_buffer` and
written, and `msg_len` is cleared.  The `continue` of the switch and an encoding failure leave
`msg_len` as it is.  A response longer than 246 bytes makes the CRC `memcpy` overrun the
254-byte `tx_message`. -/
def finish (hw : Replies) (s : LoopState) : List Action × Option LoopState :=
  if 0 < s.msgLen then
    match dispatch hw s.rxMessage with
    | none => ([.dispatch s.rxMessage s.msgLen.toNat, .undefined], none)
    | some (.skip, calls) => (.dispatch s.rxMessage s.msgLen.toNat :: calls.map .call, some s)
    | some (.respond c p, calls) =>
      if 254 < (responseBytes s.rxMessage c p).length + 4 then
        (.dispatch s.rxMessage s.msgLen.toNat :: calls.map .call ++ [.undefined], none)
      else match cobsEncode (appendCrc (responseBytes s.rxMessage c p)) 255 with
        | none => (.dispatch s.rxMessage s.msgLen.toNat :: calls.map .call, some s)
        | some e => (.dispatch s.rxMessage s.msgLen.toNat :: calls.map .call ++ [.write e],
            some { s with msgLen := 0 })
  else ([], some s)

/-- One read and what follows it: a byte is stored, or a timeout, a delimiter or an overflow
breaks the inner loop and the iteration ends with `finish`. -/
def step (i : Input) (s : LoopState) : List Action × Option LoopState :=
  match i.event with
  | .timeout => finish i.replies s
  | .byte c =>
    if c = 0 then
      ((delimit s).1 ++ (finish i.replies (delimit s).2).1, (finish i.replies (delimit s).2).2)
    else if h : s.rxBuffer.length < 255 then
      ([], some { s with
        rxBuffer := s.rxBuffer ++ [c], rxBuffer_length_le := (List.length_append _ _).trans_le h })
    else finish i.replies { s with msgLen := -1, rxBuffer := [], rxBuffer_length_le := Nat.zero_le _ }

/-- The actions of the loop over a sequence of inputs; undefined behaviour ends the run. -/
def run (s : LoopState) : List Input → List Action
  | [] => []
  | i :: is => (step i s).1 ++ match (step i s).2 with
    | some s' => run s' is
    | none => []

/-- The state the loop is in after the reads, or `none` once it has run into undefined
behaviour. -/
def after (s : LoopState) : List Input → Option LoopState
  | [] => some s
  | i :: is => (step i s).2.bind (after · is)

/-- The call of `COBS_decode` an action is, with its input and result, if it is one. -/
def Action.decodeCall? : Action → Option (List UInt8 × Option (List UInt8))
  | .decode x r => some (x, r)
  | _ => none

/-- The calls of `COBS_decode` among the actions, in order. -/
def decodeCalls (acts : List Action) : List (List UInt8 × Option (List UInt8)) :=
  acts.filterMap Action.decodeCall?

/-- The inputs of the `COBS_decode` calls among the actions, in order. -/
def decodeInputs (acts : List Action) : List (List UInt8) :=
  (decodeCalls acts).map Prod.fst

/-- The states the loop reaches from its start, over any inputs. -/
inductive Reachable : LoopState → Prop
  | start (rx : List UInt8) (h : rx.length = 254) : Reachable (LoopState.start rx h)
  | step {s s' : LoopState} (i : Input) : Reachable s → (step i s).2 = some s' → Reachable s'

/-! ## One step at a time -/

section Steps

variable (hw : Replies) (s : LoopState)

@[simp] theorem step_timeout : step ⟨.timeout, hw⟩ s = finish hw s := rfl

theorem step_delimiter :
    step ⟨.byte 0, hw⟩ s =
      ((delimit s).1 ++ (finish hw (delimit s).2).1, (finish hw (delimit s).2).2) := rfl

theorem step_store {c : UInt8} (hc : c ≠ 0) (h : s.rxBuffer.length < 255) :
    step ⟨.byte c, hw⟩ s =
      ([], some { s with
        rxBuffer := s.rxBuffer ++ [c], rxBuffer_length_le := (List.length_append _ _).trans_le h }) := by
  simp [step, hc, h]

theorem step_overflow {c : UInt8} (hc : c ≠ 0) (h : ¬ s.rxBuffer.length < 255) :
    step ⟨.byte c, hw⟩ s =
      finish hw { s with msgLen := -1, rxBuffer := [], rxBuffer_length_le := Nat.zero_le _ } := by
  simp [step, hc, h]

theorem delimit_short (h : s.rxBuffer.length < 8) : delimit s = ([], { s with msgLen := 0 }) := by
  simp [delimit, h]

theorem delimit_long (h : ¬ s.rxBuffer.length < 8) :
    (delimit s).1 = [.decode s.rxBuffer (cobsDecode s.rxBuffer 254)] ∧
      (delimit s).2.rxBuffer = [] := by
  simp only [delimit, h, if_false, true_and]
  split <;> rfl

theorem finish_of_nonpos (h : s.msgLen ≤ 0) : finish hw s = ([], some s) := by
  simp [finish, show ¬ 0 < s.msgLen by omega]

/-- **Everything the end of an iteration can do**: nothing, with `msg_len ≤ 0`; or dispatch
`rx_message` with `msg_len`, make the case's calls, and then stop at undefined behaviour, keep
`msg_len`, or write the response the switch built, with its CRC, encoded, and clear
`msg_len`. -/
theorem finish_cases :
    (s.msgLen ≤ 0 ∧ finish hw s = ([], some s)) ∨
    (0 < s.msgLen ∧ ∃ (calls : List Call) (tail : List Action),
      (finish hw s).1 = .dispatch s.rxMessage s.msgLen.toNat :: calls.map .call ++ tail ∧
      ((tail = [.undefined] ∧ (finish hw s).2 = none) ∨ (tail = [] ∧ (finish hw s).2 = some s) ∨
        ∃ c p, dispatch hw s.rxMessage = some (.respond c p, calls) ∧
          (responseBytes s.rxMessage c p).length + 4 ≤ 254 ∧
          tail = [.write (encodeFrom [] (appendCrc (responseBytes s.rxMessage c p)))] ∧
          (finish hw s).2 = some { s with msgLen := 0 })) := by
  unfold finish
  split
  · refine .inr ⟨‹_›, ?_⟩
    split
    · exact ⟨[], _, rfl, .inl ⟨rfl, rfl⟩⟩
    · exact ⟨_, [], by rw [List.append_nil], .inr (.inl ⟨rfl, rfl⟩)⟩
    · split
      · exact ⟨_, _, rfl, .inl ⟨rfl, rfl⟩⟩
      · split
        · exact ⟨_, [], by rw [List.append_nil], .inr (.inl ⟨rfl, rfl⟩)⟩
        · next _ c p calls hd hlen _ e he =>
          have he' : e = encodeFrom [] (appendCrc (responseBytes s.rxMessage c p)) := by
            unfold cobsEncode at he
            split at he <;> simp_all
          exact ⟨_, _, rfl, .inr (.inr ⟨c, p, hd, by omega, by rw [he'], rfl⟩)⟩
  · exact .inl ⟨by omega, rfl⟩

/-- A finishing iteration changes `msg_len` at most, and only to clear it. -/
theorem finish_state {s' : LoopState} (h : (finish hw s).2 = some s') :
    s'.rxBuffer = s.rxBuffer ∧ s'.rxMessage = s.rxMessage ∧ (s'.msgLen = s.msgLen ∨ s'.msgLen = 0) := by
  rcases finish_cases hw s with ⟨-, hf⟩ | ⟨-, -, -, -, ⟨-, hf⟩ | ⟨-, hf⟩ | ⟨-, -, -, -, -, hf⟩⟩ <;>
    simp only [hf, Prod.snd, Option.some.injEq, reduceCtorEq] at h <;> subst h <;> simp

theorem finish_skip (hpos : 0 < s.msgLen) (hd : dispatch hw s.rxMessage = some (.skip, [])) :
    finish hw s = ([.dispatch s.rxMessage s.msgLen.toNat], some s) := by
  simp [finish, hpos, hd]

/-- With no message pending, or one the switch leaves by `continue` with no call, the end of an
iteration changes nothing, and sees at most that message dispatched. -/
theorem finish_of_idle (h : s.msgLen ≤ 0 ∨ dispatch hw s.rxMessage = some (.skip, [])) :
    finish hw s = (if 0 < s.msgLen then [.dispatch s.rxMessage s.msgLen.toNat] else [], some s) := by
  by_cases hpos : 0 < s.msgLen
  · rw [if_pos hpos, finish_skip hw s hpos (h.resolve_left (by omega))]
  · rw [if_neg hpos, finish_of_nonpos hw s (by omega)]

/-- The end of an iteration runs into undefined behaviour exactly when it says so. -/
theorem undefined_mem_finish : .undefined ∈ (finish hw s).1 ↔ (finish hw s).2 = none := by
  rcases finish_cases hw s with
    ⟨-, hf⟩ | ⟨-, calls, tail, hf, ⟨rfl, hn⟩ | ⟨rfl, hs⟩ | ⟨_, _, -, -, rfl, hs⟩⟩ <;>
    simp [hf, *]

theorem decode_of_mem_delimit : ∀ a ∈ (delimit s).1, ∃ x r, a = .decode x r := by
  unfold delimit
  split <;> simp

@[simp] theorem decodeCalls_nil : decodeCalls [] = [] := rfl

@[simp] theorem decodeInputs_nil : decodeInputs [] = [] := rfl

@[simp] theorem decodeInputs_decode (x : List UInt8) (r : Option (List UInt8)) :
    decodeInputs [.decode x r] = [x] := rfl

@[simp] theorem decodeCalls_append (a b : List Action) :
    decodeCalls (a ++ b) = decodeCalls a ++ decodeCalls b :=
  List.filterMap_append _ _ _

@[simp] theorem decodeCalls_calls (calls : List Call) : decodeCalls (calls.map .call) = [] := by
  simp [decodeCalls, List.filterMap_map, Action.decodeCall?]

@[simp] theorem decodeInputs_append (a b : List Action) :
    decodeInputs (a ++ b) = decodeInputs a ++ decodeInputs b := by
  simp [decodeInputs]

theorem decodeCalls_finish : decodeCalls (finish hw s).1 = [] := by
  rcases finish_cases hw s with
    ⟨-, hf⟩ | ⟨-, calls, tail, hf, ⟨rfl, -⟩ | ⟨rfl, -⟩ | ⟨c, p, -, -, rfl, -⟩⟩ <;>
    simp [hf, decodeCalls, Action.decodeCall?]

theorem decodeInputs_finish : decodeInputs (finish hw s).1 = [] := by
  simp [decodeInputs, decodeCalls_finish]

end Steps

/-- **Everything a read can lead to**: a byte stored, with nothing seen and `rx_message` and
`msg_len` kept; or the end of the iteration on a state `t`, after the actions `pre` of the
delimiter branch, which are calls of `COBS_decode`.  `t` is the state itself after a timeout,
the state with `msg_len = -1` after an overflow, and what the delimiter branch leaves after a
delimiter. -/
theorem step_cases (i : Input) (s : LoopState) :
    (∃ s', step i s = ([], some s') ∧ s'.rxMessage = s.rxMessage ∧ s'.msgLen = s.msgLen) ∨
      ∃ pre t, step i s = (pre ++ (finish i.replies t).1, (finish i.replies t).2) ∧
        (∀ a ∈ pre, ∃ x r, a = .decode x r) ∧
        (pre = [] ∧ (t = s ∨ t.msgLen ≤ 0) ∨ delimit s = (pre, t)) := by
  obtain ⟨e, hw⟩ := i
  cases e with
  | timeout =>
    exact .inr ⟨[], s, rfl, fun _ h => (List.not_mem_nil _ h).elim, .inl ⟨rfl, .inl rfl⟩⟩
  | byte c =>
    by_cases hc : c = 0
    · subst hc
      exact .inr ⟨_, _, step_delimiter hw s, decode_of_mem_delimit s, .inr rfl⟩
    · by_cases hb : s.rxBuffer.length < 255
      · exact .inl ⟨_, step_store hw s hc hb, rfl, rfl⟩
      · exact .inr ⟨[], { s with msgLen := -1, rxBuffer := [], rxBuffer_length_le := Nat.zero_le _ },
          by rw [step_overflow hw s hc hb]; rfl, fun _ h => (List.not_mem_nil _ h).elim,
          .inl ⟨rfl, .inr (by decide : (-1 : Int) ≤ 0)⟩⟩

/-- Every action of a read but a call of `COBS_decode` is one of the end of its iteration, and
the read ends where that end does. -/
theorem mem_step_finish {i : Input} {s : LoopState} {a : Action} (h : a ∈ (step i s).1)
    (ha : ∀ x r, a ≠ .decode x r) :
    ∃ t, a ∈ (finish i.replies t).1 ∧ (step i s).2 = (finish i.replies t).2 := by
  rcases step_cases i s with ⟨s', hs, -, -⟩ | ⟨pre, t, hs, hpre, -⟩
  · rw [hs] at h
    exact absurd h (List.not_mem_nil _)
  · rw [hs, List.mem_append] at h
    refine ⟨t, h.resolve_left fun hp => ?_, by rw [hs]⟩
    obtain ⟨x, r, rfl⟩ := hpre a hp
    exact ha x r rfl

/-- A read runs into undefined behaviour exactly when it says so. -/
theorem undefined_mem_step {i : Input} {s : LoopState} :
    .undefined ∈ (step i s).1 ↔ (step i s).2 = none := by
  rcases step_cases i s with ⟨s', hs, -, -⟩ | ⟨pre, t, hs, hpre, -⟩
  · simp [hs]
  · have hn : .undefined ∉ pre := fun h => by
      obtain ⟨x, r, h⟩ := hpre _ h
      cases h
    rw [hs, List.mem_append, undefined_mem_finish, or_iff_right hn]

/-! ## Runs -/

theorem run_cons_of_some {i : Input} {s s' : LoopState} (is : List Input)
    (h : (step i s).2 = some s') : run s (i :: is) = (step i s).1 ++ run s' is := by
  simp [run, h]

theorem after_append (s : LoopState) (xs ys : List Input) :
    after s (xs ++ ys) = (after s xs).bind (after · ys) := by
  induction xs generalizing s with
  | nil => rfl
  | cons i xs ih =>
    simp only [List.cons_append, after]
    cases (step i s).2 <;> simp [ih]

/-- A run goes on from the state its first reads leave. -/
theorem run_append {s s' : LoopState} {xs : List Input} (ys : List Input)
    (h : after s xs = some s') : run s (xs ++ ys) = run s xs ++ run s' ys := by
  induction xs generalizing s with
  | nil => cases h; rfl
  | cons i xs ih =>
    simp only [after] at h
    cases hs : (step i s).2 with
    | none => simp [hs] at h
    | some t =>
      rw [hs, Option.some_bind] at h
      rw [List.cons_append, run_cons_of_some _ hs, run_cons_of_some _ hs, ih h, List.append_assoc]

@[simp] theorem bytesOf_nil : bytesOf [] = [] := rfl

@[simp] theorem bytesOf_cons_byte (c : UInt8) (hw : Replies) (is : List Input) :
    bytesOf (⟨.byte c, hw⟩ :: is) = c :: bytesOf is := rfl

@[simp] theorem bytesOf_cons_timeout (hw : Replies) (is : List Input) :
    bytesOf (⟨.timeout, hw⟩ :: is) = bytesOf is := rfl

/-- **The reads before a delimiter.**  Nonzero bytes that fit in `rx_buffer`, and read timeouts
that find no message pending or one the switch leaves by `continue` with no call, only add the
bytes to `rx_buffer`, whatever the collaborators would answer; all the loop does is dispatch
that message again at each timeout. -/
theorem run_reads (s : LoopState) {is : List Input}
    (hidle : ∀ i ∈ is, i.event = .timeout →
      s.msgLen ≤ 0 ∨ dispatch i.replies s.rxMessage = some (.skip, []))
    (hbs : ∀ b ∈ bytesOf is, b ≠ 0) (h : s.rxBuffer.length + (bytesOf is).length ≤ 255) :
    ∃ s', after s is = some s' ∧ s'.rxBuffer = s.rxBuffer ++ bytesOf is ∧
      s'.rxMessage = s.rxMessage ∧ s'.msgLen = s.msgLen ∧
      run s is = (is.filter fun i => i.event = .timeout ∧ 0 < s.msgLen).map
        fun _ => .dispatch s.rxMessage s.msgLen.toNat := by
  induction is generalizing s with
  | nil => exact ⟨s, rfl, by simp, rfl, rfl, rfl⟩
  | cons i is ih =>
    obtain ⟨e, hw⟩ := i
    have hidle' := fun i hi => hidle i (List.mem_cons_of_mem _ hi)
    cases e with
    | timeout =>
      -- the timeout finds nothing to answer
      have hstep : step ⟨.timeout, hw⟩ s = _ :=
        finish_of_idle hw s (hidle ⟨.timeout, hw⟩ (List.mem_cons_self _ _) rfl)
      obtain ⟨s', ha, hb, hm, hl, hrun⟩ := ih s hidle' (by simpa using hbs) (by simpa using h)
      refine ⟨s', by rw [after, hstep]; exact ha, by simpa using hb, hm, hl, ?_⟩
      rw [run_cons_of_some _ (congrArg Prod.snd hstep), hstep, hrun]
      by_cases hpos : 0 < s.msgLen <;> simp [hpos]
    | byte c =>
      -- the byte is stored
      simp only [bytesOf_cons_byte, List.mem_cons, forall_eq_or_imp, List.length_cons] at hbs h
      have hstep := step_store hw s hbs.1 (show s.rxBuffer.length < 255 by omega)
      obtain ⟨s', ha, hb, hm, hl, hrun⟩ := ih { s with
          rxBuffer := s.rxBuffer ++ [c]
          rxBuffer_length_le := (List.length_append _ _).trans_le (show _ < 255 by omega) }
        hidle' hbs.2 (by simp; omega)
      refine ⟨s', by rw [after, hstep]; exact ha, by rw [hb, List.append_assoc]; rfl, hm, hl, ?_⟩
      rw [run_cons_of_some _ (congrArg Prod.snd hstep), hstep, List.nil_append, hrun]
      simp

theorem bytesOf_of_events {is : List Input} {bs : List UInt8}
    (h : is.map Input.event = bs.map .byte) : bytesOf is = bs := by
  calc bytesOf is = (is.map Input.event).filterMap Event.byte? :=
      (List.filterMap_map Input.event Event.byte? is).symm
    _ = (bs.map .byte).filterMap Event.byte? := by rw [h]
    _ = bs := by rw [List.filterMap_map]; exact List.filterMap_some bs

/-- Nonzero bytes that fit in `rx_buffer` are stored, whatever the collaborators would answer:
nothing is seen, and only `rx_buffer` changes. -/
theorem run_bytes (s : LoopState) (rest : List Input) {bs : List UInt8} {is : List Input}
    (hbs : ∀ b ∈ bs, b ≠ 0) (h : s.rxBuffer.length + bs.length ≤ 255)
    (his : is.map Input.event = bs.map .byte) :
    ∃ s', run s (is ++ rest) = run s' rest ∧ s'.rxBuffer = s.rxBuffer ++ bs ∧
      s'.rxMessage = s.rxMessage ∧ s'.msgLen = s.msgLen := by
  have hno : ∀ i ∈ is, i.event ≠ .timeout := fun i hi ht => by
    obtain ⟨b, -, hb⟩ := List.mem_map.mp (his ▸ List.mem_map_of_mem Input.event hi)
    cases hb.trans ht
  rw [← bytesOf_of_events his] at hbs h ⊢
  obtain ⟨s', ha, hb, hm, hl, hrun⟩ := run_reads s (fun i hi ht => absurd ht (hno i hi)) hbs h
  refine ⟨s', ?_, hb, hm, hl⟩
  rw [run_append _ ha, hrun, List.filter_eq_nil_iff.mpr fun i hi => by simp [hno i hi]]
  rfl

/-- Reads that return no zero byte and fit in `rx_buffer` fill it, and their timeouts find no
message pending: nothing is seen, and only `rx_buffer` changes. -/
theorem run_reads_of_nonpos (s : LoopState) (rest : List Input) {is : List Input}
    (hml : s.msgLen ≤ 0) (hbs : ∀ b ∈ bytesOf is, b ≠ 0)
    (h : s.rxBuffer.length + (bytesOf is).length ≤ 255) :
    ∃ s', run s (is ++ rest) = run s' rest ∧ s'.rxBuffer = s.rxBuffer ++ bytesOf is ∧
      s'.rxMessage = s.rxMessage ∧ s'.msgLen = s.msgLen := by
  obtain ⟨s', ha, hb, hm, hl, hrun⟩ := run_reads s (fun _ _ _ => .inl hml) hbs h
  refine ⟨s', ?_, hb, hm, hl⟩
  rw [run_append _ ha, hrun]
  simp [show ¬ 0 < s.msgLen by omega]

end SorterInterface
