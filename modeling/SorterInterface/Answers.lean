import SorterInterface.Transport

/-! # What the collaborators' answers change

Six cases of the switch read what a collaborator answers: whether a stepper took a move, whether
it has stopped, its position, a driver register, and an input line.  Each answer goes into the
payload of the response and nowhere else.  Whatever the collaborators answer, the switch makes
the same calls and ends the same way, and its response fits `tx_message` or not alike
(`dispatch_replies`): the payloads it builds from an answer are four bytes, or none for a failed
register read.  So an iteration differs only in the bytes it writes (`finish_replies`,
`step_replies`), and over a whole run, from any state, the loop decodes, dispatches and calls
the same, writes as many frames and ends in the same state, whatever the collaborators answer
along the way (`run_replies`): what the loop commands is a function of the host's bytes alone.
-/

namespace SorterInterface

open Message Dispatch

/-- How the switch ends, apart from the bytes of its response: by `continue` (`none`), or with a
response that fits `tx_message` or does not. -/
def Outcome.fits? : Outcome → Option Bool
  | .skip => none
  | .respond _ p => some (decide (p.length ≤ 246))

/-- The actions that write nothing. -/
def withoutWrites (acts : List Action) : List Action :=
  acts.filter fun a => a.frame?.isNone

@[simp] theorem withoutWrites_append (a b : List Action) :
    withoutWrites (a ++ b) = withoutWrites a ++ withoutWrites b :=
  List.filter_append _ _

@[simp] theorem withoutWrites_calls (calls : List Call) :
    withoutWrites (calls.map .call) = calls.map .call := by
  induction calls with
  | nil => rfl
  | cons c calls ih => exact congrArg (Action.call c :: ·) ih

/-- What an iteration does apart from the bytes it writes: its other actions, the number of
frames it writes, and the state it leaves. -/
def unwritten (r : List Action × Option LoopState) : List Action × Nat × Option LoopState :=
  (withoutWrites r.1, (frames r.1).length, r.2)

/-! ## The switch -/

/-- **The collaborators' answers change only the bytes of the response**: whether the switch
runs into undefined behaviour, the calls it makes, whether it answers and whether its answer
fits are the same whatever they answer. -/
theorem dispatch_replies (hw hw' : Replies) (m : List UInt8) :
    (dispatch hw m).map (fun r => (r.1.fits?, r.2)) =
      (dispatch hw' m).map (fun r => (r.1.fits?, r.2)) := by
  unfold dispatch
  split
  all_goals first
    | rfl
    | dsimp only [stepperMoveSteps, stepperMoveAtSpeed, stepperIsStopped, stepperGetPosition,
        stepperDrvReadRegister, digitalRead, guarded]
      split_ifs <;> (repeat' split) <;> rfl

/-! ## The loop -/

/-- The end of an iteration, apart from the bytes it writes, is fixed by how the switch ends on
`rx_message` apart from the bytes of its response. -/
theorem unwritten_finish (hw : Replies) (s : LoopState) (hpos : 0 < s.msgLen) :
    unwritten (finish hw s) =
      match (dispatch hw s.rxMessage).map fun r => (r.1.fits?, r.2) with
      | none => ([.dispatch s.rxMessage s.msgLen.toNat, .undefined], 0, none)
      | some (none, calls) => (.dispatch s.rxMessage s.msgLen.toNat :: calls.map .call, 0, some s)
      | some (some false, calls) =>
        (.dispatch s.rxMessage s.msgLen.toNat :: calls.map .call ++ [.undefined], 0, none)
      | some (some true, calls) =>
        (.dispatch s.rxMessage s.msgLen.toNat :: calls.map .call, 1, some { s with msgLen := 0 }) := by
  rcases hd : dispatch hw s.rxMessage with _ | ⟨⟨c, p⟩ | _, calls⟩
  · simp [unwritten, finish, hpos, hd, withoutWrites, Action.frame?, frames]
  · by_cases hp : p.length ≤ 246
    · simp [unwritten, finish_respond hw s hpos hd hp, Outcome.fits?, hp, withoutWrites,
        Action.frame?, frames]
    · simp [unwritten, finish, hpos, hd, Outcome.fits?, hp, show 254 < p.length + 4 + 4 by omega,
        withoutWrites, Action.frame?, frames]
  · simp [unwritten, finish, hpos, hd, Outcome.fits?, withoutWrites, Action.frame?, frames]

/-- An iteration's end differs only in the bytes it writes, whatever the collaborators answer. -/
theorem finish_replies (hw hw' : Replies) (s : LoopState) :
    unwritten (finish hw s) = unwritten (finish hw' s) := by
  by_cases hpos : 0 < s.msgLen
  · rw [unwritten_finish hw s hpos, unwritten_finish hw' s hpos, dispatch_replies hw hw']
  · rw [finish_of_nonpos hw s (by omega), finish_of_nonpos hw' s (by omega)]

/-- A read and what follows it differ only in the bytes written, whatever the collaborators
answer. -/
theorem step_replies (e : Event) (hw hw' : Replies) (s : LoopState) :
    unwritten (step ⟨e, hw⟩ s) = unwritten (step ⟨e, hw'⟩ s) := by
  cases e with
  | timeout => exact finish_replies hw hw' s
  | byte c =>
    by_cases hc : c = 0
    · subst hc
      have h := finish_replies hw hw' (delimit s).2
      simp only [unwritten, Prod.mk.injEq] at h ⊢
      rw [step_delimiter, step_delimiter]
      simp only [withoutWrites_append, frames_append, List.length_append, h, and_self]
    · by_cases hb : s.rxBuffer.length < 255
      · rw [step_store hw s hc hb, step_store hw' s hc hb]
      · rw [step_overflow hw s hc hb, step_overflow hw' s hc hb]
        exact finish_replies hw hw' _

/-- **What the loop commands depends on the host's bytes alone.**  On two sequences of reads that
return the same bytes and timeouts, from any state, whatever the collaborators answer in each,
the loop decodes the same buffers, dispatches the same messages, makes the same calls, runs into
undefined behaviour at the same point, writes as many frames and ends in the same state: the
answers change only the bytes of the responses. -/
theorem run_replies (s : LoopState) {is is' : List Input}
    (h : is.map Input.event = is'.map Input.event) :
    withoutWrites (run s is) = withoutWrites (run s is') ∧
      (frames (run s is)).length = (frames (run s is')).length ∧ after s is = after s is' := by
  induction is generalizing s is' with
  | nil =>
    cases is' with
    | nil => exact ⟨rfl, rfl, rfl⟩
    | cons _ _ => cases h
  | cons i is ih =>
    cases is' with
    | nil => cases h
    | cons i' is' =>
      obtain ⟨e, hw⟩ := i
      obtain ⟨e', hw'⟩ := i'
      simp only [List.map_cons, List.cons.injEq] at h
      obtain ⟨rfl, h⟩ := h
      have hs := step_replies e hw hw' s
      simp only [unwritten, Prod.mk.injEq] at hs
      obtain ⟨hw₁, hf₁, hs₁⟩ := hs
      simp only [run, after, withoutWrites_append, frames_append, List.length_append, hs₁, hw₁, hf₁]
      cases (step ⟨e, hw'⟩ s).2 with
      | none => exact ⟨rfl, rfl, rfl⟩
      | some t =>
        obtain ⟨h₁, h₂, h₃⟩ := ih t h
        exact ⟨by rw [h₁], by rw [h₂], h₃⟩

/-- The frame of a `DRV_READ_REGISTER` of register 6 on axis 1, whose read gives `v`. -/
def readRegisterSix (v : Option (BitVec 32)) : List Input :=
  (Frame.sent { Replies.idle with readRegister := fun _ _ => v } [0, 0x2e, 1, 4, 6, 0, 0, 0]).inputs

set_option maxRecDepth 8000 in
/-- That frame on a board just started, once with the read failing and once with it returning
5. -/
theorem register_read_answer_commands_nothing :
    (readRegisterSix none).map Input.event = (readRegisterSix (some 5#32)).map Input.event ∧
      withoutWrites (run (LoopState.start (List.replicate 254 0) (List.length_replicate _ _))
          (readRegisterSix none)) =
        withoutWrites (run (LoopState.start (List.replicate 254 0) (List.length_replicate _ _))
          (readRegisterSix (some 5#32))) ∧
      (frames (run (LoopState.start (List.replicate 254 0) (List.length_replicate _ _))
          (readRegisterSix none))).length =
        (frames (run (LoopState.start (List.replicate 254 0) (List.length_replicate _ _))
          (readRegisterSix (some 5#32)))).length ∧
      after (LoopState.start (List.replicate 254 0) (List.length_replicate _ _))
          (readRegisterSix none) =
        after (LoopState.start (List.replicate 254 0) (List.length_replicate _ _))
          (readRegisterSix (some 5#32)) :=
  ⟨rfl, run_replies _ rfl⟩

end SorterInterface
