import SorterInterface.Effects

/-! # Getting back in step with the host

The loop has no timeout on a frame: bytes stay in `rx_buffer` until a delimiter comes, and a
delimiter after fewer than eight bytes leaves them there, in front of the next frame, since the
`rx_buffer_pos < 8` branch does not reset `rx_buffer_pos`.  A host that has lost track of the
board, after a reset of its own or a frame cut off in the middle, cannot tell what the board
holds.

It can always get back in step by sending a delimiter, any run of 8 to 248 nonzero bytes, and a
delimiter.  The first delimiter leaves at most seven bytes in `rx_buffer`, whatever it held
(`step_delimiter_next`), so the run fills it to 8 to 255 bytes, and the second delimiter empties
it, whatever the checks make of those bytes.  Whatever state the loop was in, unless those bytes
make it run into undefined behaviour, it is then `Ready` (`after_resync`), and every stream of
whole frames sent afterwards has exactly the effects the protocol owes (`run_resynchronizes`).
What the resynchronising bytes themselves cause is not specified: behind what `rx_buffer` held,
they may form any frame.
-/

namespace SorterInterface

/-- A delimiter leaves at most seven bytes in `rx_buffer`, since a longer run is decoded and
cleared, and no message pending but a skipped one. -/
theorem step_delimiter_next {hw : Replies} {s s' : LoopState}
    (h : (step ⟨.byte 0, hw⟩ s).2 = some s') : s'.rxBuffer.length < 8 ∧ Quiet s' := by
  rw [step_delimiter] at h
  refine ⟨?_, quiet_finish h⟩
  rw [(finish_state hw _ h).1]
  by_cases h8 : s.rxBuffer.length < 8
  · rwa [delimit_short s h8]
  · rw [(delimit_long s h8).2]
    decide

/-- A delimiter after a run of eight bytes or more leaves the loop ready for the next frame. -/
theorem ready_of_step_delimiter {hw : Replies} {s s' : LoopState}
    (h8 : ¬ s.rxBuffer.length < 8) (h : (step ⟨.byte 0, hw⟩ s).2 = some s') : Ready s' := by
  rw [step_delimiter] at h
  exact ⟨by rw [(finish_state hw _ h).1, (delimit_long s h8).2], quiet_finish h⟩

/-- A run that stops before its reads are over has run into undefined behaviour. -/
theorem undefined_mem_run_of_after {s : LoopState} {is : List Input} (h : after s is = none) :
    .undefined ∈ run s is := by
  induction is generalizing s with
  | nil => cases h
  | cons i is ih =>
    simp only [after] at h
    cases hs : (step i s).2 with
    | none =>
      simp only [run, hs]
      exact List.mem_append_left _ (undefined_mem_step.mpr hs)
    | some s' =>
      rw [hs, Option.some_bind] at h
      rw [run_cons_of_some _ hs]
      exact List.mem_append_right _ (ih h)

/-- From any state, a delimiter, a run of 8 to 248 nonzero bytes and a delimiter leave the loop
ready for the next frame, unless it has run into undefined behaviour. -/
theorem after_resync (s : LoopState) (hw : Replies) {g : Frame}
    (hg : ∀ b ∈ bytesOf g.reads, b ≠ 0) (h8 : 8 ≤ (bytesOf g.reads).length)
    (h248 : (bytesOf g.reads).length ≤ 248) {s' : LoopState}
    (h : after s (⟨.byte 0, hw⟩ :: g.inputs) = some s') : Ready s' := by
  simp only [after] at h
  cases hs : (step ⟨.byte 0, hw⟩ s).2 with
  | none => simp [hs] at h
  | some s₀ =>
    rw [hs, Option.some_bind, Frame.inputs, after_append] at h
    -- at most seven bytes are left in front of the run
    obtain ⟨hb₀, hq₀⟩ := step_delimiter_next hs
    obtain ⟨s₁, ha, -, hb₁, -⟩ := run_reads_quiet hq₀ hg (by omega)
    rw [ha, Option.some_bind] at h
    exact ready_of_step_delimiter (by rw [hb₁, List.length_append]; omega) (by simpa [after] using h)

/-- **The host can always get back in step.**  Whatever state the loop is in, after a delimiter,
any run of 8 to 248 nonzero bytes and a delimiter, either the loop has run into undefined
behaviour, or every stream of frames of 8 to 255 stuffed bytes whose messages announce no more
payload than they carry and are not a `HOME` with a negative sensor channel has, after them,
exactly the effects the protocol owes its frames: the
calls the switch makes on each accepted message and its response, in order, and nothing for
the frames the checks reject. -/
theorem run_resynchronizes (s : LoopState) (hw : Replies) {g : Frame}
    (hg : ∀ b ∈ bytesOf g.reads, b ≠ 0) (h8 : 8 ≤ (bytesOf g.reads).length)
    (h248 : (bytesOf g.reads).length ≤ 248) (fs : List Frame) (hf : ∀ f ∈ fs, f.Whole) :
    .undefined ∈ run s (⟨.byte 0, hw⟩ :: g.inputs) ∨
      effects (run s (⟨.byte 0, hw⟩ :: g.inputs ++ fs.flatMap Frame.inputs)) =
        effects (run s (⟨.byte 0, hw⟩ :: g.inputs)) ++ fs.flatMap Frame.effects := by
  cases ha : after s (⟨.byte 0, hw⟩ :: g.inputs) with
  | none => exact .inl (undefined_mem_run_of_after ha)
  | some s' =>
    obtain ⟨-, -, hrun, -⟩ := run_whole_frames (after_resync s hw hg h8 h248 ha) hf
    exact .inr (by rw [run_append _ ha, effects_append, hrun])

set_option maxRecDepth 8000 in
/-- Three stray bytes in `rx_buffer`, eight bytes `0x01` between two delimiters, then the frame
of a `PING`. -/
theorem ping_answered_after_resync :
    .undefined ∈ run ⟨[5, 5, 5], List.replicate 254 0, 0, by decide, List.length_replicate _ _⟩
        (⟨.byte 0, .idle⟩ :: (Frame.ofBytes .idle (List.replicate 8 1)).inputs) ∨
      effects (run ⟨[5, 5, 5], List.replicate 254 0, 0, by decide, List.length_replicate _ _⟩
          (⟨.byte 0, .idle⟩ :: (Frame.ofBytes .idle (List.replicate 8 1)).inputs ++
            [Frame.ofBytes .idle [1, 2, 2, 1, 5, 114, 11, 192, 34]].flatMap Frame.inputs)) =
        effects (run ⟨[5, 5, 5], List.replicate 254 0, 0, by decide, List.length_replicate _ _⟩
            (⟨.byte 0, .idle⟩ :: (Frame.ofBytes .idle (List.replicate 8 1)).inputs)) ++
          [Frame.ofBytes .idle [1, 2, 2, 1, 5, 114, 11, 192, 34]].flatMap Frame.effects :=
  run_resynchronizes _ .idle (by decide) (by decide) (by decide) _ (by decide)

end SorterInterface
