import SorterInterface.Loop

/-! # What reaches `COBS_decode`

Which bytes the loop hands to `COBS_decode` depends on the byte stream alone: not on the
dispatcher, the collaborators' answers or what `rx_message` holds.  `receive` is the receiving
half of the loop (lines 282–327) run on its own, and every run of the loop calls
`COBS_decode` on the runs `receive` lists, in order: all of them, or the first of them up to
undefined behaviour of the dispatcher (`decodeInputs_run`).

Two of `receive`'s branches do not reset the receiver as a delimiter should.  A run shorter
than eight bytes is not dropped: it stays in `rx_buffer`, and `COBS_decode` gets it in front of
the next run (`run_decodes_short_run_with_next`).  And the byte that overflows `rx_buffer`
resets it in the middle of the run, so the tail of a run longer than 255 bytes is decoded as a
run of its own (`run_decodes_overlong_tail`).
-/

namespace SorterInterface

/-- One event into the receiving half of the loop, from `rx_buffer` holding `buf`: the run
handed to `COBS_decode`, if any, and what `rx_buffer` holds after it. -/
def receiveStep (buf : List UInt8) : Event → Option (List UInt8) × List UInt8
  | .timeout => (none, buf)
  | .byte c =>
    if c = 0 then (if buf.length < 8 then (none, buf) else (some buf, []))
    else if buf.length < 255 then (none, buf ++ [c]) else (none, [])

/-- The runs handed to `COBS_decode` over a stream of events, from `rx_buffer` holding
`buf`. -/
def receive (buf : List UInt8) : List Event → List (List UInt8)
  | [] => []
  | e :: es => (receiveStep buf e).1.toList ++ receive (receiveStep buf e).2 es

/-! ## The loop receives as the receiver does -/

/-- **One step of the loop receives as `receiveStep` does**, whatever it dispatches. -/
theorem step_receives (hw : Replies) (s : LoopState) (e : Event) :
    decodeInputs (step ⟨e, hw⟩ s).1 = (receiveStep s.rxBuffer e).1.toList ∧
      ∀ s', (step ⟨e, hw⟩ s).2 = some s' → s'.rxBuffer = (receiveStep s.rxBuffer e).2 := by
  cases e with
  | timeout =>
    exact ⟨decodeInputs_finish hw s, fun s' h => (finish_state hw s h).1⟩
  | byte c =>
    by_cases hc : c = 0
    · subst hc
      rw [step_delimiter]
      by_cases hs : s.rxBuffer.length < 8
      · rw [delimit_short s hs]
        refine ⟨by rw [decodeInputs_append, decodeInputs_finish]; simp [receiveStep, hs],
          fun s' h => ?_⟩
        simp [(finish_state hw _ h).1, receiveStep, hs]
      · obtain ⟨h1, h2⟩ := delimit_long s hs
        refine ⟨by rw [decodeInputs_append, decodeInputs_finish, h1]; simp [receiveStep, hs],
          fun s' h => ?_⟩
        simp [(finish_state hw _ h).1, h2, receiveStep, hs]
    · by_cases hb : s.rxBuffer.length < 255
      · rw [step_store hw s hc hb]
        exact ⟨by simp [receiveStep, hc, hb], fun s' h => by
          cases h; simp [receiveStep, hc, hb]⟩
      · rw [step_overflow hw s hc hb]
        exact ⟨by simp [decodeInputs_finish, receiveStep, hc, hb], fun s' h => by
          simp [(finish_state hw _ h).1, receiveStep, hc, hb]⟩

/-- **The loop hands `COBS_decode` the runs `receive` lists**, in order: a prefix of them,
and all of them when the run meets no undefined behaviour. -/
theorem decodeInputs_run (s : LoopState) (is : List Input) :
    decodeInputs (run s is) <+: receive s.rxBuffer (is.map Input.event) ∧
      (.undefined ∉ run s is → decodeInputs (run s is) = receive s.rxBuffer (is.map Input.event)) := by
  induction is generalizing s with
  | nil => exact ⟨List.nil_prefix, fun _ => rfl⟩
  | cons i is ih =>
    obtain ⟨e, hw⟩ := i
    obtain ⟨h1, h2⟩ := step_receives hw s e
    simp only [run, decodeInputs_append, h1, List.map_cons, receive, List.mem_append, not_or,
      List.prefix_append_right_inj]
    cases hs : (step ⟨e, hw⟩ s).2 with
    | none =>
      -- the read runs into undefined behaviour, and says so
      exact ⟨List.nil_prefix, fun h => absurd (undefined_mem_step.mpr hs) h.1⟩
    | some s' =>
      rw [← h2 s' hs]
      exact ⟨(ih s').1, fun h => congrArg _ ((ih s').2 h.2)⟩

theorem decodeInputs_run_cons {i : Input} {s s' : LoopState} (is : List Input)
    (h : (step i s).2 = some s') :
    decodeInputs (run s (i :: is)) =
      (receiveStep s.rxBuffer i.event).1.toList ++ decodeInputs (run s' is) := by
  rw [run_cons_of_some is h, decodeInputs_append, (step_receives i.replies s i.event).1]

theorem decodeInputs_run_singleton (i : Input) (s : LoopState) :
    decodeInputs (run s [i]) = (receiveStep s.rxBuffer i.event).1.toList := by
  have h := (step_receives i.replies s i.event).1
  simp only [run, decodeInputs_append, h]
  split <;> simp [run]

/-! ## Runs the receiver does not reset after -/

/-- **A short run is decoded with the next one.**  From any state with an empty `rx_buffer`, a
run `r` of fewer than eight nonzero bytes and its delimiter, then a run `f` and its delimiter,
make the loop call `COBS_decode` once, on `r ++ f`, whatever the collaborators answer. -/
theorem run_decodes_short_run_with_next (s : LoopState) (is : List Input) {r f : List UInt8}
    (hs : s.rxBuffer = []) (hr : ∀ b ∈ r, b ≠ 0) (hf : ∀ b ∈ f, b ≠ 0) (h8 : r.length < 8)
    (hrf : 8 ≤ r.length + f.length) (h255 : r.length + f.length ≤ 255)
    (his : is.map Input.event = r.map .byte ++ .byte 0 :: (f.map .byte ++ [.byte 0])) :
    decodeInputs (run s is) = [r ++ f] := by
  obtain ⟨isr, _, rfl, hisr, his₁⟩ := List.map_eq_append_iff.mp his
  obtain ⟨⟨_, hw⟩, _, rfl, rfl, his₂⟩ := List.map_eq_cons_iff.mp his₁
  obtain ⟨isf, _, rfl, hisf, his₃⟩ := List.map_eq_append_iff.mp his₂
  obtain ⟨i, _, rfl, hi, his₄⟩ := List.map_eq_cons_iff.mp his₃
  obtain rfl := List.map_eq_nil_iff.mp his₄
  obtain ⟨s₁, hrun₁, hb₁, -, -⟩ := run_bytes s _ hr (by simp [hs]; omega) hisr
  -- the short run's delimiter sets `msg_len` to `0`, so nothing is dispatched
  obtain ⟨s₂, hshort, hb₂⟩ : ∃ s', (step ⟨.byte 0, hw⟩ s₁).2 = some s' ∧
      s'.rxBuffer = s₁.rxBuffer := by
    rw [step_delimiter, delimit_short s₁ (by simp [hb₁, hs, h8])]
    exact ⟨_, congrArg Prod.snd (finish_of_nonpos hw { s₁ with msgLen := 0 } (Int.le_refl 0)),
      rfl⟩
  obtain ⟨s₃, hrun₂, hb₃, -, -⟩ :=
    run_bytes s₂ [i] hf (by simp [hb₂, hb₁, hs, h255]) hisf
  rw [hrun₁, decodeInputs_run_cons _ hshort, hrun₂, decodeInputs_run_singleton, hi]
  simp [receiveStep, hb₃, hb₂, hb₁, hs, h8, show ¬ r.length + f.length < 8 by omega]

/-- The byte `0x05` and a delimiter, then the frame of a `PING` with no payload: `COBS_decode`
gets the frame with `0x05` in front. -/
theorem ping_decoded_behind_stray_byte :
    decodeInputs (run (LoopState.start (List.replicate 254 0) (List.length_replicate _ _))
        (([5, 0, 1, 2, 2, 1, 5, 114, 11, 192, 34, 0] : List UInt8).map fun b => ⟨.byte b, .idle⟩)) =
      [[5, 1, 2, 2, 1, 5, 114, 11, 192, 34]] :=
  run_decodes_short_run_with_next _ _ (r := [5]) (f := [1, 2, 2, 1, 5, 114, 11, 192, 34]) rfl
    (by decide) (by decide) (by decide) (by decide) (by decide) rfl

/-- **The tail of an over-long run is decoded.**  From any state with an empty `rx_buffer`,
the byte after the first 255 of a run overflows the buffer and resets it, so the bytes after
it are handed to `COBS_decode` at the delimiter, as a run of their own. -/
theorem run_decodes_overlong_tail (s : LoopState) (is : List Input) {xs ys : List UInt8}
    {c : UInt8} (hs : s.rxBuffer = []) (hxs : ∀ b ∈ xs, b ≠ 0) (hc : c ≠ 0)
    (hys : ∀ b ∈ ys, b ≠ 0) (h255 : xs.length = 255) (h8 : 8 ≤ ys.length)
    (hy : ys.length ≤ 255)
    (his : is.map Input.event = xs.map .byte ++ .byte c :: (ys.map .byte ++ [.byte 0])) :
    decodeInputs (run s is) = [ys] := by
  obtain ⟨isx, _, rfl, hisx, his₁⟩ := List.map_eq_append_iff.mp his
  obtain ⟨⟨_, hw⟩, _, rfl, rfl, his₂⟩ := List.map_eq_cons_iff.mp his₁
  obtain ⟨isy, _, rfl, hisy, his₃⟩ := List.map_eq_append_iff.mp his₂
  obtain ⟨i, _, rfl, hi, his₄⟩ := List.map_eq_cons_iff.mp his₃
  obtain rfl := List.map_eq_nil_iff.mp his₄
  obtain ⟨s₁, hrun₁, hb₁, -, -⟩ := run_bytes s _ hxs (by simp [hs, h255]) hisx
  -- the overflowing byte sets `msg_len` to `-1`, so nothing is dispatched
  have hfull : ¬ s₁.rxBuffer.length < 255 := by simp [hb₁, hs, h255]
  obtain ⟨s₂, hover, hb₂⟩ :
      ∃ s', (step ⟨.byte c, hw⟩ s₁).2 = some s' ∧ s'.rxBuffer = [] := by
    rw [step_overflow hw s₁ hc hfull]
    exact ⟨_, congrArg Prod.snd (finish_of_nonpos hw _ (by simp)), rfl⟩
  obtain ⟨s₃, hrun₂, hb₃, -, -⟩ := run_bytes s₂ [i] hys (by simp [hb₂, hy]) hisy
  rw [hrun₁, decodeInputs_run_cons _ hover, hrun₂, decodeInputs_run_singleton, hi]
  simp [receiveStep, hb₃, hb₂, hc, hfull, show ¬ ys.length < 8 by omega]

set_option maxRecDepth 4000 in
/-- 256 bytes `0x01`, then the frame of a `PING`, in one run. -/
theorem ping_decoded_after_overlong_run :
    decodeInputs (run (LoopState.start (List.replicate 254 0) (List.length_replicate _ _))
        ((List.replicate 256 (1 : UInt8) ++ [1, 2, 2, 1, 5, 114, 11, 192, 34, 0]).map
          fun b => ⟨.byte b, .idle⟩)) =
      [[1, 2, 2, 1, 5, 114, 11, 192, 34]] :=
  run_decodes_overlong_tail _ _ (c := 1) rfl
    (show ∀ b ∈ List.replicate 255 (1 : UInt8), b ≠ 0 from
      fun _ h => List.eq_of_mem_replicate h ▸ by decide) (by decide) (by decide)
    (List.length_replicate _ _) (by decide) (by decide) rfl

end SorterInterface
