import TetraPhy.Rx.Pi4DqpskDemod
import TetraPhy.Rx.RxFrontend
import TetraPhy.Rx.TimingRecovery

/-!
# From the FIFO to the dibits

The front end, the timing recovery and the demodulator as `tetra_rx_chain.v` puts them one behind
the other, on one clock.  The demodulator takes eighteen cycles for a symbol and has no way to say
that it is busy.

`receives`: it never has to.  Whatever the FIFO does, the dibits that come out are the decisions on
the symbols that timing recovery picks from the samples of the front end, of which at most one is
still on its way.
-/

namespace TetraPhy.Rx

open TetraPhy.Run (Ago Due ago_succ count_sub_succ_div)

/-- The three blocks. -/
structure DownlinkReceiver where
  frontend : RxFrontend := {}
  timing : TimingRecovery := {}
  demod : Pi4DqpskDemod := {}

namespace DownlinkReceiver

open RxFrontend (Reads sample at_reset)
open TimingRecovery (symbols symbols_append after after_append strobe quiet)
open Pi4DqpskDemod (phaseOf Follows Works follows_step follows_reset)

variable (r : DownlinkReceiver) (i : RxIn)

/-- The symbol strobe and what stands beside it. -/
def symbolIn : IqIn := ⟨r.timing.iqOut, r.timing.sampleValidOut⟩

/-- One clock edge. -/
def step : DownlinkReceiver where
  frontend := r.frontend.step i
  timing := r.timing.step r.frontend.shows
  demod := r.demod.step r.symbolIn

/-- What comes out. -/
def out : Option (BitVec 2) := r.demod.out

/-- A symbol that was picked and not yet taken. -/
def pending : List Iq :=
  if r.timing.sampleValidOut = true ∨ r.demod.state = .init then [r.timing.iqOut] else []

/-- The samples that timing recovery has seen before cycle `t`. -/
noncomputable def seen (f : ℕ → RxIn) (t : ℕ) : List Iq :=
  (List.range (Nat.count (Reads f) (t - 39) / 64)).map (sample f)

/-- How long ago the sample came that a state of the demodulator belongs to. -/
def DemodAt (f : ℕ → RxIn) (t : ℕ) (d : Pi4DqpskDemod) : Prop :=
  match d.state with
  | .idle => True
  | .init => Ago (Due (Reads f) 64) 41 t
  | .iter => Ago (Due (Reads f) 64) (42 + d.iterCnt.toNat) t
  | .decide => Ago (Due (Reads f) 64) 58 t

/-- The blocks before cycle `t`, if the demodulator has taken and given so far. -/
structure At (f : ℕ → RxIn) (t : ℕ) (taken : List Iq) (given : List (BitVec 2))
    (r : DownlinkReceiver) : Prop where
  frontend : r.frontend.At f t
  timing : r.timing.quiet = (after (seen f t)).quiet
  strobe : r.timing.sampleValidOut = true → Ago (Due (Reads f) 64) 40 t
  demodAt : DemodAt f t r.demod
  symbols : symbols (seen f t) = taken ++ r.pending
  demod : Follows taken given r.demod

variable {r} {f : ℕ → RxIn} {t : ℕ} {taken : List Iq} {given : List (BitVec 2)}

theorem seen_succ (f : ℕ → RxIn) (t : ℕ) : seen f (t + 1) = seen f t ++
    if Ago (Due (Reads f) 64) 39 t then [sample f (Nat.count (Reads f) (t - 39) / 64)] else [] := by
  rw [seen, seen, count_sub_succ_div (by norm_num)]
  split
  · rw [List.range_succ, List.map_append]
    rfl
  · rw [Nat.add_zero, List.append_nil]

theorem DemodAt.ago {d : Pi4DqpskDemod} (h : DemodAt f t d) (hs : d.state ≠ .idle) :
    ∃ k, 41 ≤ k ∧ k ≤ 58 ∧ Ago (Due (Reads f) 64) k t := by
  cases hstate : d.state with
  | idle => exact absurd hstate hs
  | init => exact ⟨41, le_rfl, by norm_num, by simpa [DemodAt, hstate] using h⟩
  | iter =>
      have hlt := d.iterCnt.isLt
      exact ⟨42 + d.iterCnt.toNat, by omega, by omega, by simpa [DemodAt, hstate] using h⟩
  | decide => exact ⟨58, by norm_num, le_rfl, by simpa [DemodAt, hstate] using h⟩

/-- **When a symbol comes, the demodulator is idle**, and so it is when a sample does. -/
theorem DemodAt.idle {d : Pi4DqpskDemod} (h : DemodAt f t d) {k : ℕ} (hlo : 39 ≤ k) (hhi : k ≤ 40)
    (hk : Ago (Due (Reads f) 64) k t) : d.state = .idle := by
  by_contra hne
  obtain ⟨k', hlo', hhi', hk'⟩ := h.ago hne
  exact Due.not_ago hk (by omega) (by omega) hk'

theorem DemodAt.step {d : Pi4DqpskDemod} (h : DemodAt f t d) {e : IqIn}
    (he : e.valid = true → Ago (Due (Reads f) 64) 40 t) : DemodAt f (t + 1) (d.step e) := by
  cases hstate : d.state with
  | idle =>
      cases hv : e.valid with
      | false => simp [DemodAt, Pi4DqpskDemod.step, Pi4DqpskDemod.nextState, hstate, hv]
      | true =>
          have hago := ago_succ.2 (he hv)
          simpa [DemodAt, Pi4DqpskDemod.step, Pi4DqpskDemod.nextState, hstate, hv] using hago
  | init =>
      have hago : Ago (Due (Reads f) 64) 41 t := by simpa [DemodAt, hstate] using h
      have hnext := ago_succ.2 hago
      simpa [DemodAt, Pi4DqpskDemod.step, Pi4DqpskDemod.nextState, hstate] using hnext
  | iter =>
      have hago : Ago (Due (Reads f) 64) (42 + d.iterCnt.toNat) t := by
        simpa [DemodAt, hstate] using h
      have hnext := ago_succ.2 hago
      by_cases hlast : d.iterCnt = 15
      · rw [hlast] at hnext
        simpa [DemodAt, Pi4DqpskDemod.step, Pi4DqpskDemod.nextState, hstate, hlast] using hnext
      · have hne : d.iterCnt.toNat ≠ 15 := fun hc ↦ hlast (BitVec.eq_of_toNat_eq hc)
        have hlt := d.iterCnt.isLt
        have hcnt : (d.iterCnt.toNat + 1) % 16 = d.iterCnt.toNat + 1 := by omega
        have hlast' : d.iterCnt ≠ 15#4 := hlast
        simpa [DemodAt, Pi4DqpskDemod.step, Pi4DqpskDemod.nextState, hstate, hlast', hcnt,
          Nat.add_assoc] using hnext
  | decide => simp [DemodAt, Pi4DqpskDemod.step, Pi4DqpskDemod.nextState, hstate]

/-- What timing recovery does, with a sample and without. -/
theorem At.timing_cases (h : At f t taken given r) :
    (∃ x, Ago (Due (Reads f) 64) 39 t ∧ seen f (t + 1) = seen f t ++ [x] ∧
        r.timing.sampleValidOut = false ∧
        (r.step (f t)).timing = (after (seen f t)).step (TimingRecovery.strobe x)) ∨
      seen f (t + 1) = seen f t ∧ (r.step (f t)).timing = r.timing.quiet := by
  have hvalid := h.frontend.shows_valid
  by_cases hago : Ago (Due (Reads f) 64) 39 t
  · rw [decide_eq_true hago] at hvalid
    have hshows : r.frontend.shows = TimingRecovery.strobe r.frontend.shows.iq := by
      rw [TimingRecovery.strobe, ← hvalid]
    refine .inl ⟨r.frontend.shows.iq, hago, ?_, ?_, ?_⟩
    · rw [seen_succ, if_pos hago, h.frontend.shows_iq hago]
    · rw [Bool.eq_false_iff]
      exact fun hs ↦ Due.not_ago hago (by norm_num) (by norm_num) (h.strobe hs)
    · rw [← TimingRecovery.step_quiet (after _), ← h.timing, TimingRecovery.step_quiet, ← hshows]
      rfl
  · rw [decide_eq_false hago] at hvalid
    refine .inr ⟨?_, TimingRecovery.step_of_invalid hvalid⟩
    rw [seen_succ, if_neg hago, List.append_nil]

theorem At.step_timing (h : At f t taken given r) :
    (r.step (f t)).timing.quiet = (after (seen f (t + 1))).quiet := by
  rcases h.timing_cases with ⟨x, -, hseen, -, htiming⟩ | ⟨hseen, htiming⟩
  · rw [htiming, hseen, after_append]
  · rw [htiming, hseen]
    exact h.timing

theorem At.step_strobe (h : At f t taken given r)
    (hs : (r.step (f t)).timing.sampleValidOut = true) : Ago (Due (Reads f) 64) 40 (t + 1) := by
  rcases h.timing_cases with ⟨x, hago, -⟩ | ⟨-, htiming⟩
  · exact ago_succ.2 hago
  · rw [htiming] at hs
    exact absurd hs Bool.false_ne_true

/-- A symbol is picked, waits for a cycle and is taken. -/
theorem At.step_symbols (h : At f t taken given r) :
    TimingRecovery.symbols (seen f (t + 1)) =
      taken ++ (r.demod.takes r.symbolIn).toList ++ (r.step (f t)).pending := by
  rcases h.timing_cases with ⟨x, hago, hseen, hquiet, htiming⟩ | ⟨hseen, htiming⟩
  · have hidle := h.demodAt.idle le_rfl (by norm_num) hago
    have hnow : r.pending = [] := by simp [pending, hquiet, hidle]
    have htakes : r.demod.takes r.symbolIn = none := by simp [Pi4DqpskDemod.takes, hidle]
    have hnext : (r.step (f t)).demod.state = .idle := by
      simp [DownlinkReceiver.step, Pi4DqpskDemod.step, Pi4DqpskDemod.nextState, hidle, symbolIn,
        hquiet]
    have hpending : (r.step (f t)).pending = (r.step (f t)).timing.out.toList := by
      simp only [pending, hnext, TimingRecovery.out]
      split <;> simp_all
    rw [hseen, symbols_append, h.symbols, hnow, htakes, hpending, htiming, List.append_nil,
      Option.toList_none, List.append_nil]
  · have hiq : (r.step (f t)).timing.iqOut = r.timing.iqOut := by
      rw [htiming]
      rfl
    have hstrobe : (r.step (f t)).timing.sampleValidOut = false := by
      rw [htiming]
      rfl
    rw [hseen, h.symbols, pending, pending, hiq, hstrobe]
    cases hs : r.timing.sampleValidOut with
    | true =>
        have hidle := h.demodAt.idle (by norm_num) le_rfl (h.strobe hs)
        simp [Pi4DqpskDemod.takes, DownlinkReceiver.step, Pi4DqpskDemod.step,
          Pi4DqpskDemod.nextState, hidle, symbolIn, hs]
    | false =>
        cases hstate : r.demod.state with
        | idle => simp [Pi4DqpskDemod.takes, DownlinkReceiver.step, Pi4DqpskDemod.step,
            Pi4DqpskDemod.nextState, hstate, symbolIn, hs]
        | init => simp [Pi4DqpskDemod.takes, DownlinkReceiver.step, Pi4DqpskDemod.step,
            Pi4DqpskDemod.nextState, hstate, symbolIn]
        | iter =>
            by_cases hlast : r.demod.iterCnt = 15#4 <;>
              simp [Pi4DqpskDemod.takes, DownlinkReceiver.step, Pi4DqpskDemod.step,
                Pi4DqpskDemod.nextState, hstate, hlast]
        | decide => simp [Pi4DqpskDemod.takes, DownlinkReceiver.step, Pi4DqpskDemod.step,
            Pi4DqpskDemod.nextState, hstate]

/-- **A cycle more.** -/
theorem At.step (h : At f t taken given r) :
    At f (t + 1) (taken ++ (r.demod.takes r.symbolIn).toList)
      (given ++ (r.step (f t)).out.toList) (r.step (f t)) where
  frontend := h.frontend.step
  timing := h.step_timing
  strobe := h.step_strobe
  demodAt := h.demodAt.step h.strobe
  symbols := h.step_symbols
  demod := follows_step taken given r.demod r.symbolIn h.demod

/-- What was taken and given in `n` cycles. -/
theorem exists_at (f : ℕ → RxIn) (n : ℕ) : ∃ taken,
    At f n taken (Run.emitted DownlinkReceiver.step out {} ((List.range n).map f))
      (Run.exec DownlinkReceiver.step {} ((List.range n).map f)) := by
  induction n with
  | zero =>
      have hseen : seen f 0 = [] := by
        rw [seen, Nat.zero_sub, Nat.count_zero]
        rfl
      exact ⟨[], at_reset f, by rw [hseen]; rfl, fun h ↦ absurd h Bool.false_ne_true, trivial,
        by rw [hseen]; rfl, follows_reset⟩
  | succ n ih =>
      obtain ⟨taken, h⟩ := ih
      have hnext := h.step
      rw [List.range_succ, List.map_append, Run.exec_append, Run.emitted_append, List.map_singleton,
        Run.emitted, Run.emitted_nil, List.append_nil]
      exact ⟨_, hnext⟩

theorem length_pending_le (r : DownlinkReceiver) : r.pending.length ≤ 1 := by
  rw [pending]
  split
  · exact le_rfl
  · exact Nat.zero_le 1

/-- While the demodulator works, no symbol waits. -/
theorem At.pending_eq_nil (h : At f t taken given r) (hs : r.demod.state = .iter ∨
    r.demod.state = .decide) : r.pending = [] := by
  have hquiet : r.timing.sampleValidOut ≠ true := fun hv ↦ by
    have hidle := h.demodAt.idle (by norm_num) le_rfl (h.strobe hv)
    rcases hs with hs | hs <;> exact DemodState.noConfusion (hs.symm.trans hidle)
  have hinit : r.demod.state ≠ .init := fun hi ↦ by
    rcases hs with hs | hs <;> exact DemodState.noConfusion (hs.symm.trans hi)
  rw [pending, if_neg fun hc ↦ hc.elim hquiet hinit]

/-- **No symbol is lost.**  After any number of cycles, whatever the FIFO has done, the dibits are
the decisions on the symbols that timing recovery picks from the samples of the front end, apart from
one that may be on its way. -/
theorem receives (f : ℕ → RxIn) (n : ℕ) : ∃ done rest,
    TimingRecovery.symbols ((List.range (Nat.count (Reads f) (n - 39) / 64)).map (sample f)) =
        done ++ rest ∧
      rest.length ≤ 1 ∧
      Run.emitted step out {} ((List.range n).map f) =
        Pi4DqpskDemod.decisions (done.map phaseOf) := by
  obtain ⟨taken, h⟩ := exists_at f n
  obtain ⟨ds, hworks, hgiven, -⟩ := h.demod
  generalize Run.exec DownlinkReceiver.step {} ((List.range n).map f) = r at h hworks
  have hsymbols := h.symbols
  cases hworks with
  | rest hs => exact ⟨taken, r.pending, hsymbols, r.length_pending_le, hgiven⟩
  | iter iq hs hv =>
      rw [h.pending_eq_nil (.inl hs), List.append_nil] at hsymbols
      exact ⟨ds, [iq], hsymbols, le_rfl, hgiven⟩
  | decide iq hs hz =>
      rw [h.pending_eq_nil (.inr hs), List.append_nil] at hsymbols
      exact ⟨ds, [iq], hsymbols, le_rfl, hgiven⟩

end DownlinkReceiver

end TetraPhy.Rx
