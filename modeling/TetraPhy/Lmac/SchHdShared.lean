import TetraPhy.Lmac.SchHdEncoder

/-!
# The shared SCH/HD encoder

`tetra_sch_hd_shared.v`: one encoder serves two channels, channel 0 first.  A channel holds its
request until it sees `done`; the registers `enc_info_bits` and `enc_scramble_init` keep the job
that is served.  In the cycle of `done` the arbiter is idle again and the request of the channel
is still up, so that every job is followed by a second one for the same PDU, and a channel that
comes back early is told `done` for that.

`SchHdShared.Serving` is the invariant: what is delivered is the block of the job that was
taken, whoever asked for it.
-/

namespace TetraPhy.Lmac

open AirOrder Codec

/-- A channel's request. -/
structure EncReq where
  req : Bool
  infoBits : BitVec 124
  scrambleInit : BitVec 32

/-- The states of the arbiter. -/
inductive ArbState
  | idle | ch0Busy | ch1Busy
deriving DecidableEq, Repr

/-- The registers. -/
structure SchHdShared where
  enc : SchHdEncoder := {}
  encStart : Bool := false
  encInfoBits : BitVec 124 := 0
  encScrambleInit : BitVec 32 := 0
  state : ArbState := .idle
  ch0Done : Bool := false
  ch0Coded : BitVec 216 := 0
  ch1Done : Bool := false
  ch1Coded : BitVec 216 := 0

namespace SchHdShared

variable (a : SchHdShared) (ch0 ch1 : EncReq)

/-- One clock edge. -/
def step : SchHdShared :=
  let a' := { a with
    enc := a.enc.step a.encStart a.encInfoBits a.encScrambleInit
    encStart := false
    ch0Done := false
    ch1Done := false }
  match a.state with
  | .idle =>
      if ch0.req then
        { a' with encInfoBits := ch0.infoBits, encScrambleInit := ch0.scrambleInit
                  encStart := true, state := .ch0Busy }
      else if ch1.req then
        { a' with encInfoBits := ch1.infoBits, encScrambleInit := ch1.scrambleInit
                  encStart := true, state := .ch1Busy }
      else a'
  | .ch0Busy =>
      if a.enc.codedValid then
        { a' with ch0Coded := a.enc.codedBits, ch0Done := true, state := .idle }
      else a'
  | .ch1Busy =>
      if a.enc.codedValid then
        { a' with ch1Coded := a.enc.codedBits, ch1Done := true, state := .idle }
      else a'

/-- The block of the job that was taken last. -/
def block : List Bool := schhdEncode (onAir a.encInfoBits) (UInt32.ofBitVec a.encScrambleInit)

/-- An encoder at rest. -/
def AtRest (e : SchHdEncoder) : Prop := e.state = .idle ∧ e.codedValid = false

/-- **The invariant**: a busy arbiter has started the encoder or watches it work on the job, an
idle one has it at rest, and what a channel is told to be done is the block of the job. -/
structure Serving (a : SchHdShared) : Prop where
  idle : a.state = .idle → a.encStart = false ∧ AtRest a.enc
  busy : a.state ≠ .idle → a.encStart = true ∧ AtRest a.enc ∨
    a.encStart = false ∧ a.enc.Working a.encInfoBits a.encScrambleInit
  done0 : a.ch0Done = true → a.state = .idle ∧ onAir a.ch0Coded = a.block
  done1 : a.ch1Done = true → a.state = .idle ∧ onAir a.ch1Coded = a.block

variable {a ch0 ch1}

theorem serving_init : Serving {} where
  idle _ := ⟨rfl, rfl, rfl⟩
  busy h := absurd rfl h
  done0 h := absurd h (by decide)
  done1 h := absurd h (by decide)

/-- An encoder that is not started stays at rest. -/
theorem AtRest.step {e : SchHdEncoder} (h : AtRest e) (i : BitVec 124) (sc : BitVec 32) :
    AtRest (e.step false i sc) := by
  constructor <;> simp [SchHdEncoder.step, h.1]

/-- The encoder in the next cycle. -/
def encNext (a : SchHdShared) : SchHdEncoder := a.enc.step a.encStart a.encInfoBits a.encScrambleInit

theorem Serving.atRest_encNext (h : a.Serving) (hs : a.state = .idle) : AtRest a.encNext := by
  obtain ⟨hst, hrest⟩ := h.idle hs
  rw [encNext, hst]
  exact hrest.step _ _

/-- The encoder of a busy arbiter after a cycle in which nothing is delivered. -/
theorem Serving.working_encNext (h : a.Serving) (hb : a.state ≠ .idle)
    (hv : a.enc.codedValid = false) : a.encNext.Working a.encInfoBits a.encScrambleInit := by
  rcases h.busy hb with ⟨hst, hrest⟩ | ⟨-, hwork⟩
  · rw [encNext, hst]
    exact SchHdEncoder.working_start hrest.1
  · refine hwork.step (fun hidle ↦ ?_) _ _ _
    rw [hwork.codedValid_iff.2 hidle] at hv
    exact absurd hv (by decide)

/-- The block of a busy arbiter when it is delivered, and the encoder afterwards. -/
theorem Serving.delivered (h : a.Serving) (hb : a.state ≠ .idle) (hv : a.enc.codedValid = true) :
    onAir a.enc.codedBits = a.block ∧ AtRest a.encNext := by
  rcases h.busy hb with ⟨-, -, hrest⟩ | ⟨hst, hwork⟩
  · rw [hrest] at hv
    exact absurd hv (by decide)
  · have hidle := hwork.codedValid_iff.1 hv
    refine ⟨hwork.onAir_codedBits hidle, ?_⟩
    rw [encNext, hst]
    constructor <;> simp [SchHdEncoder.step, hidle]

/-- A busy arbiter waits for the encoder. -/
theorem step_wait (hb : a.state ≠ .idle) (hv : a.enc.codedValid = false) : a.step ch0 ch1 =
    { a with enc := a.encNext, encStart := false, ch0Done := false, ch1Done := false } := by
  rcases hs : a.state with _ | _ | _
  · exact absurd hs hb
  · simp [SchHdShared.step, hs, hv, encNext]
  · simp [SchHdShared.step, hs, hv, encNext]

/-- **The arbiter serves.** -/
theorem Serving.step (h : a.Serving) (ch0 ch1 : EncReq) : (a.step ch0 ch1).Serving := by
  by_cases hs : a.state = .idle
  · -- a request is taken, or the encoder rests on
    have hrest := h.atRest_encNext hs
    rw [encNext] at hrest
    by_cases h0 : ch0.req = true
    · simp only [SchHdShared.step, hs, if_pos h0]
      exact ⟨fun hc ↦ (nomatch hc), fun _ ↦ Or.inl ⟨rfl, hrest⟩, fun hc ↦ (nomatch hc),
        fun hc ↦ (nomatch hc)⟩
    by_cases h1 : ch1.req = true
    · simp only [SchHdShared.step, hs, if_neg h0, if_pos h1]
      exact ⟨fun hc ↦ (nomatch hc), fun _ ↦ Or.inl ⟨rfl, hrest⟩, fun hc ↦ (nomatch hc),
        fun hc ↦ (nomatch hc)⟩
    · simp only [SchHdShared.step, hs, if_neg h0, if_neg h1]
      exact ⟨fun _ ↦ ⟨rfl, hrest⟩, fun hc ↦ absurd rfl hc, fun hc ↦ (nomatch hc),
        fun hc ↦ (nomatch hc)⟩
  cases hv : a.enc.codedValid with
  | false =>
      rw [step_wait hs hv]
      exact ⟨fun hc ↦ absurd hc hs, fun _ ↦ Or.inr ⟨rfl, h.working_encNext hs hv⟩,
        fun hc ↦ (nomatch hc), fun hc ↦ (nomatch hc)⟩
  | true =>
      -- the block goes to the channel that is served
      obtain ⟨hblk, hrest⟩ := h.delivered hs hv
      rw [encNext] at hrest
      rcases hc : a.state with _ | _ | _
      · exact absurd hc hs
      · simp only [SchHdShared.step, hc, hv, if_true]
        exact ⟨fun _ ↦ ⟨rfl, hrest⟩, fun hn ↦ absurd rfl hn, fun _ ↦ ⟨rfl, hblk⟩,
          fun hn ↦ (nomatch hn)⟩
      · simp only [SchHdShared.step, hc, hv, if_true]
        exact ⟨fun _ ↦ ⟨rfl, hrest⟩, fun hn ↦ absurd rfl hn, fun hn ↦ (nomatch hn),
          fun _ ↦ ⟨rfl, hblk⟩⟩

/-- If channel 0 is served or told to be done, its job was taken in this cycle or it has been
served before. -/
theorem ch0_step (h : (a.step ch0 ch1).state = .ch0Busy ∨ (a.step ch0 ch1).ch0Done = true) :
    a.state = .idle ∧ ch0.req = true ∧ (a.step ch0 ch1).encInfoBits = ch0.infoBits ∧
        (a.step ch0 ch1).encScrambleInit = ch0.scrambleInit ∨
      a.state = .ch0Busy ∧ (a.step ch0 ch1).encInfoBits = a.encInfoBits ∧
        (a.step ch0 ch1).encScrambleInit = a.encScrambleInit := by
  rcases hs : a.state with _ | _ | _
  · cases h0 : ch0.req with
    | true => exact Or.inl ⟨rfl, rfl, by simp [SchHdShared.step, hs, h0]⟩
    | false => cases h1 : ch1.req <;> simp [SchHdShared.step, hs, h0, h1] at h
  · refine Or.inr ⟨rfl, ?_⟩
    cases hv : a.enc.codedValid <;> simp [SchHdShared.step, hs, hv]
  · cases hv : a.enc.codedValid <;> simp [SchHdShared.step, hs, hv] at h

end SchHdShared

end TetraPhy.Lmac
