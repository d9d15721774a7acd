import TetraPhy.Lmac.MacResDlBuilder
import TetraPhy.Lmac.SchFEncoder

/-!
# The downlink PDU builder

`tetra_dl_pdu_builder.v`: a sequencer that has a build request laid out as a MAC-RESOURCE and
coded as an SCH/F block, one after the other.

| State   | Waits for                          | Cycles |
|---------|------------------------------------|--------|
| `build` | the MAC-RESOURCE                   | 7      |
| `pack`  |                                    | 1      |
| `enc`   | the SCH/F block                    | 992    |
| `done`  |                                    | 1      |

`DlPduBuilder.Working.step` is that each cycle of a build does its part, and one fewer is left
after it; what is put out in the end is `BuildReq.block`.
-/

namespace TetraPhy.Lmac

open AirOrder Codec

/-- The SCH/F block of a request. -/
def BuildReq.block (r : BuildReq) : List Bool :=
  schf.encodeFrom (onAir r.macPdu) (UInt32.ofBitVec r.scrambleInit)

/-- The request as the builder latches it: the discriminator 0 stands for MM. -/
def BuildReq.latched (r : BuildReq) : BuildReq := { r with mlePd := r.latMlePd }

theorem BuildReq.latMlePd_latched (r : BuildReq) : r.latched.latMlePd = r.latMlePd := by
  change (if r.latMlePd == 0b000 then 0b001 else r.latMlePd) = r.latMlePd
  rw [BuildReq.latMlePd]
  cases h : r.mlePd == 0b000 with
  | true => rfl
  | false => rw [if_neg Bool.false_ne_true, h, if_neg Bool.false_ne_true]

theorem BuildReq.macResIn_latched (r : BuildReq) : r.latched.macResIn = r.macResIn := by
  have hcmce : r.latched.cmce = r.cmce := by rw [cmce, latMlePd_latched]; rfl
  rw [macResIn, macResIn, hcmce, latMlePd_latched]
  rfl

/-- The states of the sequencer. -/
inductive DlPduState
  | idle | build | pack | enc | done
deriving DecidableEq, Repr

/-- The request registers after reset. -/
def BuildReq.reset : BuildReq := ⟨0, 0, 0, 0, 0, false, 0, 0, 0, 0b001, false, false⟩

/-- The registers. -/
structure DlPduBuilder where
  state : DlPduState := .idle
  lat : BuildReq := BuildReq.reset
  builderStart : Bool := false
  macRes : MacResDlBuilder 268 144 := {}
  encodeStart : Bool := false
  latInfoBits : BitVec 268 := 0
  schF : SchFEncoder := {}
  codedBits : BitVec 432 := 0
  done : Bool := false

namespace DlPduBuilder

variable (b : DlPduBuilder)

/-- `busy`. -/
def busy : Bool := b.state != .idle

/-- One clock edge. -/
def step (reqValid : Bool) (req : BuildReq) : DlPduBuilder :=
  let b' := { b with
    builderStart := false
    encodeStart := false
    done := false
    macRes := b.macRes.clock (b.builderStart, b.lat.macResIn)
    schF := b.schF.step b.encodeStart b.latInfoBits b.lat.scrambleInit }
  match b.state with
  | .idle =>
      if reqValid then { b' with lat := req.latched, builderStart := true, state := .build } else b'
  | .build =>
      if b.macRes.valid then { b' with latInfoBits := b.macRes.pduBits, state := .pack } else b'
  | .pack => { b' with encodeStart := true, state := .enc }
  | .enc =>
      if b.schF.codedValid then { b' with codedBits := b.schF.codedBits, state := .done } else b'
  | .done => { b' with done := true, state := .idle }

end DlPduBuilder

/-! ## A build -/

/-- A layouter that nothing was asked of. -/
def MacResDlBuilder.AtRest {n m : ℕ} (r : MacResDlBuilder n m) : Prop :=
  r.state = .idle ∧ r.valid = false

/-- An encoder that nothing was asked of. -/
def SerialEncoder.AtRest {c : Channel} (e : SerialEncoder c) : Prop :=
  e.state = .idle ∧ e.codedValid = false

/-- An idle layouter that is not started rests. -/
theorem MacResDlBuilder.atRest_clock {n m : ℕ} {r : MacResDlBuilder n m} (h : r.state = .idle)
    (i : MacResIn) : (r.clock (false, i)).AtRest := by
  obtain ⟨state, lat, llcBuf, completePduBits, pduBits, valid⟩ := r
  obtain rfl : state = .idle := h
  exact ⟨rfl, rfl⟩

theorem SerialEncoder.atRest_step {c : Channel} {e : SerialEncoder c} (h : e.state = .idle)
    (i : BitVec c.info) (sc : BitVec 32) : (e.step false i sc).AtRest := by
  constructor <;> simp [SerialEncoder.step, h]

namespace DlPduBuilder

/-- Both parts rest, and neither is started. -/
structure Quiet (b : DlPduBuilder) : Prop where
  builderStart : b.builderStart = false
  encodeStart : b.encodeStart = false
  macRes : b.macRes.AtRest
  schF : b.schF.AtRest

/-- A builder that nothing was asked of. -/
structure AtRest (b : DlPduBuilder) : Prop extends Quiet b where
  state : b.state = .idle
  done : b.done = false

/-- What the registers hold while a request is built. -/
def Working (b : DlPduBuilder) (r : BuildReq) : Prop :=
  match b.state with
  | .idle => b.done = true ∧ onAir b.codedBits = r.block ∧ b.Quiet
  | .build => b.done = false ∧ b.lat = r.latched ∧ b.encodeStart = false ∧ b.schF.AtRest ∧
      (b.builderStart = true ∧ b.macRes.AtRest ∨
        b.builderStart = false ∧ b.macRes.Working (MacResDlBuilder.latched r.macResIn))
  | .pack => b.done = false ∧ b.lat = r.latched ∧ b.latInfoBits = r.macPdu ∧ b.Quiet
  | .enc => b.done = false ∧ b.lat = r.latched ∧ b.latInfoBits = r.macPdu ∧
      b.builderStart = false ∧ b.macRes.AtRest ∧
      (b.encodeStart = true ∧ b.schF.AtRest ∨
        b.encodeStart = false ∧ b.schF.Working r.macPdu r.scrambleInit)
  | .done => b.done = false ∧ onAir b.codedBits = r.block ∧ b.Quiet

/-- The cycles until it is done. -/
def left (b : DlPduBuilder) : ℕ :=
  match b.state with
  | .idle => 0
  | .build => (if b.builderStart then 6 else b.macRes.left) + 995
  | .pack => 994
  | .enc => (if b.encodeStart then 991 else b.schF.left) + 2
  | .done => 1

variable {b : DlPduBuilder} {r : BuildReq}

/-- A build starts with the layouter. -/
theorem AtRest.working_start (h : b.AtRest) (r : BuildReq) :
    (b.step true r).Working r ∧ (b.step true r).left = 1001 := by
  obtain ⟨⟨hbs, hes, hmac, hsch⟩, hs, hdone⟩ := h
  obtain ⟨state, lat, builderStart, macRes, encodeStart, latInfoBits, schF, codedBits, done⟩ := b
  obtain rfl : builderStart = false := hbs
  obtain rfl : encodeStart = false := hes
  obtain rfl : state = .idle := hs
  have hmac' := MacResDlBuilder.atRest_clock hmac.1 lat.macResIn
  have hsch' := SerialEncoder.atRest_step hsch.1 latInfoBits lat.scrambleInit
  exact ⟨⟨rfl, rfl, rfl, hsch', Or.inl ⟨rfl, hmac'⟩⟩, rfl⟩

/-- A builder that is asked nothing rests. -/
theorem AtRest.step (h : b.AtRest) (req : BuildReq) : (b.step false req).AtRest := by
  obtain ⟨⟨hbs, hes, hmac, hsch⟩, hs, hdone⟩ := h
  obtain ⟨state, lat, builderStart, macRes, encodeStart, latInfoBits, schF, codedBits, done⟩ := b
  obtain rfl : builderStart = false := hbs
  obtain rfl : encodeStart = false := hes
  obtain rfl : state = .idle := hs
  have hmac' := MacResDlBuilder.atRest_clock hmac.1 lat.macResIn
  have hsch' := SerialEncoder.atRest_step hsch.1 latInfoBits lat.scrambleInit
  exact ⟨⟨rfl, rfl, hmac', hsch'⟩, rfl, rfl⟩

theorem Working.step_build (h : b.Working r) (hs : b.state = .build) (v : Bool) (req : BuildReq) :
    (b.step v req).Working r ∧ (b.step v req).left + 1 = b.left := by
  obtain ⟨state, lat, builderStart, macRes, encodeStart, latInfoBits, schF, codedBits, done⟩ := b
  obtain rfl : state = .build := hs
  obtain ⟨-, (rfl : lat = r.latched), (rfl : encodeStart = false), hsch, hmac⟩ := h
  have hsch' := SerialEncoder.atRest_step hsch.1 latInfoBits r.latched.scrambleInit
  rcases hmac with ⟨(rfl : builderStart = true), hrest⟩ | ⟨(rfl : builderStart = false), hwork⟩
  · -- the layouter is started
    obtain ⟨hwork, hleft⟩ := MacResDlBuilder.working_start hrest.1 r.latched.macResIn
    rw [BuildReq.macResIn_latched] at hwork
    have hno : ¬ macRes.valid = true := by
      rw [hrest.2]
      decide
    change DlPduBuilder.Working (if macRes.valid = true then _ else _) r ∧
      DlPduBuilder.left (if macRes.valid = true then _ else _) + 1 = _
    rw [if_neg hno]
    refine ⟨⟨rfl, rfl, rfl, hsch', Or.inr ⟨rfl, ?_⟩⟩, ?_⟩
    · rw [BuildReq.macResIn_latched]
      exact hwork
    · change (macRes.clock (true, r.latched.macResIn)).left + 995 + 1 = 6 + 995
      rw [hleft]
  · change DlPduBuilder.Working (if macRes.valid = true then _ else _) r ∧
      DlPduBuilder.left (if macRes.valid = true then _ else _) + 1 = _
    by_cases hv : macRes.valid = true
    · -- the PDU is laid out
      have hidle := hwork.valid_iff.1 hv
      have hrest := MacResDlBuilder.atRest_clock hidle r.latched.macResIn
      have hpdu : macRes.pduBits = r.macPdu :=
        (hwork.pduBits_eq hidle).trans (MacResDlBuilder.pdu_latched r.macResIn)
      have hleft := MacResDlBuilder.left_eq_zero.2 hidle
      rw [if_pos hv]
      refine ⟨⟨rfl, rfl, hpdu, rfl, rfl, hrest, hsch'⟩, ?_⟩
      change 994 + 1 = macRes.left + 995
      rw [hleft]
    · have hne : macRes.state ≠ .idle := fun hidle ↦ hv (hwork.valid_iff.2 hidle)
      obtain ⟨hwork', hleft⟩ := hwork.clock hne (false, r.latched.macResIn)
      rw [if_neg hv]
      refine ⟨⟨rfl, rfl, rfl, hsch', Or.inr ⟨rfl, hwork'⟩⟩, ?_⟩
      change (macRes.clock (false, r.latched.macResIn)).left + 1 = macRes.left at hleft
      change (macRes.clock (false, r.latched.macResIn)).left + 995 + 1 = macRes.left + 995
      rw [← hleft, Nat.add_right_comm]

theorem Working.step_pack (h : b.Working r) (hs : b.state = .pack) (v : Bool) (req : BuildReq) :
    (b.step v req).Working r ∧ (b.step v req).left + 1 = b.left := by
  obtain ⟨state, lat, builderStart, macRes, encodeStart, latInfoBits, schF, codedBits, done⟩ := b
  obtain rfl : state = .pack := hs
  obtain ⟨-, (rfl : lat = r.latched), (rfl : latInfoBits = r.macPdu), (rfl : builderStart = false),
    (rfl : encodeStart = false), hmac, hsch⟩ := h
  have hmac' := MacResDlBuilder.atRest_clock hmac.1 r.latched.macResIn
  have hsch' := SerialEncoder.atRest_step hsch.1 r.macPdu r.latched.scrambleInit
  exact ⟨⟨rfl, rfl, rfl, rfl, hmac', Or.inl ⟨rfl, hsch'⟩⟩, rfl⟩

theorem Working.step_enc (h : b.Working r) (hs : b.state = .enc) (v : Bool) (req : BuildReq) :
    (b.step v req).Working r ∧ (b.step v req).left + 1 = b.left := by
  obtain ⟨state, lat, builderStart, macRes, encodeStart, latInfoBits, schF, codedBits, done⟩ := b
  obtain rfl : state = .enc := hs
  obtain ⟨-, (rfl : lat = r.latched), (rfl : latInfoBits = r.macPdu), (rfl : builderStart = false),
    hmac, hsch⟩ := h
  have hmac' := MacResDlBuilder.atRest_clock hmac.1 r.latched.macResIn
  change DlPduBuilder.Working (if schF.codedValid = true then _ else _) r ∧
    DlPduBuilder.left (if schF.codedValid = true then _ else _) + 1 = _
  rcases hsch with ⟨(rfl : encodeStart = true), hrest⟩ | ⟨(rfl : encodeStart = false), hwork⟩
  · -- the encoder is started
    have hno : ¬ schF.codedValid = true := by
      rw [hrest.2]
      decide
    have hwork : (schF.step true r.macPdu r.scrambleInit).Working r.macPdu r.scrambleInit :=
      SerialEncoder.working_start (by decide) hrest.1
    have hleft : (schF.step true r.macPdu r.scrambleInit).left = SerialEncoder.latency schf :=
      SerialEncoder.left_start hrest.1
    rw [if_neg hno]
    refine ⟨⟨rfl, rfl, rfl, rfl, hmac', Or.inr ⟨rfl, hwork⟩⟩, ?_⟩
    change (schF.step true r.macPdu r.scrambleInit).left + 2 + 1 = 991 + 2
    rw [hleft]
    rfl
  · by_cases hv : schF.codedValid = true
    · -- the block is coded
      have hidle := hwork.codedValid_iff.1 hv
      have hrest := SerialEncoder.atRest_step hidle r.macPdu r.latched.scrambleInit
      have hleft := SerialEncoder.left_eq_zero.2 hidle
      rw [if_pos hv]
      refine ⟨⟨rfl, hwork.onAir_codedBits hidle, rfl, rfl, hmac', hrest⟩, ?_⟩
      change 1 + 1 = schF.left + 2
      rw [hleft]
    · have hne : schF.state ≠ .idle := fun hidle ↦ hv (hwork.codedValid_iff.2 hidle)
      have hwork' := hwork.step hne false r.macPdu r.latched.scrambleInit
      have hleft := hwork.left_step hne false r.macPdu r.latched.scrambleInit
      rw [if_neg hv]
      refine ⟨⟨rfl, rfl, rfl, rfl, hmac', Or.inr ⟨rfl, hwork'⟩⟩, ?_⟩
      change (schF.step false r.macPdu r.latched.scrambleInit).left + 1 = schF.left at hleft
      change (schF.step false r.macPdu r.latched.scrambleInit).left + 2 + 1 = schF.left + 2
      rw [← hleft]

theorem Working.step_done (h : b.Working r) (hs : b.state = .done) (v : Bool) (req : BuildReq) :
    (b.step v req).Working r ∧ (b.step v req).left + 1 = b.left := by
  obtain ⟨state, lat, builderStart, macRes, encodeStart, latInfoBits, schF, codedBits, done⟩ := b
  obtain rfl : state = .done := hs
  obtain ⟨-, hbits, (rfl : builderStart = false), (rfl : encodeStart = false), hmac, hsch⟩ := h
  have hmac' := MacResDlBuilder.atRest_clock hmac.1 lat.macResIn
  have hsch' := SerialEncoder.atRest_step hsch.1 latInfoBits lat.scrambleInit
  exact ⟨⟨rfl, hbits, rfl, rfl, hmac', hsch'⟩, rfl⟩

/-- **A build goes on**, whatever is asked meanwhile. -/
theorem Working.step (h : b.Working r) (hs : b.state ≠ .idle) (v : Bool) (req : BuildReq) :
    (b.step v req).Working r ∧ (b.step v req).left + 1 = b.left := by
  rcases hst : b.state with _ | _ | _ | _ | _
  · exact absurd hst hs
  · exact h.step_build hst v req
  · exact h.step_pack hst v req
  · exact h.step_enc hst v req
  · exact h.step_done hst v req

theorem left_eq_zero : b.left = 0 ↔ b.state = .idle := by
  rcases hst : b.state with _ | _ | _ | _ | _ <;> simp only [left, hst] <;> simp

theorem Working.done_iff (h : b.Working r) : b.done = true ↔ b.state = .idle := by
  rcases hst : b.state with _ | _ | _ | _ | _ <;> simp only [Working, hst] at h <;> simp [h.1]

/-- A builder that is done has put out the block, and rests after it. -/
theorem Working.finished (h : b.Working r) (hs : b.state = .idle) (req : BuildReq) :
    onAir b.codedBits = r.block ∧ (b.step false req).AtRest := by
  simp only [Working, hs] at h
  obtain ⟨-, hbits, hbs, hes, hmac, hsch⟩ := h
  refine ⟨hbits, ?_⟩
  obtain ⟨state, lat, builderStart, macRes, encodeStart, latInfoBits, schF, codedBits, done⟩ := b
  obtain rfl : builderStart = false := hbs
  obtain rfl : encodeStart = false := hes
  obtain rfl : state = .idle := hs
  have hmac' := MacResDlBuilder.atRest_clock hmac.1 lat.macResIn
  have hsch' := SerialEncoder.atRest_step hsch.1 latInfoBits lat.scrambleInit
  exact ⟨⟨rfl, rfl, hmac', hsch'⟩, rfl, rfl⟩

end DlPduBuilder

end TetraPhy.Lmac
