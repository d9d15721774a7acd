import TetraPhy.Lmac.DlPduBuilder

/-!
# The way of a reply

Reply mailbox, MLE registration FSM and downlink PDU builder, as `tetra_zynq_top.v` wires them: a
GO has the staged fields built and coded, and 1006 cycles later the block goes to the signalling
queue.  The FSM looks at the GO in `S_IDLE` only, and there a U-ITSI-DETACH comes first.

In a cycle the software makes at most one access: it writes a mailbox register, gives a GO, or
reads the status, of which `busy` is a bit.  The cell configuration does not change.

* `ReplyPath.Resting` — nothing is built; a detach may be noted;
* `ReplyPath.Flying` — a block is on its way, with the cycles it still takes.
-/

namespace TetraPhy.Lmac

open AirOrder Codec Sw

/-- The cell configuration, as far as replies depend on it. -/
structure CellConfig where
  mcchTn : BitVec 2 := 0
  scrambleInit : BitVec 32 := 3
  energySavingInfo : BitVec 14 := 0

/-! ## What the mailbox asks for -/

/-- The build request that the fields of a mailbox stand for. -/
def ReplyMailbox.request (m : ReplyMailbox) (cfg : CellConfig) : BuildReq :=
  let blAck := m.rawModeFlag && m.rawLlcBlAck
  let mlePd : BitVec 3 := if m.rawMlePd == 0b000 then 0b001 else m.rawMlePd
  let cmce := m.rawModeFlag && mlePd == 0b010 && !m.rawLlcBlAck
  let dloc := dLocationUpdate false cfg.energySavingInfo m.locAccType m.gilaGssi m.gilaClass
    m.gilaLifetime m.gilaPresent
  { ssi := m.ssi
    addrType := if blAck then 1 else if cmce then 6 else m.addrType
    usageMarker := m.usageMarker
    chanAllocTsBitmap := m.chanAllocTsBitmap
    llcPduType := if blAck then 3 else if cmce then 2 else 0
    randomAccessFlag := false
    mmPduBits := if m.rawModeFlag then m.rawMmBits else dloc.1
    mmPduLenBits := if blAck then 0 else if m.rawModeFlag then m.rawMmLen else dloc.2
    scrambleInit := cfg.scrambleInit
    mlePd := if m.rawModeFlag then mlePd else 0b001
    ns := if m.rawModeFlag then m.rawNs else false
    nr := if m.rawModeFlag then m.rawNr else false }

/-! ## The parts, wired -/

/-- What the software does in a cycle. -/
inductive SwAccess
  | none
  | write (w : RegWrite)
  | go
  | poll

def SwAccess.isGo : SwAccess → Bool
  | .go => true
  | _ => false

/-- What happens in a cycle. -/
structure ReplyCycle where
  ulDetachValid : Bool := false
  sw : SwAccess := .none

/-- The registers. -/
structure ReplyPath where
  mb : ReplyMailbox := {}
  mle : MleFsm := {}
  builder : DlPduBuilder := {}

namespace ReplyPath

variable (cfg : CellConfig) (p : ReplyPath) (c : ReplyCycle)

/-- What the FSM sees. -/
def mleIn : MleIn where
  ulDetachValid := c.ulDetachValid
  mb := p.mb
  goPulse := c.sw.isGo
  acceptBuildDone := p.builder.done
  acceptBuildCoded := p.builder.codedBits
  cfgMcchTn := cfg.mcchTn
  cfgScrambleInit := cfg.scrambleInit
  cfgEnergySavingInfo := cfg.energySavingInfo

/-- One clock edge. -/
def step : ReplyPath where
  mb := match c.sw with
    | .write w => p.mb.write w
    | _ => p.mb
  mle := p.mle.step (p.mleIn cfg c)
  builder := p.builder.step (p.mle.acceptBuildReq && !p.builder.busy)
    (p.mle.acceptBuild (p.mleIn cfg c))

/-- The FSM takes the GO of this cycle. -/
def Accepts : Prop := p.mle.GoAccepted (p.mleIn cfg c)

instance : Decidable (p.Accepts cfg c) := inferInstanceAs (Decidable (MleFsm.GoAccepted _ _))

/-- Nothing is built, and the builder is asked nothing. -/
structure Resting (p : ReplyPath) : Prop where
  state : p.mle.state = .idle ∨ p.mle.state = .detachNoop
  acceptBuildReq : p.mle.acceptBuildReq = false
  builder : p.builder.AtRest

/-- A block is on its way; it is delivered in the given number of cycles. -/
inductive Flying : List Bool → ℕ → Prop
  | latched (hs : p.mle.state = .buildAcceptReq) (hreq : p.mle.acceptBuildReq = false)
      (hlat : p.mle.Latched p.mb) (hb : p.builder.AtRest) :
      Flying (p.mb.request cfg).block 1005
  | asking (hs : p.mle.state = .buildAcceptWait) (hreq : p.mle.acceptBuildReq = true)
      (hlat : p.mle.Latched p.mb) (hb : p.builder.AtRest) :
      Flying (p.mb.request cfg).block 1004
  | building (hs : p.mle.state = .buildAcceptWait) (hreq : p.mle.acceptBuildReq = false)
      (r : BuildReq) (hb : p.builder.Working r) :
      Flying r.block (p.builder.left + 2)
  | delivering (hs : p.mle.state = .deliverAccept) (hreq : p.mle.acceptBuildReq = false)
      (hb : p.builder.AtRest) :
      Flying (onAir p.mle.reqCodedBits) 1

end ReplyPath

/-! ## The FSM's part -/

namespace MleFsm

variable {s : MleFsm} {i : MleIn}

/-- The build plane of an FSM that has latched a mailbox and still sees it. -/
theorem Latched.acceptBuild_eq {m : ReplyMailbox} (h : s.Latched m) (hm : i.mb = m)
    {cfg : CellConfig} (hsc : i.cfgScrambleInit = cfg.scrambleInit)
    (hes : i.cfgEnergySavingInfo = cfg.energySavingInfo) :
    s.acceptBuild i = m.request cfg := by
  rw [acceptBuild, ReplyMailbox.request]
  simp only [blAckPath, MleFsm.cmcePath, dloc, h.ssi, h.addrType, h.usageMarker, h.chanAllocTsBitmap,
    h.rawModeFlag, h.rawMmBits, h.rawMlePd, h.rawMmLen, h.rawNs, h.rawNr, h.rawLlcBlAck, hm, hsc,
    hes]

/-- An accepted GO latches the mailbox. -/
theorem GoAccepted.step (h : s.GoAccepted i) : (s.step i).Latched i.mb ∧
    (s.step i).state = .buildAcceptReq ∧ (s.step i).acceptBuildReq = false ∧
      (s.step i).reqValid = false ∧ (s.step i).busy = true := by
  obtain ⟨hidle, hdet, hgo⟩ := h
  refine ⟨?_, ?_⟩
  · constructor <;> simp [MleFsm.step, hidle, hdet, hgo]
  · simp [MleFsm.step, hidle, hdet, hgo]

/-- Without an accepted GO the FSM waits on. -/
theorem step_waiting (hs : s.state = .idle ∨ s.state = .detachNoop) (h : ¬ s.GoAccepted i) :
    ((s.step i).state = .idle ∨ (s.step i).state = .detachNoop) ∧
      (s.step i).acceptBuildReq = false ∧ (s.step i).reqValid = false := by
  rcases hs with hs | hs
  · cases hdet : i.ulDetachValid with
    | true => simp [step, hs, hdet]
    | false =>
        cases hgo : i.mbGoPulse with
        | true => exact absurd ⟨hs, hdet, hgo⟩ h
        | false => simp [step, hs, hdet, hgo]
  · simp [step, hs]

/-- The state after an accepted GO. -/
theorem step_buildAcceptReq (hs : s.state = .buildAcceptReq) : s.step i =
    { s with acceptBuildReq := true, reqValid := false, acceptPulse := false, detachPulse := false
             state := .buildAcceptWait } := by
  rw [step, hs]

/-- Nothing comes from the builder. -/
theorem step_buildAcceptWait (hs : s.state = .buildAcceptWait) (hd : i.acceptBuildDone = false) :
    s.step i = { s with acceptBuildReq := false, reqValid := false, acceptPulse := false
                        detachPulse := false } := by
  rw [step, hs]
  exact if_neg (by rw [hd]; decide)

/-- The builder is done. -/
theorem step_done (hs : s.state = .buildAcceptWait) (hd : i.acceptBuildDone = true) :
    s.step i = { s with acceptBuildReq := false, reqValid := false, acceptPulse := false
                        detachPulse := false, reqCodedBits := i.acceptBuildCoded, reqPduType := 0
                        reqTargetTn := i.cfgMcchTn, reqSecondPduPresent := false
                        reqSecondPduNr := false, state := .deliverAccept } := by
  rw [step, hs]
  exact if_pos hd

theorem step_deliverAccept (hs : s.state = .deliverAccept) : s.step i =
    { s with acceptBuildReq := false, reqValid := true, acceptPulse := true, detachPulse := false
             state := .idle } := by
  rw [step, hs]

end MleFsm

/-! ## The cycles of a reply -/

namespace ReplyPath

variable {cfg : CellConfig} {p : ReplyPath} {c : ReplyCycle}

/-- An accepted GO is an access of its own: the mailbox stays. -/
theorem Accepts.sw_eq (h : p.Accepts cfg c) : c.sw = .go := by
  obtain ⟨-, -, hgo⟩ := h
  rw [MleIn.mbGoPulse, Bool.and_eq_true] at hgo
  cases hsw : c.sw <;> simp [mleIn, hsw, SwAccess.isGo] at hgo
  rfl

/-- **An accepted GO sends a block on its way.** -/
theorem Resting.step_accepts (h : p.Resting) (ha : p.Accepts cfg c) :
    (p.step cfg c).Flying cfg (p.mb.request cfg).block 1005 ∧
      (p.step cfg c).mle.reqValid = false ∧ (p.step cfg c).mle.busy = true := by
  obtain ⟨hlat, hs, hreq, hvalid, hbusy⟩ := MleFsm.GoAccepted.step ha
  have hmb : (p.step cfg c).mb = p.mb := by
    change (match c.sw with | .write w => p.mb.write w | _ => p.mb) = p.mb
    rw [ha.sw_eq]
  have hb : (p.step cfg c).builder.AtRest := by
    change (p.builder.step (p.mle.acceptBuildReq && _) _).AtRest
    rw [h.acceptBuildReq]
    exact h.builder.step _
  refine ⟨?_, hvalid, hbusy⟩
  rw [← hmb]
  exact Flying.latched hs hreq (hmb.symm ▸ hlat) hb

/-- Nothing else does. -/
theorem Resting.step (h : p.Resting) (ha : ¬ p.Accepts cfg c) :
    (p.step cfg c).Resting ∧ (p.step cfg c).mle.reqValid = false := by
  obtain ⟨hs, hreq, hvalid⟩ := MleFsm.step_waiting h.state ha
  refine ⟨⟨hs, hreq, ?_⟩, hvalid⟩
  change (p.builder.step (p.mle.acceptBuildReq && _) _).AtRest
  rw [h.acceptBuildReq]
  exact h.builder.step _

/-- A resting path does not fly. -/
theorem Resting.not_flying (h : p.Resting) {bits : List Bool} {n : ℕ} : ¬ p.Flying cfg bits n := by
  rintro (⟨hs, -⟩ | ⟨hs, -⟩ | ⟨hs, -⟩ | ⟨hs, -⟩) <;>
    rcases h.state with h | h <;> rw [hs] at h <;> exact absurd h (by decide)

/-- A flying path takes no GO. -/
theorem Flying.not_accepts {bits : List Bool} {n : ℕ} (h : p.Flying cfg bits n) :
    ¬ p.Accepts cfg c := by
  rintro ⟨hidle, -⟩
  rcases h with ⟨hs, -⟩ | ⟨hs, -⟩ | ⟨hs, -⟩ | ⟨hs, -⟩ <;>
    rw [hs] at hidle <;> exact absurd hidle (by decide)

theorem mb_step (hw : ∀ w, c.sw ≠ .write w) : (p.step cfg c).mb = p.mb := by
  change (match c.sw with | .write w => p.mb.write w | _ => p.mb) = p.mb
  cases hsw : c.sw with
  | write w => exact absurd hsw (hw w)
  | _ => rfl

theorem builder_step (cfg : CellConfig) (c : ReplyCycle) (hreq : p.mle.acceptBuildReq = false) :
    (p.step cfg c).builder = p.builder.step false (p.mle.acceptBuild (p.mleIn cfg c)) := by
  change p.builder.step (p.mle.acceptBuildReq && _) _ = _
  rw [hreq]
  rfl

/-- **A block comes nearer with every cycle**, as long as the software leaves the mailbox alone. -/
theorem Flying.step {bits : List Bool} {n : ℕ} (h : p.Flying cfg bits n) (hn : 1 < n)
    (hw : ∀ w, c.sw ≠ .write w) : (p.step cfg c).Flying cfg bits (n - 1) ∧
      (p.step cfg c).mle.reqValid = false ∧ (p.step cfg c).mle.busy = p.mle.busy := by
  have hmb : (p.step cfg c).mb = p.mb := mb_step hw
  cases h with
  | latched hs hreq hlat hb =>
      have hmle : (p.step cfg c).mle = _ := MleFsm.step_buildAcceptReq hs
      have hb' := builder_step cfg c hreq
      have hlat' : (p.step cfg c).mle.Latched p.mb := by
        rw [hmle]
        obtain ⟨h1, h2, h3, h4, h5, h6, h7, h8, h9, h10, h11⟩ := hlat
        exact ⟨h1, h2, h3, h4, h5, h6, h7, h8, h9, h10, h11⟩
      refine ⟨?_, by rw [hmle], by rw [hmle]⟩
      rw [← hmb] at hlat' ⊢
      exact .asking (by rw [hmle]) (by rw [hmle]) hlat' (hb' ▸ hb.step _)
  | asking hs hreq hlat hb =>
      -- the builder takes the request
      have hreq' : p.mle.acceptBuild (p.mleIn cfg c) = p.mb.request cfg :=
        hlat.acceptBuild_eq rfl rfl rfl
      have hbusy : p.builder.busy = false := by
        rw [DlPduBuilder.busy, hb.state]
        rfl
      have hb' : (p.step cfg c).builder = p.builder.step true (p.mb.request cfg) := by
        rw [← hreq']
        change p.builder.step (p.mle.acceptBuildReq && !p.builder.busy) _ = _
        rw [hreq, hbusy]
        rfl
      have hmle : (p.step cfg c).mle = _ := MleFsm.step_buildAcceptWait hs hb.done
      obtain ⟨hwork, hleft⟩ := hb.working_start (p.mb.request cfg)
      rw [← hb'] at hwork hleft
      have hfly : (p.step cfg c).Flying cfg (p.mb.request cfg).block
          ((p.step cfg c).builder.left + 2) :=
        .building (by rw [hmle, hs]) (by rw [hmle]) (p.mb.request cfg) hwork
      rw [hleft] at hfly
      exact ⟨hfly, by rw [hmle], by rw [hmle]⟩
  | building hs hreq r hwork =>
      have hb' := builder_step cfg c hreq
      cases hd : p.builder.done with
      | true =>
          -- the block is handed over
          have hidle := hwork.done_iff.1 hd
          obtain ⟨hbits, hrest⟩ := hwork.finished hidle (p.mle.acceptBuild (p.mleIn cfg c))
          have hmle : (p.step cfg c).mle = _ := MleFsm.step_done hs hd
          have hfly : (p.step cfg c).Flying cfg (onAir (p.step cfg c).mle.reqCodedBits) 1 :=
            .delivering (by rw [hmle]) (by rw [hmle]) (hb' ▸ hrest)
          have hcoded : (p.step cfg c).mle.reqCodedBits = p.builder.codedBits := by rw [hmle]; rfl
          rw [hcoded, hbits] at hfly
          refine ⟨?_, by rw [hmle], by rw [hmle]⟩
          rw [DlPduBuilder.left_eq_zero.2 hidle]
          exact hfly
      | false =>
          have hne : p.builder.state ≠ .idle := fun hidle ↦ by
            rw [hwork.done_iff.2 hidle] at hd
            exact absurd hd (by decide)
          obtain ⟨hwork', hleft⟩ := hwork.step hne false (p.mle.acceptBuild (p.mleIn cfg c))
          have hmle : (p.step cfg c).mle = _ := MleFsm.step_buildAcceptWait hs hd
          rw [← hb'] at hwork' hleft
          have hfly : (p.step cfg c).Flying cfg r.block ((p.step cfg c).builder.left + 2) :=
            .building (by rw [hmle, hs]) (by rw [hmle]) r hwork'
          refine ⟨?_, by rw [hmle], by rw [hmle]⟩
          rw [← hleft]
          exact hfly
  | delivering hs hreq hb => exact absurd hn (by decide)

/-- **And is delivered.** -/
theorem Flying.delivered {bits : List Bool} (h : p.Flying cfg bits 1) :
    (p.step cfg c).Resting ∧ (p.step cfg c).mle.reqValid = true ∧
      onAir (p.step cfg c).mle.reqCodedBits = bits := by
  obtain ⟨hs, hreq, hb, hbits⟩ : p.mle.state = .deliverAccept ∧ p.mle.acceptBuildReq = false ∧
      p.builder.AtRest ∧ onAir p.mle.reqCodedBits = bits := by
    cases h with
    | delivering hs hreq hb => exact ⟨hs, hreq, hb, rfl⟩
  have hmle : (p.step cfg c).mle = _ := MleFsm.step_deliverAccept hs
  have hb' := builder_step cfg c hreq
  refine ⟨⟨Or.inl (by rw [hmle]), by rw [hmle], hb' ▸ hb.step _⟩, by rw [hmle], ?_⟩
  rw [hmle]
  exact hbits

end ReplyPath

end TetraPhy.Lmac
