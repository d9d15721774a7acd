import TetraPhy.Lmac.AachCode

/-!
# The AACH encoder

`tetra_aach_encoder.v`: on a start the word for a timeslot is selected, the mask is then built one
bit per cycle, and the code of the word added to it.

| timeslot                             | word                              |
|--------------------------------------|-----------------------------------|
| frame 18                             | by timeslot and multiframe        |
| 0, no signalling, a grant is pending | the grant's                       |
| 0, no signalling, slots are reserved | 0x0000                            |
| 0                                    | 0x0009 for signalling and for the last fragment of an SDS, else 0x0249 |
| 1 .. 3, marked for voice             | the software's                    |
| 1 .. 3                               | by frame and multiframe           |

Rows and feedback are those of the combinational encoder, so the block is `aachCoded`.
-/

namespace TetraPhy.Tx

open AirOrder Lmac

/-- The inputs of one cycle. -/
structure AachIn where
  fn : BitVec 5 := 0
  tn : BitVec 2 := 0
  mnLow2 : BitVec 2 := 0
  lfsrInit : BitVec 32 := 0
  signallingActive : Bool := false
  grantPending : Bool := false
  grantInfo : BitVec 14 := 0
  resvPulse : Bool := false
  resvFrames : BitVec 4 := 0
  sdsFillLast : Bool := false
  voiceActiveMask : BitVec 4 := 0
  slotAach : BitVec 64 := 0
  encodeStart : Bool := false
deriving DecidableEq, Repr

/-- `PDUC_AACH_TRAFFIC_IDLE`. -/
def aachTrafficIdle : BitVec 14 := 0x3000

namespace AachIn

variable (i : AachIn)

/-- A grant is pending for an idle timeslot 0. -/
def grants : Bool := i.tn == 0 && !i.signallingActive && i.grantPending

/-- Timeslot 0 is idle, and reserved. -/
def reserves (resvHold : BitVec 4) : Bool :=
  i.tn == 0 && !i.signallingActive && resvHold != 0

/-- The software's word for a timeslot, `slot_aach_sys[tn*16 +: 14]`. -/
def slotWord (tn : BitVec 2) : BitVec 14 := i.slotAach.extractLsb' (16 * tn.toNat) 14

/-- The word that is selected. -/
def info (resvHold : BitVec 4) : BitVec 14 :=
  if i.fn = 17 then
    if i.tn = 0 ∧ i.mnLow2 = 2 then 0x0049
    else if i.tn = 0 then 0x0249
    else if i.mnLow2 = 1 then 0x0040
    else 0x2249
  else if i.grants then i.grantInfo
  else if i.reserves resvHold then 0
  else if i.tn = 0 then if i.signallingActive || i.sdsFillLast then 0x0009 else 0x0249
  else if i.voiceActiveMask.getLsbD i.tn.toNat then i.slotWord i.tn
  else if i.mnLow2 = 1 ∧ 2 ≤ i.fn ∧ i.fn ≤ 12 then 0x2049
  else if i.mnLow2 = 3 ∧ 13 ≤ i.fn ∧ i.fn ≤ 16 then 0x2049
  else aachTrafficIdle

/-- The traffic timeslots that are reserved while they are idle. -/
def ReservesTraffic : Prop :=
  i.mnLow2 = 1 ∧ 2 ≤ i.fn ∧ i.fn ≤ 12 ∨ i.mnLow2 = 3 ∧ 13 ≤ i.fn ∧ i.fn ≤ 16

/-- The situations of a timeslot, each with what the AACH tells in it. -/
inductive Tells (resvHold : BitVec 4) : BitVec 14 → Prop
  | anchor (hfn : i.fn = 17) (htn : i.tn = 0) (hmn : i.mnLow2 = 2) : Tells resvHold 0x0049
  | bnch (hfn : i.fn = 17) (htn : i.tn = 0) (hmn : i.mnLow2 ≠ 2) : Tells resvHold 0x0249
  | sync (hfn : i.fn = 17) (htn : i.tn ≠ 0) (hmn : i.mnLow2 = 1) : Tells resvHold 0x0040
  | control (hfn : i.fn = 17) (htn : i.tn ≠ 0) (hmn : i.mnLow2 ≠ 1) : Tells resvHold 0x2249
  | signalling (hfn : i.fn ≠ 17) (htn : i.tn = 0) (hhead : i.signallingActive = true) :
      Tells resvHold 0x0009
  | grant (hfn : i.fn ≠ 17) (htn : i.tn = 0) (hhead : i.signallingActive = false)
      (hgrant : i.grantPending = true) : Tells resvHold i.grantInfo
  | reserved (hfn : i.fn ≠ 17) (htn : i.tn = 0) (hhead : i.signallingActive = false)
      (hgrant : i.grantPending = false) (hhold : resvHold ≠ 0) : Tells resvHold 0
  | last (hfn : i.fn ≠ 17) (htn : i.tn = 0) (hhead : i.signallingActive = false)
      (hgrant : i.grantPending = false) (hhold : resvHold = 0) (hlast : i.sdsFillLast = true) :
      Tells resvHold 0x0009
  | common (hfn : i.fn ≠ 17) (htn : i.tn = 0) (hhead : i.signallingActive = false)
      (hgrant : i.grantPending = false) (hhold : resvHold = 0) (hlast : i.sdsFillLast = false) :
      Tells resvHold 0x0249
  | voice (hfn : i.fn ≠ 17) (htn : i.tn ≠ 0)
      (hmark : i.voiceActiveMask.getLsbD i.tn.toNat = true) : Tells resvHold (i.slotWord i.tn)
  | traffic (hfn : i.fn ≠ 17) (htn : i.tn ≠ 0)
      (hmark : i.voiceActiveMask.getLsbD i.tn.toNat = false) (hidle : i.ReservesTraffic) :
      Tells resvHold 0x2049
  | idle (hfn : i.fn ≠ 17) (htn : i.tn ≠ 0)
      (hmark : i.voiceActiveMask.getLsbD i.tn.toNat = false) (hidle : ¬i.ReservesTraffic) :
      Tells resvHold aachTrafficIdle

variable {i}

/-- What is selected is what the situation tells. -/
theorem tells_info (i : AachIn) (resvHold : BitVec 4) : i.Tells resvHold (i.info resvHold) := by
  unfold info
  by_cases hfn : i.fn = 17
  · rw [if_pos hfn]
    split_ifs with hanchor htn hmn
    · exact .anchor hfn hanchor.1 hanchor.2
    · exact .bnch hfn htn fun hmn ↦ hanchor ⟨htn, hmn⟩
    · exact .sync hfn htn hmn
    · exact .control hfn htn hmn
  rw [if_neg hfn]
  by_cases htn : i.tn = 0
  · cases hhead : i.signallingActive with
    | true =>
        simp only [grants, reserves, hhead, htn]
        exact .signalling hfn htn hhead
    | false =>
        cases hgrant : i.grantPending with
        | true =>
            simp only [grants, hhead, htn, hgrant]
            exact .grant hfn htn hhead hgrant
        | false =>
            by_cases hhold : resvHold = 0
            · cases hlast : i.sdsFillLast with
              | true =>
                  simp only [grants, reserves, hhead, htn, hgrant, hhold]
                  exact .last hfn htn hhead hgrant rfl hlast
              | false =>
                  simp only [grants, reserves, hhead, htn, hgrant, hhold]
                  exact .common hfn htn hhead hgrant rfl hlast
            · have hne : (resvHold != 0) = true := bne_iff_ne.2 hhold
              simp only [grants, reserves, hhead, htn, hgrant, hne]
              exact .reserved hfn htn hhead hgrant hhold
  · have hgrants : i.grants = false := by rw [grants, beq_false_of_ne htn]; rfl
    have hreserves : i.reserves resvHold = false := by rw [reserves, beq_false_of_ne htn]; rfl
    simp only [hgrants, hreserves, htn, Bool.false_eq_true, if_false]
    split_ifs with hmark hfirst hsecond
    · exact .voice hfn htn hmark
    · exact .traffic hfn htn (Bool.eq_false_iff.2 hmark) (.inl hfirst)
    · exact .traffic hfn htn (Bool.eq_false_iff.2 hmark) (.inr hsecond)
    · exact .idle hfn htn (Bool.eq_false_iff.2 hmark) fun h ↦ h.elim hfirst hsecond

/-- No situation tells two words. -/
theorem Tells.eq {resvHold : BitVec 4} {v w : BitVec 14} (hv : i.Tells resvHold v)
    (hw : i.Tells resvHold w) : v = w := by
  cases hv <;> cases hw <;> first | rfl | simp_all

theorem tells_iff {resvHold : BitVec 4} {w : BitVec 14} :
    i.Tells resvHold w ↔ i.info resvHold = w :=
  ⟨(tells_info i resvHold).eq, fun h ↦ h ▸ tells_info i resvHold⟩

end AachIn

/-- The states. -/
inductive AachState
  | idle | mask | done
deriving DecidableEq, Repr

/-- The registers. -/
structure AachEncoder where
  state : AachState := .idle
  maskCnt : ℕ := 0
  lfsr : BitVec 32 := 0
  mask : BitVec 30 := 0
  info : BitVec 14 := 0
  coded : BitVec 30 := 0
  valid : Bool := false
  grantConsume : Bool := false
  resvHold : BitVec 4 := 0
deriving DecidableEq, Repr

namespace AachEncoder

section

variable (e : AachEncoder) (i : AachIn)

/-- A start uses up one reserved slot, unless new ones come in this cycle. -/
def holdNext : BitVec 4 :=
  if i.resvPulse then i.resvFrames
  else if e.state = .idle ∧ i.encodeStart = true ∧ i.fn ≠ 17 ∧ i.grants = false ∧
      i.reserves e.resvHold = true then e.resvHold - 1
  else e.resvHold

/-- One clock edge. -/
def step : AachEncoder :=
  let e' := { e with grantConsume := false, resvHold := e.holdNext i }
  match e.state with
  | .idle =>
      if i.encodeStart then
        { e' with
          info := i.info e.resvHold
          grantConsume := i.fn != 17 && i.grants
          lfsr := if i.lfsrInit = 0 then BitVec.allOnes 32 else i.lfsrInit
          mask := 0
          maskCnt := 0
          state := .mask }
      else e'
  | .mask =>
      let e' := { e' with mask := setAir e.mask e.maskCnt (lfsrFb e.lfsr), lfsr := lfsrNext e.lfsr }
      if e.maskCnt = 29 then { e' with state := .done } else { e' with maskCnt := e.maskCnt + 1 }
  | .done => { e' with coded := rmEncodeF e.info ^^^ e.mask, valid := true, state := .idle }

end

/-! ## The loop -/

/-- The first `k` rounds of the loop that builds the mask. -/
def maskLoop (lfsrInit : BitVec 32) (k : ℕ) : BitVec 32 × BitVec 30 :=
  (List.range k).foldl (fun lm k ↦ (lfsrNext lm.1, setAir lm.2 k (lfsrFb lm.1)))
    (if lfsrInit = 0 then BitVec.allOnes 32 else lfsrInit, 0)

theorem maskLoop_succ (lfsrInit : BitVec 32) (k : ℕ) : maskLoop lfsrInit (k + 1) =
    (lfsrNext (maskLoop lfsrInit k).1,
      setAir (maskLoop lfsrInit k).2 k (lfsrFb (maskLoop lfsrInit k).1)) := by
  rw [maskLoop, List.range_succ, List.foldl_append]
  rfl

/-- What the registers hold from the start of a word until the next start. -/
def Working (e : AachEncoder) (info : BitVec 14) (lfsrInit : BitVec 32) : Prop :=
  match e.state with
  | .idle => e.coded = aachCoded info lfsrInit
  | .mask => e.info = info ∧ e.maskCnt < 30 ∧ (e.lfsr, e.mask) = maskLoop lfsrInit e.maskCnt
  | .done => e.info = info ∧ e.mask = buildLfsrMaskF lfsrInit

/-- The cycles until the block is there. -/
def left (e : AachEncoder) : ℕ :=
  match e.state with
  | .idle => 0
  | .mask => 31 - e.maskCnt
  | .done => 1

variable {e : AachEncoder} {i : AachIn} {info : BitVec 14} {lfsrInit : BitVec 32}

/-- An idle encoder has its block. -/
theorem working_iff_of_idle (hs : e.state = .idle) :
    e.Working info lfsrInit ↔ e.coded = aachCoded info lfsrInit := by
  simp only [Working, hs]

theorem left_of_idle (hs : e.state = .idle) : e.left = 0 := by
  simp only [left, hs]

theorem idle_of_left (h : e.left = 0) (hw : e.Working info lfsrInit) : e.state = .idle := by
  rcases hs : e.state with _ | _ | _ <;> simp only [left, Working, hs] at h hw ⊢
  · omega
  · omega

/-- A start on an idle encoder. -/
theorem working_start (hs : e.state = .idle) (hstart : i.encodeStart = true) :
    (e.step i).Working (i.info e.resvHold) i.lfsrInit ∧ (e.step i).left = 31 := by
  simp only [step, hs, hstart, if_true, Working, left]
  exact ⟨⟨trivial, by decide, rfl⟩, trivial⟩

/-- An idle encoder holds its block. -/
theorem step_idle (hs : e.state = .idle) (hstart : i.encodeStart = false) :
    (e.step i).state = .idle ∧ (e.step i).coded = e.coded := by
  simp [step, hs, hstart]

/-- **The loop builds the mask**, and every cycle is one less. -/
theorem Working.step (h : e.Working info lfsrInit) (hs : e.state ≠ .idle) (i : AachIn) :
    (e.step i).Working info lfsrInit ∧ (e.step i).left + 1 = e.left := by
  rcases hst : e.state with _ | _ | _
  · exact absurd hst hs
  · simp only [Working, hst] at h
    obtain ⟨hinfo, hcnt, hloop⟩ := h
    have hsucc := maskLoop_succ lfsrInit e.maskCnt
    rw [← hloop] at hsucc
    by_cases hlast : e.maskCnt = 29
    · have hmask := (congrArg Prod.snd hsucc).symm
      rw [hlast] at hmask
      simp only [AachEncoder.step, hst, hlast, if_true, Working, left]
      exact ⟨⟨hinfo, hmask⟩, trivial⟩
    · simp only [AachEncoder.step, hst, if_neg hlast, Working, left]
      exact ⟨⟨hinfo, by omega, hsucc.symm⟩, by omega⟩
  · simp only [Working, hst] at h
    obtain ⟨hinfo, hmask⟩ := h
    simp only [AachEncoder.step, hst, Working, left, hinfo, hmask]
    exact ⟨rfl, trivial⟩

end AachEncoder

end TetraPhy.Tx
