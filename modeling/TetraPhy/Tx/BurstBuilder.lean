import TetraPhy.Tx.BurstDispatcher
import TetraPhy.Lib.BitField

/-!
# The burst builder

`tetra_burst_builder.v`: a build request is assembled into a burst of 510 bits, which is loaded
at once if the builder is idle and otherwise waits until the burst that is going out ends.

| burst | fields, first on air first |
|---|---|
| NDB | tail 12, phase 2, block 1 216, BB 14, training 22, BB 16, block 2 216, phase 2, tail 10 |
| SDB | tail 12, phase 2, frequency correction 80, SB 120, training 38, BB 30, block 2 216, phase 2, tail 10 |

An SDB has no place for block 1.
-/

namespace TetraPhy.Tx

/-! ## Bursts -/

def tail1 : BitVec 12 := 0b000110101101

def tail2 : BitVec 10 := 0b1011011100

def padj : BitVec 2 := 0

def fcPat : BitVec 80 := 0xFF#8 ++ 0#64 ++ 0xFF#8

def stsRef : BitVec 38 := 0b11000001100111001110100111000001100111

def nts1Ref : BitVec 22 := 0b1101000011101001110100

def nts2Ref : BitVec 22 := 0b0111101001000011011110

/-- `ndb_burst_w`. -/
def ndbBurst (block1 block2 : BitVec 216) (bb : BitVec 30) (ndb2 : Bool) : BitVec 510 :=
  tail1 ++ padj ++ block1 ++ bb.extractLsb' 16 14 ++ (if ndb2 then nts2Ref else nts1Ref) ++
    bb.extractLsb' 0 16 ++ block2 ++ padj ++ tail2

/-- `sdb_burst_w`. -/
def sdbBurst (sb1 : BitVec 120) (block2 : BitVec 216) (bb : BitVec 30) : BitVec 510 :=
  tail1 ++ padj ++ fcPat ++ sb1 ++ stsRef ++ bb ++ block2 ++ padj ++ tail2

/-- The burst of a build request. -/
def BurstDispatcher.burst (d : BurstDispatcher) : BitVec 510 :=
  if d.buildBurstType then sdbBurst d.buildSb1 d.buildBlock2 d.buildBb
  else ndbBurst d.buildBlock1 d.buildBlock2 d.buildBb d.buildNdb2

/-! ## The builder -/

/-- The states of the builder. -/
inductive BuilderState
  | idle | shift | done
deriving DecidableEq, Repr

/-- The registers. -/
structure BurstBuilder where
  state : BuilderState := .idle
  symCnt : BitVec 8 := 0
  buildReqPending : Bool := false
  chainPending : Bool := false
  chainBurst : BitVec 510 := 0
  burstSreg : BitVec 510 := 0
  txBusy : Bool := false
  txDibit : BitVec 2 := 0
  txDibitValid : Bool := false
  txDone : Bool := false

namespace BurstBuilder

variable (b : BurstBuilder) (symEnExt : Bool) (req : BurstDispatcher)

/-- `sym_en_w`. -/
def symEn : Bool := b.txBusy && symEnExt

/-- The last symbol of a burst goes out. -/
def lastSymbol : Bool := b.state == .shift && b.symCnt == 254

def nextState : BuilderState :=
  match b.state with
  | .idle => if b.buildReqPending then .shift else .idle
  | .shift => if b.symCnt == 254 then if b.chainPending then .shift else .done else .shift
  | .done => .idle

/-- The waiting burst is loaded in this cycle. -/
def reloads : Bool := b.symEn symEnExt && b.lastSymbol && b.chainPending

/-- One clock edge. -/
def step : BurstBuilder where
  state :=
    if b.state = .done then .idle else if b.symEn symEnExt then b.nextState else b.state
  symCnt :=
    if b.symEn symEnExt then
      if b.lastSymbol && b.chainPending then 0
      else if b.state ≠ b.nextState then 0
      else if b.state = .shift then b.symCnt + 1 else b.symCnt
    else b.symCnt
  buildReqPending :=
    if req.buildReq then if b.txBusy then b.buildReqPending else true
    else if b.symEn symEnExt && b.state == .idle then false else b.buildReqPending
  chainPending :=
    if req.buildReq then if b.txBusy then true else b.chainPending
    else if b.reloads symEnExt then false else b.chainPending
  chainBurst := if req.buildReq && b.txBusy then req.burst else b.chainBurst
  burstSreg :=
    if b.state == .idle && req.buildReq then req.burst
    else if b.reloads symEnExt then b.chainBurst
    else if b.state == .shift && b.symEn symEnExt then b.burstSreg <<< 2 else b.burstSreg
  txBusy :=
    if b.state == .idle && req.buildReq then true else if b.state == .done then false else b.txBusy
  txDibit := if b.symEn symEnExt then b.burstSreg.extractLsb' 508 2 else b.txDibit
  txDibitValid := b.symEn symEnExt && b.state == .shift
  txDone := b.symEn symEnExt && b.lastSymbol

/-- The burst a build request puts into the builder: the waiting one while another goes out,
else the one in the shift register. -/
def taken : BitVec 510 :=
  if b.txBusy then (b.step symEnExt req).chainBurst else (b.step symEnExt req).burstSreg

/-- A builder that is not busy is idle. -/
def Settled : Prop := b.txBusy = false → b.state = .idle

theorem settled_step (h : b.Settled) : (b.step symEnExt req).Settled := by
  intro hbusy
  simp only [step] at hbusy ⊢
  cases hs : b.state with
  | idle =>
      by_cases hreq : req.buildReq = true
      · simp [hs, hreq] at hbusy
      · simp [hs, hreq] at hbusy
        simp [symEn, hbusy]
  | shift =>
      simp [hs] at hbusy
      exact absurd (h hbusy) (by rw [hs]; decide)
  | done => rfl

/-- **A requested burst is taken over**, whatever the builder is doing. -/
theorem taken_eq (h : b.Settled) (hreq : req.buildReq = true) :
    b.taken symEnExt req = req.burst := by
  rw [taken]
  cases hbusy : b.txBusy with
  | true => simp [step, hreq, hbusy]
  | false => simp [step, hreq, h hbusy]

end BurstBuilder

/-! ## What a burst carries -/

/-- The fields of a normal burst. -/
def burstBlock1 (burst : BitVec 510) : BitVec 216 := burst.extractLsb' 280 216

def burstTraining (burst : BitVec 510) : BitVec 22 := burst.extractLsb' 244 22

def burstBlock2 (burst : BitVec 510) : BitVec 216 := burst.extractLsb' 12 216

theorem fields_ndbBurst (block1 block2 : BitVec 216) (bb : BitVec 30) (ndb2 : Bool) :
    burstBlock1 (ndbBurst block1 block2 bb ndb2) = block1 ∧
      burstTraining (ndbBurst block1 block2 bb ndb2) = (if ndb2 then nts2Ref else nts1Ref) ∧
      burstBlock2 (ndbBurst block1 block2 bb ndb2) = block2 := by
  generalize hnts : (if ndb2 then nts2Ref else nts1Ref) = nts
  refine ⟨?_, ?_, ?_⟩ <;> ext i hi
  all_goals
    simp only [burstBlock1, burstTraining, burstBlock2, ndbBurst, hnts, BitVec.getElem_extractLsb',
      BitVec.getLsbD_append]
    grind

/-- An SDB has other bits where a normal burst has its training sequence. -/
theorem training_sdbBurst_ne (sb1 : BitVec 120) (block2 : BitVec 216) (bb : BitVec 30)
    (ndb2 : Bool) :
    burstTraining (sdbBurst sb1 block2 bb) ≠ if ndb2 then nts2Ref else nts1Ref := by
  have hbit : ∀ j < 8, (burstTraining (sdbBurst sb1 block2 bb)).getLsbD (14 + j) =
      stsRef.getLsbD j := by
    intro j hj
    simp only [burstTraining, sdbBurst, BitVec.getLsbD_extractLsb', BitVec.getLsbD_append]
    grind
  intro heq
  rw [heq] at hbit
  cases ndb2 with
  | true => exact absurd (hbit 4 (by decide)) (by decide)
  | false => exact absurd (hbit 7 (by decide)) (by decide)

end TetraPhy.Tx
