import Mathlib.Data.BitVec
import Mathlib.Data.List.Induction

/-!
# The sync detector

`tetra_sync_detect.v`: a window over the last 38 dibits is compared with a training sequence, dibit
by dibit.  As many matches as the threshold are a sync, which restarts the slot position, and blocks
further ones for 220 dibits.

| lock state | goes on                                                            |
|------------|--------------------------------------------------------------------|
| hunt       | to acquisition, at a sync                                          |
| acquire    | to lock, after four syncs spaced by one, two or three frames       |
|            | to hunt, after 3060 dibits without one                             |
| lock       | to hunt, after 3060 dibits without a sync                          |

The parameters are the module's defaults.
-/

namespace TetraPhy.Rx

/-! ## The window -/

/-- `{x[n-1:0], dibit_in}`. -/
def shiftDibit {n : ℕ} (x : BitVec (n + 2)) (d : BitVec 2) : BitVec (n + 2) :=
  x.extractLsb' 0 n ++ d

theorem shiftDibit_zero {n : ℕ} (x : BitVec (n + 2)) (d : BitVec 2) :
    (shiftDibit x d).extractLsb' 0 2 = d := by
  refine BitVec.eq_of_getLsbD_eq fun i hi ↦ ?_
  rw [BitVec.getLsbD_extractLsb', shiftDibit, Nat.zero_add, BitVec.getLsbD_append, if_pos hi]
  simp [hi]

theorem shiftDibit_succ {n : ℕ} (x : BitVec (n + 2)) (d : BitVec 2) {k : ℕ}
    (hk : 2 * (k + 1) < n + 1) :
    (shiftDibit x d).extractLsb' (2 * (k + 1)) 2 = x.extractLsb' (2 * k) 2 := by
  refine BitVec.eq_of_getLsbD_eq fun i hi ↦ ?_
  have hin : 2 * (k + 1) + i - 2 = 2 * k + i := by omega
  have hlt : 2 * k + i < n := by omega
  rw [BitVec.getLsbD_extractLsb', BitVec.getLsbD_extractLsb', shiftDibit, BitVec.getLsbD_append,
    if_neg (by omega), hin, BitVec.getLsbD_extractLsb']
  simp [hi, hlt]

/-- The window after some dibits. -/
def window (ds : List (BitVec 2)) : BitVec 76 := ds.foldl shiftDibit (0 : BitVec (74 + 2))

theorem window_concat (ds : List (BitVec 2)) (d : BitVec 2) :
    window (ds ++ [d]) = shiftDibit (n := 74) (window ds) d := by
  rw [window, List.foldl_append]
  rfl

/-- The window shows the last dibits, the newest first. -/
theorem extractLsb'_window (ds : List (BitVec 2)) {k : ℕ} (hk : k < 38) :
    (window ds).extractLsb' (2 * k) 2 = ds.reverse.getD k 0 := by
  induction ds using List.reverseRecOn generalizing k with
  | nil =>
      refine BitVec.eq_of_getLsbD_eq fun i hi ↦ ?_
      simp [window]
  | append_singleton ds d ih =>
      rw [window_concat, List.reverse_append]
      cases k with
      | zero => exact shiftDibit_zero _ _
      | succ k => exact (shiftDibit_succ _ _ (by omega)).trans (ih (Nat.lt_of_succ_lt hk))

/-! ## The training sequences -/

/-- `NTS_REF`, the newest dibit last. -/
def ntsRef : BitVec 22 := 0b1101000011101001110100

/-- `ETS_REF`. -/
def etsRef : BitVec 30 := 0b100111010000111010011101000011

/-- `STS_REF`. -/
def stsRef : BitVec 38 := 0b11000001100111001110100111000001100111

/-- The dibits of the window that match. -/
def corr (len : ℕ) {n : ℕ} (ref : BitVec n) (w : BitVec 76) : ℕ :=
  (List.range len).countP fun k ↦ w.extractLsb' (2 * k) 2 == ref.extractLsb' (2 * k) 2

/-- `corr_sel_sample`. -/
def corrSel (seqSelect : BitVec 2) (w : BitVec 76) : ℕ :=
  if seqSelect = 0 then corr 11 ntsRef w
  else if seqSelect = 1 then corr 15 etsRef w
  else if seqSelect = 2 then corr 19 stsRef w
  else corr 11 ntsRef w

/-! ## The detector -/

/-- The states of the lock. -/
inductive LockState
  | hunt | acquire | lock
deriving DecidableEq, Repr

/-- The configuration, and the dibit of a cycle, if one comes. -/
structure SyncConf where
  corrThreshold : BitVec 6
  seqSelect : BitVec 2

/-- The registers. -/
structure SyncDetect where
  sreg : BitVec 76 := 0
  holdoffCnt : BitVec 8 := 0
  syncFound : Bool := false
  slotPosition : BitVec 8 := 0
  slotNumber : BitVec 2 := 0
  lockState : LockState := .hunt
  spacingCnt : BitVec 12 := 0
  consecCnt : BitVec 3 := 0
  syncLocked : Bool := false
  corrPeak : BitVec 6 := 0
deriving DecidableEq, Repr

namespace SyncDetect

variable (cfg : SyncConf) (s : SyncDetect) (dibit : Option (BitVec 2))

/-- `sreg_shifted`. -/
def sregShifted (d : BitVec 2) : BitVec 76 := shiftDibit (n := 74) s.sreg d

/-- `sync_fire_sample`: enough matches, and no sync shortly before. -/
def syncFire : Bool :=
  dibit.any fun d ↦ cfg.corrThreshold.toNat ≤ corrSel cfg.seqSelect (s.sregShifted d) &&
    s.holdoffCnt == 0

/-- `spacing_ok_sample`: within 30 dibits of one, two or three frames. -/
def spacingOk : Bool :=
  990 ≤ s.spacingCnt && s.spacingCnt ≤ 1050 || 2010 ≤ s.spacingCnt && s.spacingCnt ≤ 2070 ||
    3030 ≤ s.spacingCnt && s.spacingCnt ≤ 3090

/-- `spacing_timeout_sample`. -/
def spacingTimeout : Bool := 3060 < s.spacingCnt

/-- The state of the lock. -/
def nextLockState : LockState :=
  match s.lockState with
  | .hunt => if s.syncFire cfg dibit then .acquire else .hunt
  | .acquire =>
      if 4 ≤ s.consecCnt then .lock
      else if dibit.isSome && s.spacingTimeout && !s.syncFire cfg dibit then .hunt
      else .acquire
  | .lock =>
      if dibit.isSome && s.spacingTimeout && !s.syncFire cfg dibit then .hunt else .lock

/-- The number of syncs in a row that were well spaced. -/
def nextConsecCnt : BitVec 3 :=
  match s.lockState with
  | .hunt => if s.syncFire cfg dibit then 1 else s.consecCnt
  | .acquire =>
      if s.syncFire cfg dibit then if s.spacingOk then s.consecCnt + 1 else 1
      else if dibit.isSome && s.spacingTimeout then 0 else s.consecCnt
  | .lock => if s.syncFire cfg dibit && !s.spacingOk then 0 else s.consecCnt

/-- One clock edge. -/
def step : SyncDetect where
  sreg := dibit.elim s.sreg s.sregShifted
  holdoffCnt :=
    if s.syncFire cfg dibit then 220
    else if dibit.isSome && s.holdoffCnt != 0 then s.holdoffCnt - 1 else s.holdoffCnt
  syncFound := s.syncFire cfg dibit
  slotPosition :=
    if dibit.isSome then
      if s.syncFire cfg dibit then 0 else if s.slotPosition = 254 then 0 else s.slotPosition + 1
    else s.slotPosition
  slotNumber :=
    if dibit.isSome && !s.syncFire cfg dibit && s.slotPosition == 254 then s.slotNumber + 1
    else s.slotNumber
  lockState := s.nextLockState cfg dibit
  spacingCnt :=
    if dibit.isSome then
      if s.syncFire cfg dibit then 0
      else if s.spacingCnt < 4095 then s.spacingCnt + 1 else s.spacingCnt
    else s.spacingCnt
  consecCnt := s.nextConsecCnt cfg dibit
  syncLocked := s.lockState == .lock
  corrPeak := dibit.elim s.corrPeak fun d ↦
    if s.corrPeak.toNat < corrSel cfg.seqSelect (s.sregShifted d) then
      .ofNat 6 (corrSel cfg.seqSelect (s.sregShifted d))
    else s.corrPeak

end SyncDetect

end TetraPhy.Rx
