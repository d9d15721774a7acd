import Mathlib.Data.List.GetD
import TetraPhy.Lib.Emission
import TetraPhy.Rx.SyncDetect
import TetraPhy.Tx.ContinuousDownlink

/-!
# Downlink framing

`tetra_burst_demux.v` behind `tetra_sync_detect.v`: in lock, the fields of a burst are captured by
the slot position, which a sync restarts, and emitted when block 2 is complete.

| slot position | captured                    |
|---------------|-----------------------------|
| 0 .. 14       | BB                          |
| 15 .. 122     | block 2                     |
| 123           | the burst is emitted        |
| 125 .. 232    | block 1 of the burst behind |

Fed with the normal bursts of the continuous downlink, the detector finds a sync in every burst.  The
lock however wants them a frame apart, four bursts, so it is never reached: **`framing_iff`**.
-/

namespace TetraPhy.Rx

open Tx

/-! ## The demultiplexer -/

/-- What a normal burst carries. -/
structure BurstFields where
  block1 : BitVec 216
  block2 : BitVec 216
  bb : BitVec 30
deriving DecidableEq, Repr

/-- The registers. -/
structure BurstDemux where
  running : Bool := false
  slotCnt : BitVec 2 := 0
  block1Pend : BitVec 216 := 0
  bbShift : BitVec 30 := 0
  block2Shift : BitVec 216 := 0
  block1Lat : BitVec 216 := 0
  slotAtSync : BitVec 2 := 0
  btypeAtSync : BitVec 2 := 0
  block1Captured : Bool := false
  block1Ready : Bool := false
  block1Data : BitVec 216 := 0
  block2Data : BitVec 216 := 0
  bbData : BitVec 30 := 0
  slotNumOut : BitVec 2 := 0
  slotValid : Bool := false
  burstType : BitVec 2 := 0
deriving DecidableEq, Repr

namespace BurstDemux

variable (b : BurstDemux) (sync : SyncDetect) (seqSelect : BitVec 2) (dibit : Option (BitVec 2))

/-- A register that captures the dibits at the slot positions from `first` to `last`. -/
def capture {n : ℕ} (first last : BitVec 8) (x : BitVec (n + 2)) : BitVec (n + 2) :=
  dibit.elim x fun d ↦
    if first ≤ sync.slotPosition ∧ sync.slotPosition ≤ last ∧ b.running = true then shiftDibit x d
    else x

/-- `emit_burst_sample`. -/
def emitBurst : Bool :=
  sync.slotPosition == 123 && dibit.isSome && b.block1Ready && b.running

/-- A sync while in lock. -/
def syncs : Bool := sync.syncFound && b.running

/-- One clock edge. -/
def step : BurstDemux where
  running := sync.syncLocked
  slotCnt := if !b.running then 0 else if sync.syncFound then b.slotCnt + 1 else b.slotCnt
  bbShift := b.capture sync dibit (n := 28) 0 14 b.bbShift
  block2Shift := b.capture sync dibit (n := 214) 15 122 b.block2Shift
  block1Pend := b.capture sync dibit (n := 214) 125 232 b.block1Pend
  block1Captured :=
    if !b.running then false
    else if sync.slotPosition == 232 && dibit.isSome then true else b.block1Captured
  block1Lat := if b.syncs sync then b.block1Pend else b.block1Lat
  slotAtSync := if b.syncs sync then b.slotCnt + 1 else b.slotAtSync
  btypeAtSync := if b.syncs sync then seqSelect else b.btypeAtSync
  block1Ready :=
    if !b.running then false else if b.syncs sync then b.block1Captured else b.block1Ready
  block1Data := if b.emitBurst sync dibit then b.block1Lat else b.block1Data
  block2Data := if b.emitBurst sync dibit then b.block2Shift else b.block2Data
  bbData := if b.emitBurst sync dibit then b.bbShift else b.bbData
  slotNumOut := if b.emitBurst sync dibit then b.slotAtSync else b.slotNumOut
  slotValid := b.emitBurst sync dibit
  burstType := if b.emitBurst sync dibit then b.btypeAtSync else b.burstType

/-- What is emitted. -/
def out : Option BurstFields :=
  if b.slotValid then some ⟨b.block1Data, b.block2Data, b.bbData⟩ else none

end BurstDemux

/-! ## The receiver -/

/-- The configuration for the normal training sequence. -/
def ntsConf (corrThreshold : BitVec 6) : SyncConf := ⟨corrThreshold, 0⟩

/-- The detector and the demultiplexer. -/
structure DlFraming where
  sync : SyncDetect := {}
  demux : BurstDemux := {}
deriving DecidableEq, Repr

namespace DlFraming

/-- One clock edge. -/
def step (corrThreshold : BitVec 6) (s : DlFraming) (dibit : Option (BitVec 2)) : DlFraming where
  sync := s.sync.step (ntsConf corrThreshold) dibit
  demux := s.demux.step s.sync 0 dibit

/-- What is emitted. -/
def out (s : DlFraming) : Option BurstFields := s.demux.out

end DlFraming

/-! ## The downlink -/

/-- The NDB1 burst of some fields. -/
def BurstFields.burst (f : BurstFields) : BitVec 510 := ndbBurst f.block1 f.block2 f.bb false

/-- Bursts without a gap. -/
def downlink (fs : List BurstFields) : List (BitVec 2) := fs.flatMap fun f ↦ dibits f.burst

/-- There are not as many matches as the threshold except where a training sequence ends. -/
def NoFalseMatch (corrThreshold : BitVec 6) (ds : List (BitVec 2)) : Prop :=
  ∀ t < ds.length, t % 255 ≠ 132 →
    corr 11 ntsRef (window (ds.take (t + 1))) < corrThreshold.toNat

/-- **After at most eight bursts every further one is emitted, once**; the last may be still to
come, as a burst is complete in the one behind it. -/
def Recovers (fs emitted : List BurstFields) : Prop :=
  ∃ k ≤ 8, ∃ early, emitted = early ++ fs.drop k ∨ emitted = early ++ fs.dropLast.drop k

/-- Nothing emitted is enough for up to nine bursts. -/
theorem recovers_nil_iff {fs : List BurstFields} : Recovers fs [] ↔ fs.length ≤ 9 := by
  constructor
  · rintro ⟨k, hk, early, h | h⟩
    · have hlen := congrArg List.length h
      rw [List.length_append, List.length_drop, List.length_nil] at hlen
      omega
    · have hlen := congrArg List.length h
      rw [List.length_append, List.length_drop, List.length_dropLast, List.length_nil] at hlen
      omega
  · intro hlen
    refine ⟨8, le_rfl, [], .inr ?_⟩
    rw [List.nil_append, List.drop_eq_nil_of_le (by rw [List.length_dropLast]; omega)]

/-! ## Every burst has a sync -/

/-- An element of a list of blocks of one length. -/
theorem getD_flatMap {α β : Type*} {f : α → List β} {n : ℕ} (hf : ∀ a, (f a).length = n) (d : β)
    (xs : List α) {q r : ℕ} (hr : r < n) :
    (xs.flatMap f).getD (n * q + r) d = (xs[q]?.elim [] f).getD r d := by
  induction xs generalizing q with
  | nil => simp
  | cons x xs ih =>
      rw [List.flatMap_cons]
      cases q with
      | zero =>
          rw [Nat.mul_zero, Nat.zero_add]
          exact List.getD_append _ _ _ _ (by rwa [hf x])
      | succ q =>
          have hn : n * (q + 1) + r = n + (n * q + r) := by
            rw [Nat.mul_succ]
            omega
          rw [List.getD_append_right _ _ _ _ (by rw [hf]; omega), hf, hn, Nat.add_sub_cancel_left, ih]
          rfl

theorem length_downlink (fs : List BurstFields) : (downlink fs).length = 255 * fs.length := by
  simp [downlink, List.length_flatMap, Nat.mul_comm]

/-- The dibits back from place `t`. -/
theorem getD_reverse_take {α : Type*} {xs : List α} {d : α} {t k : ℕ} (ht : t < xs.length)
    (hk : k ≤ t) : (xs.take (t + 1)).reverse.getD k d = xs.getD (t - k) d := by
  have hlen : (xs.take (t + 1)).length = t + 1 := by
    rw [List.length_take]
    omega
  have hlt : k < (xs.take (t + 1)).reverse.length := by
    rw [List.length_reverse, hlen]
    omega
  rw [List.getD_eq_getElem _ _ hlt, List.getD_eq_getElem _ _ (by omega), List.getElem_reverse,
    List.getElem_take]
  congr 1
  omega

/-- The matches at place `t`, from the dibits up to there. -/
theorem corr_window_take {ds : List (BitVec 2)} {t : ℕ} (ht : t < ds.length) :
    corr 11 ntsRef (window (ds.take (t + 1))) = (List.range 11).countP fun k ↦
      (if k ≤ t then ds.getD (t - k) 0 else 0) == ntsRef.extractLsb' (2 * k) 2 := by
  refine List.countP_congr fun k hk ↦ ?_
  have hk := List.mem_range.1 hk
  rw [extractLsb'_window _ (by omega)]
  split_ifs with hkt
  · rw [getD_reverse_take ht hkt]
  · rw [List.getD_eq_default]
    rw [List.length_reverse, List.length_take]
    omega

/-- A dibit of a burst. -/
theorem getD_dibits (f : BurstFields) {j : ℕ} (hj : j < 255) :
    (dibits f.burst).getD j 0 = f.burst.extractLsb' (508 - 2 * j) 2 := by
  rw [dibits, List.getD_eq_getElem _ _ (by simp [hj]), List.getElem_map, List.getElem_range]

/-- A dibit of the downlink. -/
theorem getD_downlink {fs : List BurstFields} {j : ℕ} (hj : j / 255 < fs.length) :
    (downlink fs).getD j 0 = fs[j / 255].burst.extractLsb' (508 - 2 * (j % 255)) 2 := by
  have hmod : j % 255 < 255 := Nat.mod_lt _ (by decide)
  have hplace : (downlink fs).getD (255 * (j / 255) + j % 255) 0 = _ :=
    getD_flatMap (fun f : BurstFields ↦ length_dibits f.burst) _ _ hmod
  rwa [Nat.div_add_mod, List.getElem?_eq_getElem hj, Option.elim_some, getD_dibits _ hmod] at hplace

/-- The dibits of the training sequence. -/
theorem extractLsb'_training (f : BurstFields) {k : ℕ} (hk : k < 11) :
    f.burst.extractLsb' (508 - 2 * (132 - k)) 2 = ntsRef.extractLsb' (2 * k) 2 := by
  have htraining : burstTraining f.burst = ntsRef :=
    (fields_ndbBurst f.block1 f.block2 f.bb false).2.1
  rw [← htraining, burstTraining]
  refine BitVec.eq_of_getLsbD_eq fun i hi ↦ ?_
  have hlt : 2 * k + i < 22 := by omega
  have hplace : 508 - 2 * (132 - k) + i = 244 + (2 * k + i) := by omega
  simp only [BitVec.getLsbD_extractLsb', hi, hlt, hplace, decide_true, Bool.true_and]

/-- **At the end of each training sequence all dibits match.** -/
theorem corr_training {fs : List BurstFields} {t : ℕ} (ht : t < (downlink fs).length)
    (hmod : t % 255 = 132) : corr 11 ntsRef (window ((downlink fs).take (t + 1))) = 11 := by
  have hlen := length_downlink fs
  rw [corr_window_take ht]
  refine (List.countP_eq_length.2 fun k hk ↦ ?_).trans List.length_range
  have hk := List.mem_range.1 hk
  have hplace : (t - k) % 255 = 132 - k := by omega
  rw [if_pos (by omega), getD_downlink (by omega), hplace, extractLsb'_training _ hk,
    beq_self_eq_true]

/-! ## No lock -/

/-- After the dibits `ds` of a downlink the detector waits for the first sync, or counts the
dibits since the last one, of which there is one in each burst. -/
structure Unlocked (corrThreshold : BitVec 6) (ds : List (BitVec 2)) (s : SyncDetect) : Prop where
  sreg : s.sreg = window ds
  notLocked : s.syncLocked = false
  consec : s.consecCnt.toNat ≤ 1
  phase : s.lockState = .hunt ∧ s.holdoffCnt = 0 ∧ (corrThreshold.toNat ≤ 11 → ds.length ≤ 132) ∨
    s.lockState = .acquire ∧ corrThreshold.toNat ≤ 11 ∧ 133 ≤ ds.length ∧
      s.spacingCnt.toNat = (ds.length - 133) % 255 ∧
      s.holdoffCnt.toNat = 220 - (ds.length - 133) % 255

theorem unlocked_reset (corrThreshold : BitVec 6) : Unlocked corrThreshold [] {} :=
  ⟨rfl, rfl, by decide, .inl ⟨rfl, rfl, fun _ ↦ Nat.zero_le _⟩⟩

variable {corrThreshold : BitVec 6} {ds : List (BitVec 2)} {s : SyncDetect}

/-- Few syncs in a row are well spaced. -/
theorem Unlocked.consec_lt (h : Unlocked corrThreshold ds s) : s.consecCnt < 4#3 :=
  Nat.lt_of_le_of_lt h.consec (by decide)

/-- Without a dibit the detector waits. -/
theorem Unlocked.step_none (h : Unlocked corrThreshold ds s) :
    Unlocked corrThreshold ds (s.step (ntsConf corrThreshold) none) := by
  have hfire : s.syncFire (ntsConf corrThreshold) none = false := rfl
  obtain ⟨hstate, hhold, hlen⟩ | ⟨hstate, hthr, hlen, hspacing, hhold⟩ := h.phase
  · refine ⟨h.sreg, ?_, ?_, .inl ⟨?_, ?_, hlen⟩⟩
    · simp [SyncDetect.step, hstate]
    · simpa [SyncDetect.step, SyncDetect.nextConsecCnt, hstate, hfire] using h.consec
    · simp [SyncDetect.step, SyncDetect.nextLockState, hstate, hfire]
    · simpa [SyncDetect.step, hfire] using hhold
  · refine ⟨h.sreg, ?_, ?_, .inr ⟨?_, hthr, hlen, ?_, ?_⟩⟩
    · simp [SyncDetect.step, hstate]
    · simpa [SyncDetect.step, SyncDetect.nextConsecCnt, hstate, hfire] using h.consec
    · simpa [SyncDetect.step, SyncDetect.nextLockState, hstate] using h.consec_lt
    · simpa [SyncDetect.step] using hspacing
    · simpa [SyncDetect.step, hfire] using hhold

/-- A sync fires where a training sequence ends, if the threshold can be met, and nowhere else. -/
theorem Unlocked.syncFire_iff (h : Unlocked corrThreshold ds s) {d : BitVec 2}
    (hhit : ds.length % 255 = 132 → corr 11 ntsRef (window (ds ++ [d])) = 11)
    (hmiss : ds.length % 255 ≠ 132 →
      corr 11 ntsRef (window (ds ++ [d])) < corrThreshold.toNat) :
    s.syncFire (ntsConf corrThreshold) (some d) = true ↔
      corrThreshold.toNat ≤ 11 ∧ ds.length % 255 = 132 := by
  have hsel : corrSel 0 (s.sregShifted d) = corr 11 ntsRef (window (ds ++ [d])) := by
    rw [window_concat, ← h.sreg]
    rfl
  have hfire : s.syncFire (ntsConf corrThreshold) (some d) = true ↔
      corrThreshold.toNat ≤ corr 11 ntsRef (window (ds ++ [d])) ∧ s.holdoffCnt = 0 := by
    rw [← hsel]
    simp only [SyncDetect.syncFire, Option.any_some, Bool.and_eq_true, decide_eq_true_eq, beq_iff_eq]
    rfl
  rw [hfire]
  by_cases hend : ds.length % 255 = 132
  · have hhold : s.holdoffCnt = 0 := by
      obtain ⟨-, hhold, -⟩ | ⟨-, -, hlen, -, hhold⟩ := h.phase
      · exact hhold
      · refine BitVec.eq_of_toNat_eq (hhold.trans ?_)
        change _ = 0
        omega
    rw [hhit hend]
    exact ⟨fun hf ↦ ⟨hf.1, hend⟩, fun hf ↦ ⟨hf.1, hhold⟩⟩
  · exact iff_of_false (fun hf ↦ absurd (hmiss hend) (Nat.not_lt.2 hf.1)) fun hf ↦ hend hf.2

/-- **No dibit brings the lock nearer**: the syncs are one burst apart, and count as one. -/
theorem Unlocked.step_some (h : Unlocked corrThreshold ds s) {d : BitVec 2}
    (hhit : ds.length % 255 = 132 → corr 11 ntsRef (window (ds ++ [d])) = 11)
    (hmiss : ds.length % 255 ≠ 132 →
      corr 11 ntsRef (window (ds ++ [d])) < corrThreshold.toNat) :
    Unlocked corrThreshold (ds ++ [d]) (s.step (ntsConf corrThreshold) (some d)) := by
  have hiff := h.syncFire_iff hhit hmiss
  have hlen' : (ds ++ [d]).length = ds.length + 1 := List.length_append
  have hsreg : (s.step (ntsConf corrThreshold) (some d)).sreg = window (ds ++ [d]) := by
    rw [window_concat, ← h.sreg]
    rfl
  cases hfire : s.syncFire (ntsConf corrThreshold) (some d) with
  | true =>
      obtain ⟨hthr, hend⟩ := hiff.1 hfire
      have hnew : (s.step (ntsConf corrThreshold) (some d)).spacingCnt = 0 ∧
          (s.step (ntsConf corrThreshold) (some d)).holdoffCnt = 220 := by
        simp [SyncDetect.step, hfire]
      have hphase : (s.step (ntsConf corrThreshold) (some d)).lockState = .acquire ∧
          (s.step (ntsConf corrThreshold) (some d)).consecCnt = 1 ∧
          (s.step (ntsConf corrThreshold) (some d)).syncLocked = false := by
        obtain ⟨hstate, -, -⟩ | ⟨hstate, -, hlen, hspacing, -⟩ := h.phase
        · simp [SyncDetect.step, SyncDetect.nextLockState, SyncDetect.nextConsecCnt, hstate, hfire]
        · have hbad : s.spacingOk = false := by
            have h254 : s.spacingCnt = 254 := by
              refine BitVec.eq_of_toNat_eq (hspacing.trans ?_)
              change _ = 254
              omega
            rw [SyncDetect.spacingOk, h254]
            decide
          have hlt := h.consec_lt
          simp [SyncDetect.step, SyncDetect.nextLockState, SyncDetect.nextConsecCnt, hstate, hfire,
            hbad, hlt]
      obtain ⟨hstate, hone, hlocked⟩ := hphase
      refine ⟨hsreg, hlocked, by rw [hone]; decide, .inr ⟨hstate, hthr, by omega, ?_, ?_⟩⟩
      · rw [hnew.1, hlen']
        change 0 = _
        omega
      · rw [hnew.2, hlen']
        change 220 = _
        omega
  | false =>
      have hend : corrThreshold.toNat ≤ 11 → ds.length % 255 ≠ 132 := fun hthr hend ↦
        absurd (hfire.symm.trans (hiff.2 ⟨hthr, hend⟩)) (by decide)
      obtain ⟨hstate, hhold, hlen⟩ | ⟨hstate, hthr, hlen, hspacing, hhold⟩ := h.phase
      · refine ⟨hsreg, ?_, ?_, .inl ⟨?_, ?_, fun hthr ↦ ?_⟩⟩
        · simp [SyncDetect.step, hstate]
        · simpa [SyncDetect.step, SyncDetect.nextConsecCnt, hstate, hfire] using h.consec
        · simp [SyncDetect.step, SyncDetect.nextLockState, hstate, hfire]
        · simp [SyncDetect.step, hfire, hhold]
        · have := hlen hthr
          have := hend hthr
          omega
      · have hmod := hend hthr
        have hsmall : s.spacingCnt.toNat < 254 := by omega
        have htimeout : s.spacingTimeout = false := by
          rw [SyncDetect.spacingTimeout, decide_eq_false_iff_not, BitVec.lt_def]
          change ¬ 3060 < _
          omega
        have hcount : s.spacingCnt < 4095 := by
          rw [BitVec.lt_def]
          change _ < 4095
          omega
        refine ⟨hsreg, ?_, ?_, .inr ⟨?_, hthr, by omega, ?_, ?_⟩⟩
        · simp [SyncDetect.step, hstate]
        · simpa [SyncDetect.step, SyncDetect.nextConsecCnt, hstate, hfire, htimeout] using h.consec
        · simpa [SyncDetect.step, SyncDetect.nextLockState, hstate, hfire, htimeout] using
            h.consec_lt
        · have hstep : (s.step (ntsConf corrThreshold) (some d)).spacingCnt = s.spacingCnt + 1 := by
            simp only [SyncDetect.step, hfire, Option.isSome_some, if_true, Bool.false_eq_true,
              if_false, if_pos hcount]
          rw [hstep, BitVec.toNat_add, hlen']
          change (_ + 1) % 4096 = _
          omega
        · have hstep : (s.step (ntsConf corrThreshold) (some d)).holdoffCnt =
              if s.holdoffCnt = 0 then 0 else s.holdoffCnt - 1 := by
            by_cases hz : s.holdoffCnt = 0#8 <;> simp [SyncDetect.step, hfire, hz]
          rw [hstep, hlen']
          split_ifs with hz
          · rw [hz] at hhold
            change 0 = _ at hhold ⊢
            omega
          · have hpos : 1 ≤ s.holdoffCnt.toNat :=
              Nat.one_le_iff_ne_zero.2 fun he ↦ hz (BitVec.eq_of_toNat_eq he)
            rw [BitVec.toNat_sub_of_le hpos]
            change _ - 1 = _
            omega

/-! ## Nothing is emitted -/

namespace DlFraming

/-- After the dibits `ds` of a downlink there is no lock, and the demultiplexer waits for it. -/
structure Waiting (corrThreshold : BitVec 6) (ds : List (BitVec 2)) (s : DlFraming) : Prop where
  unlocked : Unlocked corrThreshold ds s.sync
  running : s.demux.running = false

/-- A demultiplexer that waits emits nothing. -/
theorem Waiting.out_step {s : DlFraming} (h : Waiting corrThreshold ds s)
    (dibit : Option (BitVec 2)) : (s.step corrThreshold dibit).out = none := by
  have hemit : s.demux.emitBurst s.sync dibit = false := by
    rw [BurstDemux.emitBurst, h.running, Bool.and_false]
  have hvalid : (s.step corrThreshold dibit).demux.slotValid = false := hemit
  rw [out, BurstDemux.out, hvalid]
  rfl

/-- **What is fed of a downlink leads to no lock**, with cycles without a dibit in between. -/
theorem Waiting.emitted_eq_nil {fs : List BurstFields}
    (hfalse : NoFalseMatch corrThreshold (downlink fs)) {s : DlFraming}
    (h : Waiting corrThreshold ds s) {es : List (Option (BitVec 2))}
    (hes : ds ++ es.filterMap id = downlink fs) :
    Run.emitted (step corrThreshold) out s es = [] := by
  induction es generalizing ds s with
  | nil => rfl
  | cons e es ih =>
      rw [Run.emitted_cons_of_none (h.out_step e)]
      cases e with
      | none => exact ih ⟨h.unlocked.step_none, h.unlocked.notLocked⟩ hes
      | some d =>
          have hsplit : (ds ++ [d]) ++ es.filterMap id = downlink fs := by
            rw [← hes, List.append_assoc]
            rfl
          have hlt : ds.length < (downlink fs).length := by
            rw [← hsplit, List.length_append, List.length_append, List.length_singleton]
            omega
          have htake : (downlink fs).take (ds.length + 1) = ds ++ [d] := by
            rw [← hsplit]
            exact List.take_left' List.length_append
          have hhit := corr_training hlt
          have hmiss := hfalse _ hlt
          rw [htake] at hhit hmiss
          exact ih ⟨h.unlocked.step_some hhit hmiss, h.unlocked.notLocked⟩ hsplit

/-! ### The same burst again and again -/

/-- The dibits before place `t` of a burst, with the same burst before it or, in the first one,
nothing. -/
theorem noFalseMatch_replicate {f : BurstFields}
    (hfirst : ∀ t < 255, t ≠ 132 → ((List.range 11).countP fun k ↦
      (if k ≤ t then f.burst.extractLsb' (508 - 2 * (t - k)) 2 else 0) ==
        ntsRef.extractLsb' (2 * k) 2) < 11)
    (hlater : ∀ t < 255, t ≠ 132 → ((List.range 11).countP fun k ↦
      f.burst.extractLsb' (508 - 2 * ((t + 255 - k) % 255)) 2 == ntsRef.extractLsb' (2 * k) 2) < 11)
    (n : ℕ) : NoFalseMatch 11 (downlink (List.replicate n f)) := by
  intro t ht hmod
  have hlen := length_downlink (List.replicate n f)
  rw [List.length_replicate] at hlen
  have hdibit : ∀ k ≤ t, (downlink (List.replicate n f)).getD (t - k) 0 =
      f.burst.extractLsb' (508 - 2 * ((t - k) % 255)) 2 := by
    intro k hk
    rw [getD_downlink (by rw [List.length_replicate]; omega), List.getElem_replicate]
  rw [corr_window_take ht]
  by_cases hearly : t < 255
  · refine lt_of_eq_of_lt (List.countP_congr fun k _ ↦ ?_) (hfirst t hearly (by omega))
    split_ifs with hk
    · rw [hdibit k hk, Nat.mod_eq_of_lt (by omega)]
    · rfl
  · refine lt_of_eq_of_lt (List.countP_congr fun k hk ↦ ?_)
      (hlater (t % 255) (Nat.mod_lt _ (by decide)) hmod)
    have hk := List.mem_range.1 hk
    have hplace : (t - k) % 255 = (t % 255 + 255 - k) % 255 := by omega
    rw [if_pos (by omega), hdibit k (by omega), hplace]

/-- Ten bursts of zeros. -/
def zeroBursts : List BurstFields := List.replicate 10 ⟨0, 0, 0⟩

theorem noFalseMatch_zeroBursts : NoFalseMatch 11 (downlink zeroBursts) :=
  noFalseMatch_replicate (by decide +kernel) (by decide +kernel) 10

theorem filterMap_map_some (ds : List (BitVec 2)) : (ds.map some).filterMap id = ds := by
  rw [List.filterMap_map, Function.id_comp, List.filterMap_some]

/-! ### Framing -/

/-- **No burst of a downlink is ever emitted**, so none further is after eight exactly if there are
none: with up to nine bursts, as the last one is complete in the one behind it. -/
theorem framing_iff (corrThreshold : BitVec 6) (fs : List BurstFields)
    (es : List (Option (BitVec 2))) (hes : es.filterMap id = downlink fs)
    (hfalse : NoFalseMatch corrThreshold (downlink fs)) :
    Recovers fs (Run.emitted (step corrThreshold) out {} es) ↔ fs.length ≤ 9 := by
  have hnil : Run.emitted (step corrThreshold) out {} es = [] :=
    Waiting.emitted_eq_nil hfalse ⟨unlocked_reset corrThreshold, rfl⟩ hes
  rw [hnil]
  exact recovers_nil_iff

/-- The rule at these bursts. -/
theorem framing_zeroBursts : Recovers zeroBursts (Run.emitted (step 11) out {}
      ((downlink zeroBursts).map some)) ↔ zeroBursts.length ≤ 9 :=
  framing_iff 11 zeroBursts _ (filterMap_map_some _) noFalseMatch_zeroBursts

/-- **The tenth burst is fed, and the ninth is not emitted.** -/
theorem not_recovers_zeroBursts : NoFalseMatch 11 (downlink zeroBursts) ∧
    ¬ Recovers zeroBursts (Run.emitted (step 11) out {} ((downlink zeroBursts).map some)) := by
  have hnil : Run.emitted (step 11) out {} ((downlink zeroBursts).map some) = [] :=
    Waiting.emitted_eq_nil noFalseMatch_zeroBursts ⟨unlocked_reset 11, rfl⟩
      (filterMap_map_some _)
  refine ⟨noFalseMatch_zeroBursts, ?_⟩
  rw [hnil, recovers_nil_iff]
  decide

end DlFraming

end TetraPhy.Rx
