import TetraPhy.Lib.Run
import TetraPhy.Rx.NubCapture
import TetraPhy.Rx.SyncDetectOs4

/-!
# The anchor of an uplink burst

As `tetra_rx_chain.v` wires them, a detector and a capture machine count the same samples.  A cycle
after the sample that made the detector fire, the machine takes the sample's number and the
distance of its phase from the reported one, and goes back as far.

| reported phase                 | it goes back to                        | the window ended at |
|--------------------------------|----------------------------------------|---------------------|
| another than the sample's      | the last sample of that phase          | the same            |
| the sample's own               | the sample itself                      | four samples before |

The second happens when the window was full four samples before already, and the threshold was
met, but not the hold-off over.  **`anchor_iff`**: the anchor is right exactly if the window of the
sample's phase is beaten by another.
-/

namespace TetraPhy.Rx

/-! ## Capture machines -/

/-- What matters of a capture machine for its anchor. -/
structure Capturer (w : ℕ) (σ : Type) where
  step : σ → CaptureIn → σ
  ring : σ → CaptureRing w
  idle : σ → Bool
  anchorIdx : σ → BitVec w
  ring_step : ∀ c i, ring (step c i) = (ring c).step i.sample
  anchorIdx_step : ∀ c i, anchorIdx (step c i) =
    if idle c && i.syncFound then (ring c).anchorCalc i.bestPhase else anchorIdx c

/-- `tetra_ul_burst_capture.v`. -/
def burstCapturer : Capturer 9 BurstCapture where
  step := BurstCapture.step
  ring := BurstCapture.ring
  idle c := c.state == .idle
  anchorIdx := BurstCapture.anchorIdx
  ring_step _ _ := BurstCapture.ring_step
  anchorIdx_step _ _ := BurstCapture.anchorIdx_step

/-- `tetra_ul_nub_capture.v`. -/
def nubCapturer : Capturer 10 NubCapture where
  step := NubCapture.step
  ring := NubCapture.ring
  idle c := c.state == .idle
  anchorIdx := NubCapture.anchorIdx
  ring_step _ _ := NubCapture.ring_step
  anchorIdx_step _ _ := NubCapture.anchorIdx_step

/-! ## The system -/

/-- The registers.  Beside them stand the number of samples, the number of the one that was shifted
into each window last, that of the window of the last detection, as it was then, and the same for
the last detection that the capture machine took. -/
structure UlSync (σ : Type) where
  det : SyncDetectOs4 := {}
  cap : σ
  count : ℕ := 0
  lastIn : BitVec 2 → Option ℕ := fun _ ↦ none
  matched : Option ℕ := none
  accepted : Option (Option ℕ) := none

namespace UlSync

variable {w : ℕ} {σ : Type} (C : Capturer w σ) (P : SyncParams) (s : UlSync σ) (i : DetectIn)

/-- One clock edge. -/
def step : UlSync σ where
  det := s.det.step P i
  cap := C.step s.cap ⟨i.sample, s.det.syncFound, s.det.bestPhase⟩
  count := if i.sample.valid then s.count + 1 else s.count
  lastIn := if i.sample.valid then Function.update s.lastIn s.det.phaseCnt (some s.count)
    else s.lastIn
  matched := if s.det.syncFire P i then s.lastIn (s.det.bestPhaseW P) else s.matched
  accepted := if C.idle s.cap && s.det.syncFound then some s.matched else s.accepted

/-- **The anchor is right**: of the detection that was taken last it is the place of the sample that
was last in the window that matched. -/
def AnchorRight : Prop := ∀ m, s.accepted = some m →
  ∃ n, m = some n ∧ C.anchorIdx s.cap = BitVec.ofNat w n

/-- A detection that the capture machine takes comes at a sample whose own window is beaten. -/
def Clear : Prop := s.det.syncFire P i = true → C.idle (s.step C P i).cap = true →
  s.det.Beaten P s.det.phaseCnt

/-! ## What the registers hold -/

/-- The last of the first `n` samples in phase `k`. -/
def lastOf (k : BitVec 2) (n : ℕ) : Option ℕ :=
  if k.toNat < n then some (n - 1 - (n - 1 - k.toNat) % 4) else none

/-- The registers after `count` samples, and what is known at a detection. -/
structure Counts (s : UlSync σ) : Prop where
  phase : s.det.phaseCnt = BitVec.ofNat 2 s.count
  capPhase : (C.ring s.cap).phaseCnt = BitVec.ofNat 2 s.count
  wp : (C.ring s.cap).ring.wp = BitVec.ofNat w s.count
  lastIn : ∀ k, s.lastIn k = lastOf k s.count
  empty : ∀ k : BitVec 2, s.count ≤ k.toNat → s.det.sreg k = 0
  found : s.det.syncFound = true → s.det.bestPhase.toNat < s.count ∧
    s.matched = lastOf s.det.bestPhase (s.count - 1)

variable {C P s i}

theorem lastOf_succ (k : BitVec 2) (n : ℕ) :
    lastOf k (n + 1) = if k = BitVec.ofNat 2 n then some n else lastOf k n := by
  have hk := k.isLt
  have hiff : k = BitVec.ofNat 2 n ↔ k.toNat = n % 4 := by
    rw [← BitVec.toNat_inj, BitVec.toNat_ofNat]
  rw [lastOf, lastOf]
  by_cases hph : k.toNat = n % 4
  · rw [if_pos (hiff.2 hph), if_pos (by omega)]
    congr 1
    omega
  · rw [if_neg (mt hiff.1 hph)]
    split_ifs
    · congr 1
      omega
    · omega
    · omega
    · rfl

/-- A window that is still empty is beaten by one that is so before it. -/
theorem Counts.bestPhaseW_le (h : Counts C s) : (s.det.bestPhaseW P).toNat ≤ s.count := by
  by_contra hgt
  have hlt := (s.det.bestPhaseW P).isLt
  have hcount : (BitVec.ofNat 2 s.count).toNat = s.count := by
    rw [BitVec.toNat_ofNat]
    omega
  refine (s.det.bestPhaseW_eq_iff (s.det.bestPhaseW P)).1 rfl
    ⟨BitVec.ofNat 2 s.count, .inl ⟨?_, Nat.le_of_eq ?_⟩⟩
  · rw [BitVec.lt_def, hcount]
    omega
  · rw [SyncDetectOs4.corr, SyncDetectOs4.corr, h.empty _ (by omega), h.empty _ (by omega)]

theorem Counts.step (h : Counts C s) : Counts C (s.step C P i) := by
  have hring : C.ring (s.step C P i).cap = (C.ring s.cap).step i.sample := C.ring_step _ _
  cases hv : i.sample.valid with
  | false =>
      have hfire : s.det.syncFire P i = false := by rw [SyncDetectOs4.syncFire, hv]; rfl
      have hcount : (s.step C P i).count = s.count := by simp [UlSync.step, hv]
      refine ⟨?_, ?_, ?_, fun k ↦ ?_, fun k hk ↦ ?_, fun hf ↦ ?_⟩
      · simpa [UlSync.step, SyncDetectOs4.step, hv] using h.phase
      · rw [hring, hcount, CaptureRing.step, hv]
        exact h.capPhase
      · rw [hring, hcount, CaptureRing.step, hv]
        exact h.wp
      · simpa [UlSync.step, hv] using h.lastIn k
      · rw [hcount] at hk
        simpa [UlSync.step, SyncDetectOs4.step, hv] using h.empty k hk
      · exact absurd (hfire.symm.trans hf) (by decide)
  | true =>
      have hcount : (s.step C P i).count = s.count + 1 := by simp [UlSync.step, hv]
      refine ⟨?_, ?_, ?_, fun k ↦ ?_, fun k hk ↦ ?_, fun hf ↦ ?_⟩
      · rw [hcount, BitVec.ofNat_add, ← h.phase]
        simp [UlSync.step, SyncDetectOs4.step, hv]
      · rw [hring, hcount, CaptureRing.step, hv, BitVec.ofNat_add, ← h.capPhase]
        rfl
      · rw [hring, hcount, CaptureRing.step, hv, BitVec.ofNat_add, ← h.wp]
        rfl
      · rw [hcount, lastOf_succ, ← h.lastIn, ← h.phase]
        simp only [UlSync.step, hv, if_true, Function.update_apply]
      · rw [hcount] at hk
        have hne : k ≠ s.det.phaseCnt := by
          intro heq
          have hlt := k.isLt
          rw [heq, h.phase, BitVec.toNat_ofNat] at hk hlt
          omega
        simp only [UlSync.step, SyncDetectOs4.step, hv, if_true, Function.update_of_ne hne]
        exact h.empty k (by omega)
      · have hfire : s.det.syncFire P i = true := hf
        have hbest : (s.step C P i).det.bestPhase = s.det.bestPhaseW P := if_pos hfire
        have hmatched : (s.step C P i).matched = s.lastIn (s.det.bestPhaseW P) := if_pos hfire
        rw [hbest, hmatched, hcount, h.lastIn, Nat.add_sub_cancel]
        exact ⟨Nat.lt_succ_of_le h.bestPhaseW_le, rfl⟩

theorem counts_reset {cap : σ} (hphase : (C.ring cap).phaseCnt = 0)
    (hwp : (C.ring cap).ring.wp = 0) : Counts C { cap := cap } :=
  ⟨rfl, hphase, hwp, fun _ ↦ rfl, fun _ _ ↦ rfl, fun h ↦ absurd h Bool.false_ne_true⟩

/-! ## The anchor -/

/-- How far the capture machine goes back. -/
theorem Counts.anchorCalc_eq (h : Counts C s) {k : BitVec 2} (hk : k.toNat < s.count) :
    (C.ring s.cap).anchorCalc k =
      BitVec.ofNat w (s.count - 1 - (s.count - 1 - k.toNat) % 4) := by
  have hlt := k.isLt
  have hdelta : ((C.ring s.cap).delta k).toNat = (s.count - 1 - k.toNat) % 4 := by
    rw [CaptureRing.delta, h.capPhase, BitVec.toNat_sub, BitVec.toNat_add, BitVec.toNat_ofNat]
    show (4 - k.toNat + (s.count % 4 + 3) % 4) % 4 = _
    omega
  generalize hd : (s.count - 1 - k.toNat) % 4 = d at hdelta ⊢
  have hsplit : s.count = s.count - 1 - d + 1 + d := by omega
  have hback : (C.ring s.cap).anchorCalc k = BitVec.ofNat w s.count - BitVec.ofNat w d - 1#w := by
    rw [CaptureRing.anchorCalc, h.wp, ← hdelta, BitVec.ofNat_toNat]
    rfl
  rw [hback, hsplit, BitVec.ofNat_add, BitVec.add_sub_cancel, BitVec.ofNat_add,
    BitVec.add_sub_cancel]
  exact congrArg (BitVec.ofNat w) (by omega)

/-- **A detection that is taken has the right anchor exactly if it reports another phase than that
of the sample it came with.** -/
theorem Counts.anchorRight_iff (h : Counts C s) (hw : 3 ≤ w) (hf : s.det.syncFound = true)
    (hidle : C.idle s.cap = true) : AnchorRight C (s.step C P i) ↔
      s.det.bestPhase ≠ BitVec.ofNat 2 (s.count - 1) := by
  obtain ⟨hk, hmatched⟩ := h.found hf
  have haccepted : (s.step C P i).accepted = some s.matched := by
    simp [UlSync.step, hidle, hf]
  have hanchor : C.anchorIdx (s.step C P i).cap =
      BitVec.ofNat w (s.count - 1 - (s.count - 1 - s.det.bestPhase.toNat) % 4) := by
    rw [← h.anchorCalc_eq hk]
    refine (C.anchorIdx_step _ _).trans (if_pos ?_)
    rw [hidle, hf]
    rfl
  have hlt := s.det.bestPhase.isLt
  have hiff : s.det.bestPhase = BitVec.ofNat 2 (s.count - 1) ↔
      s.det.bestPhase.toNat = (s.count - 1) % 4 := by
    rw [← BitVec.toNat_inj, BitVec.toNat_ofNat]
  rw [AnchorRight, haccepted, hanchor, hmatched, Ne, hiff, lastOf]
  constructor
  · intro hright hown
    obtain ⟨n, hn, hplace⟩ := hright _ rfl
    split_ifs at hn with hsome
    rw [Option.some.injEq] at hn
    -- the machine stays at the sample itself, a symbol too far
    have hpow : 2 ^ 3 ≤ 2 ^ w := Nat.pow_le_pow_right (by decide) hw
    have hfar : n < s.count - 1 - (s.count - 1 - s.det.bestPhase.toNat) % 4 := by omega
    exact Ring.place_inj hfar (by omega) hplace.symm
  · rintro hne m hm
    rw [Option.some.injEq] at hm
    have hsome : s.det.bestPhase.toNat < s.count - 1 := by omega
    rw [if_pos hsome] at hm
    refine ⟨_, hm.symm, congrArg (BitVec.ofNat w) ?_⟩
    omega

/-- What a detection reports, in terms of the windows it was fired on. -/
theorem Counts.fired (h : Counts C s) (hf : s.det.syncFire P i = true) :
    (s.step C P i).det.bestPhase ≠ BitVec.ofNat 2 ((s.step C P i).count - 1) ↔
      s.det.Beaten P s.det.phaseCnt := by
  have hv : i.sample.valid = true := by
    rw [SyncDetectOs4.syncFire, Bool.and_eq_true, Bool.and_eq_true] at hf
    exact hf.1.1
  have hcount : (s.step C P i).count = s.count + 1 := by simp [UlSync.step, hv]
  have hbest : (s.step C P i).det.bestPhase = s.det.bestPhaseW P := if_pos hf
  rw [hbest, hcount, Nat.add_sub_cancel, ← h.phase, Ne, SyncDetectOs4.bestPhaseW_eq_iff, not_not]

/-- What is kept along a run whose detections are clear. -/
structure Sound (C : Capturer w σ) (s : UlSync σ) : Prop where
  right : AnchorRight C s
  found : s.det.syncFound = true → C.idle s.cap = true →
    s.det.bestPhase ≠ BitVec.ofNat 2 (s.count - 1)

theorem Sound.step (hw : 3 ≤ w) (h : Counts C s) (hs : Sound C s) (hclear : Clear C P s i) :
    Sound C (s.step C P i) := by
  refine ⟨?_, fun hf hidle ↦ (h.fired hf).2 (hclear hf hidle)⟩
  by_cases htaken : s.det.syncFound = true ∧ C.idle s.cap = true
  · exact (h.anchorRight_iff hw htaken.1 htaken.2).2 (hs.found htaken.1 htaken.2)
  · have hnone : (C.idle s.cap && s.det.syncFound) = false := by
      rw [← Bool.not_eq_true, Bool.and_eq_true]
      exact fun hboth ↦ htaken hboth.symm
    have haccepted : (s.step C P i).accepted = s.accepted := if_neg (by simp [hnone])
    have hanchor : C.anchorIdx (s.step C P i).cap = C.anchorIdx s.cap :=
      (C.anchorIdx_step _ _).trans (if_neg (by simp [hnone]))
    rw [AnchorRight, haccepted, hanchor]
    exact hs.right

/-- For which detections the anchor is right: in a run whose detections are clear it is always so,
and at each detection that the machine takes, exactly if it is clear. -/
def AnchorExact (C : Capturer w σ) (P : SyncParams) (s : UlSync σ) : Prop :=
  (∀ es, Run.Along (UlSync.step C P) (Clear C P) s es →
    Run.Throughout (UlSync.step C P) (AnchorRight C) s es) ∧
  ∀ es i j, (Run.exec (UlSync.step C P) s es).det.syncFire P i = true →
    C.idle (Run.exec (UlSync.step C P) s (es ++ [i])).cap = true →
    (AnchorRight C (Run.exec (UlSync.step C P) s (es ++ [i, j])) ↔
      (Run.exec (UlSync.step C P) s es).det.Beaten P
        (Run.exec (UlSync.step C P) s es).det.phaseCnt)

theorem anchorExact (hw : 3 ≤ w) {cap : σ} (hphase : (C.ring cap).phaseCnt = 0)
    (hwp : (C.ring cap).ring.wp = 0) : AnchorExact C P { cap := cap } := by
  have hreset : Counts C { cap := cap } := counts_reset hphase hwp
  refine ⟨fun es hclear ↦ ?_, fun es i j hfire hidle ↦ ?_⟩
  · have hsound : Run.Throughout (UlSync.step C P)
        (fun s ↦ Counts C s ∧ Sound C s) { cap := cap } es := by
      refine hclear.throughout (UlSync.step C P) (fun s i hs hc ↦ ?_) ⟨hreset, ?_, ?_⟩
      · exact ⟨hs.1.step, hs.2.step hw hs.1 hc⟩
      · exact fun m hm ↦ absurd hm (Option.some_ne_none m).symm
      · exact fun hf ↦ absurd hf Bool.false_ne_true
    exact hsound.imp (UlSync.step C P) fun s hs ↦ hs.2.right
  · have hcounts : Counts C (Run.exec (UlSync.step C P) { cap := cap } es) :=
      Run.exec_induction (UlSync.step C P) (fun s i hs ↦ hs.step) hreset es
    rw [Run.exec_append] at hidle ⊢
    rw [← hcounts.fired hfire]
    exact (hcounts.step).anchorRight_iff hw hfire hidle

/-- A detection is clear if the threshold was not met one sample before; so those that are not come
at the end of a hold-off, or with a lowered threshold. -/
theorem clear_of_below (s : UlSync σ) {i j : DetectIn} (hv : i.sample.valid = true)
    (hthr : j.corrThreshold = i.corrThreshold) (hbelow : s.det.threshHit P i = false) :
    Clear C P (s.step C P i) j := by
  intro hfire _
  rw [SyncDetectOs4.syncFire, Bool.and_eq_true, Bool.and_eq_true] at hfire
  exact SyncDetectOs4.beaten_of_below hv hthr hbelow hfire.1.2

theorem not_anchorRight {s : UlSync σ} {n : ℕ} {x : BitVec w}
    (haccepted : s.accepted = some (some n))
    (hanchor : C.anchorIdx s.cap = x) (hne : x ≠ BitVec.ofNat w n) : ¬ AnchorRight C s := by
  intro hright
  obtain ⟨m, hm, hplace⟩ := hright _ haccepted
  obtain rfl : n = m := Option.some.inj hm
  exact hne (hanchor.symm.trans hplace)

end UlSync

/-! ## The two machines -/

/-- **Which anchors are right**, of both capture machines and whatever their memories hold at
reset: that of a detection at a sample whose own window is beaten. -/
theorem anchor_iff (P : SyncParams) (iq : Iq) :
    (∀ cell, UlSync.AnchorExact burstCapturer P
      { cap := { ring := { ring := { cell := cell } }, out := { iq := iq } } }) ∧
    ∀ cell products, UlSync.AnchorExact nubCapturer P
      { cap := { ring := { ring := { cell := cell } }, rd := iq, products := products } } :=
  ⟨fun _ ↦ UlSync.anchorExact (by decide) rfl rfl,
    fun _ _ ↦ UlSync.anchorExact (by decide) rfl rfl⟩

/-- By how many eighths of a circle a dibit turns the carrier. -/
def turnOf (d : BitVec 2) : ℕ := if d = 0 then 1 else if d = 1 then 3 else if d = 3 then 5 else 7

/-- A point of the constellation. -/
def pointOf (n : ℕ) : Iq :=
  ([⟨7, 0⟩, ⟨5, 5⟩, ⟨0, 7⟩, ⟨-5, 5⟩, ⟨-7, 0⟩, ⟨-5, -5⟩, ⟨0, -7⟩, ⟨5, -5⟩] : List Iq).getD (n % 8)
    ⟨0, 0⟩

/-- The samples of a training sequence of `n` dibits, two samples into a symbol. -/
def sent (P : SyncParams) (n : ℕ) : List DetectIn :=
  let dibits := (List.range n).map fun k ↦ P.syncPattern.extractLsb' (2 * (n - 1 - k)) 2
  let points := (dibits.map turnOf).scanl (· + ·) 0 |>.map pointOf
  (List.replicate 2 (⟨0, 0⟩ : Iq) ++ points.flatMap (List.replicate 4)).map fun iq ↦
    ⟨⟨iq, true⟩, BitVec.ofNat 24 n, false⟩

/-- Of both sequences the anchor is the first sample of the last symbol, at which the window was
full. -/
theorem anchorRight_sent :
    let s : UlSync BurstCapture := Run.exec (UlSync.step burstCapturer xSequence)
      { cap := { ring := { ring := { cell := fun _ ↦ ⟨0, 0⟩ } }, out := { iq := ⟨0, 0⟩ } } }
      ((sent xSequence 15).take 63 ++
        [(sent xSequence 15).getD 63 {}, (sent xSequence 15).getD 64 {}])
    let t : UlSync NubCapture := Run.exec (UlSync.step nubCapturer nubSequence)
      { cap := { ring := { ring := { cell := fun _ ↦ ⟨0, 0⟩ } }, rd := ⟨0, 0⟩,
                 products := ⟨0, 0, 0, 0, 0, 0⟩ } }
      ((sent nubSequence 11).take 47 ++
        [(sent nubSequence 11).getD 47 {}, (sent nubSequence 11).getD 48 {}])
    (s.accepted = some (some 62) ∧ UlSync.AnchorRight burstCapturer s) ∧
      t.accepted = some (some 46) ∧ UlSync.AnchorRight nubCapturer t := by
  refine ⟨⟨by decide +kernel, ?_⟩, by decide +kernel, ?_⟩
  · refine (((anchor_iff xSequence ⟨0, 0⟩).1 _).2 _ _ _ (by decide +kernel)
      (by decide +kernel)).2 ?_
    exact (SyncDetectOs4.beaten_iff _).2 (by decide +kernel)
  · refine (((anchor_iff nubSequence ⟨0, 0⟩).2 _ _).2 _ _ _ (by decide +kernel)
      (by decide +kernel)).2 ?_
    exact (SyncDetectOs4.beaten_iff _).2 (by decide +kernel)

/-- Silence, with a threshold that the zeros of the sequence meet.  Each hold-off ends on the window
of phase 0, and the fourth at a sample of that phase, when the machine is idle again: the window
ended at sample 200, and the anchor is sample 204. -/
theorem not_anchorRight_silence :
    let silent (valid : Bool) : DetectIn := ⟨⟨⟨0, 0⟩, valid⟩, 4, false⟩
    let s : UlSync BurstCapture := Run.exec (UlSync.step burstCapturer xSequence)
      { cap := { ring := { ring := { cell := fun _ ↦ ⟨0, 0⟩ } }, out := { iq := ⟨0, 0⟩ } } }
      ((List.replicate 172 [silent true, silent false]).flatten ++
        (List.replicate 33 [silent true, silent false, silent false]).flatten)
    s.accepted = some (some 200) ∧ burstCapturer.anchorIdx s.cap = 204 ∧
      ¬ UlSync.AnchorRight burstCapturer s := by
  intro silent s
  obtain ⟨haccepted, hanchor⟩ : s.accepted = some (some 200) ∧
      burstCapturer.anchorIdx s.cap = 204 := by decide +kernel
  exact ⟨haccepted, hanchor, UlSync.not_anchorRight haccepted hanchor (by decide)⟩

end TetraPhy.Rx
