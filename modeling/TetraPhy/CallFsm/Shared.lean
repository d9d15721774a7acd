import TetraPhy.CallFsm.Invariant
import TetraPhy.Lmac.FillerMailbox

/-!
# The registers the call FSM shares

The voice mask register and the filler mailbox are written by the call FSM, by the voice
pipe and by the delivery of long SDS.  `SameShared` says that a step leaves all of it
alone; most do.  A handled PDU may write a newly computed mask, and some PDUs clear every
bank (`handledShared_handle`).

A mask is written only if it differs from the one written last, so the register and the
copy kept in `maskCached` agree on the voice bits (`MaskSync`).
-/

namespace TetraPhy.CallFsm

open Sw Lmac

/-! ## What is shared -/

/-- `REG_VOICE_ACTIVE_MASK`. -/
def Fsm.maskReg (st : Fsm) : UInt32 := (lastWritten regVoiceActiveMask st.hal).getD 0

/-- The filler mailbox. -/
def Fsm.filler (st : Fsm) : FillerMailbox := FillerMailbox.writes {} st.hal

/-- Nothing shared has changed. -/
structure Fsm.SameShared (st st' : Fsm) : Prop where
  maskReg : st'.maskReg = st.maskReg
  maskCached : st'.maskCached = st.maskCached
  filler : st'.filler = st.filler

/-- The call contributes to the voice mask: `compute_voice_mask` does not skip it. -/
def CallSlot.Speaking (s : CallSlot) (now : UInt32) : Prop :=
  s.Active ∧ s.state ≠ .idle ∧ s.state ≠ .releasing ∧ s.state ≠ .connecting ∧
    ¬ slotAge s.lastActivityPollCnt now > voiceQuietMs

instance (s : CallSlot) (now : UInt32) : Decidable (s.Speaking now) :=
  inferInstanceAs (Decidable (_ ∧ _ ∧ _ ∧ _ ∧ _))

namespace Fsm

theorem SameShared.refl (st : Fsm) : st.SameShared st := ⟨rfl, rfl, rfl⟩

theorem SameShared.trans {st st' st'' : Fsm} (h : st.SameShared st') (h' : st'.SameShared st'') :
    st.SameShared st'' :=
  ⟨h'.1.trans h.1, h'.2.trans h.2, h'.3.trans h.3⟩

/-- Whatever is done to slots and counters. -/
theorem sameShared_of_hal {st st' : Fsm} (h : st'.hal = st.hal)
    (hc : st'.maskCached = st.maskCached) : st.SameShared st' :=
  ⟨by rw [Fsm.maskReg, h, Fsm.maskReg], hc, by rw [Fsm.filler, h, Fsm.filler]⟩

/-- The registers that are not shared. -/
def ownRegs : List UInt32 :=
  replyRegs ++ [regSlotAachTs1, regSlotAachTs2, regSlotAachTs3, regSlotAachTs4,
    regVoiceNubReadIndex, regVoiceNubReadAck]

theorem fillerRegs_notMem_ownRegs : ∀ r ∈ fillerRegs, r ∉ ownRegs := by
  intro r hr
  rw [fillerRegs, List.mem_cons, List.mem_cons, List.mem_singleton] at hr
  rcases hr with rfl | rfl | rfl <;> decide

theorem regVoiceActiveMask_notMem_fillerRegs : regVoiceActiveMask ∉ fillerRegs := by decide

theorem filler_emit (st : Fsm) (ws : List RegWrite) :
    (st.emit ws).filler = st.filler.writes ws := FillerMailbox.writes_append _ _ _

theorem maskReg_emit_of_writesOnly {R : List UInt32} {ws : List RegWrite} (h : WritesOnly R ws)
    (hR : regVoiceActiveMask ∉ R) (st : Fsm) : (st.emit ws).maskReg = st.maskReg := by
  rw [Fsm.maskReg, Fsm.emit, h.lastWritten_append hR, Fsm.maskReg]

theorem sameShared_emit {ws : List RegWrite} (h : WritesOnly ownRegs ws) (st : Fsm) :
    st.SameShared (st.emit ws) :=
  ⟨maskReg_emit_of_writesOnly h (by decide) st, rfl, by
    rw [filler_emit, FillerMailbox.writes_of_writesOnly _ h fillerRegs_notMem_ownRegs]⟩

theorem sameShared_modify (st : Fsm) (i : Fin 8) (f : CallSlot → CallSlot) :
    st.SameShared (st.modify i f) := sameShared_of_hal rfl rfl

theorem sameShared_submit (st : Fsm) (idle : Bool) (cls : TxPduClass) (m : TxPduMeta) :
    st.SameShared (st.submit idle cls m).1 :=
  sameShared_emit ((writesOnly_txSubmit idle cls m).mono (List.subset_append_left _ _)) st

theorem sameShared_aachWrite (st : Fsm) (ts : UInt8) (info : UInt32) :
    st.SameShared (st.aachWrite ts info) := by
  unfold Fsm.aachWrite
  dsimp only
  split
  · exact .refl st
  · rename_i hreg
    refine sameShared_emit (fun w hw ↦ ?_) st
    rw [List.mem_singleton.1 hw]
    unfold tsToAachReg at hreg ⊢
    split_ifs at hreg ⊢ <;> first
      | exact absurd (by decide) hreg
      | simp [ownRegs]

theorem sameShared_freeSlot (st : Fsm) (i : Fin 8) : st.SameShared (freeSlot i st) := by
  unfold freeSlot
  dsimp only
  refine SameShared.trans ?_ (sameShared_modify _ _ _)
  split
  · exact sameShared_aachWrite st _ _
  · exact .refl st

theorem sameShared_allocSlot (ssi : UInt32) (st : Fsm) :
    st.SameShared (allocSlot ssi st).1 := by
  unfold allocSlot
  split
  · exact .refl st
  · dsimp only
    split
    · exact sameShared_of_hal rfl rfl
    · refine SameShared.trans ?_ (sameShared_aachWrite _ _ _)
      exact sameShared_of_hal rfl rfl

theorem sameShared_setupSlot (ssi cpSsi : UInt32) (g : Bool) (st : Fsm) :
    st.SameShared (setupSlot ssi cpSsi g st).1 := by
  unfold setupSlot
  split
  · exact .refl st
  · split
    · exact sameShared_of_hal rfl rfl
    · exact sameShared_allocSlot _ _

theorem sameShared_demandSlot (ssi : UInt32) (p : CmcePdu) (st : Fsm) :
    st.SameShared (demandSlot ssi p st).1 := by
  unfold demandSlot
  split
  · exact .refl st
  · split
    · exact sameShared_of_hal rfl rfl
    · exact .refl st

theorem sameShared_rxSlotgrant (idle : Bool) (ssi : UInt32) (st : Fsm) :
    st.SameShared (st.emit (rxSlotgrant idle ssi).1) :=
  sameShared_emit ((writesOnly_rxSlotgrant idle ssi).mono (List.subset_append_left _ _)) st

/-! ## The voice mask -/

/-- The voice bits of the register are those written last, once there was a write. -/
def MaskSync (st : Fsm) : Prop :=
  st.maskCached = 0xFFFFFFFF ∨ st.maskReg &&& 0xF = st.maskCached

theorem or_and_distrib (a b c : UInt32) : (a ||| b) &&& c = (a &&& c) ||| (b &&& c) := by
  refine UInt32.toBitVec_inj.1 (BitVec.eq_of_getLsbD_eq fun i _ ↦ ?_)
  simp only [UInt32.toBitVec_and, UInt32.toBitVec_or, BitVec.getLsbD_and, BitVec.getLsbD_or]
  exact Bool.and_or_distrib_right _ _ _

/-- A value of the mask register that has voice bits only. -/
def VoiceBits (v : UInt32) : Prop := v &&& 0xF = v

instance (v : UInt32) : Decidable (VoiceBits v) := inferInstanceAs (Decidable (_ = _))

theorem voiceBits_computeVoiceMask (g : SlotTable) (now : UInt32) :
    VoiceBits (computeVoiceMask g now) := by
  have hbit : ∀ ts, VoiceBits (tsToVoiceMaskBit ts) := by
    intro ts
    by_cases hin : 1 ≤ ts ∧ ts ≤ 4
    · have hts : ts = 1 ∨ ts = 2 ∨ ts = 3 ∨ ts = 4 := by grind
      rcases hts with rfl | rfl | rfl | rfl <;> rfl
    · have hout : (ts < 1 || ts > 4) = true := by simp; grind
      rw [tsToVoiceMaskBit, if_pos hout]
      rfl
  refine List.foldlRecOn _ _ (motive := VoiceBits) rfl fun m hm i _ ↦ ?_
  dsimp only
  split_ifs
  · exact hm
  · exact hm
  · exact hm
  · rw [VoiceBits, or_and_distrib, hm, hbit]

theorem maskReg_emit_mask (st : Fsm) (v : UInt32) :
    (st.emit [⟨regVoiceActiveMask, v⟩]).maskReg = v := by
  simp [Fsm.maskReg, Fsm.emit]

theorem filler_emit_mask (st : Fsm) (v : UInt32) :
    (st.emit [⟨regVoiceActiveMask, v⟩]).filler = st.filler := by
  have hmask : WritesOnly [regVoiceActiveMask] [⟨regVoiceActiveMask, v⟩] := fun w hw ↦ by
    rw [List.mem_singleton.1 hw]
    exact List.mem_singleton_self _
  refine (filler_emit st _).trans (FillerMailbox.writes_of_writesOnly _ hmask fun r hr hr' ↦ ?_)
  rw [List.mem_singleton.1 hr'] at hr
  exact regVoiceActiveMask_notMem_fillerRegs hr

/-- What `mask_write_cached` does: nothing if the mask is the cached one. -/
theorem maskWriteCached_cases (st : Fsm) (v : UInt32) :
    (v = st.maskCached ∧ st.maskWriteCached v = st) ∨
      (v ≠ st.maskCached ∧ (st.maskWriteCached v).maskCached = v ∧
        (st.maskWriteCached v).maskReg = v ∧ (st.maskWriteCached v).filler = st.filler) := by
  rcases eq_or_ne v st.maskCached with h | h
  · exact .inl ⟨h, by rw [Fsm.maskWriteCached, if_pos (by simpa using h)]⟩
  · refine .inr ⟨h, ?_⟩
    rw [Fsm.maskWriteCached, if_neg (by simpa using h)]
    exact ⟨rfl, maskReg_emit_mask st v, filler_emit_mask st v⟩

theorem slots_maskWriteCached (st : Fsm) (v : UInt32) : (st.maskWriteCached v).slots = st.slots := by
  rw [Fsm.maskWriteCached]
  split <;> rfl

theorem filler_maskWriteCached (st : Fsm) (v : UInt32) :
    (st.maskWriteCached v).filler = st.filler := by
  rcases st.maskWriteCached_cases v with ⟨-, h⟩ | ⟨-, -, -, h⟩
  · rw [h]
  · exact h

/-- The mask register changes with the cached copy only, and then to a voice mask. -/
structure MaskStep (st st' : Fsm) : Prop where
  kept : st'.maskCached = st.maskCached → st'.maskReg = st.maskReg
  renewed : st'.maskCached ≠ st.maskCached →
    st'.maskReg = st'.maskCached ∧ VoiceBits st'.maskCached

theorem SameShared.maskStep {st st' : Fsm} (h : st.SameShared st') : st.MaskStep st' :=
  ⟨fun _ ↦ h.maskReg, fun hne ↦ absurd h.maskCached hne⟩

theorem maskStep_maskWriteCached (st : Fsm) (g : SlotTable) (now : UInt32) :
    st.MaskStep (st.maskWriteCached (computeVoiceMask g now)) := by
  rcases st.maskWriteCached_cases (computeVoiceMask g now) with ⟨-, h⟩ | ⟨hne, hc, hr, -⟩
  · rw [h]
    exact (SameShared.refl st).maskStep
  · refine ⟨fun hk ↦ absurd (hc.symm.trans hk) hne, fun _ ↦ ⟨hr.trans hc.symm, ?_⟩⟩
    rw [hc]
    exact voiceBits_computeVoiceMask g now

theorem SameShared.maskStep_trans {st st' st'' : Fsm} (h : st.SameShared st')
    (h' : st'.MaskStep st'') : st.MaskStep st'' :=
  ⟨fun hk ↦ (h'.kept (hk.trans h.maskCached.symm)).trans h.maskReg,
    fun hne ↦ h'.renewed fun hk ↦ hne (hk.trans h.maskCached)⟩

/-- A step of this kind keeps register and copy in agreement. -/
theorem MaskStep.maskSync {st st' : Fsm} (h : st.MaskStep st') (hs : st.MaskSync) :
    st'.MaskSync := by
  by_cases hk : st'.maskCached = st.maskCached
  · rw [MaskSync, hk, h.kept hk]
    exact hs
  · obtain ⟨hr, hv⟩ := h.renewed hk
    exact .inr (by rw [hr]; exact hv)

/-- What a slot adds to the voice mask. -/
def maskShare (s : CallSlot) (now : UInt32) : UInt32 :=
  if s.Speaking now then tsToVoiceMaskBit s.voiceTs else 0

theorem computeVoiceMask_eq (g : SlotTable) (now : UInt32) : computeVoiceMask g now =
    (List.finRange 8).foldl (fun m i ↦ m ||| maskShare (g i) now) 0 := by
  unfold computeVoiceMask
  congr 1
  funext m i
  dsimp only
  by_cases hssi : (g i).ssi = 0
  · have hno : ¬ (g i).Speaking now := fun h ↦ h.1 hssi
    rw [if_pos (by simpa using hssi), maskShare, if_neg hno, UInt32.or_zero]
  by_cases hstate : (g i).state = .idle ∨ (g i).state = .releasing ∨ (g i).state = .connecting
  · have hno : ¬ (g i).Speaking now := fun ⟨_, hidle, hrel, hcon, _⟩ ↦ by
      rcases hstate with h | h | h
      · exact hidle h
      · exact hrel h
      · exact hcon h
    rw [if_neg (by simpa using hssi), if_pos (by simpa [or_assoc] using hstate), maskShare,
      if_neg hno, UInt32.or_zero]
  rw [if_neg (by simpa using hssi), if_neg (by simpa [or_assoc] using hstate), maskShare]
  push Not at hstate
  obtain ⟨hidle, hrel, hcon⟩ := hstate
  by_cases hage : slotAge (g i).lastActivityPollCnt now > voiceQuietMs
  · have hno : ¬ (g i).Speaking now := fun h ↦ h.2.2.2.2 hage
    rw [if_pos hage, if_neg hno, UInt32.or_zero]
  · rw [if_neg hage, if_pos ⟨hssi, hidle, hrel, hcon, hage⟩]

/-- A timeslot whose calls the mask does not show has no speaking call. -/
theorem not_speaking_of_mask_zero {g : SlotTable} {now : UInt32} (h : computeVoiceMask g now = 0)
    {i : Fin 8} (hts : 1 ≤ (g i).voiceTs ∧ (g i).voiceTs ≤ 4) : ¬ (g i).Speaking now := by
  have hzero : ∀ (l : List (Fin 8)) (m : UInt32),
      l.foldl (fun m i ↦ m ||| maskShare (g i) now) m = 0 →
        m = 0 ∧ ∀ j ∈ l, maskShare (g j) now = 0 := by
    intro l
    induction l with
    | nil => exact fun m hm ↦ ⟨hm, fun j hj ↦ absurd hj List.not_mem_nil⟩
    | cons j l ih =>
        intro m hm
        obtain ⟨hor, hrest⟩ := ih _ hm
        obtain ⟨hm0, hj0⟩ := UInt32.or_eq_zero_iff.1 hor
        refine ⟨hm0, fun k hk ↦ ?_⟩
        rcases List.mem_cons.1 hk with rfl | hk
        · exact hj0
        · exact hrest k hk
  rw [computeVoiceMask_eq] at h
  have hshare := (hzero _ 0 h).2 i (List.mem_finRange i)
  intro hsp
  rw [maskShare, if_pos hsp] at hshare
  have hbits : ∀ ts : UInt8, ts = 1 ∨ ts = 2 ∨ ts = 3 ∨ ts = 4 → tsToVoiceMaskBit ts ≠ 0 := by
    rintro ts (rfl | rfl | rfl | rfl) <;> decide
  exact hbits _ (by grind) hshare

/-! ## A handled PDU -/

/-- The PDU is handled by a branch that reaches `tetra_voice_filler_clear`. -/
def clearsBanks (st : Fsm) (env : HandleEnv) (ssi : UInt32) (p : CmcePdu) : Bool :=
  ssi != 0 &&
    match p.pduType with
    | .uSetup => calledIsGroup env p && (setupSlot ssi (calledSsi p) true st).2.isSome
    | .uConnect => (connectSlot ssi p st).isSome
    | .uRelease | .uDisconnect =>
        match findSlot st.slots ssi with
        | none => false
        | some i => computeVoiceMask (Function.update st.slots i {}) (env.now 1) == 0
    | _ => false

/-- What a handled PDU does to the shared registers. -/
structure HandledShared (st st' : Fsm) (clears : Bool) : Prop where
  mask : st.MaskStep st'
  filler : st'.filler = if clears then st.filler.writes voiceFillerClear else st.filler

theorem SameShared.handled {st st' : Fsm} (h : st.SameShared st') : st.HandledShared st' false :=
  ⟨h.maskStep, h.filler⟩

/-- Nothing shared, then a new mask, then perhaps a clear. -/
theorem handledShared_mask {st st' : Fsm} (h : st.SameShared st') (g : SlotTable) (now : UInt32)
    (clears : Bool) :
    st.HandledShared (if clears then
      (st'.maskWriteCached (computeVoiceMask g now)).emit voiceFillerClear
    else st'.maskWriteCached (computeVoiceMask g now)) clears := by
  have hmask := h.maskStep_trans (maskStep_maskWriteCached st' g now)
  have hfill := (filler_maskWriteCached st' (computeVoiceMask g now)).trans h.filler
  cases clears with
  | false => exact ⟨hmask, hfill⟩
  | true =>
      have hreg := maskReg_emit_of_writesOnly writesOnly_voiceFillerClear (by decide)
        (st'.maskWriteCached (computeVoiceMask g now))
      refine ⟨⟨fun hk ↦ hreg.trans (hmask.kept hk), fun hne ↦ ?_⟩, ?_⟩
      · exact ⟨hreg.trans (hmask.renewed hne).1, (hmask.renewed hne).2⟩
      · rw [if_pos rfl, if_pos rfl, filler_emit, hfill]

variable (env : HandleEnv) (ssi : UInt32) (p : CmcePdu) (st : Fsm)

/-- A U-SETUP that is not for a group, or finds no slot. -/
theorem sameShared_handleSetup
    (h : (calledIsGroup env p && (setupSlot ssi (calledSsi p) true st).2.isSome) = false) :
    st.SameShared (handleSetup env ssi p st).1 := by
  have hslot := sameShared_setupSlot ssi (calledSsi p) (calledIsGroup env p) st
  unfold handleSetup
  cases hg : calledIsGroup env p with
  | false =>
      rw [hg] at hslot
      dsimp only
      revert hslot
      rcases setupSlot ssi (calledSsi p) false st with ⟨st₁, - | i⟩ <;> intro hslot
      · exact hslot
      · refine hslot.trans ?_
        dsimp only
        rw [if_neg Bool.false_ne_true]
        dsimp only
        refine .trans ?_ (sameShared_modify _ _ _)
        refine .trans ?_ (sameShared_submit _ _ _ _)
        refine .trans ?_ (sameShared_submit _ _ _ _)
        refine .trans ?_ (sameShared_submit _ _ _ _)
        exact (sameShared_modify _ _ _).trans (sameShared_rxSlotgrant _ _ _)
  | true =>
      rw [hg] at hslot h
      dsimp only
      revert h hslot
      rcases setupSlot ssi (calledSsi p) true st with ⟨st₁, - | i⟩ <;> intro h hslot
      · exact hslot
      · cases h

theorem handledShared_handleSetup : st.HandledShared (handleSetup env ssi p st).1
    (calledIsGroup env p && (setupSlot ssi (calledSsi p) true st).2.isSome) := by
  cases hclears : calledIsGroup env p && (setupSlot ssi (calledSsi p) true st).2.isSome with
  | false => exact (sameShared_handleSetup env ssi p st hclears).handled
  | true =>
      obtain ⟨hg, hsome⟩ := Bool.and_eq_true_iff.1 hclears
      have hslot := sameShared_setupSlot ssi (calledSsi p) true st
      unfold handleSetup
      rw [hg]
      dsimp only
      revert hsome hslot
      rcases setupSlot ssi (calledSsi p) true st with ⟨st₁, - | i⟩ <;> intro hsome hslot
      · cases hsome
      · dsimp only
        rw [if_pos rfl]
        exact handledShared_mask (hslot.trans ((sameShared_modify _ _ _).trans
          ((sameShared_submit _ _ _ _).trans (sameShared_modify _ _ _)))) _ _ true

theorem handledShared_handleTxDemand :
    st.HandledShared (handleTxDemand env ssi p st).1 false := by
  have hslot := sameShared_demandSlot ssi p st
  unfold handleTxDemand
  revert hslot
  rcases demandSlot ssi p st with ⟨st₁, - | i⟩ <;> intro hslot
  · exact hslot.handled
  · exact handledShared_mask (hslot.trans ((sameShared_modify _ _ _).trans
      ((sameShared_submit _ _ _ _).trans (sameShared_modify _ _ _)))) _ _ false

theorem sameShared_handleTxCeased : st.SameShared (handleTxCeased env ssi st).1 := by
  unfold handleTxCeased
  cases findSlot st.slots ssi with
  | none => exact .refl st
  | some i =>
      dsimp only
      refine List.foldlRecOn _ _ (motive := fun r : Fsm × Int ↦ st.SameShared r.1)
        (sameShared_of_hal rfl rfl) fun r hr k _ ↦ hr.trans (sameShared_submit _ _ _ _)

theorem handledShared_handleConnect :
    st.HandledShared (handleConnect env ssi p st).1 (connectSlot ssi p st).isSome := by
  unfold handleConnect
  cases connectSlot ssi p st with
  | none => exact (SameShared.refl st).handled
  | some i =>
      exact handledShared_mask ((sameShared_submit _ _ _ _).trans
        ((sameShared_submit _ _ _ _).trans (sameShared_modify _ _ _))) _ _ true

/-- The slot of a release, once its D-RELEASE is staged and it is freed. -/
theorem slots_released (idle : Bool) (i : Fin 8) (cause : UInt8) (st : Fsm) :
    (freeSlot i (stageDRelease idle i cause (st.modify i CallSlot.nsnrStepBs)).1).slots =
      Function.update st.slots i {} := by
  rw [← Fsm.slots_table, table_freeSlot, Table.slots_close]
  simp [stageDRelease, Fsm.modify, Fsm.submit, Fsm.emit, Fsm.table]

theorem sameShared_released (idle : Bool) (i : Fin 8) (cause : UInt8) (st : Fsm) :
    st.SameShared (freeSlot i (stageDRelease idle i cause (st.modify i CallSlot.nsnrStepBs)).1) :=
  ((sameShared_modify _ _ _).trans (sameShared_submit _ _ _ _)).trans (sameShared_freeSlot _ _)

theorem handledShared_handleRelease : st.HandledShared (handleRelease env ssi p st).1
    (match findSlot st.slots ssi with
      | none => false
      | some i => computeVoiceMask (Function.update st.slots i {}) (env.now 1) == 0) := by
  unfold handleRelease
  cases findSlot st.slots ssi with
  | none => exact (SameShared.refl st).handled
  | some i =>
      dsimp only
      rw [slots_maskWriteCached, slots_released]
      have hmask := handledShared_mask
        (sameShared_released (env.idle 0) i p.disconnectCause st)
        (Function.update st.slots i {}) (env.now 0)
        (computeVoiceMask (Function.update st.slots i {}) (env.now 1) == 0)
      split_ifs at hmask ⊢
      · exact hmask
      · exact hmask

/-- **A handled PDU and the shared registers.** -/
theorem handledShared_handle :
    st.HandledShared (handle env ssi p st).1 (st.clearsBanks env ssi p) := by
  unfold handle clearsBanks
  by_cases hssi : ssi = 0
  · rw [if_pos (by simpa using hssi)]
    simpa [hssi] using (SameShared.refl st).handled
  · rw [if_neg (by simpa using hssi)]
    have hne : (ssi != 0) = true := by simpa using hssi
    rw [hne, Bool.true_and]
    cases p.pduType with
    | uSetup => exact handledShared_handleSetup env ssi p st
    | uTxDemand => exact handledShared_handleTxDemand env ssi p st
    | uTxCeased => exact (sameShared_handleTxCeased env ssi st).handled
    | uConnect => exact handledShared_handleConnect env ssi p st
    | uAlert =>
        refine SameShared.handled ?_
        dsimp only
        unfold handleAlert
        cases connectSlot ssi p st <;> exact .refl st
    | uRelease | uDisconnect => exact handledShared_handleRelease env ssi p st
    | none | uInfo | uStatus | uSdsData | unsupported => exact (SameShared.refl st).handled

end Fsm

end TetraPhy.CallFsm
