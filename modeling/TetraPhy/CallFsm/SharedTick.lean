import TetraPhy.CallFsm.Shared
import TetraPhy.CallFsm.Watchdog

/-!
# The tick and the filler banks

In its turn a slot that has gone quiet has the bank of its timeslot invalidated, and the
voice pipe writes a burst into the bank of the timeslot it came from, whatever slot's turn
it is.  Two facts about the loop follow.

* `ticked_tick` — the mask stands until the loop is through, and a bank that the loop has
  invalidated belongs to no call that is speaking then;
* `sameBank_tick` — the bank of TS1, which no call is on, changes only when a burst of TS1
  is relayed.
-/

namespace TetraPhy.CallFsm

open Sw Lmac

/-! ## Speaking calls -/

/-- No call on the timeslot is speaking: there is none, or it rings, or it is quiet. -/
def Fsm.Silent (st : Fsm) (ts : UInt8) (now : UInt32) : Prop :=
  ∀ i, (st.slots i).voiceTs = ts → ¬ (st.slots i).Speaking now

/-- Fewer calls speak on the timeslot. -/
theorem Fsm.Silent.mono {st st' : Fsm} {ts : UInt8} {now : UInt32} (h : st.Silent ts now)
    (hle : ∀ i, (st'.slots i).voiceTs = ts → (st'.slots i).Speaking now →
      (st.slots i).voiceTs = ts ∧ (st.slots i).Speaking now) : st'.Silent ts now := by
  intro i hts hsp
  obtain ⟨hts', hsp'⟩ := hle i hts hsp
  exact h i hts' hsp'

theorem tsBank_inj {ts ts' : UInt8} (h : 1 ≤ ts ∧ ts ≤ 4) (h' : 1 ≤ ts' ∧ ts' ≤ 4)
    (he : FillerMailbox.tsBank ts = FillerMailbox.tsBank ts') : ts = ts' := by
  have hts : ts = 1 ∨ ts = 2 ∨ ts = 3 ∨ ts = 4 := by grind
  have hts' : ts' = 1 ∨ ts' = 2 ∨ ts' = 3 ∨ ts' = 4 := by grind
  rcases hts with rfl | rfl | rfl | rfl <;> rcases hts' with rfl | rfl | rfl | rfl <;>
    first
    | rfl
    | exact absurd he (by decide)

/-! ## The voice pipe -/

theorem sameShared_notifyUlBurst (ts : UInt8) (nowMs : UInt32) (st : Fsm) :
    st.SameShared (notifyUlBurst ts nowMs st) := by
  unfold notifyUlBurst
  split
  · exact .refl st
  · split
    · exact .refl st
    · exact Fsm.sameShared_modify _ _ _

theorem sameShared_notifyFirstNub (nowMs : UInt32) (st : Fsm) :
    st.SameShared (notifyFirstNub nowMs st) := by
  unfold notifyFirstNub
  split
  · exact .refl st
  · exact Fsm.sameShared_modify _ _ _

/-- The nearest timeslot is one. -/
theorem deltaToEtsiTs_range (delta : UInt32) :
    1 ≤ deltaToEtsiTs delta ∧ deltaToEtsiTs delta ≤ 4 := by
  have hidx : ∀ t : UInt32, t < 4 → 1 ≤ (t + 1).toUInt8 ∧ (t + 1).toUInt8 ≤ 4 := by
    intro t ht
    have hcases : t = 0 ∨ t = 1 ∨ t = 2 ∨ t = 3 := by grind
    rcases hcases with rfl | rfl | rfl | rfl <;> decide
  unfold deltaToEtsiTs
  dsimp only
  split_ifs with hlarge
  · exact hidx 0 (by decide)
  · exact hidx _ (by grind)

/-- What the pipe does to the shared registers: a burst goes into the bank of its timeslot. -/
theorem shared_voicePipeTick (b : PipeBurst) (st : Fsm) :
    (voicePipeTick (some b) st).maskReg = st.maskReg ∧
      (voicePipeTick (some b) st).maskCached = st.maskCached ∧
      (voicePipeTick (some b) st).filler =
        st.filler.writes (voiceFillerWriteTs b.type5Out (deltaToEtsiTs b.delta)) := by
  obtain ⟨hlo, hhi⟩ := deltaToEtsiTs_range b.delta
  have hread : WritesOnly Fsm.ownRegs
      ((List.range 54).map fun w ↦ ⟨regVoiceNubReadIndex, w.toUInt32⟩) := fun w hw ↦ by
    obtain ⟨k, -, rfl⟩ := List.mem_map.mp hw
    change regVoiceNubReadIndex ∈ Fsm.ownRegs
    decide
  have hack : WritesOnly Fsm.ownRegs [⟨regVoiceNubReadAck, 0x1⟩] := fun w hw ↦ by
    rw [List.mem_singleton.mp hw]
    decide
  have hnub : ∀ st : Fsm, st.SameShared
      (if (!b.badFrame) = true then notifyFirstNub b.nubMs st else st) := fun st ↦ by
    split
    · exact sameShared_notifyFirstNub _ _
    · exact .refl _
  have hin : (decide (deltaToEtsiTs b.delta ≥ 1) && decide (deltaToEtsiTs b.delta ≤ 4)) = true := by
    simp [hlo, hhi]
  unfold voicePipeTick
  dsimp only
  rw [if_pos hin]
  have hpre := ((sameShared_notifyUlBurst (deltaToEtsiTs b.delta) b.nowMs st).trans
    (Fsm.sameShared_emit hread _)).trans (hnub _)
  have hpost := Fsm.sameShared_emit hack
    ((if (!b.badFrame) = true then notifyFirstNub b.nubMs
        ((notifyUlBurst (deltaToEtsiTs b.delta) b.nowMs st).emit
          ((List.range 54).map fun w ↦ ⟨regVoiceNubReadIndex, w.toUInt32⟩))
      else (notifyUlBurst (deltaToEtsiTs b.delta) b.nowMs st).emit
          ((List.range 54).map fun w ↦ ⟨regVoiceNubReadIndex, w.toUInt32⟩)).emit
      (voiceFillerWriteTs b.type5Out (deltaToEtsiTs b.delta)))
  refine ⟨hpost.maskReg.trans ?_, hpost.maskCached.trans hpre.maskCached, hpost.filler.trans ?_⟩
  · exact (Fsm.maskReg_emit_of_writesOnly (writesOnly_voiceFillerWriteTs _ _) (by decide) _).trans
      hpre.maskReg
  · rw [Fsm.filler_emit, hpre.filler]

/-- The hook refreshes a call on the burst's timeslot only. -/
theorem slots_notifyUlBurst (ts : UInt8) (nowMs : UInt32) (st : Fsm) (i : Fin 8) :
    ((notifyUlBurst ts nowMs st).slots i).voiceTs = (st.slots i).voiceTs ∧
      ((st.slots i).voiceTs ≠ ts → (notifyUlBurst ts nowMs st).slots i = st.slots i) := by
  unfold notifyUlBurst
  split
  · exact ⟨rfl, fun _ ↦ rfl⟩
  · split
    · exact ⟨rfl, fun _ ↦ rfl⟩
    · rename_i j hj
      have hfound := Fin.eq_true_of_find?_eq_some hj
      rw [Bool.and_eq_true, beq_iff_eq] at hfound
      rcases eq_or_ne i j with rfl | hij
      · rw [slots_modify, Function.update_self]
        exact ⟨rfl, fun hne ↦ absurd hfound.2 hne⟩
      · rw [slots_modify, Function.update_of_ne hij]
        exact ⟨rfl, fun _ ↦ rfl⟩

/-- The first-burst hook touches nothing a call speaks by. -/
theorem slots_notifyFirstNub (nowMs : UInt32) (st : Fsm) (i : Fin 8) :
    ((notifyFirstNub nowMs st).slots i).voiceTs = (st.slots i).voiceTs ∧
      ∀ now, ((notifyFirstNub nowMs st).slots i).Speaking now ↔ (st.slots i).Speaking now := by
  unfold notifyFirstNub
  split
  · exact ⟨rfl, fun _ ↦ Iff.rfl⟩
  · rename_i j hj
    rcases eq_or_ne i j with rfl | hij
    · rw [slots_modify, Function.update_self]
      exact ⟨rfl, fun _ ↦ Iff.rfl⟩
    · rw [slots_modify, Function.update_of_ne hij]
      exact ⟨rfl, fun _ ↦ Iff.rfl⟩

/-- The two hooks are all that touches the slots. -/
theorem slots_voicePipeTick_eq (b : PipeBurst) (st : Fsm) : (voicePipeTick (some b) st).slots =
    (if (!b.badFrame) = true then notifyFirstNub b.nubMs
      ((notifyUlBurst (deltaToEtsiTs b.delta) b.nowMs st).emit
        ((List.range 54).map fun w ↦ ⟨regVoiceNubReadIndex, w.toUInt32⟩))
    else (notifyUlBurst (deltaToEtsiTs b.delta) b.nowMs st).emit
        ((List.range 54).map fun w ↦ ⟨regVoiceNubReadIndex, w.toUInt32⟩)).slots := by
  unfold voicePipeTick
  dsimp only
  rw [slots_emit]
  split
  · rw [slots_emit]
  · rfl

/-- Calls on another timeslot than the burst's are not refreshed. -/
theorem slots_voicePipeTick (b : PipeBurst) (st : Fsm) (i : Fin 8) :
    ((voicePipeTick (some b) st).slots i).voiceTs = (st.slots i).voiceTs ∧
      ((st.slots i).voiceTs ≠ deltaToEtsiTs b.delta → ∀ now,
        (((voicePipeTick (some b) st).slots i).Speaking now ↔ (st.slots i).Speaking now)) := by
  obtain ⟨hts, hburst⟩ := slots_notifyUlBurst (deltaToEtsiTs b.delta) b.nowMs st i
  rw [slots_voicePipeTick_eq]
  split
  · obtain ⟨hts', hnub⟩ := slots_notifyFirstNub b.nubMs
      ((notifyUlBurst (deltaToEtsiTs b.delta) b.nowMs st).emit
        ((List.range 54).map fun w ↦ ⟨regVoiceNubReadIndex, w.toUInt32⟩)) i
    rw [slots_emit] at hts'
    refine ⟨hts'.trans hts, fun hne now ↦ (hnub now).trans ?_⟩
    rw [slots_emit, hburst hne]
  · rw [slots_emit]
    exact ⟨hts, fun hne now ↦ by rw [hburst hne]⟩

/-! ## One turn -/

theorem sameShared_setupSequencer (idle : Bool) (now : UInt32) (i : Fin 8) (st : Fsm) :
    st.SameShared (setupSequencer idle now i st) := by
  unfold setupSequencer
  dsimp only
  split_ifs
  · exact (Fsm.sameShared_submit _ _ _ _).trans (Fsm.sameShared_modify _ _ _)
  · exact (Fsm.sameShared_submit _ _ _ _).trans (Fsm.sameShared_modify _ _ _)
  · exact Fsm.sameShared_modify _ _ _
  · exact (Fsm.sameShared_submit _ _ _ _).trans (Fsm.sameShared_modify _ _ _)
  · exact .refl st
  · exact .refl st

/-- The set-up sequence does not change what a call speaks by. -/
theorem slots_setupSequencer (idle : Bool) (now : UInt32) (i j : Fin 8) (st : Fsm) :
    ((setupSequencer idle now i st).slots j).voiceTs = (st.slots j).voiceTs ∧
      ∀ t, ((setupSequencer idle now i st).slots j).Speaking t ↔ (st.slots j).Speaking t := by
  have hslots : (setupSequencer idle now i st).slots =
      Function.update st.slots i ((st.slots i).sequenced now) := by
    rw [← Fsm.slots_table, table_setupSequencer, Table.slots_set, Fsm.slots_table]
  rw [hslots]
  rcases eq_or_ne j i with rfl | hji
  · obtain ⟨_, _, he⟩ := (st.slots j).sequenced_eq now
    rw [Function.update_self, he]
    exact ⟨rfl, fun _ ↦ Iff.rfl⟩
  · rw [Function.update_of_ne hji]
    exact ⟨rfl, fun _ ↦ Iff.rfl⟩

/-- Clearing the bank of a timeslot, from inside the tick. -/
theorem shared_clearTs {ts : UInt8} (h : 1 ≤ ts ∧ ts ≤ 4) (st : Fsm) :
    (st.emit (voiceFillerClearTs ts)).maskReg = st.maskReg ∧
      (st.emit (voiceFillerClearTs ts)).filler.bank = st.filler.bank ∧
      (st.emit (voiceFillerClearTs ts)).filler.valid =
        Function.update st.filler.valid (FillerMailbox.tsBank ts) false := by
  have hin : ¬ (ts < 1 || ts > 4) = true := by simp; grind
  refine ⟨Fsm.maskReg_emit_of_writesOnly (writesOnly_voiceFillerClearTs ts) (by decide) st, ?_⟩
  rw [Fsm.filler_emit, voiceFillerClearTs, if_neg hin]
  exact st.filler.writes_fillerInvalidate h.1 h.2

/-- The slot's turn reaches the voice pipe. -/
def CallSlot.ServesPipe (s : CallSlot) (now : UInt32) : Prop :=
  s.Active ∧ s.state ≠ .connecting ∧ ¬ s.Expired now ∧ (s.groupGssi ≠ 0 ∨ s.targetIssi ≠ 0)

instance (s : CallSlot) (now : UInt32) : Decidable (s.ServesPipe now) :=
  inferInstanceAs (Decidable (_ ∧ _ ∧ _ ∧ _))

/-- What the loop may have done to the shared registers since `st₀`: the mask stands, and a
bank that it invalidated belongs to no speaking call. -/
structure Fsm.Ticked (st₀ st : Fsm) (now : UInt32) : Prop where
  maskReg : st.maskReg = st₀.maskReg
  maskCached : st.maskCached = st₀.maskCached
  valid : ∀ ts, 1 ≤ ts ∧ ts ≤ 4 → st₀.filler.valid (FillerMailbox.tsBank ts) = true →
    st.filler.valid (FillerMailbox.tsBank ts) = false → st.Silent ts now

namespace Fsm.Ticked

variable {st₀ st st' : Fsm} {now : UInt32}

theorem refl (st : Fsm) (now : UInt32) : st.Ticked st now :=
  ⟨rfl, rfl, fun _ _ ht hf ↦ absurd ht (by rw [hf]; exact Bool.false_ne_true)⟩

/-- Steps that leave the shared registers alone and let no call speak up. -/
theorem same (h : st₀.Ticked st now) (hs : st.SameShared st')
    (hle : ∀ i, (st'.slots i).Speaking now →
      (st.slots i).voiceTs = (st'.slots i).voiceTs ∧ (st.slots i).Speaking now) :
    st₀.Ticked st' now where
  maskReg := hs.maskReg.trans h.maskReg
  maskCached := hs.maskCached.trans h.maskCached
  valid ts hr ht hf := by
    rw [hs.filler] at hf
    refine (h.valid ts hr ht hf).mono fun i hts hsp ↦ ?_
    obtain ⟨hv, hsp'⟩ := hle i hsp
    exact ⟨hv.trans hts, hsp'⟩

/-- Clearing the bank of a timeslot nobody speaks on. -/
theorem clear (h : st₀.Ticked st now) {ts : UInt8} (hr : 1 ≤ ts ∧ ts ≤ 4)
    (hs : st.Silent ts now) : st₀.Ticked (st.emit (voiceFillerClearTs ts)) now := by
  obtain ⟨hmask, -, hvalid⟩ := shared_clearTs hr st
  refine ⟨hmask.trans h.maskReg, h.maskCached, fun ts' hr' ht hf ↦ ?_⟩
  rcases eq_or_ne ts' ts with rfl | hne
  · exact hs
  · have hb : FillerMailbox.tsBank ts' ≠ FillerMailbox.tsBank ts := fun he ↦
      hne (tsBank_inj hr' hr he)
    rw [hvalid, Function.update_of_ne hb] at hf
    exact h.valid ts' hr' ht hf

/-- Serving the voice pipe. -/
theorem pipe (h : st₀.Ticked st now) (burst : Option PipeBurst) :
    st₀.Ticked (voicePipeTick burst st) now := by
  cases burst with
  | none => exact h
  | some b =>
      obtain ⟨hmask, hcached, hfill⟩ := shared_voicePipeTick b st
      obtain ⟨hlo, hhi⟩ := deltaToEtsiTs_range b.delta
      obtain ⟨hholds, hother⟩ := st.filler.writes_voiceFillerWriteTs b.type5Out hlo hhi
      refine ⟨hmask.trans h.maskReg, hcached.trans h.maskCached, fun ts hr ht hf ↦ ?_⟩
      rw [hfill] at hf
      rcases eq_or_ne (FillerMailbox.tsBank ts) (FillerMailbox.tsBank (deltaToEtsiTs b.delta))
        with he | hne
      · rw [he, hholds.1] at hf
        exact absurd hf Bool.true_eq_false_eq_False
      · rw [(hother _ hne).2] at hf
        refine (h.valid ts hr ht hf).mono fun i hts hsp ↦ ?_
        obtain ⟨hv, hsame⟩ := slots_voicePipeTick b st i
        have hts' : (st.slots i).voiceTs = ts := hv.symm.trans hts
        refine ⟨hts', (hsame (fun hb ↦ hne ?_) now).1 hsp⟩
        rw [← hts', hb]

end Fsm.Ticked

/-- On a timeslot with a call that does not speak, nobody does. -/
theorem Table.Inv.silent {st : Fsm} (h : st.table.Inv) {i : Fin 8} (hi : (st.slots i).Active)
    {now : UInt32} (hq : ¬ (st.slots i).Speaking now) : st.Silent (st.slots i).voiceTs now := by
  intro j hts hsp
  have hji : j = i := h.timeslots.eq hsp.1 hi hts
  exact hq (hji ▸ hsp)

/-- A freed slot speaks no more. -/
theorem speaking_freeSlot {st : Fsm} {i j : Fin 8} {now : UInt32}
    (h : ((freeSlot i st).slots j).Speaking now) :
    (st.slots j).voiceTs = ((freeSlot i st).slots j).voiceTs ∧ (st.slots j).Speaking now := by
  have hslots : (freeSlot i st).slots = Function.update st.slots i {} := by
    rw [← Fsm.slots_table, table_freeSlot, Table.slots_close, Fsm.slots_table]
  rw [hslots] at h ⊢
  rcases eq_or_ne j i with rfl | hji
  · rw [Function.update_self] at h
    exact absurd h.1 not_active_default
  · rw [Function.update_of_ne hji] at h ⊢
    exact ⟨rfl, h⟩

theorem ticked_superviseSlot {st₀ st : Fsm} (env : TickEnv) {i : Fin 8} (hinv : st.table.Inv)
    (hi : (st.slots i).Active) (h : st₀.Ticked st env.now) :
    st₀.Ticked (superviseSlot env i st) env.now := by
  obtain ⟨hlo, hhi⟩ := (hinv.ok i hi).voiceTs
  rw [Fsm.slots_table] at hlo hhi
  have hrange : 1 ≤ (st.slots i).voiceTs ∧ (st.slots i).voiceTs ≤ 4 := by grind
  have hin : ∀ c : Bool, (c && decide ((st.slots i).voiceTs ≥ 1) &&
      decide ((st.slots i).voiceTs ≤ 4)) = c := by
    intro c
    simp [hrange.1, hrange.2]
  have hquiet : slotAge (st.slots i).lastActivityPollCnt env.now > voiceQuietMs →
      st.Silent (st.slots i).voiceTs env.now := fun hage ↦
    hinv.silent hi fun hsp ↦ hsp.2.2.2.2 hage
  unfold superviseSlot
  dsimp only
  by_cases hring : (st.slots i).state = .connecting
  · rw [if_pos (by simpa using hring)]
    split
    · exact (h.same (Fsm.sameShared_submit _ _ _ _) fun j hsp ↦ ⟨rfl, hsp⟩).same
        (Fsm.sameShared_freeSlot _ _) fun j hsp ↦ speaking_freeSlot hsp
    · exact h
  · rw [if_neg (by simpa using hring)]
    by_cases hstale : ((st.slots i).state != .idle &&
        decide (slotAge (st.slots i).lastActivityPollCnt env.now > callStaleMs)) = true
    · rw [if_pos hstale, if_pos (by simp [hrange.1, hrange.2])]
      have hage : slotAge (st.slots i).lastActivityPollCnt env.now > voiceQuietMs := by
        have hst : slotAge (st.slots i).lastActivityPollCnt env.now > callStaleMs := by
          simpa using (Bool.and_eq_true_iff.1 hstale).2
        have hle : voiceQuietMs < callStaleMs := by decide
        exact UInt32.lt_trans hle hst
      exact (h.clear hrange (hquiet hage)).same (Fsm.sameShared_freeSlot _ _)
        fun j hsp ↦ speaking_freeSlot hsp
    · rw [if_neg hstale]
      have hclear : st₀.Ticked (if (decide (slotAge (st.slots i).lastActivityPollCnt env.now >
          voiceQuietMs) && decide ((st.slots i).voiceTs ≥ 1) &&
          decide ((st.slots i).voiceTs ≤ 4)) = true then
            st.emit (voiceFillerClearTs (st.slots i).voiceTs) else st) env.now := by
        rw [hin]
        split
        · rename_i hage
          exact h.clear hrange (hquiet (of_decide_eq_true hage))
        · exact h
      by_cases htgt : ((if (st.slots i).groupGssi != 0 then (st.slots i).groupGssi
          else (st.slots i).targetIssi) != 0) = true
      · rw [if_pos htgt]
        exact hclear.pipe _
      · rw [if_neg htgt]
        exact hclear

/-- One turn of the loop. -/
theorem ticked_tickSlot {st₀ st : Fsm} (env : TickEnv) (i : Fin 8) (hinv : st.table.Inv)
    (h : st₀.Ticked st env.now) : st₀.Ticked (tickSlot env st i) env.now := by
  unfold tickSlot
  split
  · exact h
  · rename_i hi
    have ha : (st.slots i).Active := by simpa [CallSlot.Active] using hi
    have hseq : (setupSequencer (env.idle i 0) env.now i st).table.Inv := by
      rw [table_setupSequencer]
      exact hinv.sequenced i env.now ha
    refine ticked_superviseSlot env hseq ?_ (h.same (sameShared_setupSequencer _ _ _ _)
      fun j hsp ↦ ?_)
    · rw [← Fsm.slots_table, table_setupSequencer, Table.slots_set, Function.update_self,
        CallSlot.Active, ((st.slots i).sequenced_fields env.now).1]
      exact ha
    · obtain ⟨hv, hsp'⟩ := slots_setupSequencer (env.idle i 0) env.now i j st
      exact ⟨hv.symm, (hsp' env.now).1 hsp⟩

theorem inv_tickSlot {st : Fsm} (env : TickEnv) (i : Fin 8) (h : st.table.Inv) :
    (tickSlot env st i).table.Inv := by
  by_cases ha : (st.slots i).Active
  · by_cases he : (st.slots i).Expired env.now
    · rw [table_tickSlot_of_expired env ha he]
      exact h.close i
    · exact (h.sequenced i env.now ha).stamped (stamped_tickSlot_of_not_expired env ha he)
  · rw [table_tickSlot_of_not_active env ha]
    exact h

theorem take_finRange_succ : ∀ k : Fin 8,
    (List.finRange 8).take (k + 1) = (List.finRange 8).take k ++ [k] := by
  decide

/-- The state before each turn and after the last: a property of the turns that are over, which
every turn keeps. -/
theorem turns_induction {P : ℕ → Fsm → Prop} (env : TickEnv) {st : Fsm} (h : P 0 st)
    (hstep : ∀ i : Fin 8, P i (st.turn env i) → P (i + 1) (tickSlot env (st.turn env i) i)) :
    ∀ k ≤ 8, P k (((List.finRange 8).take k).foldl (tickSlot env) st) := by
  intro k hk
  induction k with
  | zero => exact h
  | succ k ih =>
      have hlast := hstep ⟨k, hk⟩ (ih (by omega))
      rw [take_finRange_succ ⟨k, hk⟩, List.foldl_append]
      exact hlast

/-- The state after the last turn. -/
theorem turn_induction {P : ℕ → Fsm → Prop} (env : TickEnv) {st : Fsm} (h : P 0 st)
    (hstep : ∀ i : Fin 8, P i (st.turn env i) → P (i + 1) (tickSlot env (st.turn env i) i)) :
    P 8 ((List.finRange 8).foldl (tickSlot env) st) :=
  turns_induction env h hstep 8 le_rfl

/-- **The tick, the mask and the banks.** -/
theorem ticked_tick {st : Fsm} (env : TickEnv) (hinv : st.table.Inv) :
    st.Ticked ((List.finRange 8).foldl (tickSlot env) st) env.now :=
  (turn_induction (P := fun _ st' ↦ st'.table.Inv ∧ st.Ticked st' env.now) env
    ⟨hinv, .refl st env.now⟩ fun i h ↦
      ⟨inv_tickSlot env i h.1, ticked_tickSlot env i h.1 h.2⟩).2

/-- The tick as a whole. -/
theorem tick_shared {st : Fsm} (env : TickEnv) (hinv : st.table.Inv) :
    st.MaskStep (tick env st) ∧ (tick env st).filler =
        ((List.finRange 8).foldl (tickSlot env) st).filler ∧
      (tick env st).slots = ((List.finRange 8).foldl (tickSlot env) st).slots := by
  have hloop := ticked_tick env hinv
  refine ⟨?_, Fsm.filler_maskWriteCached _ _, Fsm.slots_maskWriteCached _ _⟩
  have hmask := Fsm.maskStep_maskWriteCached ((List.finRange 8).foldl (tickSlot env) st)
    ((List.finRange 8).foldl (tickSlot env) st).slots env.maskNow
  refine ⟨fun hk ↦ (hmask.kept (hk.trans hloop.maskCached.symm)).trans hloop.maskReg,
    fun hne ↦ hmask.renewed fun hk ↦ hne (hk.trans hloop.maskCached)⟩

/-- **After a tick the voice bits of the register are the voice mask.** -/
theorem maskReg_tick {st : Fsm} (env : TickEnv) (hinv : st.table.Inv) (hs : st.MaskSync) :
    (tick env st).maskReg &&& 0xF = computeVoiceMask (tick env st).slots env.maskNow := by
  have hsync := (tick_shared env hinv).1.maskSync hs
  have hcached : (tick env st).maskCached = computeVoiceMask (tick env st).slots env.maskNow := by
    rw [(tick_shared env hinv).2.2]
    rcases ((List.finRange 8).foldl (tickSlot env) st).maskWriteCached_cases
      (computeVoiceMask ((List.finRange 8).foldl (tickSlot env) st).slots env.maskNow) with
      ⟨he, h⟩ | ⟨-, h, -, -⟩
    · exact (congrArg Fsm.maskCached h).trans he.symm
    · exact h
  have hbits := Fsm.voiceBits_computeVoiceMask (tick env st).slots env.maskNow
  rw [← hcached] at hbits ⊢
  refine hsync.resolve_left fun hall ↦ ?_
  rw [hall] at hbits
  exact absurd hbits (by decide)

/-! ## The bank of TS1 -/

/-- The tick relays a burst that came on timeslot `ts`. -/
def Fsm.Relays (st : Fsm) (env : TickEnv) (ts : UInt8) : Prop :=
  ∃ i b, ((st.turn env i).slots i).ServesPipe env.now ∧ env.burst i = some b ∧
    deltaToEtsiTs b.delta = ts

theorem sameBank_voicePipeTick {burst : Option PipeBurst} {st : Fsm}
    (h : ∀ b, burst = some b → deltaToEtsiTs b.delta ≠ 1) :
    st.filler.SameBank (voicePipeTick burst st).filler 0 := by
  cases burst with
  | none => exact ⟨rfl, rfl⟩
  | some b =>
      obtain ⟨-, -, hfill⟩ := shared_voicePipeTick b st
      obtain ⟨hlo, hhi⟩ := deltaToEtsiTs_range b.delta
      have hne : (0 : Fin 4) ≠ FillerMailbox.tsBank (deltaToEtsiTs b.delta) := fun he ↦
        h b rfl (tsBank_inj ⟨hlo, hhi⟩ ⟨by decide, by decide⟩ he.symm)
      rw [hfill]
      exact (st.filler.writes_voiceFillerWriteTs b.type5Out hlo hhi).2 0 hne

/-- Clearing the bank of a voice timeslot leaves that of TS1. -/
theorem sameBank_clearTs {ts : UInt8} (h : 2 ≤ ts ∧ ts ≤ 4) (st : Fsm) :
    st.filler.SameBank (st.emit (voiceFillerClearTs ts)).filler 0 := by
  have hr : 1 ≤ ts ∧ ts ≤ 4 := by grind
  have hne : (0 : Fin 4) ≠ FillerMailbox.tsBank ts := fun he ↦ by
    have h1 : ts = 1 := tsBank_inj hr ⟨by decide, by decide⟩ he.symm
    rw [h1] at h
    exact absurd h.1 (by decide)
  obtain ⟨-, hbank, hvalid⟩ := shared_clearTs hr st
  exact ⟨by rw [hbank], by rw [hvalid, Function.update_of_ne hne]⟩

theorem sameBank_superviseSlot {st : Fsm} (env : TickEnv) {i : Fin 8} (hinv : st.table.Inv)
    (hi : (st.slots i).Active)
    (hb : (st.slots i).ServesPipe env.now → ∀ b, env.burst i = some b → deltaToEtsiTs b.delta ≠ 1) :
    st.filler.SameBank (superviseSlot env i st).filler 0 := by
  have hts : 2 ≤ (st.slots i).voiceTs ∧ (st.slots i).voiceTs ≤ 4 := (hinv.ok i hi).voiceTs
  have hfree : ∀ {st₁ : Fsm}, st.filler.SameBank st₁.filler 0 →
      st.filler.SameBank (freeSlot i st₁).filler 0 := fun h ↦ by
    rw [(Fsm.sameShared_freeSlot _ i).filler]
    exact h
  have hclear : ∀ (c : Prop) [Decidable c], st.filler.SameBank
      (if c then st.emit (voiceFillerClearTs (st.slots i).voiceTs) else st).filler 0 := by
    intro c _
    split
    · exact sameBank_clearTs hts st
    · exact ⟨rfl, rfl⟩
  unfold superviseSlot
  dsimp only
  by_cases hring : (st.slots i).state = .connecting
  · rw [if_pos (by simpa using hring)]
    split
    · refine hfree ?_
      rw [stageDRelease, (Fsm.sameShared_submit _ _ _ _).filler]
      exact ⟨rfl, rfl⟩
    · exact ⟨rfl, rfl⟩
  · rw [if_neg (by simpa using hring)]
    by_cases hstale : ((st.slots i).state != .idle &&
        decide (slotAge (st.slots i).lastActivityPollCnt env.now > callStaleMs)) = true
    · rw [if_pos hstale]
      exact hfree (hclear _)
    · rw [if_neg hstale]
      by_cases htgt : ((if (st.slots i).groupGssi != 0 then (st.slots i).groupGssi
          else (st.slots i).targetIssi) != 0) = true
      · rw [if_pos htgt]
        have hserves : (st.slots i).ServesPipe env.now := by
          refine ⟨hi, hring, ?_, ?_⟩
          · rw [CallSlot.Expired, if_neg hring]
            simpa using hstale
          · split_ifs at htgt with hg
            · exact .inl (by simpa using hg)
            · exact .inr (by simpa using htgt)
        refine FillerMailbox.SameBank.trans ?_ (sameBank_voicePipeTick (hb hserves))
        exact hclear _
      · rw [if_neg htgt]
        exact hclear _

theorem sameBank_tickSlot {st : Fsm} (env : TickEnv) {i : Fin 8} (hinv : st.table.Inv)
    (hb : (st.slots i).ServesPipe env.now → ∀ b, env.burst i = some b → deltaToEtsiTs b.delta ≠ 1) :
    st.filler.SameBank (tickSlot env st i).filler 0 := by
  unfold tickSlot
  split
  · exact ⟨rfl, rfl⟩
  · rename_i hi
    have ha : (st.slots i).Active := by simpa [CallSlot.Active] using hi
    have hslot : (setupSequencer (env.idle i 0) env.now i st).slots i =
        (st.slots i).sequenced env.now := by
      rw [← Fsm.slots_table, table_setupSequencer, Table.slots_set, Function.update_self]
    obtain ⟨hssi, hg, ht, hstate, -⟩ := (st.slots i).sequenced_fields env.now
    have hinv' : (setupSequencer (env.idle i 0) env.now i st).table.Inv := by
      rw [table_setupSequencer]
      exact hinv.sequenced i env.now ha
    rw [← (sameShared_setupSequencer (env.idle i 0) env.now i st).filler]
    refine sameBank_superviseSlot env hinv' ?_ fun hserves ↦ hb ?_
    · rw [hslot, CallSlot.Active, hssi]
      exact ha
    · obtain ⟨-, hring, hexp, htgt⟩ := hserves
      rw [hslot, hstate] at hring
      rw [hslot, CallSlot.expired_sequenced] at hexp
      rw [hslot, hg, ht] at htgt
      exact ⟨ha, hring, hexp, htgt⟩

/-- **The tick leaves the bank of TS1 alone** unless it relays a burst from there. -/
theorem sameBank_tick {st : Fsm} (env : TickEnv) (hinv : st.table.Inv) (hb : ¬ st.Relays env 1) :
    st.filler.SameBank ((List.finRange 8).foldl (tickSlot env) st).filler 0 := by
  refine (turn_induction (P := fun _ st' ↦ st'.table.Inv ∧ st.filler.SameBank st'.filler 0) env
    ⟨hinv, rfl, rfl⟩ fun i h ↦ ⟨inv_tickSlot env i h.1, h.2.trans ?_⟩).2
  exact sameBank_tickSlot env h.1 fun hserves b hburst hts ↦ hb ⟨i, b, hserves, hburst, hts⟩

end TetraPhy.CallFsm
