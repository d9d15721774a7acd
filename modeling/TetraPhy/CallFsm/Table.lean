import Mathlib.Data.List.Find
import TetraPhy.CallFsm.Handle

/-!
# The table of calls

A handler interleaves slot writes with register traffic.  What the safety results
are about is coarser: the slot table, the two counters, and the value each AACH
register last received.  That projection is a `Table`, and every operation of the
FSM acts on it in one of a few ways:

| operation | effect on the table |
|---|---|
| staging, filler and mask writes | none |
| `allocSlot` | none, `burn`, or `opened` |
| `freeSlot` | `close` |
| everything else | `set` of one slot |

The `table_*` lemmas compute the effect of each helper; the files on the handlers
and on the tick build on them, and nothing after those looks at register traffic.
-/

namespace TetraPhy.CallFsm

open Sw

/-! ## Tables -/

/-- The slots, the round-robin counters, and the last value written to the AACH
register of each timeslot (idle if there was none). -/
@[ext]
structure Table where
  slots : SlotTable
  nextCallId : UInt16
  nextUmt : UInt8
  aach : UInt8 → UInt32

namespace Table

/-- Overwrite slot `i`. -/
def set (T : Table) (i : Fin 8) (s : CallSlot) : Table :=
  { T with slots := Function.update T.slots i s }

/-- Advance both counters, as a failed allocation does. -/
def burn (T : Table) : Table :=
  { T with nextCallId := bumpCallId T.nextCallId, nextUmt := bumpUmt T.nextUmt }

/-- The slot a successful allocation hands out. -/
def freshSlot (T : Table) (ssi : UInt32) (ts : UInt8) : CallSlot :=
  { ssi := ssi, callId := T.nextCallId, state := .idle, ns := 0, nr := 1, umt := T.nextUmt
    voiceTs := ts }

/-- Open slot `i` on timeslot `ts`: new identifiers, and the usage marker on air. -/
def opened (T : Table) (i : Fin 8) (ssi : UInt32) (ts : UInt8) : Table :=
  { (T.burn.set i (T.freshSlot ssi ts)) with
    aach := Function.update T.aach ts (aachVoiceUmt T.nextUmt &&& 0x3FFF) }

/-- Free slot `i`: its timeslot goes back to idle. -/
def close (T : Table) (i : Fin 8) : Table :=
  { T.set i {} with
    aach := if 1 ≤ (T.slots i).voiceTs ∧ (T.slots i).voiceTs ≤ 4 then
      Function.update T.aach (T.slots i).voiceTs (aachIdle &&& 0x3FFF) else T.aach }

@[simp] theorem slots_set (T : Table) (i : Fin 8) (s : CallSlot) :
    (T.set i s).slots = Function.update T.slots i s := rfl

@[simp] theorem set_set (T : Table) (i : Fin 8) (s s' : CallSlot) :
    (T.set i s).set i s' = T.set i s' := by
  simp [set]

@[simp] theorem slots_burn (T : Table) : T.burn.slots = T.slots := rfl

@[simp] theorem slots_opened (T : Table) (i : Fin 8) (ssi : UInt32) (ts : UInt8) :
    (T.opened i ssi ts).slots = Function.update T.slots i (T.freshSlot ssi ts) := rfl

@[simp] theorem slots_close (T : Table) (i : Fin 8) :
    (T.close i).slots = Function.update T.slots i {} := rfl

/-- What slot `i` held does not matter for its closing, its timeslot apart. -/
theorem close_set {T : Table} {i : Fin 8} {s : CallSlot}
    (h : s.voiceTs = (T.slots i).voiceTs) : (T.set i s).close i = T.close i := by
  simp [close, set, h]

end Table

/-- The table of a state. -/
def Fsm.table (st : Fsm) : Table where
  slots := st.slots
  nextCallId := st.nextCallId
  nextUmt := st.nextUmt
  aach := fun ts ↦ (lastWritten (tsToAachReg ts) st.hal).getD aachIdle

@[simp] theorem Fsm.slots_table (st : Fsm) : st.table.slots = st.slots := rfl

@[simp] theorem Fsm.nextUmt_table (st : Fsm) : st.table.nextUmt = st.nextUmt := rfl

/-! ## Register traffic does not show -/

/-- The registers the call FSM writes besides the AACH registers. -/
def otherRegs : List UInt32 :=
  replyRegs ++ fillerRegs ++ [regVoiceActiveMask, regVoiceNubReadIndex, regVoiceNubReadAck]

theorem tsToAachReg_notMem_otherRegs (ts : UInt8) : tsToAachReg ts ∉ otherRegs := by
  unfold tsToAachReg
  split_ifs <;> decide

theorem table_emit {st : Fsm} {ws : List RegWrite} (h : WritesOnly otherRegs ws) :
    (st.emit ws).table = st.table := by
  ext ts <;> try rfl
  simp only [Fsm.table, Fsm.emit, h.lastWritten_append (tsToAachReg_notMem_otherRegs ts)]

/-- The same for writes issued under a condition. -/
theorem table_emit_ite {st : Fsm} {ws : List RegWrite} {R : List UInt32} (h : WritesOnly R ws)
    (hR : R ⊆ otherRegs) (c : Prop) [Decidable c] :
    (if c then st.emit ws else st).table = st.table := by
  split
  · exact table_emit (h.mono hR)
  · rfl

@[simp] theorem table_submit (st : Fsm) (idle : Bool) (cls : TxPduClass) (m : TxPduMeta) :
    (st.submit idle cls m).1.table = st.table :=
  table_emit ((writesOnly_txSubmit idle cls m).mono (by decide))

@[simp] theorem slots_submit (st : Fsm) (idle : Bool) (cls : TxPduClass) (m : TxPduMeta) :
    (st.submit idle cls m).1.slots = st.slots := rfl

@[simp] theorem slots_emit (st : Fsm) (ws : List RegWrite) : (st.emit ws).slots = st.slots := rfl

@[simp] theorem table_emit_rxSlotgrant (st : Fsm) (idle : Bool) (ssi : UInt32) :
    (st.emit (rxSlotgrant idle ssi).1).table = st.table :=
  table_emit ((writesOnly_rxSlotgrant idle ssi).mono (by decide))

@[simp] theorem table_emit_voiceFillerClear (st : Fsm) :
    (st.emit voiceFillerClear).table = st.table :=
  table_emit (writesOnly_voiceFillerClear.mono (by decide))

@[simp] theorem table_emit_voiceFillerClearTs (st : Fsm) (ts : UInt8) :
    (st.emit (voiceFillerClearTs ts)).table = st.table :=
  table_emit ((writesOnly_voiceFillerClearTs ts).mono (by decide))

@[simp] theorem table_maskWriteCached (st : Fsm) (v : UInt32) :
    (st.maskWriteCached v).table = st.table := by
  unfold Fsm.maskWriteCached
  split
  · rfl
  · refine @table_emit st _ fun w hw ↦ ?_
    rw [List.mem_singleton.mp hw]
    change regVoiceActiveMask ∈ otherRegs
    decide

/-! ## Slot writes -/

@[simp] theorem table_modify (st : Fsm) (i : Fin 8) (f : CallSlot → CallSlot) :
    (st.modify i f).table = st.table.set i (f (st.slots i)) := rfl

@[simp] theorem slots_modify (st : Fsm) (i : Fin 8) (f : CallSlot → CallSlot) :
    (st.modify i f).slots = Function.update st.slots i (f (st.slots i)) := rfl

/-- An AACH write changes the register of its timeslot only. -/
theorem table_aachWrite (st : Fsm) {ts : UInt8} (h : 1 ≤ ts) (h' : ts ≤ 4) (info : UInt32) :
    (st.aachWrite ts info).table =
      { st.table with aach := Function.update st.table.aach ts (info &&& 0x3FFF) } := by
  have hreg : (tsToAachReg ts == 0) = false := by simpa using tsToAachReg_ne_zero h h'
  simp only [Fsm.aachWrite, hreg, Bool.false_eq_true, if_false]
  ext t <;> try rfl
  simp only [Fsm.table, Fsm.emit, lastWritten_concat, Function.update_apply]
  by_cases ht : t = ts
  · rw [if_pos (congrArg tsToAachReg ht.symm), if_pos ht, Option.getD_some]
  · rw [if_neg fun he ↦ ht (tsToAachReg_inj h h' he).symm, if_neg ht]

/-! ## Allocation and release -/

/-- An allocated timeslot is a voice timeslot no active slot uses. -/
theorem allocVoiceTs_spec {g : SlotTable} (h : allocVoiceTs g ≠ 0) :
    (2 ≤ allocVoiceTs g ∧ allocVoiceTs g ≤ 4) ∧
      ∀ i, (g i).Active → (g i).voiceTs ≠ allocVoiceTs g := by
  unfold allocVoiceTs at h ⊢
  cases hf : voiceTimeslots.find? fun cand ↦
      !((List.finRange 8).any fun i ↦ (g i).ssi != 0 && (g i).voiceTs == cand) with
  | none => exact absurd (by rw [hf]; rfl) h
  | some ts =>
      rw [Option.getD_some]
      refine ⟨mem_voiceTimeslots.mp (List.mem_of_find?_eq_some hf), fun i hi he ↦ ?_⟩
      have hfree := List.find?_some hf
      simp only [Bool.not_eq_true', List.any_eq_false] at hfree
      have := hfree i (List.mem_finRange i)
      simp_all [CallSlot.Active]

/-- `alloc_voice_ts` fails exactly when each voice timeslot is in use. -/
theorem allocVoiceTs_eq_zero {g : SlotTable} :
    allocVoiceTs g = 0 ↔ ∀ ts ∈ voiceTimeslots, ∃ i, (g i).Active ∧ (g i).voiceTs = ts := by
  unfold allocVoiceTs
  cases hf : voiceTimeslots.find? fun cand ↦
      !((List.finRange 8).any fun i ↦ (g i).ssi != 0 && (g i).voiceTs == cand) with
  | none =>
      rw [List.find?_eq_none] at hf
      simpa [CallSlot.Active] using hf
  | some ts =>
      have hts := List.mem_of_find?_eq_some hf
      have hfree := List.find?_some hf
      rw [Option.getD_some]
      constructor
      · intro h0
        exact absurd (h0 ▸ hts) (by decide)
      · intro hall
        obtain ⟨i, hi, he⟩ := hall ts hts
        simp only [Bool.not_eq_true', List.any_eq_false] at hfree
        have := hfree i (List.mem_finRange i)
        simp_all [CallSlot.Active]

/-- A slot that is free, or is being opened and has no timeslot yet, does not
influence the choice of a timeslot. -/
theorem allocVoiceTs_update {g : SlotTable} {i : Fin 8} {s : CallSlot} (hi : ¬ (g i).Active)
    (hs : s.voiceTs = 0) : allocVoiceTs (Function.update g i s) = allocVoiceTs g := by
  have hany : ∀ cand ∈ voiceTimeslots,
      ((List.finRange 8).any fun j ↦ (Function.update g i s j).ssi != 0 &&
        (Function.update g i s j).voiceTs == cand) =
      ((List.finRange 8).any fun j ↦ (g j).ssi != 0 && (g j).voiceTs == cand) := by
    intro cand hc
    have hc0 : cand ≠ 0 := by rintro rfl; exact absurd hc (by decide)
    rw [Bool.eq_iff_iff, List.any_eq_true, List.any_eq_true]
    refine exists_congr fun j ↦ and_congr_right fun _ ↦ ?_
    by_cases hj : j = i
    · subst hj
      rw [Function.update_self, hs]
      simp only [CallSlot.Active, ne_eq, not_not] at hi
      simp [hi, hc0.symm]
    · rw [Function.update_of_ne hj]
  unfold allocVoiceTs
  rw [List.find?_congr fun cand hc ↦ by rw [hany cand hc]]

/-- `alloc_slot` on tables: fail with no free slot; fail with every timeslot taken,
both counters advanced; or open the first free slot on the lowest free timeslot. -/
def Table.alloc (T : Table) (ssi : UInt32) : Table × Option (Fin 8) :=
  match Fin.find? fun i ↦ (T.slots i).ssi == 0 with
  | none => (T, none)
  | some i =>
    if allocVoiceTs T.slots = 0 then (T.burn.set i {}, none)
    else (T.opened i ssi (allocVoiceTs T.slots), some i)

theorem allocSlot_table (ssi : UInt32) (st : Fsm) :
    ((allocSlot ssi st).1.table, (allocSlot ssi st).2) = st.table.alloc ssi := by
  unfold allocSlot Table.alloc
  rw [Fsm.slots_table]
  cases hf : Fin.find? fun i ↦ (st.slots i).ssi == 0 with
  | none => rfl
  | some i =>
      have hi : ¬ (st.slots i).Active := by
        simpa [CallSlot.Active] using Fin.eq_true_of_find?_eq_some hf
      dsimp only
      rw [slots_modify, allocVoiceTs_update hi rfl]
      by_cases hts : allocVoiceTs st.slots = 0
      · rw [if_pos (by simpa using hts), if_pos hts]
        refine Prod.ext ?_ rfl
        simp [Fsm.table, Fsm.modify, Table.burn, Table.set]
      · rw [if_neg (by simpa using hts), if_neg hts]
        obtain ⟨⟨h2, h4⟩, -⟩ := allocVoiceTs_spec hts
        refine Prod.ext ?_ rfl
        dsimp only
        rw [table_aachWrite _ (by grind) h4]
        simp [Fsm.table, Fsm.modify, Table.opened, Table.burn, Table.set, Table.freshSlot]

theorem table_freeSlot (i : Fin 8) (st : Fsm) : (freeSlot i st).table = st.table.close i := by
  unfold freeSlot
  dsimp only
  by_cases h : 1 ≤ (st.slots i).voiceTs ∧ (st.slots i).voiceTs ≤ 4
  · rw [if_pos (by simpa using h), table_modify, table_aachWrite st h.1 h.2]
    simp [Table.close, Table.set, h]
  · rw [if_neg (by simpa using h), table_modify, Table.close, Fsm.slots_table, if_neg h]
    rfl

end TetraPhy.CallFsm
