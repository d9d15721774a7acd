import TetraPhy.Infra.AxiLite
import TetraPhy.Sw.Regs

/-!
# The registers behind the bus

The registers of `tetra_axi_lite_regs.v` that hold what the software writes, and the interrupts.  To
the software a register is what was last written to it (`lastWritten`); here it is flip-flops with
strobes behind a bus, and a word address that is decoded in two steps.

* `registers_lastWritten` — whatever the timing on the bus, the registers hold what was last
  written;
* `irqStatus_iff` — an interrupt is pending exactly if it came after it was last cleared, or in the
  same cycle.
-/

namespace TetraPhy.Infra

open Sw

/-! ## The registers -/

/-- `wr_en_axi` (0x000 .. 0x1FC). -/
def wrEn (addr : BitVec 11) : Bool := addr.extractLsb' 9 2 == 0b00

/-- `wr_en_x1_axi` (0x200 .. 0x2FC). -/
def wrEnX1 (addr : BitVec 11) : Bool := addr.extractLsb' 8 3 == 0b010

/-- The word of a bank. -/
def regIdx (addr : BitVec 11) : BitVec 7 := addr.extractLsb' 2 7

namespace AxiWrite

variable (w : AxiWrite)

/-- A byte that is written or kept. -/
def byte (k : ℕ) (x : BitVec 8) : BitVec 8 :=
  if w.strb.getLsbD k then w.data.extractLsb' (8 * k) 8 else x

/-- A register of a word, byte by byte. -/
def bytes (x : BitVec 32) : BitVec 32 :=
  w.byte 3 (x.extractLsb' 24 8) ++ w.byte 2 (x.extractLsb' 16 8) ++ w.byte 1 (x.extractLsb' 8 8) ++
    w.byte 0 (x.extractLsb' 0 8)

def irqEnable (x : BitVec 5) : BitVec 5 :=
  if wrEn w.addr && regIdx w.addr == 0x09 && w.strb.getLsbD 0 then w.data.extractLsb' 0 5 else x

def scratch (x : BitVec 32) : BitVec 32 :=
  if wrEn w.addr && regIdx w.addr == 0x0F then w.bytes x else x

def dbPolicy (x : BitVec 32) : BitVec 32 :=
  if wrEn w.addr && regIdx w.addr == 0x6B then w.bytes x else x

def voiceActiveMask (x : BitVec 32) : BitVec 32 :=
  if wrEn w.addr && regIdx w.addr == 0x7B then w.bytes x else x

/-- The half word of timeslot `k + 1`. -/
def slotAach (k : BitVec 2) (x : BitVec 16) : BitVec 16 :=
  if wrEnX1 w.addr && regIdx w.addr == 0x28 + k.setWidth 7 then
    w.byte 1 (x.extractLsb' 8 8) ++ w.byte 0 (x.extractLsb' 0 8)
  else x

/-- `irq_sw_clr_axi`. -/
def irqSwClr : BitVec 5 :=
  if wrEn w.addr && regIdx w.addr == 0x0A then w.data.extractLsb' 0 5 else 0

end AxiWrite

/-- The registers, with the others as `ρ`. -/
structure AxiRegs (ρ : Type*) where
  irqEnable : BitVec 5 := 0
  irqStatus : BitVec 5 := 0
  irqOut : Bool := false
  scratch : BitVec 32 := 0
  dbPolicy : BitVec 32 := 3
  voiceActiveMask : BitVec 32 := 0
  slotAach : BitVec 2 → BitVec 16 := fun _ ↦ 0x3000
  rest : ρ

/-- What the registers see of the hardware: the events, and what the others see. -/
structure RegsIn (ι : Type*) where
  irqHwSet : BitVec 5
  rest : ι

namespace AxiRegs

variable {ρ ι : Type*} (others : RegisterBank ρ ι)

/-- A cycle.  An event wins over a clear. -/
def next (r : AxiRegs ρ) (i : RegsIn ι) (w : Option AxiWrite) : AxiRegs ρ where
  irqEnable := w.elim r.irqEnable (·.irqEnable r.irqEnable)
  irqStatus := (r.irqStatus ||| i.irqHwSet) &&& ~~~((w.elim 0 (·.irqSwClr)) &&& ~~~i.irqHwSet)
  irqOut := r.irqStatus &&& r.irqEnable != 0
  scratch := w.elim r.scratch (·.scratch r.scratch)
  dbPolicy := w.elim r.dbPolicy (·.dbPolicy r.dbPolicy)
  voiceActiveMask := w.elim r.voiceActiveMask (·.voiceActiveMask r.voiceActiveMask)
  slotAach k := w.elim (r.slotAach k) (·.slotAach k (r.slotAach k))
  rest := others.next r.rest i.rest w

/-- `rdata_mux_axi`. -/
def rdataMux (r : AxiRegs ρ) (i : RegsIn ι) (addr : BitVec 11) : BitVec 32 :=
  if addr.extractLsb' 9 2 == 0b01 then
    if regIdx addr - 0x28 < 4 then (r.slotAach ((regIdx addr - 0x28).setWidth 2)).setWidth 32
    else others.rdataMux r.rest i.rest addr
  else
    match regIdx addr with
    | 0x09 => r.irqEnable.setWidth 32
    | 0x0A => r.irqStatus.setWidth 32
    | 0x0F => r.scratch
    | 0x6B => r.dbPolicy
    | 0x7B => r.voiceActiveMask
    | _ => others.rdataMux r.rest i.rest addr

def bank : RegisterBank (AxiRegs ρ) (RegsIn ι) := ⟨next others, rdataMux others⟩

end AxiRegs

/-! ## What the software writes -/

/-- The write of `tetra_reg_write` on the bus. -/
def busWrite (w : RegWrite) : AxiWrite := ⟨w.offset.toBitVec.setWidth 11, w.value.toBitVec, 0xF⟩

/-- The offset is that of a word. -/
def IsWord (offset : UInt32) : Prop := offset.toNat < 0x800 ∧ offset.toNat % 4 = 0

instance decidableIsWord (offset : UInt32) : Decidable (IsWord offset) :=
  inferInstanceAs (Decidable (_ ∧ _))

section Decode

variable {off : UInt32} {k : BitVec 7}

theorem regIdx_beq (h : IsWord off) :
    (regIdx (off.toBitVec.setWidth 11) == k) = decide (off.toNat / 4 % 128 = k.toNat) := by
  have hidx : (regIdx (off.toBitVec.setWidth 11)).toNat = off.toNat / 4 % 128 := by
    have hlt := h.1
    simp only [regIdx, BitVec.extractLsb'_toNat, BitVec.toNat_setWidth, UInt32.toNat_toBitVec]
    omega
  rw [← hidx, Bool.beq_eq_decide_eq]
  exact decide_eq_decide.2 BitVec.toNat_inj.symm

/-- **The decoder of the first bank** knows a register by its offset. -/
theorem wrEn_regIdx (h : IsWord off) : (wrEn (off.toBitVec.setWidth 11) &&
    regIdx (off.toBitVec.setWidth 11) == k) = decide (off.toNat = 4 * k.toNat) := by
  have hk := k.isLt
  obtain ⟨hlt, hword⟩ := id h
  have hen : wrEn (off.toBitVec.setWidth 11) = decide (off.toNat / 512 = 0) := by
    rw [wrEn, Bool.beq_eq_decide_eq]
    refine decide_eq_decide.2 ?_
    rw [← BitVec.toNat_inj, BitVec.extractLsb'_toNat, BitVec.toNat_setWidth, UInt32.toNat_toBitVec]
    change _ = 0 ↔ _
    omega
  rw [hen, regIdx_beq h, ← Bool.decide_and]
  exact decide_eq_decide.2 (by omega)

/-- The decoder of the second bank. -/
theorem wrEnX1_regIdx (h : IsWord off) (hk : k.toNat < 64) :
    (wrEnX1 (off.toBitVec.setWidth 11) && regIdx (off.toBitVec.setWidth 11) == k) =
      decide (off.toNat = 512 + 4 * k.toNat) := by
  obtain ⟨hlt, hword⟩ := id h
  have hen : wrEnX1 (off.toBitVec.setWidth 11) = decide (off.toNat / 256 = 2) := by
    rw [wrEnX1, Bool.beq_eq_decide_eq]
    refine decide_eq_decide.2 ?_
    rw [← BitVec.toNat_inj, BitVec.extractLsb'_toNat, BitVec.toNat_setWidth, UInt32.toNat_toBitVec]
    change _ = 2 ↔ _
    omega
  rw [hen, regIdx_beq h, ← Bool.decide_and]
  exact decide_eq_decide.2 (by omega)

end Decode

/-- A byte of a write with all strobes. -/
theorem byte_busWrite (w : RegWrite) {k : ℕ} (hk : k < 4) (x : BitVec 8) :
    (busWrite w).byte k x = w.value.toBitVec.extractLsb' (8 * k) 8 := by
  have hstrb : ∀ k < 4, (0xF : BitVec 4).getLsbD k = true := by decide
  exact if_pos (hstrb k hk)

theorem bytes_busWrite (w : RegWrite) (x : BitVec 32) : (busWrite w).bytes x = w.value.toBitVec := by
  rw [AxiWrite.bytes, byte_busWrite w (by decide), byte_busWrite w (by decide),
    byte_busWrite w (by decide), byte_busWrite w (by decide)]
  generalize w.value.toBitVec = v
  ext k hk
  simp only [BitVec.getElem_append, BitVec.getElem_extractLsb']
  rw [← BitVec.getLsbD_eq_getElem hk]
  split_ifs <;> exact congrArg v.getLsbD (by omega)

/-! ## Registers and what was last written -/

variable {ρ ι : Type*} (others : RegisterBank ρ ι)

/-- A part of the registers that a write sets, if it is one to `off`, and nothing else does. -/
structure IsRegister {β : Type*} (off : UInt32) (part : AxiRegs ρ → β) (val : UInt32 → β) :
    Prop where
  set : ∀ r i (w : RegWrite), IsWord w.offset →
    part (AxiRegs.next others r i (some (busWrite w))) = if w.offset = off then val w.value else part r
  keep : ∀ r i, part (AxiRegs.next others r i none) = part r

variable {others} {β : Type*} {off : UInt32} {part : AxiRegs ρ → β} {val : UInt32 → β}

/-- **A register holds what was last written to it**, whatever the timing on the bus and whatever
else is written and read. -/
theorem IsRegister.lastWritten_run (h : IsRegister others off part val) (regs : AxiRegs ρ)
    (es : List (AxiIn × RegsIn ι)) (ws : List RegWrite) (hws : ∀ w ∈ ws, IsWord w.offset)
    (hes : AxiLite.written (AxiRegs.bank others) regs es = ws.map busWrite) :
    part (AxiLite.after (AxiRegs.bank others) regs es).regs =
      ((lastWritten off ws).map val).getD (part regs) := by
  induction es using List.reverseRecOn generalizing ws with
  | nil =>
      obtain rfl := List.map_eq_nil_iff.1 hes.symm
      rfl
  | append_singleton es e ih =>
      have hstep : (AxiLite.after (AxiRegs.bank others) regs (es ++ [e])).regs =
          AxiRegs.next others (AxiLite.after (AxiRegs.bank others) regs es).regs e.2
            (AxiLite.after (AxiRegs.bank others) regs es).writes := by
        rw [AxiLite.after, Run.exec_append]
        rfl
      rw [AxiLite.written, Run.taken_concat] at hes
      rw [hstep]
      change _ ++ (AxiLite.after (AxiRegs.bank others) regs es).writes.toList = _ at hes
      cases hw : (AxiLite.after (AxiRegs.bank others) regs es).writes with
      | none =>
          rw [hw, Option.toList_none, List.append_nil] at hes
          rw [h.keep]
          exact ih ws hws hes
      | some x =>
          rw [hw] at hes
          obtain ⟨ws, ws', rfl, hold, hnew⟩ := List.map_eq_append_iff.1 hes.symm
          obtain ⟨w, rfl, rfl⟩ := List.map_eq_singleton_iff.1 hnew
          rw [h.set _ _ w (hws w (by simp)), ih ws (fun v hv ↦ hws v (by simp [hv])) hold.symm,
            lastWritten_concat]
          split_ifs <;> rfl

section Members

variable {w : RegWrite}

theorem wrEn_busWrite (hw : IsWord w.offset) (off : UInt32) {k : BitVec 7}
    (hk : off.toNat = 4 * k.toNat) :
    (wrEn (busWrite w).addr && regIdx (busWrite w).addr == k) = decide (w.offset = off) := by
  rw [busWrite, wrEn_regIdx hw, ← hk]
  exact decide_eq_decide.2 UInt32.toNat_inj

theorem wrEnX1_busWrite (hw : IsWord w.offset) (off : UInt32) {k : BitVec 7} (hlt : k.toNat < 64)
    (hk : off.toNat = 512 + 4 * k.toNat) :
    (wrEnX1 (busWrite w).addr && regIdx (busWrite w).addr == k) = decide (w.offset = off) := by
  rw [busWrite, wrEnX1_regIdx hw hlt, ← hk]
  exact decide_eq_decide.2 UInt32.toNat_inj

theorem isRegister_scratch : IsRegister others 0x3C AxiRegs.scratch UInt32.toBitVec := by
  refine ⟨fun r i w hw ↦ ?_, fun r i ↦ rfl⟩
  change (busWrite w).scratch r.scratch = _
  rw [AxiWrite.scratch, wrEn_busWrite hw 0x3C rfl, bytes_busWrite]
  simp only [decide_eq_true_eq]

theorem isRegister_dbPolicy : IsRegister others 0x1AC AxiRegs.dbPolicy UInt32.toBitVec := by
  refine ⟨fun r i w hw ↦ ?_, fun r i ↦ rfl⟩
  change (busWrite w).dbPolicy r.dbPolicy = _
  rw [AxiWrite.dbPolicy, wrEn_busWrite hw 0x1AC rfl, bytes_busWrite]
  simp only [decide_eq_true_eq]

theorem isRegister_voiceActiveMask :
    IsRegister others regVoiceActiveMask AxiRegs.voiceActiveMask UInt32.toBitVec := by
  refine ⟨fun r i w hw ↦ ?_, fun r i ↦ rfl⟩
  change (busWrite w).voiceActiveMask r.voiceActiveMask = _
  rw [AxiWrite.voiceActiveMask, wrEn_busWrite hw regVoiceActiveMask rfl, bytes_busWrite]
  simp only [decide_eq_true_eq]

/-- The five lowest bits. -/
theorem isRegister_irqEnable :
    IsRegister others 0x24 AxiRegs.irqEnable (fun v ↦ v.toBitVec.extractLsb' 0 5) := by
  refine ⟨fun r i w hw ↦ ?_, fun r i ↦ rfl⟩
  have hstrb : (busWrite w).strb.getLsbD 0 = true := by
    change (0xF : BitVec 4).getLsbD 0 = true
    decide
  change (busWrite w).irqEnable r.irqEnable = _
  rw [AxiWrite.irqEnable, hstrb, Bool.and_true, wrEn_busWrite hw 0x24 rfl]
  simp only [decide_eq_true_eq]
  rfl

/-- `REG_SLOT_AACH_TS1` and the three after it. -/
def regSlotAach (k : BitVec 2) : UInt32 := 0x2A0 + 4 * UInt32.ofBitVec (k.setWidth 32)

/-- The low half word. -/
theorem isRegister_slotAach (k : BitVec 2) : IsRegister others (regSlotAach k) (·.slotAach k)
    (fun v ↦ v.toBitVec.extractLsb' 0 16) := by
  have hlt : ∀ k : BitVec 2, (0x28 + k.setWidth 7 : BitVec 7).toNat < 64 := by decide
  have hoff : ∀ k : BitVec 2,
      (regSlotAach k).toNat = 512 + 4 * (0x28 + k.setWidth 7 : BitVec 7).toNat := by decide
  refine ⟨fun r i w hw ↦ ?_, fun r i ↦ rfl⟩
  have hhalf : ∀ v : BitVec 32, v.extractLsb' 8 8 ++ v.extractLsb' 0 8 = v.extractLsb' 0 16 := by
    intro v
    ext j hj
    simp only [BitVec.getElem_append, BitVec.getElem_extractLsb']
    split_ifs <;> exact congrArg v.getLsbD (by omega)
  change (busWrite w).slotAach k (r.slotAach k) = _
  rw [AxiWrite.slotAach, wrEnX1_busWrite hw (regSlotAach k) (hlt k) (hoff k),
    byte_busWrite w (by decide), byte_busWrite w (by decide)]
  simp only [decide_eq_true_eq]
  exact if_congr Iff.rfl (hhalf _) rfl

end Members

/-- **The registers hold what was last written.**  Whenever the writes on the bus are those of a
list of `tetra_reg_write`, whatever their timing and whatever is read between them, a register is
what the list last wrote to it, cut to its width, or its reset value. -/
theorem registers_lastWritten (others : RegisterBank ρ ι) (rest : ρ) (es : List (AxiIn × RegsIn ι))
    (ws : List RegWrite) (hws : ∀ w ∈ ws, IsWord w.offset)
    (hes : AxiLite.written (AxiRegs.bank others) { rest := rest } es = ws.map busWrite) :
    let r := (AxiLite.after (AxiRegs.bank others) { rest := rest } es).regs
    r.scratch = ((lastWritten 0x3C ws).map UInt32.toBitVec).getD 0 ∧
      r.dbPolicy = ((lastWritten 0x1AC ws).map UInt32.toBitVec).getD 3 ∧
      r.voiceActiveMask = ((lastWritten regVoiceActiveMask ws).map UInt32.toBitVec).getD 0 ∧
      r.irqEnable = ((lastWritten 0x24 ws).map fun v ↦ v.toBitVec.extractLsb' 0 5).getD 0 ∧
      ∀ k, r.slotAach k =
        ((lastWritten (regSlotAach k) ws).map fun v ↦ v.toBitVec.extractLsb' 0 16).getD 0x3000 :=
  ⟨isRegister_scratch.lastWritten_run _ es ws hws hes,
    isRegister_dbPolicy.lastWritten_run _ es ws hws hes,
    isRegister_voiceActiveMask.lastWritten_run _ es ws hws hes,
    isRegister_irqEnable.lastWritten_run _ es ws hws hes,
    fun k ↦ (isRegister_slotAach k).lastWritten_run _ es ws hws hes⟩

/-- The mask of timeslot 2 is written. -/
def maskWrite : List (AxiIn × RegsIn Unit) :=
  [({ awaddr := some 0x43C001EC, wdata := some (0x2, 0xF) }, ⟨0, ()⟩), ({}, ⟨0, ()⟩)]

theorem registers_lastWritten_maskWrite : (AxiLite.after (AxiRegs.bank AxiLite.noRegisters)
    { rest := () } maskWrite).regs.voiceActiveMask = 0x2 :=
  (registers_lastWritten AxiLite.noRegisters () maskWrite [⟨regVoiceActiveMask, 0x2⟩] (by decide)
    (by decide)).2.2.1.trans (by decide)

/-! ## Interrupts -/

/-- The bits that the write of this cycle clears. -/
def AxiLite.irqSwClr (s : AxiLite (AxiRegs ρ)) : BitVec 5 := s.writes.elim 0 (·.irqSwClr)

theorem irqStatus_step (s : AxiLite (AxiRegs ρ)) (e : AxiIn × RegsIn ι) (k : ℕ) :
    (s.step (AxiRegs.bank others) e).regs.irqStatus.getLsbD k =
      (e.2.irqHwSet.getLsbD k || (s.regs.irqStatus.getLsbD k && !s.irqSwClr.getLsbD k)) := by
  change ((s.regs.irqStatus ||| e.2.irqHwSet) &&& ~~~(s.irqSwClr &&& ~~~e.2.irqHwSet)).getLsbD k = _
  by_cases hk : k < 5
  · simp only [BitVec.getLsbD_and, BitVec.getLsbD_or, BitVec.getLsbD_not, hk, decide_true,
      Bool.true_and]
    cases e.2.irqHwSet.getLsbD k <;> cases s.regs.irqStatus.getLsbD k <;>
      cases s.irqSwClr.getLsbD k <;> rfl
  · simp [BitVec.getLsbD_of_ge _ k (Nat.le_of_not_lt hk)]

/-- **No interrupt is lost.**  After any run an interrupt is pending exactly if its event came and
no later cycle without the event has cleared it. -/
theorem irqStatus_iff (others : RegisterBank ρ ι) (rest : ρ) (es : List (AxiIn × RegsIn ι))
    (k : ℕ) :
    (AxiLite.after (AxiRegs.bank others) { rest := rest } es).regs.irqStatus.getLsbD k = true ↔
      ∃ pre e post, es = pre ++ e :: post ∧ e.2.irqHwSet.getLsbD k = true ∧
        Run.Along (AxiLite.step (AxiRegs.bank others))
          (fun s e ↦ e.2.irqHwSet.getLsbD k = true ∨ ¬s.irqSwClr.getLsbD k = true)
          (AxiLite.after (AxiRegs.bank others) { rest := rest } (pre ++ [e])) post := by
  refine Run.flag_iff (fun s : AxiLite (AxiRegs ρ) ↦ s.regs.irqStatus.getLsbD k = true)
    (fun e ↦ e.2.irqHwSet.getLsbD k = true) (fun s _ ↦ s.irqSwClr.getLsbD k = true)
    (fun s e ↦ ?_) ?_ es
  · rw [irqStatus_step s e k, Bool.or_eq_true, Bool.and_eq_true, Bool.not_eq_true',
      Bool.not_eq_true]
  · simp

end TetraPhy.Infra
