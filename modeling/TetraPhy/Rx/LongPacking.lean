import TetraPhy.Lib.Run
import TetraPhy.Lib.WordPack
import TetraPhy.Rx.LongReassembly

/-!
# The words of a chain

An observer of the module writes down the bits that are written since the chain was started.
`Writing` says how the accumulator, the counters and the memory follow these bits; it holds on every
edge of every run, whatever comes in, so that a chain is emitted only when all its words are stored
(`Writing.emit`).
-/

namespace TetraPhy.Rx

open WordPack

namespace LongReassembly

variable (r : LongReassembly) (p : LongPorts)

/-- A first fragment starts a chain. -/
def starts : Bool := p.frag1Pulse && (r.state == .idle || r.state == .wait)

/-- The words of the memory. -/
def words (i : ℕ) : BitVec 32 := if i < 256 then r.wordMem (BitVec.ofNat 8 i) else 0#32

/-! ## One edge -/

/-- The data path leaves the state machine alone. -/
theorem dataBlock_eq : (dataBlock r p).toWordMem = memBlock r p ∧
    (dataBlock r p).toBitWriter = writeBlock r p ∧ (dataBlock r p).toDoneRegs =
      { r.toDoneRegs with validR := if p.ackPulse then false else r.validR } ∧
    (dataBlock r p).reassValidPulse = false ∧ (dataBlock r p).state = r.state ∧
    (dataBlock r p).f1Idx = r.f1Idx ∧ (dataBlock r p).curSsi = r.curSsi ∧
    (dataBlock r p).curOpt = r.curOpt ∧ (dataBlock r p).fragSrcIdx = r.fragSrcIdx ∧
    (dataBlock r p).fragSrcEnd = r.fragSrcEnd ∧ (dataBlock r p).fragIsEnd = r.fragIsEnd := by
  unfold dataBlock tickBlock
  cases p.frameTick && r.state == .wait && r.t0Left != 0#4 <;>
    exact ⟨rfl, rfl, rfl, rfl, rfl, rfl, rfl, rfl, rfl, rfl, rfl⟩

/-- The state machine leaves the memory alone. -/
theorem clock_mem : (r.clock p).toWordMem = memBlock r p := by
  refine Eq.trans ?_ (dataBlock_eq r p).1
  unfold clock fsmBlock
  cases r.state with
  | idle => cases p.frag1Pulse <;> rfl
  | start => cases r.f1Idx == 61#7 <;> rfl
  | wait =>
      cases p.frag1Pulse with
      | true => rfl
      | false => cases isBlock p <;> cases r.t0Left == 0#4 && !p.frameTick <;> rfl
  | write =>
      cases decide (r.fragSrcIdx < r.fragSrcEnd) && decide (r.wptr < wptrMax) <;>
        cases r.fragIsEnd <;> rfl
  | flush => rfl
  | emit => rfl

/-- Only the start of a chain clears the writer. -/
theorem fsmBlock_writer (n : LongReassembly) :
    (fsmBlock r p n).toBitWriter = if r.starts p then {} else n.toBitWriter := by
  have hno : ∀ {x : BitWriter}, x = if (p.frag1Pulse && false) = true then {} else x :=
    (if_neg (ne_of_eq_of_ne (Bool.and_false _) Bool.false_ne_true)).symm
  unfold fsmBlock starts
  cases r.state with
  | idle => cases p.frag1Pulse <;> rfl
  | wait =>
      cases p.frag1Pulse with
      | true => rfl
      | false => cases isBlock p <;> cases r.t0Left == 0#4 && !p.frameTick <;> rfl
  | start => cases r.f1Idx == 61#7 <;> exact hno
  | write =>
      cases decide (r.fragSrcIdx < r.fragSrcEnd) && decide (r.wptr < wptrMax) <;>
        cases r.fragIsEnd <;> exact hno
  | flush => exact hno
  | emit => exact hno

theorem clock_writer :
    (r.clock p).toBitWriter = if r.starts p then {} else writeBlock r p := by
  rw [clock, fsmBlock_writer, (dataBlock_eq r p).2.1]

/-- A word is stored at the write pointer. -/
theorem words_clock : (r.clock p).words =
    if r.wordWe then Function.update r.words r.wordWptr.toNat (r.wordWdata p) else r.words := by
  have hmem : (r.clock p).wordMem = (memBlock r p).wordMem := congrArg WordMem.wordMem (clock_mem r p)
  funext i
  rw [words, hmem, memBlock]
  dsimp only
  cases r.wordWe with
  | false => rfl
  | true =>
      rw [if_pos rfl, if_pos rfl]
      by_cases hi : i < 256
      · have hiff : BitVec.ofNat 8 i = r.wordWptr ↔ i = r.wordWptr.toNat := by
          rw [← BitVec.toNat_inj, BitVec.toNat_ofNat, Nat.mod_eq_of_lt hi]
        simp only [if_pos hi, Function.update_apply, hiff, words]
      · have hne : i ≠ r.wordWptr.toNat := fun h ↦ hi (h ▸ r.wordWptr.isLt)
        rw [if_neg hi, Function.update_of_ne hne, words, if_neg hi]

theorem clock_state : (r.clock p).state =
    match r.state with
    | .idle => if p.frag1Pulse then .start else .idle
    | .start => if r.f1Idx == 61#7 then .wait else .start
    | .wait =>
      if p.frag1Pulse then .start
      else if isBlock p then .write
      else if r.t0Left == 0#4 && !p.frameTick then .idle else .wait
    | .write =>
      if r.wrEn then .write
      else if r.fragIsEnd then if r.bitCnt != 0#6 then .flush else .emit
      else .wait
    | .flush => .emit
    | .emit => .idle := by
  obtain ⟨-, -, -, -, hn, -⟩ := dataBlock_eq r p
  rw [clock, fsmBlock, wrEn]
  cases hs : r.state with
  | idle =>
      cases p.frag1Pulse with
      | true => rfl
      | false => exact hn.trans hs
  | start =>
      cases r.f1Idx == 61#7 with
      | true => rfl
      | false => exact hn.trans hs
  | wait =>
      cases p.frag1Pulse with
      | true => rfl
      | false =>
          cases isBlock p with
          | true => rfl
          | false =>
              cases r.t0Left == 0#4 && !p.frameTick with
              | true => rfl
              | false => exact hn.trans hs
  | write =>
      cases decide (r.fragSrcIdx < r.fragSrcEnd) && decide (r.wptr < wptrMax) with
      | true => exact hn.trans hs
      | false => cases r.fragIsEnd <;> rfl
  | flush => rfl
  | emit => rfl

section Into

variable {r p}

/-- A state that is entered by a start, or not left. -/
theorem into_start (h : (r.clock p).state = .start) :
    r.starts p = true ∨ r.state = .start ∧ r.f1Idx ≠ 61#7 := by
  rw [clock_state] at h
  unfold starts
  cases hs : r.state with
  | start =>
      refine .inr ⟨rfl, fun he ↦ ?_⟩
      rw [hs, he] at h
      have hwait : LongState.wait = .start := h
      cases hwait
  | idle =>
      rw [hs] at h
      refine .inl ?_
      cases hp : p.frag1Pulse with
      | true => rfl
      | false => simp [hp] at h
  | wait =>
      rw [hs] at h
      refine .inl ?_
      cases hp : p.frag1Pulse with
      | true => rfl
      | false =>
          simp only [hp, Bool.false_eq_true, if_false] at h
          split_ifs at h
  | write =>
      simp only [hs] at h
      split_ifs at h
  | flush => rw [hs] at h; cases h
  | emit => rw [hs] at h; cases h

/-- How a block of a MAC-END ends. -/
theorem into_done (h : (r.clock p).state = .flush ∨ (r.clock p).state = .emit) :
    r.state = .flush ∧ (r.clock p).state = .emit ∨
      r.state = .write ∧ r.wrEn = false ∧ r.fragIsEnd = true ∧
        ((r.clock p).state = .flush ↔ r.bitCnt ≠ 0#6) := by
  rw [clock_state] at h ⊢
  cases hs : r.state with
  | flush => exact .inl ⟨rfl, rfl⟩
  | write =>
      rw [hs] at h
      dsimp only at h ⊢
      cases hwr : r.wrEn with
      | true =>
          rw [hwr, if_pos rfl] at h
          exact absurd h (by decide)
      | false =>
          rw [hwr, if_neg Bool.false_ne_true] at h
          cases hend : r.fragIsEnd with
          | false =>
              rw [hend, if_neg Bool.false_ne_true] at h
              exact absurd h (by decide)
          | true =>
              refine .inr ⟨rfl, rfl, rfl, ?_⟩
              rw [if_neg Bool.false_ne_true, if_pos rfl]
              by_cases hc : r.bitCnt = 0#6
              · simp [hc]
              · simp [hc]
  | emit => simp [hs] at h
  | idle | start | wait =>
      simp only [hs] at h
      split_ifs at h <;> simp at h

end Into

/-- What a start loads. -/
theorem clock_chain : (r.clock p).curSsi = (if r.starts p then p.frag1Ssi else r.curSsi) ∧
    (r.clock p).curOpt = (if r.starts p then p.frag1OptFlag else r.curOpt) ∧
    (r.clock p).f1Idx = (if r.starts p then 0#7
      else if r.state == .start && r.f1Idx != 61#7 then r.f1Idx + 1#7 else r.f1Idx) := by
  obtain ⟨-, -, -, -, -, hidx, hssi, hopt, -⟩ := dataBlock_eq r p
  rw [clock, fsmBlock, starts, ← hssi, ← hopt]
  cases r.state with
  | idle =>
      cases p.frag1Pulse with
      | false => exact ⟨rfl, rfl, hidx⟩
      | true => exact ⟨rfl, rfl, rfl⟩
  | start =>
      have hno : (p.frag1Pulse && (LongState.start == .idle || LongState.start == .wait)) = false :=
        Bool.and_false _
      have hbne : (r.f1Idx != 61#7) = !(r.f1Idx == 61#7) := rfl
      rw [hno, hbne]
      cases r.f1Idx == 61#7 with
      | false => exact ⟨rfl, rfl, rfl⟩
      | true => exact ⟨rfl, rfl, hidx⟩
  | wait =>
      cases p.frag1Pulse with
      | true => exact ⟨rfl, rfl, rfl⟩
      | false =>
          cases isBlock p with
          | true => exact ⟨rfl, rfl, hidx⟩
          | false => cases r.t0Left == 0#4 && !p.frameTick <;> exact ⟨rfl, rfl, hidx⟩
  | write =>
      have hno : (p.frag1Pulse && (LongState.write == .idle || LongState.write == .wait)) = false :=
        Bool.and_false _
      rw [hno]
      cases decide (r.fragSrcIdx < r.fragSrcEnd) && decide (r.wptr < wptrMax) <;>
        cases r.fragIsEnd <;> exact ⟨rfl, rfl, hidx⟩
  | flush => cases p.frag1Pulse <;> exact ⟨rfl, rfl, hidx⟩
  | emit => cases p.frag1Pulse <;> exact ⟨rfl, rfl, hidx⟩

/-- What an emission latches. -/
theorem clock_done : (r.clock p).reassValidPulse = (r.state == .emit) ∧
    (r.clock p).toDoneRegs =
      if r.state = .emit then ⟨r.reassCnt + 1#16, true, r.curSsi, r.wptr, r.curOpt⟩
      else { r.toDoneRegs with validR := if p.ackPulse then false else r.validR } := by
  obtain ⟨-, -, hdone, hpulse, -⟩ := dataBlock_eq r p
  rw [clock, fsmBlock, ← hdone]
  cases r.state with
  | idle => cases p.frag1Pulse <;> exact ⟨hpulse, rfl⟩
  | start => cases r.f1Idx == 61#7 <;> exact ⟨hpulse, rfl⟩
  | wait =>
      cases p.frag1Pulse with
      | true => exact ⟨hpulse, rfl⟩
      | false => cases isBlock p <;> cases r.t0Left == 0#4 && !p.frameTick <;> exact ⟨hpulse, rfl⟩
  | write =>
      cases decide (r.fragSrcIdx < r.fragSrcEnd) && decide (r.wptr < wptrMax) <;>
        cases r.fragIsEnd <;> exact ⟨hpulse, rfl⟩
  | flush => exact ⟨hpulse, rfl⟩
  | emit => exact ⟨rfl, rfl⟩

end LongReassembly

/-! ## The observer -/

/-- The module, and the bits written since the chain was started. -/
structure LongWatch where
  core : LongReassembly
  bits : List Bool := []

namespace LongWatch

/-- One edge. -/
def step (w : LongWatch) (p : LongPorts) : LongWatch where
  core := w.core.clock p
  bits := if w.core.starts p then []
    else if w.core.wrEn then w.bits ++ [w.core.wrBit p] else w.bits

/-- The accumulator, the counters and the memory follow the bits. -/
structure Writing (r : LongReassembly) (bits : List Bool) : Prop where
  fits : bits.length ≤ 8191
  wptr : r.wptr.toNat = bits.length
  bitCnt : r.bitCnt.toNat = bits.length % 32
  wordWptr : r.wordWptr.toNat = bits.length / 32
  bitAcc : r.bitAcc = shiftReg 32 bits
  packed : Packed r.words bits (32 * (bits.length / 32))

/-- What holds on every edge. -/
structure Inv (w : LongWatch) : Prop where
  writing : Writing w.core w.bits
  /-- The first fragment is written bit by bit. -/
  start : w.core.state = .start → w.core.f1Idx.toNat = w.bits.length ∧ w.bits.length < 62
  /-- A flush has something to store. -/
  flush : w.core.state = .flush → w.bits.length % 32 ≠ 0
  /-- Before it is emitted, a chain is stored. -/
  emit : w.core.state = .emit → Packed w.core.words w.bits (32 * ((w.bits.length + 31) / 32))

variable {r : LongReassembly} {bits : List Bool} {p : LongPorts}

theorem writing_nil {r : LongReassembly} (h : r.toBitWriter = {}) : Writing r [] where
  fits := by simp
  wptr := by rw [h]; rfl
  bitCnt := by rw [h]; rfl
  wordWptr := by rw [h]; rfl
  bitAcc := by rw [h]; rfl
  packed := packed_zero _ _

theorem wordWe_of_wrEn (hwr : r.wrEn = true) : r.wordWe = (r.bitCnt == 31#6) := by
  have hstate : (r.state == .flush) = false := by
    refine beq_false_of_ne fun hs ↦ ?_
    rw [LongReassembly.wrEn, hs] at hwr
    exact Bool.false_ne_true hwr
  rw [LongReassembly.wordWe, hwr, hstate, Bool.true_and, Bool.or_false]

theorem wordWe_of_rest (hwr : r.wrEn = false) : r.wordWe = (r.state == .flush) := by
  rw [LongReassembly.wordWe, hwr, Bool.false_and, Bool.false_or]

/-- **A bit that is written** goes into the accumulator, and a full accumulator into the memory. -/
theorem Writing.append (h : Writing r bits) (hwr : r.wrEn = true) (hst : r.starts p = false)
    (hroom : bits.length < 8191) : Writing (r.clock p) (bits ++ [r.wrBit p]) := by
  have hwriter := r.clock_writer p
  rw [hst, if_neg Bool.false_ne_true, LongReassembly.writeBlock, if_pos hwr] at hwriter
  have hlen : (bits ++ [r.wrBit p]).length = bits.length + 1 := List.length_append
  have hacc : r.accNext p = shiftReg 32 (bits ++ [r.wrBit p]) := by
    rw [LongReassembly.accNext, h.bitAcc, shiftReg_append]
  have hfull : r.bitCnt = 31#6 ↔ bits.length % 32 = 31 := by
    rw [← h.bitCnt, ← BitVec.toNat_inj]
    rfl
  have hcnt := h.bitCnt
  have hptr := h.wordWptr
  refine ⟨by omega, ?_, ?_, ?_, ?_, ?_⟩
  · rw [hwriter, hlen, BitVec.toNat_add, h.wptr]
    exact Nat.mod_eq_of_lt (show bits.length + 1 < 16384 by omega)
  · rw [hwriter, hlen]
    dsimp only
    by_cases hc : r.bitCnt = 31#6
    · rw [if_pos (beq_iff_eq.2 hc)]
      have := hfull.1 hc
      change 0 = _
      omega
    · rw [if_neg (mt beq_iff_eq.1 hc), BitVec.toNat_add, hcnt]
      have := mt hfull.2 hc
      change (_ + 1) % 64 = _
      omega
  · rw [hwriter, hlen]
    dsimp only
    by_cases hc : r.bitCnt = 31#6
    · rw [if_pos (beq_iff_eq.2 hc), BitVec.toNat_add, hptr]
      have := hfull.1 hc
      change (_ + 1) % 256 = _
      omega
    · rw [if_neg (mt beq_iff_eq.1 hc), hptr]
      have := mt hfull.2 hc
      omega
  · rw [hwriter, hacc]
  · rw [r.words_clock p, wordWe_of_wrEn hwr, hlen]
    by_cases hc : r.bitCnt = 31#6
    · have hmod := hfull.1 hc
      have hq : (bits.length + 1) / 32 = bits.length / 32 + 1 := by omega
      have hdata : r.wordWdata p = shiftReg 32 (bits ++ [r.wrBit p]) := by
        rw [LongReassembly.wordWdata, hwr, Bool.true_and, if_pos (beq_iff_eq.2 hc), hacc]
      rw [if_pos (beq_iff_eq.2 hc), hptr, hdata, hq]
      exact (h.packed.append (by omega) _).word (by omega)
    · have := mt hfull.2 hc
      have hq : (bits.length + 1) / 32 = bits.length / 32 := by omega
      rw [if_neg (mt beq_iff_eq.1 hc), hq]
      exact h.packed.append (by omega) _

/-- An edge without a bit stores nothing but the last word. -/
theorem Writing.rest (h : Writing r bits) (hwr : r.wrEn = false) (hst : r.starts p = false) :
    Writing (r.clock p) bits := by
  have hwriter := r.clock_writer p
  rw [hst, if_neg Bool.false_ne_true, LongReassembly.writeBlock, hwr,
    if_neg Bool.false_ne_true] at hwriter
  refine ⟨h.fits, ?_, ?_, ?_, ?_, ?_⟩
  · rw [hwriter, h.wptr]
  · rw [hwriter, h.bitCnt]
  · rw [hwriter, h.wordWptr]
  · rw [hwriter, h.bitAcc]
  · rw [r.words_clock p]
    split_ifs
    · rw [h.wordWptr]
      exact h.packed.update _
    · exact h.packed

/-- **A flush stores the rest.** -/
theorem Writing.flush (h : Writing r bits) (hs : r.state = .flush) (hmod : bits.length % 32 ≠ 0) :
    Packed (r.clock p).words bits (32 * ((bits.length + 31) / 32)) := by
  have hwr : r.wrEn = false := by rw [LongReassembly.wrEn, hs]
  have hdata : r.wordWdata p = shiftReg 32 bits <<< (32 - bits.length % 32) := by
    have hcnt : (32#6 - r.bitCnt).toNat = 32 - bits.length % 32 := by
      have := h.bitCnt
      rw [BitVec.toNat_sub_of_le (by rw [BitVec.le_def, h.bitCnt]; change _ ≤ 32; omega), h.bitCnt]
      rfl
    rw [LongReassembly.wordWdata, hwr, hs, Bool.false_and, if_neg Bool.false_ne_true,
      if_pos (beq_self_eq_true _), BitVec.shiftLeft_eq', hcnt, h.bitAcc]
  have hq : (bits.length + 31) / 32 = bits.length / 32 + 1 := by omega
  rw [r.words_clock p, wordWe_of_rest hwr, hs, if_pos (beq_self_eq_true _), h.wordWptr, hdata, hq]
  exact h.packed.flush (Nat.div_add_mod _ _).symm (Nat.mod_lt _ (by decide))

variable {w : LongWatch}

theorem wrEn_of_write (hs : r.state = .write) (hwr : r.wrEn = true) : r.wptr.toNat < 8191 := by
  rw [LongReassembly.wrEn, hs, Bool.and_eq_true] at hwr
  exact of_decide_eq_true hwr.2

theorem bits_step (w : LongWatch) (p : LongPorts) : (w.step p).bits =
    if w.core.starts p then [] else if w.core.wrEn then w.bits ++ [w.core.wrBit p] else w.bits := rfl

/-- There is room for a bit that is written. -/
theorem Inv.room (h : Inv w) (hwr : w.core.wrEn = true) : w.bits.length < 8191 := by
  cases hs : w.core.state with
  | start => exact Nat.lt_trans (h.start hs).2 (by decide)
  | write => exact h.writing.wptr ▸ wrEn_of_write hs hwr
  | idle | wait | flush | emit =>
      rw [LongReassembly.wrEn, hs] at hwr
      exact absurd hwr Bool.false_ne_true

/-- **Every edge keeps the memory and the bits together.** -/
theorem Inv.step (h : Inv w) (p : LongPorts) : Inv (w.step p) := by
  refine ⟨?_, fun hs ↦ ?_, fun hs ↦ ?_, fun hs ↦ ?_⟩
  · rw [bits_step]
    cases hst : w.core.starts p with
    | true =>
        have hwriter := w.core.clock_writer p
        rw [hst, if_pos rfl] at hwriter
        exact writing_nil hwriter
    | false =>
        cases hwr : w.core.wrEn with
        | true => exact h.writing.append hwr hst (h.room hwr)
        | false => exact h.writing.rest hwr hst
  · have hidx := (w.core.clock_chain p).2.2
    rw [bits_step]
    obtain hst | ⟨hs', hne⟩ := LongReassembly.into_start hs
    · rw [hst, if_pos rfl] at hidx
      rw [hst, if_pos rfl]
      exact ⟨congrArg BitVec.toNat hidx, by decide⟩
    · have hst : w.core.starts p = false := by
        rw [LongReassembly.starts, hs']
        exact Bool.and_false _
      have hwr : w.core.wrEn = true := by rw [LongReassembly.wrEn, hs']
      have hnext : (w.core.clock p).f1Idx = w.core.f1Idx + 1#7 := by
        rw [hidx, hst, hs', if_neg Bool.false_ne_true]
        exact if_pos (by simp [hne])
      obtain ⟨hlen, hlt⟩ := h.start hs'
      have hlast : w.bits.length ≠ 61 := fun he ↦ hne (BitVec.eq_of_toNat_eq (hlen.trans he))
      rw [hst, hwr, if_neg Bool.false_ne_true, if_pos rfl, List.length_append, List.length_singleton]
      refine ⟨?_, by omega⟩
      change (w.core.clock p).f1Idx.toNat = _
      rw [hnext, BitVec.toNat_add, hlen]
      exact Nat.mod_eq_of_lt (show w.bits.length + 1 < 128 by omega)
  · obtain ⟨-, hemit⟩ | ⟨hs', hwr, -, hiff⟩ := LongReassembly.into_done (.inl hs)
    · exact absurd (hs.symm.trans hemit) (by decide)
    · have hst : w.core.starts p = false := by
        rw [LongReassembly.starts, hs']
        exact Bool.and_false _
      rw [bits_step, hst, hwr, if_neg Bool.false_ne_true, if_neg Bool.false_ne_true,
        ← h.writing.bitCnt]
      exact fun he ↦ hiff.1 hs (BitVec.eq_of_toNat_eq he)
  · obtain ⟨hs', -⟩ | ⟨hs', hwr, -, hiff⟩ := LongReassembly.into_done (.inr hs)
    · have hst : w.core.starts p = false := by
        rw [LongReassembly.starts, hs']
        exact Bool.and_false _
      have hwr : w.core.wrEn = false := by rw [LongReassembly.wrEn, hs']
      rw [bits_step, hst, hwr, if_neg Bool.false_ne_true, if_neg Bool.false_ne_true]
      exact h.writing.flush hs' (h.flush hs')
    · have hst : w.core.starts p = false := by
        rw [LongReassembly.starts, hs']
        exact Bool.and_false _
      have hcnt : w.core.bitCnt = 0#6 := by
        by_contra hc
        exact absurd (hs.symm.trans (hiff.2 hc)) (by decide)
      have hmod : 0 = w.bits.length % 32 := by
        rw [← h.writing.bitCnt, hcnt]
        rfl
      have hq : (w.bits.length + 31) / 32 = w.bits.length / 32 := by omega
      rw [bits_step, hst, hwr, if_neg Bool.false_ne_true, if_neg Bool.false_ne_true, hq]
      exact (h.writing.rest hwr hst).packed

/-- A module out of reset, whatever its memory holds. -/
theorem inv_reset (wordMem : BitVec 8 → BitVec 32) (wordRdQ : BitVec 32) (rdIndexQ : BitVec 9) :
    Inv { core := { wordMem, wordRdQ, rdIndexQ } } where
  writing := writing_nil rfl
  start h := by cases h
  flush h := by cases h
  emit h := by cases h

/-- The chain is in the memory and in the registers that the software reads. -/
structure Published (r : LongReassembly) (bits : List Bool) (ssi : BitVec 24) (opt : Bool) : Prop
    where
  doneLen : r.doneLen.toNat = bits.length
  doneSsi : r.doneSsi = ssi
  doneOpt : r.doneOpt = opt
  /-- Bit `k` of the chain is bit `k % 32` from the top of word `k / 32`. -/
  words : Packed r.words bits (32 * ((bits.length + 31) / 32))

/-- **What is emitted is published whole.** -/
theorem Inv.published (h : Inv w) (hs : w.core.state = .emit) (p : LongPorts) :
    Published (w.step p).core w.bits w.core.curSsi w.core.curOpt := by
  have hdone := (w.core.clock_done p).2
  rw [if_pos hs] at hdone
  have hmem : (w.step p).core.words = w.core.words := by
    have hwe : w.core.wordWe = false := by
      rw [LongReassembly.wordWe, LongReassembly.wrEn, hs]
      rfl
    exact (w.core.words_clock p).trans (by rw [hwe, if_neg Bool.false_ne_true])
  refine ⟨?_, congrArg DoneRegs.doneSsi hdone, congrArg DoneRegs.doneOpt hdone, ?_⟩
  · rw [← h.writing.wptr]
    exact congrArg (DoneRegs.doneLen · |>.toNat) hdone
  · rw [hmem]
    exact h.emit hs

end LongWatch

end TetraPhy.Rx
