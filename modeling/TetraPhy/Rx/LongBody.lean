import TetraPhy.Lib.AirOrder
import TetraPhy.Rx.LongPacking
import TetraPhy.Sw.UlReassembly

/-!
# The body of a chain

A second observer keeps the chain as it came in: the first fragment and the blocks that were taken
on.  As long as the ports hold a fragment while it is written, the bits written are the body of the
chain, so that what is emitted is the body, in logic and in software.
-/

namespace TetraPhy.Rx

open AirOrder WordPack Sw

/-- A first fragment and the blocks that follow it. -/
structure Chain where
  ssi : BitVec 24
  opt : Bool
  frag1 : BitVec 62
  blocks : List (BitVec 268) := []

/-- The information bits of a block. -/
def infoBits (b : BitVec 268) : List Bool := (List.range 268).map b.getLsbD

/-- The bit that tells a MAC-END from a MAC-FRAG. -/
def isEnd (b : BitVec 268) : Bool := b.getLsbD 2

/-- The first bit of a block's payload. -/
def payloadStart (b : BitVec 268) : ℕ := if isEnd b then 10 else 4

namespace Chain

/-- The bits 10 to 267 of a MAC-END, and 4 to 267 of a MAC-FRAG. -/
def payload (b : BitVec 268) : List Bool := (infoBits b).drop (payloadStart b)

/-- The body of a chain. -/
def body (c : Chain) : List Bool := onAir c.frag1 ++ c.blocks.flatMap payload

/-- No block is a MAC-END. -/
def Unfinished (c : Chain) : Prop := ∀ b ∈ c.blocks, isEnd b = false

/-- A block more. -/
def add (c : Chain) (b : BitVec 268) : Chain := { c with blocks := c.blocks ++ [b] }

/-- The last block is a MAC-END, and no other is. -/
def Complete (c : Chain) : Prop := ∃ c' b, c = add c' b ∧ c'.Unfinished ∧ isEnd b = true

theorem body_add (c : Chain) (b : BitVec 268) : (c.add b).body = c.body ++ payload b := by
  simp only [body, add, List.flatMap_append, List.flatMap_singleton, List.append_assoc]

theorem Unfinished.add {c : Chain} (h : c.Unfinished) {b : BitVec 268} (hb : isEnd b = false) :
    (c.add b).Unfinished := by
  intro x hx
  obtain hx | hx := List.mem_append.1 hx
  · exact h x hx
  · rwa [List.mem_singleton.1 hx]

theorem Unfinished.not_complete {c : Chain} (h : c.Unfinished) : ¬c.Complete := by
  rintro ⟨c', b, rfl, -, hb⟩
  have hmem : b ∈ (c'.add b).blocks := List.mem_append_right _ List.mem_cons_self
  exact Bool.false_ne_true ((h b hmem).symm.trans hb)

theorem length_payload (b : BitVec 268) : (payload b).length = 268 - payloadStart b := by
  simp [payload, infoBits]

theorem payloadStart_le (b : BitVec 268) : payloadStart b ≤ 10 := by
  unfold payloadStart
  split_ifs <;> decide

theorem getElem_payload {b : BitVec 268} {i : ℕ} (hi : payloadStart b ≤ i) (hi' : i < 268) :
    (payload b)[i - payloadStart b]? = some (b.getLsbD i) := by
  have hadd : payloadStart b + (i - payloadStart b) = i := by omega
  rw [payload, List.getElem?_drop, hadd, infoBits, List.getElem?_map, List.getElem?_range hi']
  rfl

/-- The payload of a block, a bit further. -/
theorem take_payload {b : BitVec 268} {i : ℕ} (hi : payloadStart b ≤ i) (hi' : i < 268) :
    (payload b).take (i + 1 - payloadStart b) =
      (payload b).take (i - payloadStart b) ++ [b.getLsbD i] := by
  have hadd : i + 1 - payloadStart b = i - payloadStart b + 1 := by omega
  rw [hadd, List.take_add_one, getElem_payload hi hi']
  rfl

end Chain

/-- The module, its bits and its chain. -/
structure ChainWatch extends LongWatch where
  chain : Chain := { ssi := 0, opt := false, frag1 := 0 }

namespace LongReassembly

/-- A block is taken on. -/
def takes (r : LongReassembly) (p : LongPorts) : Bool :=
  r.state == .wait && !p.frag1Pulse && isBlock p

variable (r : LongReassembly) (p : LongPorts)

/-- What a block loads. -/
theorem fsmBlock_frag (n : LongReassembly) :
    (fsmBlock r p n).fragIsEnd = (if r.takes p then isEnd p.schfInfo else n.fragIsEnd) ∧
    (fsmBlock r p n).fragSrcEnd = (if r.takes p then 268#9 else n.fragSrcEnd) ∧
    (fsmBlock r p n).fragSrcIdx = (if r.takes p then BitVec.ofNat 9 (payloadStart p.schfInfo)
      else if r.state == .write then r.fragSrcIdx + 1#9 else n.fragSrcIdx) := by
  rw [fsmBlock, takes]
  cases r.state with
  | idle => cases p.frag1Pulse <;> exact ⟨rfl, rfl, rfl⟩
  | start => cases r.f1Idx == 61#7 <;> exact ⟨rfl, rfl, rfl⟩
  | wait =>
      cases p.frag1Pulse with
      | true => exact ⟨rfl, rfl, rfl⟩
      | false =>
          cases isBlock p with
          | false => cases r.t0Left == 0#4 && !p.frameTick <;> exact ⟨rfl, rfl, rfl⟩
          | true =>
              refine ⟨rfl, rfl, ?_⟩
              change (if p.schfInfo.getLsbD 2 then 10#9 else 4#9) =
                BitVec.ofNat 9 (if p.schfInfo.getLsbD 2 then 10 else 4)
              cases p.schfInfo.getLsbD 2 <;> rfl
  | write =>
      cases decide (r.fragSrcIdx < r.fragSrcEnd) && decide (r.wptr < wptrMax) <;>
        cases r.fragIsEnd <;> exact ⟨rfl, rfl, rfl⟩
  | flush => exact ⟨rfl, rfl, rfl⟩
  | emit => exact ⟨rfl, rfl, rfl⟩

theorem clock_frag : (r.clock p).fragIsEnd = (if r.takes p then isEnd p.schfInfo else r.fragIsEnd) ∧
    (r.clock p).fragSrcEnd = (if r.takes p then 268#9 else r.fragSrcEnd) ∧
    (r.clock p).fragSrcIdx = (if r.takes p then BitVec.ofNat 9 (payloadStart p.schfInfo)
      else if r.state == .write then r.fragSrcIdx + 1#9 else r.fragSrcIdx) := by
  obtain ⟨-, -, -, -, -, -, -, -, hidx, hsrc, hend⟩ := dataBlock_eq r p
  have h := fsmBlock_frag r p (dataBlock r p)
  rw [hidx, hsrc, hend] at h
  exact h

end LongReassembly

namespace ChainWatch

/-- One edge. -/
def step (w : ChainWatch) (p : LongPorts) : ChainWatch where
  toLongWatch := w.toLongWatch.step p
  chain :=
    if w.core.starts p then { ssi := p.frag1Ssi, opt := p.frag1OptFlag, frag1 := p.frag1Bits }
    else if w.core.takes p then w.chain.add p.schfInfo
    else w.chain

/-- The ports hold the fragment that is being written. -/
def Held (w : ChainWatch) (p : LongPorts) : Prop :=
  (w.core.state = .start → p.frag1Bits = w.chain.frag1) ∧
    (w.core.state = .write → w.chain.blocks.getLast? = some p.schfInfo)

/-- While the block `b` is appended to the chain `c`. -/
structure Appending (r : LongReassembly) (c : Chain) (b : BitVec 268) (bits : List Bool) : Prop
    where
  unfinished : c.Unfinished
  isEnd : r.fragIsEnd = isEnd b
  fragSrcEnd : r.fragSrcEnd = 268#9
  lo : payloadStart b ≤ r.fragSrcIdx.toNat
  hi : r.fragSrcIdx.toNat ≤ 268
  bits : bits =
    (c.body ++ (Chain.payload b).take (r.fragSrcIdx.toNat - payloadStart b)).take 8191

/-- The bits that are written, state by state. -/
def Bits (r : LongReassembly) (c : Chain) (bits : List Bool) : Prop :=
  match r.state with
  | .idle => True
  | .start => c.blocks = [] ∧ bits = (onAir c.frag1).take r.f1Idx.toNat
  | .wait => c.Unfinished ∧ bits = c.body.take 8191
  | .write => ∃ c' b, c = c'.add b ∧ Appending r c' b bits
  | .flush | .emit => c.Complete ∧ bits = c.body.take 8191

/-- What the chain, the bits and the registers have to do with each other. -/
structure Inv (w : ChainWatch) : Prop where
  packing : w.toLongWatch.Inv
  curSsi : w.core.curSsi = w.chain.ssi
  curOpt : w.core.curOpt = w.chain.opt
  bits : Bits w.core w.chain w.bits

variable {w : ChainWatch} {p : LongPorts}

/-- A first fragment begins the bits anew. -/
theorem bits_started (hst : w.core.starts p = true) :
    Bits (w.step p).core (w.step p).chain (w.step p).bits := by
  have hchain : (w.step p).chain =
      { ssi := p.frag1Ssi, opt := p.frag1OptFlag, frag1 := p.frag1Bits } := if_pos hst
  have hbits : (w.step p).bits = [] := if_pos hst
  have hidx : (w.core.clock p).f1Idx = 0#7 := (w.core.clock_chain p).2.2.trans (if_pos hst)
  have hstate : (w.core.clock p).state = .start := by
    rw [LongReassembly.starts, Bool.and_eq_true, Bool.or_eq_true, beq_iff_eq, beq_iff_eq] at hst
    rw [LongReassembly.clock_state]
    obtain ⟨hp, hs | hs⟩ := hst <;> rw [hs, hp] <;> rfl
  have hnil : Bits (w.core.clock p) (w.step p).chain [] := by
    rw [Bits, hstate, hchain, hidx]
    exact ⟨rfl, rfl⟩
  exact hbits ▸ hnil

theorem starts_of_state (hidle : w.core.state ≠ .idle) (hwait : w.core.state ≠ .wait) :
    w.core.starts p = false := by
  rw [LongReassembly.starts, beq_false_of_ne hidle, beq_false_of_ne hwait]
  exact Bool.and_false _

theorem takes_of_state (hwait : w.core.state ≠ .wait) : w.core.takes p = false := by
  rw [LongReassembly.takes, beq_false_of_ne hwait]
  rfl

/-- Without a start or a block, the chain is what it was. -/
theorem chain_step (hst : w.core.starts p = false) (htk : w.core.takes p = false) :
    (w.step p).chain = w.chain := by
  simp only [step, hst, htk, Bool.false_eq_true, if_false]

theorem bits_step_of_rest (hst : w.core.starts p = false) (hwr : w.core.wrEn = false) :
    (w.step p).bits = w.bits := by
  change (w.toLongWatch.step p).bits = w.bits
  simp only [LongWatch.bits_step, hst, hwr, Bool.false_eq_true, if_false]

/-- A bit of the first fragment. -/
theorem Inv.step_start (h : w.Inv) (hs : w.core.state = .start) (hheld : w.Held p) :
    Bits (w.step p).core (w.step p).chain (w.step p).bits := by
  have hst : w.core.starts p = false := starts_of_state (by simp [hs]) (by simp [hs])
  have htk : w.core.takes p = false := takes_of_state (by simp [hs])
  have hwr : w.core.wrEn = true := by rw [LongReassembly.wrEn, hs]
  obtain ⟨hlen, hlt⟩ := h.packing.start hs
  have hnow := h.bits
  rw [Bits, hs] at hnow
  obtain ⟨hblocks, hbits⟩ := hnow
  have hidx := (w.core.clock_chain p).2.2
  rw [hst, hs, if_neg Bool.false_ne_true] at hidx
  have hnext : (w.step p).bits = (onAir w.chain.frag1).take (w.bits.length + 1) := by
    have hbit : w.core.wrBit p = w.chain.frag1.getMsbD w.bits.length := by
      rw [LongReassembly.wrBit, hs, hlen, hheld.1 hs, BitVec.getMsbD_eq_getLsbD,
        decide_eq_true hlt, Bool.true_and]
    change (w.toLongWatch.step p).bits = _
    rw [LongWatch.bits_step, hst, hwr, if_neg Bool.false_ne_true, if_pos rfl, hbit,
      List.take_succ_eq_append_getElem (by simpa using hlt), getElem_onAir, ← hlen, ← hbits]
  rw [chain_step hst htk, hnext]
  have hstate := w.core.clock_state p
  simp only [hs] at hstate
  change Bits (w.core.clock p) _ _
  cases hlast : w.core.f1Idx == 61#7 with
  | true =>
      have h61 : w.bits.length = 61 := by
        rw [← hlen, beq_iff_eq.1 hlast]
        rfl
      rw [hlast, if_pos rfl] at hstate
      rw [Bits, hstate]
      refine ⟨fun b hb ↦ ?_, ?_⟩
      · rw [hblocks] at hb
        exact absurd hb List.not_mem_nil
      · rw [h61, Chain.body, hblocks, List.flatMap_nil, List.append_nil,
          List.take_of_length_le (by simp), List.take_of_length_le (by simp)]
  | false =>
      have hne : w.core.f1Idx ≠ 61#7 := ne_of_beq_false hlast
      rw [hlast, if_neg Bool.false_ne_true] at hstate
      rw [if_pos (by simp [hne])] at hidx
      rw [Bits, hstate, hidx, BitVec.toNat_add, hlen,
        Nat.mod_eq_of_lt (show w.bits.length + (1#7).toNat < 2 ^ 7 from Nat.lt_trans
          (Nat.succ_lt_succ hlt) (by decide))]
      exact ⟨hblocks, rfl⟩

/-- A block may be taken on. -/
theorem Inv.step_wait (h : w.Inv) (hs : w.core.state = .wait) :
    Bits (w.step p).core (w.step p).chain (w.step p).bits := by
  cases hst : w.core.starts p with
  | true => exact bits_started hst
  | false =>
      have hpulse : p.frag1Pulse = false := by
        rw [LongReassembly.starts, hs] at hst
        simpa using hst
      have hwr : w.core.wrEn = false := by rw [LongReassembly.wrEn, hs]
      have hnow := h.bits
      rw [Bits, hs] at hnow
      obtain ⟨hopen, hbits⟩ := hnow
      have hstate := w.core.clock_state p
      simp only [hs, hpulse, Bool.false_eq_true, if_false] at hstate
      rw [bits_step_of_rest hst hwr]
      change Bits (w.core.clock p) _ _
      cases hblock : LongReassembly.isBlock p with
      | true =>
          have htk : w.core.takes p = true := by
            rw [LongReassembly.takes, hs, hpulse, hblock]
            rfl
          have hchain : (w.step p).chain = w.chain.add p.schfInfo := by
            simp only [step, hst, htk, Bool.false_eq_true, if_false, if_true]
          obtain ⟨hend, hsrc, hidx⟩ := w.core.clock_frag p
          rw [htk, if_pos rfl] at hend hsrc hidx
          have hlo : (w.core.clock p).fragSrcIdx.toNat = payloadStart p.schfInfo := by
            have := Chain.payloadStart_le p.schfInfo
            rw [hidx, BitVec.toNat_ofNat]
            exact Nat.mod_eq_of_lt (by omega)
          rw [hblock, if_pos rfl] at hstate
          rw [Bits, hstate, hchain]
          refine ⟨w.chain, p.schfInfo, rfl, hopen, hend, hsrc, hlo.ge, ?_, ?_⟩
          · have := Chain.payloadStart_le p.schfInfo
            omega
          · rw [hlo, Nat.sub_self, List.take_zero, List.append_nil, hbits]
      | false =>
          have htk : w.core.takes p = false := by
            rw [LongReassembly.takes, hblock]
            exact Bool.and_false _
          rw [hblock, if_neg Bool.false_ne_true] at hstate
          rw [Bits, hstate, chain_step hst htk]
          split_ifs
          · trivial
          · exact ⟨hopen, hbits⟩

/-- What fits is appended. -/
theorem take_append_of_lt {xs : List Bool} {x : Bool} {n : ℕ} (h : (xs.take n).length < n) :
    xs.take n ++ [x] = (xs ++ [x]).take n := by
  have hlen : xs.length < n := by
    rw [List.length_take] at h
    omega
  rw [List.take_of_length_le hlen.le,
    List.take_of_length_le (by rw [List.length_append, List.length_singleton]; omega)]

/-- A bit of a block. -/
theorem Appending.bit {r : LongReassembly} {c : Chain} {b : BitVec 268} {bits : List Bool}
    (h : Appending r c b bits) (hs : r.state = .write) (hwr : r.wrEn = true)
    (hroom : bits.length < 8191) (htk : r.takes p = false) :
    Appending (r.clock p) c b (bits ++ [b.getLsbD r.fragSrcIdx.toNat]) := by
  obtain ⟨hend, hsrc, hidx⟩ := r.clock_frag p
  rw [htk, if_neg Bool.false_ne_true] at hend hsrc hidx
  rw [hs, if_pos (beq_self_eq_true LongState.write)] at hidx
  have hlt : r.fragSrcIdx.toNat < 268 := by
    rw [LongReassembly.wrEn, hs, Bool.and_eq_true, h.fragSrcEnd] at hwr
    exact of_decide_eq_true hwr.1
  have hnext : (r.clock p).fragSrcIdx.toNat = r.fragSrcIdx.toNat + 1 := by
    rw [hidx, BitVec.toNat_add]
    exact Nat.mod_eq_of_lt (show r.fragSrcIdx.toNat + 1 < 512 by omega)
  refine ⟨h.unfinished, hend.trans h.isEnd, hsrc.trans h.fragSrcEnd, ?_, ?_, ?_⟩
  · rw [hnext]
    exact Nat.le_succ_of_le h.lo
  · rw [hnext]
    exact hlt
  · rw [hnext, Chain.take_payload h.lo hlt, ← List.append_assoc]
    have hbits := h.bits
    rw [hbits] at hroom ⊢
    exact take_append_of_lt hroom

/-- A block that is done is in the bits, as far as the memory goes. -/
theorem Appending.all {r : LongReassembly} {c : Chain} {b : BitVec 268} {bits : List Bool}
    (h : Appending r c b bits) (hs : r.state = .write) (hwr : r.wrEn = false)
    (hwptr : r.wptr.toNat = bits.length) : bits = (c.add b).body.take 8191 := by
  rw [LongReassembly.wrEn, hs, Bool.and_eq_false_iff, h.fragSrcEnd] at hwr
  rw [Chain.body_add, h.bits]
  obtain hlast | hfull := hwr
  · have hge : 268 ≤ r.fragSrcIdx.toNat := Nat.le_of_not_lt (of_decide_eq_false hlast)
    rw [List.take_of_length_le (l := Chain.payload b)]
    rw [Chain.length_payload]
    omega
  · have hge : 8191 ≤ bits.length := hwptr ▸ Nat.le_of_not_lt (of_decide_eq_false hfull)
    obtain ⟨rest, hrest⟩ := (List.prefix_append_right_inj c.body).2
      (List.take_prefix (r.fragSrcIdx.toNat - payloadStart b) (Chain.payload b))
    rw [h.bits, List.length_take] at hge
    rw [← hrest, List.take_append_of_le_length (hge.trans (Nat.min_le_right _ _))]

/-- A bit of a block, or its end. -/
theorem Inv.step_write (h : w.Inv) (hs : w.core.state = .write) (hheld : w.Held p) :
    Bits (w.step p).core (w.step p).chain (w.step p).bits := by
  have hst : w.core.starts p = false := starts_of_state (by simp [hs]) (by simp [hs])
  have htk : w.core.takes p = false := takes_of_state (by simp [hs])
  have hnow := h.bits
  rw [Bits, hs] at hnow
  obtain ⟨c, b, hc, hb⟩ := hnow
  have hstate := w.core.clock_state p
  simp only [hs] at hstate
  rw [chain_step hst htk, hc]
  change Bits (w.core.clock p) _ _
  cases hwr : w.core.wrEn with
  | true =>
      have hheld : b = p.schfInfo := by
        have := hheld.2 hs
        rwa [hc, Chain.add, List.getLast?_concat, Option.some_inj] at this
      have hbits : (w.step p).bits = w.bits ++ [b.getLsbD w.core.fragSrcIdx.toNat] := by
        change (w.toLongWatch.step p).bits = _
        rw [LongWatch.bits_step, hst, hwr, if_neg Bool.false_ne_true, if_pos rfl,
          LongReassembly.wrBit, hs, hheld]
        dsimp only
        rw [hwr, Bool.true_and]
      rw [hwr, if_pos rfl] at hstate
      rw [Bits, hstate, hbits]
      exact ⟨c, b, rfl, hb.bit hs hwr (h.packing.room hwr) htk⟩
  | false =>
      have hall := hb.all hs hwr h.packing.writing.wptr
      rw [hwr, if_neg Bool.false_ne_true, hb.isEnd] at hstate
      rw [bits_step_of_rest hst hwr, Bits, hstate]
      cases hend : isEnd b with
      | true =>
          have hcomplete : (c.add b).Complete := ⟨c, b, rfl, hb.unfinished, hend⟩
          cases w.core.bitCnt != 0#6 <;> exact ⟨hcomplete, hall⟩
      | false => exact ⟨hb.unfinished.add hend, hall⟩

/-- Nothing is written after the last block. -/
theorem Inv.step_done (h : w.Inv) (hs : w.core.state = .flush ∨ w.core.state = .emit) :
    Bits (w.step p).core (w.step p).chain (w.step p).bits := by
  have hst : w.core.starts p = false := by
    rcases hs with hs | hs <;> exact starts_of_state (by simp [hs]) (by simp [hs])
  have htk : w.core.takes p = false := by
    rcases hs with hs | hs <;> exact takes_of_state (by simp [hs])
  have hwr : w.core.wrEn = false := by
    rcases hs with hs | hs <;> rw [LongReassembly.wrEn, hs]
  have hnow := h.bits
  have hstate := w.core.clock_state p
  rw [chain_step hst htk, bits_step_of_rest hst hwr]
  change Bits (w.core.clock p) _ _
  rcases hs with hs | hs
  · rw [hs] at hstate
    rw [Bits, hs] at hnow
    rw [Bits, hstate]
    exact hnow
  · rw [hs] at hstate
    rw [Bits, hstate]
    trivial

/-- **Every edge keeps the bits of the chain.** -/
theorem Inv.step (h : w.Inv) (hheld : w.Held p) : (w.step p).Inv := by
  obtain ⟨hssi, hopt, -⟩ := w.core.clock_chain p
  have hchain : (w.step p).chain.ssi = (if w.core.starts p then p.frag1Ssi else w.chain.ssi) ∧
      (w.step p).chain.opt = (if w.core.starts p then p.frag1OptFlag else w.chain.opt) := by
    rw [ChainWatch.step]
    dsimp only
    cases w.core.starts p <;> cases w.core.takes p <;> exact ⟨rfl, rfl⟩
  refine ⟨h.packing.step p, ?_, ?_, ?_⟩
  · rw [hchain.1, ← h.curSsi]
    exact hssi
  · rw [hchain.2, ← h.curOpt]
    exact hopt
  · cases hs : w.core.state with
    | idle =>
        cases hp : p.frag1Pulse with
        | true => exact bits_started (by rw [LongReassembly.starts, hs, hp]; rfl)
        | false =>
            have hstate := w.core.clock_state p
            simp only [hs, hp, Bool.false_eq_true, if_false] at hstate
            change Bits (w.core.clock p) _ _
            rw [Bits, hstate]
            trivial
    | start => exact h.step_start hs hheld
    | wait => exact h.step_wait hs
    | write => exact h.step_write hs hheld
    | flush => exact h.step_done (.inl hs)
    | emit => exact h.step_done (.inr hs)

/-- A module out of reset, whatever its memory holds. -/
def reset (wordMem : BitVec 8 → BitVec 32) (wordRdQ : BitVec 32) (rdIndexQ : BitVec 9) :
    ChainWatch where
  core := { wordMem, wordRdQ, rdIndexQ }

theorem inv_reset (wordMem : BitVec 8 → BitVec 32) (wordRdQ : BitVec 32) (rdIndexQ : BitVec 9) :
    (reset wordMem wordRdQ rdIndexQ).Inv where
  packing := LongWatch.inv_reset wordMem wordRdQ rdIndexQ
  curSsi := rfl
  curOpt := rfl
  bits := trivial

/-- What has just been emitted is a chain that is complete, as far as the memory goes. -/
def Emitted (w : ChainWatch) : Prop :=
  w.core.reassValidPulse = true → w.chain.Complete ∧
    LongWatch.Published w.core (w.chain.body.take 8191) w.chain.ssi w.chain.opt

theorem Inv.emitted (h : w.Inv) (p : LongPorts) : (w.step p).Emitted := by
  intro hpulse
  have hs : w.core.state = .emit := by
    have := (w.core.clock_done p).1
    exact beq_iff_eq.1 (this.symm.trans hpulse)
  have hst : w.core.starts p = false := starts_of_state (by simp [hs]) (by simp [hs])
  have htk : w.core.takes p = false := takes_of_state (by simp [hs])
  have hnow := h.bits
  rw [Bits, hs] at hnow
  rw [chain_step hst htk, ← hnow.2, ← h.curSsi, ← h.curOpt]
  exact ⟨hnow.1, h.packing.published hs p⟩

theorem step_held (w : ChainWatch) (p : LongPorts) (h : w.Inv ∧ w.Emitted) (hheld : w.Held p) :
    (w.step p).Inv ∧ (w.step p).Emitted :=
  ⟨h.1.step hheld, h.1.emitted p⟩

/-- **Along every run that holds its fragments, what is emitted is its chain.** -/
theorem emitted_of_held (h : w.Inv) (hnow : w.Emitted) {ps : List LongPorts}
    (hheld : Run.Along ChainWatch.step Held w ps) : Run.Throughout ChainWatch.step Emitted w ps :=
  (Run.Along.throughout _ step_held ⟨h, hnow⟩ hheld).imp _ fun _ h ↦ h.2

end ChainWatch

end TetraPhy.Rx
