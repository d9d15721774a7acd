import TetraPhy.Rx.LongBody

/-!
# The delivery of a chain

`Delivers` says in which runs a chain comes in: each fragment is held until it is written, and the
next one comes before the time is up.  `Underway` counts down the edges that are left to write it;
what is left at the end of such a run is a chain that is published, and the software builds the
same body from the same blocks (`longReassembly_exact`).
-/

namespace TetraPhy.Rx

open AirOrder Sw

/-- The frame ticks of a run. -/
def ticks (ps : List LongPorts) : ℕ := ps.countP (·.frameTick)

/-- Nothing new comes in. -/
structure Quiet (t0Frames : BitVec 4) (p : LongPorts) : Prop where
  frag1Pulse : p.frag1Pulse = false
  schfValid : p.schfValid = false
  t0Frames : p.t0Frames = t0Frames

namespace Quiet

variable {t0Frames : BitVec 4} {q : LongPorts} (hq : Quiet t0Frames q) (r : LongReassembly)

include hq

theorem isBlock : LongReassembly.isBlock q = false := by
  rw [LongReassembly.isBlock, hq.schfValid]
  rfl

theorem takes : r.takes q = false := by
  rw [LongReassembly.takes, hq.isBlock, Bool.and_false]

theorem starts : r.starts q = false := by
  rw [LongReassembly.starts, hq.frag1Pulse, Bool.false_and]

end Quiet

/-- The runs in which a chain comes in. -/
inductive Delivers (t0Frames : BitVec 4) : Chain → List LongPorts → Prop
  /-- The first fragment is held for 62 edges at least. -/
  | start {p : LongPorts} {rest : List LongPorts} (hpulse : p.frag1Pulse = true)
      (hquiet : ∀ q ∈ rest, Quiet t0Frames q ∧ q.frag1Bits = p.frag1Bits)
      (hlen : 62 ≤ rest.length) (hticks : ticks rest < (t0Init t0Frames).toNat) :
      Delivers t0Frames { ssi := p.frag1Ssi, opt := p.frag1OptFlag, frag1 := p.frag1Bits }
        (p :: rest)
  /-- A block is held for 265 edges at least. -/
  | add {c : Chain} {ps : List LongPorts} {p : LongPorts} {rest : List LongPorts}
      (hbefore : Delivers t0Frames c ps) (hopen : c.Unfinished) (hpulse : p.frag1Pulse = false)
      (hblock : LongReassembly.isBlock p = true) (hp : p.t0Frames = t0Frames)
      (hquiet : ∀ q ∈ rest, Quiet t0Frames q ∧ q.schfInfo = p.schfInfo)
      (hlen : 265 ≤ rest.length) (hticks : ticks rest < (t0Init t0Frames).toNat) :
      Delivers t0Frames (c.add p.schfInfo) (ps ++ p :: rest)

/-- A block, and what holds it. -/
def holdBlock (b : BitVec 268) : List LongPorts :=
  { schfValid := true, schfCrcOk := true, schfInfo := b } ::
    List.replicate 265 { schfInfo := b }

/-- The shortest run in which a chain comes in. -/
def feed (c : Chain) : List LongPorts :=
  ({ frag1Pulse := true, frag1Ssi := c.ssi, frag1Bits := c.frag1, frag1OptFlag := c.opt } ::
    List.replicate 62 { frag1Bits := c.frag1 }) ++ c.blocks.flatMap holdBlock

theorem ticks_replicate (n : ℕ) {p : LongPorts} (hp : p.frameTick = false) :
    ticks (List.replicate n p) = 0 := by
  rw [ticks, List.countP_replicate, hp, if_neg Bool.false_ne_true]

theorem mem_replicate_quiet {n : ℕ} {p q : LongPorts} (hq : q ∈ List.replicate n p)
    (hp : Quiet 4#4 p) : Quiet 4#4 q ∧ q.frag1Bits = p.frag1Bits ∧ q.schfInfo = p.schfInfo := by
  rw [List.eq_of_mem_replicate hq]
  exact ⟨hp, rfl, rfl⟩

/-- Every chain of MAC-FRAGs and a MAC-END can come in. -/
theorem delivers_feed (c : Chain)
    (hblocks : ∀ b ∈ c.blocks, b.getLsbD 0 = false ∧ b.getLsbD 1 = true)
    (hopen : ∀ b ∈ c.blocks.dropLast, isEnd b = false) : Delivers 4#4 c (feed c) := by
  obtain ⟨ssi, opt, frag1, blocks⟩ := c
  induction blocks using List.reverseRecOn with
  | nil =>
      rw [feed, List.flatMap_nil, List.append_nil]
      refine .start (p := ⟨4#4, false, true, ssi, frag1, opt, false, false, 0#268, 0#9, false⟩)
        ?_ (fun q hq ↦ ?_) List.length_replicate.ge ?_
      · rfl
      · obtain ⟨hquiet, hbits, -⟩ := mem_replicate_quiet hq ⟨rfl, rfl, rfl⟩
        exact ⟨hquiet, hbits⟩
      · rw [ticks_replicate 62 rfl]
        decide
  | append_singleton blocks b ih =>
      rw [List.dropLast_concat] at hopen
      have hb := hblocks b (List.mem_append_right _ List.mem_cons_self)
      have hbefore := ih (fun x hx ↦ hblocks x (List.mem_append_left _ hx))
        fun x hx ↦ hopen x (List.dropLast_subset _ hx)
      have hfeed : feed ⟨ssi, opt, frag1, blocks ++ [b]⟩ =
          feed ⟨ssi, opt, frag1, blocks⟩ ++ holdBlock b := by
        rw [feed, feed, List.flatMap_append, List.flatMap_singleton, ← List.append_assoc]
      rw [hfeed]
      refine .add (p := { schfValid := true, schfCrcOk := true, schfInfo := b }) hbefore hopen
        ?_ ?_ ?_ (fun q hq ↦ ?_) List.length_replicate.ge ?_
      · rfl
      · rw [LongReassembly.isBlock, hb.1, hb.2]
        rfl
      · rfl
      · obtain ⟨hquiet, -, hinfo⟩ := mem_replicate_quiet hq ⟨rfl, rfl, rfl⟩
        exact ⟨hquiet, hinfo⟩
      · rw [ticks_replicate 265 rfl]
        decide

namespace LongReassembly

variable (r : LongReassembly) (p : LongPorts)

/-- The timer is set where the wait begins. -/
theorem fsmBlock_t0Left (n : LongReassembly) : (fsmBlock r p n).t0Left =
    if r.takes p || r.state == .start && r.f1Idx == 61#7 then t0Init p.t0Frames
    else n.t0Left := by
  rw [fsmBlock, takes]
  cases r.state with
  | idle => cases p.frag1Pulse <;> rfl
  | start => cases r.f1Idx == 61#7 <;> rfl
  | wait =>
      cases p.frag1Pulse with
      | true => rfl
      | false =>
          cases isBlock p with
          | true => rfl
          | false => cases r.t0Left == 0#4 && !p.frameTick <;> rfl
  | write =>
      cases decide (r.fragSrcIdx < r.fragSrcEnd) && decide (r.wptr < wptrMax) <;>
        cases r.fragIsEnd <;> rfl
  | flush => rfl
  | emit => rfl

theorem clock_t0Left : (r.clock p).t0Left =
    if r.takes p || r.state == .start && r.f1Idx == 61#7 then t0Init p.t0Frames
    else if p.frameTick && r.state == .wait && r.t0Left != 0#4 then r.t0Left - 1#4
    else r.t0Left := by
  have hdata : (dataBlock r p).t0Left =
      if p.frameTick && r.state == .wait && r.t0Left != 0#4 then r.t0Left - 1#4
      else r.t0Left := by
    rw [dataBlock, tickBlock]
    cases p.frameTick && r.state == .wait && r.t0Left != 0#4 <;> rfl
  rw [clock, fsmBlock_t0Left, hdata]

end LongReassembly

namespace ChainWatch

/-- The run `rest` is long enough to write what came in of the chain `c`, and not so long that the
next fragment is late.  The `n` chains before it are counted. -/
def Left (t0Frames : BitVec 4) (c : Chain) (n : BitVec 16) (rest : List LongPorts)
    (r : LongReassembly) : Prop :=
  match r.state with
  | .start => r.reassCnt = n ∧ 62 ≤ r.f1Idx.toNat + rest.length ∧
      ticks rest < (t0Init t0Frames).toNat
  | .wait => r.reassCnt = n ∧ ticks rest < r.t0Left.toNat
  | .write => r.reassCnt = n ∧ 269 ≤ r.fragSrcIdx.toNat + rest.length ∧
      if r.fragIsEnd then 271 ≤ r.fragSrcIdx.toNat + rest.length
      else ticks rest < r.t0Left.toNat
  | .flush => r.reassCnt = n ∧ 2 ≤ rest.length
  | .emit => r.reassCnt = n ∧ 1 ≤ rest.length
  | .idle => r.reassCnt = n + 1#16 ∧ c.Complete ∧
      LongWatch.Published r (c.body.take 8191) c.ssi c.opt

/-- A chain on its way. -/
structure Underway (t0Frames : BitVec 4) (c : Chain) (n : BitVec 16) (rest : List LongPorts)
    (w : ChainWatch) : Prop where
  inv : w.Inv
  chain : w.chain = c
  left : Left t0Frames c n rest w.core

variable {w : ChainWatch} {t0Frames : BitVec 4} {c : Chain} {n : BitVec 16} {q : LongPorts}
  {rest : List LongPorts}

theorem ticks_cons : ticks (q :: rest) = ticks rest + q.frameTick.toNat := by
  rw [ticks, List.countP_cons]
  cases q.frameTick <;> rfl

theorem clock_reassCnt {r : LongReassembly} (hs : r.state ≠ .emit) :
    (r.clock q).reassCnt = r.reassCnt := by
  have h := (r.clock_done q).2
  rw [if_neg hs] at h
  exact (congrArg DoneRegs.reassCnt h :)

theorem Underway.step_start (h : Underway t0Frames c n (q :: rest) w) (hq : Quiet t0Frames q)
    (hs : w.core.state = .start) : Left t0Frames c n rest (w.core.clock q) := by
  have hleft := h.left
  rw [Left, hs] at hleft
  obtain ⟨hcnt, hlen, hticks⟩ := hleft
  rw [ticks_cons] at hticks
  have hstate := w.core.clock_state q
  have hidx := (w.core.clock_chain q).2.2
  have htime := w.core.clock_t0Left q
  rw [hs] at hstate
  rw [hq.starts, if_neg Bool.false_ne_true, hs] at hidx
  rw [hq.takes, hs] at htime
  have hcnt' : (w.core.clock q).reassCnt = n := (clock_reassCnt (by simp [hs])).trans hcnt
  cases hlast : w.core.f1Idx == 61#7 with
  | true =>
      rw [hlast] at hstate htime
      rw [Left, hstate, htime, hq.t0Frames]
      exact ⟨hcnt', Nat.lt_of_le_of_lt (Nat.le_add_right _ _) hticks⟩
  | false =>
      have hne : (w.core.f1Idx != 61#7) = true := by rw [bne, hlast]; rfl
      have hlt := h.inv.packing.start hs
      rw [hne] at hidx
      rw [hlast] at hstate
      have hnext : (w.core.clock q).f1Idx.toNat = w.core.f1Idx.toNat + 1 := by
        rw [hidx]
        change (w.core.f1Idx + 1#7).toNat = _
        rw [BitVec.toNat_add]
        exact Nat.mod_eq_of_lt (show w.core.f1Idx.toNat + 1 < 128 by omega)
      rw [List.length_cons] at hlen
      rw [Left, hstate]
      dsimp only
      rw [if_neg Bool.false_ne_true]
      exact ⟨hcnt', by omega, by omega⟩

theorem Underway.step_wait (h : Underway t0Frames c n (q :: rest) w) (hq : Quiet t0Frames q)
    (hs : w.core.state = .wait) : Left t0Frames c n rest (w.core.clock q) := by
  have hleft := h.left
  rw [Left, hs] at hleft
  obtain ⟨hcnt, hticks⟩ := hleft
  rw [ticks_cons] at hticks
  have hstate := w.core.clock_state q
  have htime := w.core.clock_t0Left q
  have hcnt' : (w.core.clock q).reassCnt = n := (clock_reassCnt (by simp [hs])).trans hcnt
  have hpos : (w.core.t0Left == 0#4) = false := by
    refine beq_false_of_ne fun h0 ↦ ?_
    rw [h0] at hticks
    exact Nat.not_lt_zero _ hticks
  have hbne : (w.core.t0Left != 0#4) = true := by rw [bne, hpos]; rfl
  rw [hs, hq.frag1Pulse, hq.isBlock, hpos] at hstate
  rw [hq.takes, hs, hbne] at htime
  rw [Left, hstate]
  refine ⟨hcnt', ?_⟩
  rw [htime]
  cases htick : q.frameTick with
  | false =>
      rw [htick] at hticks
      exact hticks
  | true =>
      rw [htick] at hticks
      change _ < (w.core.t0Left - 1#4).toNat
      have hle : 1#4 ≤ w.core.t0Left := Nat.lt_of_le_of_lt (Nat.zero_le _) hticks
      rw [BitVec.toNat_sub_of_le hle]
      exact Nat.lt_sub_of_add_lt hticks

theorem Underway.step_write (h : Underway t0Frames c n (q :: rest) w) (hq : Quiet t0Frames q)
    (hs : w.core.state = .write) : Left t0Frames c n rest (w.core.clock q) := by
  have hleft := h.left
  rw [Left, hs] at hleft
  obtain ⟨hcnt, hlen, hif⟩ := hleft
  have hnow := h.inv.bits
  rw [Bits, hs] at hnow
  obtain ⟨c', b, hc, hb⟩ := hnow
  have hlo := hb.hi
  have hstate := w.core.clock_state q
  have htime := w.core.clock_t0Left q
  have hcnt' : (w.core.clock q).reassCnt = n := (clock_reassCnt (by simp [hs])).trans hcnt
  obtain ⟨hend, -, hidx⟩ := w.core.clock_frag q
  rw [hq.takes, if_neg Bool.false_ne_true] at hend hidx
  rw [hs, if_pos (beq_self_eq_true LongState.write)] at hidx
  rw [hs] at hstate
  rw [hq.takes, hs] at htime
  have htime' : (w.core.clock q).t0Left = w.core.t0Left :=
    htime.trans (by cases q.frameTick <;> rfl)
  have hticks : w.core.fragIsEnd = false → ticks rest < w.core.t0Left.toNat := by
    intro hend
    rw [hend, if_neg Bool.false_ne_true, ticks_cons] at hif
    exact Nat.lt_of_le_of_lt (Nat.le_add_right _ _) hif
  rw [List.length_cons] at hlen hif
  cases hwr : w.core.wrEn with
  | true =>
      have hlt : w.core.fragSrcIdx.toNat < 268 := by
        rw [LongReassembly.wrEn, hs, Bool.and_eq_true, hb.fragSrcEnd] at hwr
        exact of_decide_eq_true hwr.1
      have hnext : (w.core.clock q).fragSrcIdx.toNat = w.core.fragSrcIdx.toNat + 1 := by
        rw [hidx, BitVec.toNat_add]
        exact Nat.mod_eq_of_lt (show w.core.fragSrcIdx.toNat + 1 < 512 by omega)
      rw [hwr] at hstate
      rw [Left, hstate]
      change _ ∧ _ ∧ _
      rw [hnext, hend, htime']
      refine ⟨hcnt', by omega, ?_⟩
      cases he : w.core.fragIsEnd with
      | true =>
          rw [he, if_pos rfl] at hif
          rw [if_pos rfl]
          omega
      | false => exact hticks he
  | false =>
      rw [hwr] at hstate
      cases he : w.core.fragIsEnd with
      | true =>
          rw [he, if_pos rfl] at hif
          rw [he] at hstate
          have hstate' : (w.core.clock q).state = if w.core.bitCnt != 0#6 then .flush else .emit :=
            hstate
          rw [Left, hstate']
          cases w.core.bitCnt != 0#6 with
          | true => exact ⟨hcnt', by omega⟩
          | false => exact ⟨hcnt', by omega⟩
      | false =>
          rw [he] at hstate
          rw [Left, hstate]
          exact ⟨hcnt', htime'.symm ▸ hticks he⟩

/-- What is published stays until something comes in. -/
theorem published_clock {r : LongReassembly} {bits : List Bool} {ssi : BitVec 24} {opt : Bool}
    (h : LongWatch.Published r bits ssi opt) (hs : r.state = .idle) :
    LongWatch.Published (r.clock q) bits ssi opt := by
  have hdone := (r.clock_done q).2
  rw [if_neg (by simp [hs])] at hdone
  have hwe : r.wordWe = false := by
    rw [LongReassembly.wordWe, LongReassembly.wrEn, hs]
    rfl
  have hmem : (r.clock q).words = r.words := by
    rw [r.words_clock q, hwe, if_neg Bool.false_ne_true]
  refine ⟨?_, ?_, ?_, ?_⟩
  · exact (congrArg (DoneRegs.doneLen · |>.toNat) hdone).trans h.doneLen
  · exact (congrArg DoneRegs.doneSsi hdone).trans h.doneSsi
  · exact (congrArg DoneRegs.doneOpt hdone).trans h.doneOpt
  · rw [hmem]
    exact h.words

theorem Underway.step_flush (h : Underway t0Frames c n (q :: rest) w) (hs : w.core.state = .flush) :
    Left t0Frames c n rest (w.core.clock q) := by
  have hleft := h.left
  rw [Left, hs] at hleft
  obtain ⟨hcnt, hlen⟩ := hleft
  have hstate := w.core.clock_state q
  rw [hs] at hstate
  rw [Left, hstate]
  exact ⟨(clock_reassCnt (by simp [hs])).trans hcnt, Nat.le_of_succ_le_succ hlen⟩

theorem Underway.step_emit (h : Underway t0Frames c n (q :: rest) w) (hs : w.core.state = .emit) :
    Left t0Frames c n rest (w.core.clock q) := by
  have hleft := h.left
  rw [Left, hs] at hleft
  have hnow := h.inv.bits
  rw [Bits, hs, h.chain] at hnow
  have hstate := w.core.clock_state q
  have hdone := (w.core.clock_done q).2
  rw [hs] at hstate
  rw [if_pos hs] at hdone
  rw [Left, hstate]
  refine ⟨?_, hnow.1, ?_⟩
  · exact (congrArg DoneRegs.reassCnt hdone).trans (congrArg (· + 1#16) hleft.1)
  · have hpub := h.inv.packing.published hs q
    rw [hnow.2, h.inv.curSsi, h.inv.curOpt, h.chain] at hpub
    exact hpub

theorem Underway.step_idle (h : Underway t0Frames c n (q :: rest) w) (hq : Quiet t0Frames q)
    (hs : w.core.state = .idle) : Left t0Frames c n rest (w.core.clock q) := by
  have hleft := h.left
  rw [Left, hs] at hleft
  obtain ⟨hcnt, hc, hpub⟩ := hleft
  have hstate := w.core.clock_state q
  rw [hs, hq.frag1Pulse] at hstate
  rw [Left, hstate]
  exact ⟨(clock_reassCnt (by simp [hs])).trans hcnt, hc, published_clock hpub hs⟩

/-- **Every edge goes on.** -/
theorem Underway.step (h : Underway t0Frames c n (q :: rest) w) (hq : Quiet t0Frames q)
    (hheld : w.Held q) : Underway t0Frames c n rest (w.step q) := by
  refine ⟨h.inv.step hheld, (chain_step (hq.starts _) (hq.takes _)).trans h.chain, ?_⟩
  change Left t0Frames c n rest (w.core.clock q)
  cases hs : w.core.state with
  | idle => exact h.step_idle hq hs
  | start => exact h.step_start hq hs
  | wait => exact h.step_wait hq hs
  | write => exact h.step_write hq hs
  | flush => exact h.step_flush hs
  | emit => exact h.step_emit hs

/-- Where a run that goes on without a fragment ends. -/
theorem Underway.exec (h : Underway t0Frames c n rest w)
    (hrest : ∀ q ∈ rest, Quiet t0Frames q ∧ ∀ w : ChainWatch, w.Inv → w.chain = c → w.Held q) :
    Run.Along ChainWatch.step Held w rest ∧
      Underway t0Frames c n [] (Run.exec ChainWatch.step w rest) := by
  induction rest generalizing w with
  | nil => exact ⟨trivial, h⟩
  | cons q rest ih =>
      obtain ⟨hq, hheld⟩ := hrest q List.mem_cons_self
      have hnow := hheld w h.inv h.chain
      obtain ⟨halong, hend⟩ := ih (h.step hq hnow) fun q hq ↦ hrest q (List.mem_cons_of_mem _ hq)
      exact ⟨⟨hnow, halong⟩, hend⟩

/-- At the end of such a run the chain is waited for, or published. -/
theorem Underway.settled (h : Underway t0Frames c n [] w) :
    w.core.state = .wait ∧ c.Unfinished ∧ w.core.reassCnt = n ∨
      w.core.state = .idle ∧ c.Complete ∧ w.core.reassCnt = n + 1#16 ∧
        LongWatch.Published w.core (c.body.take 8191) c.ssi c.opt := by
  have hleft := h.left
  have hnow := h.inv.bits
  cases hs : w.core.state with
  | idle =>
      rw [Left, hs] at hleft
      exact .inr ⟨rfl, hleft.2.1, hleft.1, hleft.2.2⟩
  | start =>
      rw [Left, hs] at hleft
      exact absurd (h.inv.packing.start hs) fun hidx ↦ by
        have hlen : 62 ≤ w.core.f1Idx.toNat := hleft.2.1
        omega
  | wait =>
      rw [Left, hs] at hleft
      rw [Bits, hs, h.chain] at hnow
      exact .inl ⟨rfl, hnow.1, hleft.1⟩
  | write =>
      rw [Left, hs] at hleft
      rw [Bits, hs] at hnow
      obtain ⟨c', b, -, hb⟩ := hnow
      exact absurd hb.hi (Nat.not_le_of_lt hleft.2.1)
  | flush =>
      rw [Left, hs] at hleft
      exact absurd hleft.2 (by decide)
  | emit =>
      rw [Left, hs] at hleft
      exact absurd hleft.2 (by decide)

/-- A first fragment sets a chain on its way. -/
theorem underway_start (h : w.Inv) (hs : w.core.state = .idle ∨ w.core.state = .wait)
    (hcnt : w.core.reassCnt = n) (hpulse : q.frag1Pulse = true) (hlen : 62 ≤ rest.length)
    (hticks : ticks rest < (t0Init t0Frames).toNat) :
    Underway t0Frames { ssi := q.frag1Ssi, opt := q.frag1OptFlag, frag1 := q.frag1Bits } n rest
      (w.step q) := by
  have hst : w.core.starts q = true := by
    rw [LongReassembly.starts, hpulse]
    rcases hs with hs | hs <;> rw [hs] <;> rfl
  have hheld : w.Held q := by
    rcases hs with hs | hs <;> exact ⟨by simp [hs], by simp [hs]⟩
  have hstate : (w.core.clock q).state = .start := by
    rw [LongReassembly.clock_state, hpulse]
    rcases hs with hs | hs <;> rw [hs] <;> rfl
  have hidx := (w.core.clock_chain q).2.2
  rw [if_pos hst] at hidx
  refine ⟨h.step hheld, if_pos hst, ?_⟩
  change Left _ _ _ _ (w.core.clock q)
  rw [Left, hstate]
  refine ⟨(clock_reassCnt ?_).trans hcnt, ?_, hticks⟩
  · rcases hs with hs | hs <;> simp [hs]
  · rw [hidx]
    exact hlen.trans (Nat.le_add_left _ _)

/-- A block sets a chain on its way again. -/
theorem underway_add (h : w.Inv) (hs : w.core.state = .wait) (hcnt : w.core.reassCnt = n)
    (hpulse : q.frag1Pulse = false) (hblock : LongReassembly.isBlock q = true)
    (hq : q.t0Frames = t0Frames) (hlen : 265 ≤ rest.length)
    (hticks : ticks rest < (t0Init t0Frames).toNat) :
    Underway t0Frames (w.chain.add q.schfInfo) n rest (w.step q) := by
  have hst : w.core.starts q = false := by rw [LongReassembly.starts, hpulse, Bool.false_and]
  have htk : w.core.takes q = true := by
    rw [LongReassembly.takes, hs, hpulse, hblock]
    rfl
  have hheld : w.Held q := ⟨by simp [hs], by simp [hs]⟩
  have hstate : (w.core.clock q).state = .write := by
    rw [LongReassembly.clock_state, hs, hpulse, hblock]
    rfl
  have htime := w.core.clock_t0Left q
  obtain ⟨hend, -, hidx⟩ := w.core.clock_frag q
  rw [htk, if_pos rfl] at hend hidx
  rw [htk, Bool.true_or, if_pos rfl, hq] at htime
  have hlo : (w.core.clock q).fragSrcIdx.toNat = payloadStart q.schfInfo := by
    have := Chain.payloadStart_le q.schfInfo
    rw [hidx, BitVec.toNat_ofNat]
    exact Nat.mod_eq_of_lt (by omega)
  refine ⟨h.step hheld, ?_, ?_⟩
  · rw [ChainWatch.step]
    dsimp only
    rw [hst, htk, if_neg Bool.false_ne_true, if_pos rfl]
  · change Left _ _ _ _ (w.core.clock q)
    rw [Left, hstate]
    change _ ∧ _ ∧ _
    rw [hlo, hend, htime, payloadStart]
    refine ⟨(clock_reassCnt (by simp [hs])).trans hcnt, ?_, ?_⟩
    · split_ifs <;> omega
    · cases isEnd q.schfInfo with
      | true =>
          rw [if_pos rfl, if_pos rfl]
          omega
      | false => exact hticks

/-- **A delivery holds its fragments, and sets its chain on its way.** -/
theorem underway_of_delivers {ps : List LongPorts} (hd : Delivers t0Frames c ps) (h : w.Inv)
    (hs : w.core.state = .idle ∨ w.core.state = .wait) :
    Run.Along ChainWatch.step Held w ps ∧
      Underway t0Frames c w.core.reassCnt [] (Run.exec ChainWatch.step w ps) := by
  induction hd with
  | @start p rest hpulse hquiet hlen hticks =>
      have hheld : ∀ q ∈ rest, ∀ w : ChainWatch, w.Inv →
          w.chain = { ssi := p.frag1Ssi, opt := p.frag1OptFlag, frag1 := p.frag1Bits } →
          w.Held q := by
        intro q hq w hw hc
        refine ⟨fun _ ↦ ?_, fun hwrite ↦ ?_⟩
        · rw [hc]
          exact (hquiet q hq).2
        · have hbits := hw.bits
          rw [Bits, hwrite, hc] at hbits
          obtain ⟨c', b, hadd, -⟩ := hbits
          have := congrArg Chain.blocks hadd
          exact absurd this.symm (by simp [Chain.add])
      obtain ⟨halong, hend⟩ := (underway_start h hs rfl hpulse hlen hticks).exec
        fun q hq ↦ ⟨(hquiet q hq).1, hheld q hq⟩
      refine ⟨⟨?_, halong⟩, hend⟩
      rcases hs with hs | hs <;> exact ⟨by simp [hs], by simp [hs]⟩
  | @add c ps p rest hbefore hopen hpulse hblock hp hquiet hlen hticks ih =>
      have hheld : ∀ q ∈ rest, ∀ w : ChainWatch, w.Inv → w.chain = c.add p.schfInfo →
          w.Held q := by
        intro q hq w hw hc
        refine ⟨fun hstart ↦ ?_, fun _ ↦ ?_⟩
        · have hbits := hw.bits
          rw [Bits, hstart, hc] at hbits
          exact absurd hbits.1 (by simp [Chain.add])
        · rw [hc, Chain.add, List.getLast?_concat, (hquiet q hq).2]
      obtain ⟨hfirst, hthen⟩ := ih
      obtain ⟨hwait, -, hcnt⟩ | ⟨-, hc, -⟩ := hthen.settled
      · have hgo := underway_add hthen.inv hwait hcnt hpulse hblock hp hlen hticks
        rw [hthen.chain] at hgo
        obtain ⟨halong, hend⟩ := hgo.exec fun q hq ↦ ⟨(hquiet q hq).1, hheld q hq⟩
        rw [Run.exec_append]
        exact ⟨(Run.along_append _ _ _).2
          ⟨hfirst, ⟨by simp [hwait], by simp [hwait]⟩, halong⟩, hend⟩
      · exact absurd hc hopen.not_complete

end ChainWatch

/-! ## In software -/

/-- The blocks of a chain one after the other, each at its time. -/
def lsdsFrags (r : UlLsds) (blocks : List (BitVec 268 × UInt32)) : UlLsds × Option LongSds :=
  blocks.foldl (fun s b ↦ s.1.frag (infoBits b.1) (isEnd b.1) b.2) (r, none)

theorem payload_infoBits (b : BitVec 268) :
    UlLsds.payload (isEnd b) (infoBits b) = Chain.payload b := by
  have hlen : (infoBits b).length = 268 := by simp [infoBits]
  rw [UlLsds.payload, Chain.payload, payloadStart]
  cases isEnd b with
  | true => exact List.take_of_length_le (by rw [List.length_drop, hlen])
  | false => exact List.take_of_length_le (by rw [List.length_drop, hlen])

/-- A store that has the chain so far. -/
structure Stored (r : UlLsds) (c : Chain) (ssi : UInt32) : Prop where
  active : r.active = true
  ssi : r.ssi = ssi
  opt : r.opt = c.opt
  body : r.body = c.body.take ulLsdsMaxBits

theorem Stored.frag {r : UlLsds} {c : Chain} {ssi : UInt32} (h : Stored r c ssi) (b : BitVec 268)
    (nowMs : UInt32) :
    (isEnd b = false → Stored (r.frag (infoBits b) (isEnd b) nowMs).1 (c.add b) ssi) ∧
      (isEnd b = true → (r.frag (infoBits b) (isEnd b) nowMs).2 =
        some ⟨(c.add b).body.take ulLsdsMaxBits, ssi, c.opt⟩) := by
  have hbody : r.body ++ (UlLsds.payload (isEnd b) (infoBits b)).take
      (ulLsdsMaxBits - r.body.length) = (c.add b).body.take ulLsdsMaxBits := by
    rw [h.body, payload_infoBits, UlLsds.take_append_take, Chain.body_add]
  have hfrag : r.frag (infoBits b) (isEnd b) nowMs =
      if isEnd b then
        ({ r with
          body := (c.add b).body.take ulLsdsMaxBits, active := false, reassCnt := r.reassCnt + 1 },
          some ⟨(c.add b).body.take ulLsdsMaxBits, r.ssi, r.opt⟩)
      else ({ r with
        body := (c.add b).body.take ulLsdsMaxBits, t0DeadlineMs := nowMs + r.t0Ms }, none) := by
    rw [UlLsds.frag, h.active, ← hbody]
    rfl
  rw [hfrag]
  constructor
  · intro hb
    rw [hb]
    exact ⟨h.active, h.ssi, h.opt, rfl⟩
  · intro hb
    rw [hb, if_pos rfl, h.ssi, h.opt]

theorem lsdsFrags_append (r : UlLsds) (blocks : List (BitVec 268 × UInt32))
    (b : BitVec 268 × UInt32) : lsdsFrags r (blocks ++ [b]) =
      (lsdsFrags r blocks).1.frag (infoBits b.1) (isEnd b.1) b.2 :=
  List.foldl_append

theorem Stored.frags {r : UlLsds} {c : Chain} {ssi : UInt32} (h : Stored r c ssi)
    (blocks : List (BitVec 268 × UInt32)) (hopen : ∀ b ∈ blocks, isEnd b.1 = false) :
    Stored (lsdsFrags r blocks).1 { c with blocks := c.blocks ++ blocks.map Prod.fst } ssi := by
  induction blocks using List.reverseRecOn with
  | nil =>
      rw [List.map_nil, List.append_nil]
      exact h
  | append_singleton blocks b ih =>
      have hbefore := ih fun x hx ↦ hopen x (List.mem_append_left _ hx)
      have hb := hopen b (List.mem_append_right _ List.mem_cons_self)
      have hnext := (hbefore.frag b.1 b.2).1 hb
      rw [Chain.add, List.append_assoc] at hnext
      rw [lsdsFrags_append, List.map_append]
      exact hnext

/-- **The software builds the body from the same blocks.** -/
theorem lsdsFrags_complete {r : UlLsds} {c : Chain} {ssi : UInt32}
    (h : Stored r { c with blocks := [] } ssi) (hc : c.Complete)
    {blocks : List (BitVec 268 × UInt32)} (hblocks : blocks.map Prod.fst = c.blocks) :
    (lsdsFrags r blocks).2 = some ⟨c.body.take ulLsdsMaxBits, ssi, c.opt⟩ := by
  obtain ⟨c', b, rfl, hopen, hb⟩ := hc
  obtain ⟨before, last, rfl, hbefore, hlast⟩ := List.map_eq_append_iff.1 hblocks
  obtain ⟨x, rfl, hx⟩ := List.map_eq_singleton_iff.1 hlast
  have hstored : Stored (lsdsFrags r before).1 c' ssi := by
    have hall : ∀ x ∈ before, isEnd x.1 = false := fun x hx ↦
      hopen x.1 (hbefore ▸ List.mem_map_of_mem hx)
    have hfrags := h.frags before hall
    rw [hbefore] at hfrags
    exact hfrags
  rw [← hx] at hb ⊢
  rw [lsdsFrags_append]
  exact (hstored.frag x.1 x.2).2 hb

/-- **The long-SDS reassembly is exact.**  In every run that holds its fragments, what is emitted
is a complete chain, as far as the memory goes.  A complete chain of at most 8191 bits that comes
in is published whole, whatever was there before, and its body is the one of the software. -/
theorem longReassembly_exact :
    (∀ wordMem wordRdQ rdIndexQ ps,
      Run.Along ChainWatch.step ChainWatch.Held (.reset wordMem wordRdQ rdIndexQ) ps →
        Run.Throughout ChainWatch.step ChainWatch.Emitted (.reset wordMem wordRdQ rdIndexQ) ps) ∧
    ∀ c : Chain, c.Complete → c.body.length ≤ 8191 →
      (∀ wordMem wordRdQ rdIndexQ before t0Frames ps,
        Run.Along ChainWatch.step ChainWatch.Held (.reset wordMem wordRdQ rdIndexQ) before →
        let w := Run.exec ChainWatch.step (.reset wordMem wordRdQ rdIndexQ) before
        w.core.state = .idle ∨ w.core.state = .wait → Delivers t0Frames c ps →
        let w' := Run.exec ChainWatch.step w ps
        w'.core.reassCnt = w.core.reassCnt + 1#16 ∧
          LongWatch.Published w'.core c.body c.ssi c.opt) ∧
      ∀ (r : UlLsds) (ssi : UInt32) (info92 : List Bool) (nowMs : UInt32)
        (blocks : List (BitVec 268 × UInt32)), slice info92 30 62 = onAir c.frag1 →
        blocks.map Prod.fst = c.blocks →
        (lsdsFrags (r.start ssi info92 c.opt nowMs) blocks).2 =
          some ⟨c.body, ssi &&& 0xFFFFFF, c.opt⟩ := by
  have hreset : ∀ wordMem wordRdQ rdIndexQ,
      (ChainWatch.reset wordMem wordRdQ rdIndexQ).Inv ∧
        (ChainWatch.reset wordMem wordRdQ rdIndexQ).Emitted := fun _ _ _ ↦
    ⟨ChainWatch.inv_reset _ _ _, fun h ↦ absurd h Bool.false_ne_true⟩
  refine ⟨fun wordMem wordRdQ rdIndexQ ps hheld ↦ ?_, fun c hc hlen ↦ ⟨?_, ?_⟩⟩
  · obtain ⟨hinv, hnow⟩ := hreset wordMem wordRdQ rdIndexQ
    exact ChainWatch.emitted_of_held hinv hnow hheld
  · intro wordMem wordRdQ rdIndexQ before t0Frames ps hheld w hs hd
    have hinv : w.Inv := ((hheld.throughout _ ChainWatch.step_held
      (hreset wordMem wordRdQ rdIndexQ)).last _).1
    obtain ⟨-, hopen, -⟩ | ⟨-, -, hcnt, hpub⟩ :=
      (ChainWatch.underway_of_delivers hd hinv hs).2.settled
    · exact absurd hc hopen.not_complete
    · rw [List.take_of_length_le hlen] at hpub
      exact ⟨hcnt, hpub⟩
  · intro r ssi info92 nowMs blocks hinfo hblocks
    have hstart : Stored (r.start ssi info92 c.opt nowMs) { c with blocks := [] }
        (ssi &&& 0xFFFFFF) := by
      refine ⟨rfl, rfl, rfl, ?_⟩
      rw [Chain.body, List.flatMap_nil, List.append_nil,
        List.take_of_length_le (by rw [length_onAir]; decide)]
      exact hinfo
    rw [lsdsFrags_complete hstart hc hblocks,
      List.take_of_length_le (hlen.trans (by decide))]

/-- A chain of 584 bits, which end within a word. -/
def shortChain : Chain where
  ssi := 0x2F5A01#24
  opt := true
  frag1 := 0x123456789ABCDEF#62
  blocks := [0xAAAA2#268, 0xBBB06#268]

theorem longReassembly_exact_shortChain :
    LongWatch.Published (Run.exec ChainWatch.step (.reset (fun _ ↦ 0#32) 0#32 0#9)
      (feed shortChain)).core shortChain.body shortChain.ssi shortChain.opt := by
  have hfrag : isEnd 0xAAAA2#268 = false := by
    rw [isEnd, BitVec.getLsbD_ofNat]
    rfl
  have hend : isEnd 0xBBB06#268 = true := by
    rw [isEnd, BitVec.getLsbD_ofNat]
    rfl
  have hopen : ∀ b ∈ shortChain.blocks.dropLast, isEnd b = false := by
    intro b hb
    rw [List.mem_singleton.1 hb, hfrag]
  have hcomplete : shortChain.Complete := ⟨{ shortChain with blocks := [0xAAAA2#268] },
    0xBBB06#268, rfl, hopen, hend⟩
  have hlen : shortChain.body.length ≤ 8191 := by
    simp [shortChain, Chain.body, Chain.length_payload, payloadStart, hfrag, hend]
  have hblocks : ∀ b ∈ shortChain.blocks, b.getLsbD 0 = false ∧ b.getLsbD 1 = true := by
    simp [shortChain]
  have h := (longReassembly_exact.2 shortChain hcomplete hlen).1 (fun _ ↦ 0#32) 0#32 0#9 [] 4#4
    (feed shortChain) trivial (.inl rfl) (delivers_feed shortChain hblocks hopen)
  rw [Run.exec_nil] at h
  exact h.2

end TetraPhy.Rx
