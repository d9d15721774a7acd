import Mathlib.Logic.Function.Basic
import TetraPhy.Lib.AirOrder
import TetraPhy.Lib.Pool

/-!
# Demand reassembly in logic

`tetra_ul_demand_reassembly.v`: two slots, each with the first fragment of one terminal, and
the output registers for the body that fragment and its MAC-END-HU make.

| Port           | Effect at the clock edge                                           |
|----------------|--------------------------------------------------------------------|
| `frame_tick`   | every occupied slot ages by a frame; the last one frees it         |
| `frag1_pulse`  | the fragment replaces one of the same SSI, or takes a free slot    |
| `end_hu_pulse` | the slot of that SSI is spliced, output and freed                  |

All assignments are non-blocking: a block reads the registers `r` from before the edge and
writes into `n`, where an assignment further down wins.
-/

namespace TetraPhy.Rx

open Pool

/-- The registers `s0_*` or `s1_*`. -/
structure ReassSlot where
  occ : Bool := false
  ssi : BitVec 24 := 0#24
  frag1 : BitVec 62 := 0#62
  t0Left : BitVec 4 := 0#4
  meta13 : BitVec 13 := 0#13
deriving DecidableEq, Repr

/-- The input ports. -/
structure ReassPorts where
  t0Frames : BitVec 4
  frameTick : Bool := false
  frag1Pulse : Bool := false
  frag1Ssi : BitVec 24 := 0#24
  frag1Bits : BitVec 62 := 0#62
  frag1Meta : BitVec 13 := 0#13
  endHuPulse : Bool := false
  endHuSsi : BitVec 24 := 0#24
  endHuBits : BitVec 85 := 0#85
deriving DecidableEq, Repr

/-- `T0_FRAMES_DEFAULT`. -/
def t0FramesDefault : BitVec 4 := 2#4

/-- `t0_eff`. -/
def t0Eff (t0Frames : BitVec 4) : BitVec 4 := if t0Frames == 0#4 then t0FramesDefault else t0Frames

/-- The registers of `tetra_ul_demand_reassembly`, as reset leaves them. -/
structure DemandReassembly where
  s : Fin 2 → ReassSlot := fun _ ↦ {}
  reassembledValid : Bool := false
  reassembledBody : BitVec 147 := 0#147
  reassembledSsi : BitVec 24 := 0#24
  reassembledMeta : BitVec 13 := 0#13
  reassembledCnt : BitVec 16 := 0#16
  dropCnt : BitVec 16 := 0#16

namespace DemandReassembly

/-- `s0_match`, `s1_match` and, of the other SSI port, `s0_replace`, `s1_replace`. -/
def holds (r : DemandReassembly) (i : Fin 2) (ssi : BitVec 24) : Bool :=
  (r.s i).occ && (r.s i).ssi == ssi

/-- The age of one slot. -/
def tickSlot (r n : DemandReassembly) (i : Fin 2) : DemandReassembly :=
  if (r.s i).occ then
    let last := (r.s i).t0Left == 1#4
    { n with
      s := Function.update n.s i
        { n.s i with
          occ := if last then false else (n.s i).occ
          t0Left := if (r.s i).t0Left == 0#4 then 0#4 else (r.s i).t0Left - 1#4 }
      dropCnt := if last then r.dropCnt + 1#16 else n.dropCnt }
  else n

/-- The block under `frame_tick_sys`. -/
def tickBlock (r : DemandReassembly) (p : ReassPorts) (n : DemandReassembly) :
    DemandReassembly :=
  if p.frameTick then tickSlot r (tickSlot r n 0) 1 else n

/-- The three registers every accepted fragment writes. -/
def store (p : ReassPorts) (n : DemandReassembly) (i : Fin 2) : DemandReassembly :=
  { n with
    s := Function.update n.s i
      { n.s i with frag1 := p.frag1Bits, meta13 := p.frag1Meta, t0Left := t0Eff p.t0Frames } }

/-- The two more that one of a new SSI writes. -/
def alloc (p : ReassPorts) (n : DemandReassembly) (i : Fin 2) : DemandReassembly :=
  { n with s := Function.update n.s i { n.s i with occ := true, ssi := p.frag1Ssi } }

/-- The block under `frag1_pulse_sys`. -/
def frag1Block (r : DemandReassembly) (p : ReassPorts) (n : DemandReassembly) :
    DemandReassembly :=
  if p.frag1Pulse then
    if r.holds 0 p.frag1Ssi then store p n 0
    else if r.holds 1 p.frag1Ssi then store p n 1
    else if !(r.s 0).occ then store p (alloc p n 0) 0
    else if (r.s 0).occ && !(r.s 1).occ then store p (alloc p n 1) 1
    else if (r.s 0).occ && (r.s 1).occ && !r.holds 0 p.frag1Ssi && !r.holds 1 p.frag1Ssi then
      { n with dropCnt := r.dropCnt + 1#16 }
    else n
  else n

/-- `match_slot`. -/
def matchSlot (r : DemandReassembly) (ssi : BitVec 24) : Fin 2 := if r.holds 0 ssi then 0 else 1

/-- `match_any`. -/
def matchAny (r : DemandReassembly) (ssi : BitVec 24) : Bool := r.holds 0 ssi || r.holds 1 ssi

/-- The block under `end_hu_pulse_sys && match_any`. -/
def endBlock (r : DemandReassembly) (p : ReassPorts) (n : DemandReassembly) :
    DemandReassembly :=
  if p.endHuPulse && r.matchAny p.endHuSsi then
    let i := r.matchSlot p.endHuSsi
    { n with
      s := Function.update n.s i { n.s i with occ := false }
      reassembledBody := (r.s i).frag1 ++ p.endHuBits
      reassembledSsi := (r.s i).ssi
      reassembledMeta := (r.s i).meta13
      reassembledValid := true
      reassembledCnt := r.reassembledCnt + 1#16 }
  else n

/-- One edge of `clk_sys`. -/
def clock (r : DemandReassembly) (p : ReassPorts) : DemandReassembly :=
  endBlock r p (frag1Block r p (tickBlock r p { r with reassembledValid := false }))

/-! ## One pulse at a time -/

/-- The slot a fragment of `ssi` goes to. -/
def target (r : DemandReassembly) (ssi : BitVec 24) : Option (Fin 2) :=
  if r.holds 0 ssi then some 0
  else if r.holds 1 ssi then some 1
  else if !(r.s 0).occ then some 0
  else if !(r.s 1).occ then some 1
  else none

/-- The slot an END of `ssi` takes its first half from. -/
def matching (r : DemandReassembly) (ssi : BitVec 24) : Option (Fin 2) :=
  if r.holds 0 ssi then some 0 else if r.holds 1 ssi then some 1 else none

theorem holds_of_matching {r : DemandReassembly} {ssi : BitVec 24} {i : Fin 2}
    (h : r.matching ssi = some i) : r.holds i ssi = true := by
  unfold matching at h
  split at h
  · next h0 =>
    cases h
    exact h0
  split at h
  · next h1 =>
    cases h
    exact h1
  · cases h

theorem occ_of_matching {r : DemandReassembly} {ssi : BitVec 24} {i : Fin 2}
    (h : r.matching ssi = some i) : (r.s i).occ = true :=
  (Bool.and_eq_true_iff.1 (holds_of_matching h)).1

theorem ssi_of_matching {r : DemandReassembly} {ssi : BitVec 24} {i : Fin 2}
    (h : r.matching ssi = some i) : (r.s i).ssi = ssi :=
  eq_of_beq (Bool.and_eq_true_iff.1 (holds_of_matching h)).2

theorem target_eq_none {r : DemandReassembly} {ssi : BitVec 24} (h : r.target ssi = none) :
    (r.s 0).occ = true ∧ (r.s 1).occ = true ∧ r.holds 0 ssi = false ∧ r.holds 1 ssi = false := by
  unfold target at h
  split at h; · cases h
  split at h; · cases h
  split at h; · cases h
  split at h; · cases h
  simp_all

/-- A fragment is stored whole where it goes, also where only half of the slot's registers
are written: the others hold what would be written.  A slot that expires at the same edge stays
empty. -/
theorem frag1Block_of_target {r n : DemandReassembly} {p : ReassPorts} {i : Fin 2}
    (hp : p.frag1Pulse = true) (hn : ∀ j, (n.s j).ssi = (r.s j).ssi)
    (h : r.target p.frag1Ssi = some i) :
    frag1Block r p n =
      { n with
        s := Function.update n.s i
          ⟨(n.s i).occ || !(r.s i).occ, p.frag1Ssi, p.frag1Bits, t0Eff p.t0Frames,
            p.frag1Meta⟩ } := by
  have hreplace {j : Fin 2} (hj : r.holds j p.frag1Ssi = true) : store p n j =
      { n with
        s := Function.update n.s j
          ⟨(n.s j).occ || !(r.s j).occ, p.frag1Ssi, p.frag1Bits, t0Eff p.t0Frames,
            p.frag1Meta⟩ } := by
    obtain ⟨hocc, hssi⟩ := Bool.and_eq_true_iff.1 hj
    simp only [store, hn, hocc, eq_of_beq hssi, Bool.not_true, Bool.or_false]
  have halloc {j : Fin 2} (hj : (r.s j).occ = false) : store p (alloc p n j) j =
      { n with
        s := Function.update n.s j
          ⟨(n.s j).occ || !(r.s j).occ, p.frag1Ssi, p.frag1Bits, t0Eff p.t0Frames,
            p.frag1Meta⟩ } := by
    simp only [store, alloc, hj, Function.update_self, Function.update_idem, Bool.not_false,
      Bool.or_true]
  rw [frag1Block, if_pos hp]
  unfold target at h
  by_cases h0 : r.holds 0 p.frag1Ssi = true
  · rw [if_pos h0] at h ⊢
    cases h
    exact hreplace h0
  rw [if_neg h0] at h ⊢
  by_cases h1 : r.holds 1 p.frag1Ssi = true
  · rw [if_pos h1] at h ⊢
    cases h
    exact hreplace h1
  rw [if_neg h1] at h ⊢
  by_cases hf0 : (r.s 0).occ = true
  · rw [if_neg (by simp [hf0])] at h ⊢
    by_cases hf1 : (r.s 1).occ = true
    · simp [hf1] at h
    · rw [if_pos (by simpa using hf1)] at h
      rw [if_pos (by simp [hf0, hf1])]
      cases h
      exact halloc (by simpa using hf1)
  · rw [if_pos (by simpa using hf0)] at h ⊢
    cases h
    exact halloc (by simpa using hf0)

theorem frag1Block_of_full {r n : DemandReassembly} {p : ReassPorts} (hp : p.frag1Pulse = true)
    (h : r.target p.frag1Ssi = none) :
    frag1Block r p n = { n with dropCnt := r.dropCnt + 1#16 } := by
  obtain ⟨ho0, ho1, h0, h1⟩ := target_eq_none h
  simp [frag1Block, hp, ho0, ho1, h0, h1]

theorem endBlock_of_matching {r n : DemandReassembly} {p : ReassPorts} {i : Fin 2}
    (hp : p.endHuPulse = true) (h : r.matching p.endHuSsi = some i) :
    endBlock r p n =
      { n with
        s := Function.update n.s i { n.s i with occ := false }
        reassembledBody := (r.s i).frag1 ++ p.endHuBits
        reassembledSsi := (r.s i).ssi
        reassembledMeta := (r.s i).meta13
        reassembledValid := true
        reassembledCnt := r.reassembledCnt + 1#16 } := by
  unfold matching at h
  unfold endBlock matchAny matchSlot
  by_cases h0 : r.holds 0 p.endHuSsi = true
  · rw [if_pos h0] at h
    cases h
    simp [hp, h0]
  rw [if_neg h0] at h
  by_cases h1 : r.holds 1 p.endHuSsi = true
  · rw [if_pos h1] at h
    cases h
    simp [hp, h0, h1]
  · rw [if_neg h1] at h
    cases h

theorem endBlock_of_orphan {r n : DemandReassembly} {p : ReassPorts}
    (h : p.endHuPulse = true → r.matching p.endHuSsi = none) : endBlock r p n = n := by
  unfold matching at h
  unfold endBlock matchAny
  cases hp : p.endHuPulse with
  | false => rfl
  | true =>
      have h' := h hp
      by_cases h0 : r.holds 0 p.endHuSsi = true
      · rw [if_pos h0] at h'
        cases h'
      rw [if_neg h0] at h'
      by_cases h1 : r.holds 1 p.endHuSsi = true
      · rw [if_pos h1] at h'
        cases h'
      simp [h0, h1]

/-- A slot whose time is up at the next frame. -/
def lastFrame (r : DemandReassembly) (i : Fin 2) : Bool := (r.s i).occ && (r.s i).t0Left == 1#4

/-- What a frame does to a slot. -/
def aged (s : ReassSlot) : ReassSlot :=
  if s.occ then
    { s with occ := s.t0Left != 1#4, t0Left := if s.t0Left == 0#4 then 0#4 else s.t0Left - 1#4 }
  else s

theorem tickSlot_eq {r n : DemandReassembly} {i : Fin 2} (h : n.s i = r.s i) :
    tickSlot r n i =
      { n with
        s := Function.update n.s i (aged (r.s i))
        dropCnt := if r.lastFrame i then r.dropCnt + 1#16 else n.dropCnt } := by
  unfold tickSlot aged lastFrame
  cases hocc : (r.s i).occ with
  | false => simp [← h]
  | true =>
      by_cases hl : (r.s i).t0Left = 1#4
      · simp [h, hl]
      · simp [h, hocc, hl, bne_iff_ne.2 hl]

/-- Each slot ages by itself, and all that expire on one tick count once. -/
theorem tickBlock_eq {r n : DemandReassembly} {p : ReassPorts} (hp : p.frameTick = true)
    (hn : n.s = r.s) (hd : n.dropCnt = r.dropCnt) :
    tickBlock r p n =
      { n with
        s := fun i ↦ aged (r.s i)
        dropCnt := if r.lastFrame 0 || r.lastFrame 1 then r.dropCnt + 1#16 else r.dropCnt } := by
  rw [tickBlock, if_pos hp, tickSlot_eq (congrFun hn 0), tickSlot_eq (by simp [hn])]
  have hs : Function.update (Function.update n.s 0 (aged (r.s 0))) 1 (aged (r.s 1)) =
      fun i ↦ aged (r.s i) := by
    refine funext (Fin.forall_fin_two.2 ⟨?_, ?_⟩)
    · simp
    · simp
  rw [hs]
  cases h0 : r.lastFrame 0 <;> cases h1 : r.lastFrame 1 <;> simp [hd]

section OnePulse

variable {r : DemandReassembly} {p : ReassPorts} {i : Fin 2}

theorem clock_of_target (ht : p.frameTick = false) (he : p.endHuPulse = false)
    (hp : p.frag1Pulse = true) (h : r.target p.frag1Ssi = some i) :
    r.clock p =
      { r with
        s := Function.update r.s i ⟨true, p.frag1Ssi, p.frag1Bits, t0Eff p.t0Frames, p.frag1Meta⟩
        reassembledValid := false } := by
  rw [clock, endBlock_of_orphan fun h ↦ absurd (he.symm.trans h) Bool.false_ne_true, tickBlock,
    ht, if_neg Bool.false_ne_true,
    frag1Block_of_target (r := r) (n := { r with reassembledValid := false }) hp (fun _ ↦ rfl) h]
  simp only [Bool.or_not_self]

theorem clock_of_full (ht : p.frameTick = false) (he : p.endHuPulse = false)
    (hp : p.frag1Pulse = true) (h : r.target p.frag1Ssi = none) :
    r.clock p = { r with dropCnt := r.dropCnt + 1#16, reassembledValid := false } := by
  rw [clock, endBlock_of_orphan fun h ↦ absurd (he.symm.trans h) Bool.false_ne_true, tickBlock,
    ht, if_neg Bool.false_ne_true]
  exact frag1Block_of_full hp h

theorem clock_of_matching (ht : p.frameTick = false) (hp : p.frag1Pulse = false)
    (he : p.endHuPulse = true) (h : r.matching p.endHuSsi = some i) :
    r.clock p =
      { r with
        s := Function.update r.s i { r.s i with occ := false }
        reassembledBody := (r.s i).frag1 ++ p.endHuBits
        reassembledSsi := (r.s i).ssi
        reassembledMeta := (r.s i).meta13
        reassembledValid := true
        reassembledCnt := r.reassembledCnt + 1#16 } := by
  rw [clock, frag1Block, hp, if_neg Bool.false_ne_true, tickBlock, ht, if_neg Bool.false_ne_true]
  exact endBlock_of_matching he h

theorem clock_of_orphan (ht : p.frameTick = false) (hp : p.frag1Pulse = false)
    (h : r.matching p.endHuSsi = none) : r.clock p = { r with reassembledValid := false } := by
  rw [clock, frag1Block, hp, if_neg Bool.false_ne_true, tickBlock, ht, if_neg Bool.false_ne_true]
  exact endBlock_of_orphan fun _ ↦ h

theorem clock_of_tick (ht : p.frameTick = true) (hp : p.frag1Pulse = false)
    (he : p.endHuPulse = false) :
    r.clock p =
      { r with
        s := fun i ↦ aged (r.s i)
        dropCnt := if r.lastFrame 0 || r.lastFrame 1 then r.dropCnt + 1#16 else r.dropCnt
        reassembledValid := false } := by
  rw [clock, endBlock_of_orphan fun h ↦ absurd (he.symm.trans h) Bool.false_ne_true, frag1Block,
    hp, if_neg Bool.false_ne_true]
  exact tickBlock_eq ht rfl rfl

end OnePulse

/-! ## All pulses at once -/

section AnyPulse

variable (r : DemandReassembly) (p : ReassPorts)

/-- What the next state of a slot may keep of the last one. -/
structure Kept (s s' : ReassSlot) : Prop where
  occ : s'.occ = true → s.occ = true
  ssi : s'.ssi = s.ssi
  frag1 : s'.frag1 = s.frag1
  meta13 : s'.meta13 = s.meta13

theorem Kept.refl (s : ReassSlot) : Kept s s := ⟨id, rfl, rfl, rfl⟩

theorem Kept.trans {s s' s'' : ReassSlot} (h : Kept s s') (h' : Kept s' s'') : Kept s s'' :=
  ⟨fun ho ↦ h.occ (h'.occ ho), h'.ssi.trans h.ssi, h'.frag1.trans h.frag1,
    h'.meta13.trans h.meta13⟩

theorem kept_aged (s : ReassSlot) : Kept s (aged s) := by
  unfold aged
  split
  · next ho => exact ⟨fun _ ↦ ho, rfl, rfl, rfl⟩
  · exact Kept.refl s

theorem kept_tickBlock {n : DemandReassembly} (hn : n.s = r.s) (hd : n.dropCnt = r.dropCnt)
    (j : Fin 2) : Kept (r.s j) ((tickBlock r p n).s j) := by
  cases hp : p.frameTick with
  | false =>
      rw [tickBlock, hp, if_neg Bool.false_ne_true, hn]
      exact Kept.refl _
  | true =>
      rw [tickBlock_eq hp hn hd]
      exact kept_aged _

/-- An END frees a slot and writes nothing else in it. -/
theorem kept_endBlock (n : DemandReassembly) (j : Fin 2) :
    Kept (n.s j) ((endBlock r p n).s j) := by
  unfold endBlock
  split
  · by_cases hj : j = r.matchSlot p.endHuSsi
    · subst hj
      simp only [Function.update_self]
      exact ⟨fun h ↦ absurd h Bool.false_ne_true, rfl, rfl, rfl⟩
    · simp only [Function.update_of_ne hj]
      exact Kept.refl _
  · exact Kept.refl _

/-- What an edge leaves in a slot: the fragment if one goes there, else what was in it. -/
theorem clock_slot (j : Fin 2) :
    if p.frag1Pulse = true ∧ r.target p.frag1Ssi = some j then
      ((r.clock p).s j).ssi = p.frag1Ssi ∧ ((r.clock p).s j).frag1 = p.frag1Bits ∧
        ((r.clock p).s j).meta13 = p.frag1Meta
    else Kept (r.s j) ((r.clock p).s j) := by
  have htick := kept_tickBlock r p (n := { r with reassembledValid := false }) rfl rfl
  have hend := kept_endBlock r p
    (frag1Block r p (tickBlock r p { r with reassembledValid := false })) j
  by_cases hp : p.frag1Pulse = true
  · cases ht : r.target p.frag1Ssi with
    | none =>
        rw [if_neg fun h ↦ absurd h.2 (Option.some_ne_none j).symm]
        have hfull := frag1Block_of_full (n := tickBlock r p { r with reassembledValid := false })
          hp ht
        rw [hfull] at hend
        exact (htick j).trans (by rw [clock, hfull]; exact hend)
    | some i =>
        have hstore := frag1Block_of_target (n := tickBlock r p { r with reassembledValid := false })
          hp (fun k ↦ (htick k).ssi) ht
        rw [hstore] at hend
        by_cases hij : i = j
        · subst hij
          rw [if_pos ⟨hp, rfl⟩, clock, hstore]
          simp only [Function.update_self] at hend
          exact ⟨hend.ssi, hend.frag1, hend.meta13⟩
        · rw [if_neg fun h ↦ hij (Option.some.inj h.2), clock, hstore]
          simp only [Function.update_of_ne (Ne.symm hij)] at hend
          exact (htick j).trans hend
  · rw [if_neg fun h ↦ hp h.1]
    have hnone : frag1Block r p (tickBlock r p { r with reassembledValid := false }) =
        tickBlock r p { r with reassembledValid := false } := by
      rw [frag1Block, if_neg hp]
    rw [hnone] at hend
    rw [clock, hnone]
    exact (htick j).trans hend

variable {r p}

/-- An END that finds a slot outputs the body that slot makes with it. -/
theorem output_of_matching {i : Fin 2} (he : p.endHuPulse = true)
    (h : r.matching p.endHuSsi = some i) :
    (r.clock p).reassembledValid = true ∧
      (r.clock p).reassembledBody = (r.s i).frag1 ++ p.endHuBits ∧
      (r.clock p).reassembledSsi = (r.s i).ssi ∧ (r.clock p).reassembledMeta = (r.s i).meta13 := by
  rw [clock, endBlock_of_matching he h]
  exact ⟨rfl, rfl, rfl, rfl⟩

/-- Otherwise nothing is output. -/
theorem no_output (h : p.endHuPulse = true → r.matching p.endHuSsi = none) :
    (r.clock p).reassembledValid = false := by
  have htick : (tickBlock r p { r with reassembledValid := false }).reassembledValid = false := by
    unfold tickBlock tickSlot
    split
    · split <;> split <;> rfl
    · rfl
  rw [clock, endBlock_of_orphan h, frag1Block]
  split
  · split
    · exact htick
    split
    · exact htick
    split
    · exact htick
    split
    · exact htick
    split <;> exact htick
  · exact htick

end AnyPulse

end DemandReassembly

end TetraPhy.Rx
