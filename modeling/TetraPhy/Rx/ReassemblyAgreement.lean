import Mathlib.Data.Nat.ModEq
import TetraPhy.Lib.BitField
import TetraPhy.Lib.Run
import TetraPhy.Rx.DemandReassembly
import TetraPhy.Sw.UlReassembly

/-!
# The two demand reassemblies agree

`tetra_ul_reassembly.c` mirrors `tetra_ul_demand_reassembly.v`.  A `Twin` feeds both with
the same events, one in each clock cycle; the logic counts frames, the software is
shown a clock that advances by `F` ms with every frame.

**`agrees`** is the result: over every run the two deliver the same and keep the same.
Two differences remain and are part of its statement.

* The drop counters have 16 and 32 bits, and two slots that expire on one tick count once in
  the logic and twice in the software.
* With the timeout left to its default, the logic waits two frames and the software 113 ms; that
  is the same for frames of 57 to 112 ms.
-/

namespace TetraPhy.Rx

open AirOrder BitField Deadline Pool Sw

/-- The software's word for an SSI. -/
def ssiWord (ssi : BitVec 24) : UInt32 := ⟨ssi.setWidth 32⟩

/-- The software's word for the metadata of a fragment. -/
def metaWord (meta13 : BitVec 13) : UInt16 := ⟨meta13.setWidth 16⟩

@[simp] theorem ssiWord_and (ssi : BitVec 24) : ssiWord ssi &&& 0xFFFFFF = ssiWord ssi :=
  UInt32.toBitVec_inj.1 (setWidth_and_mask ssi (by decide))

@[simp] theorem metaWord_and (meta13 : BitVec 13) :
    metaWord meta13 &&& 0x1FFF = metaWord meta13 :=
  UInt16.toBitVec_inj.1 (setWidth_and_mask meta13 (by decide))

theorem ssiWord_inj {ssi ssi' : BitVec 24} : ssiWord ssi = ssiWord ssi' ↔ ssi = ssi' := by
  constructor
  · intro h
    have hw : ssi.setWidth 32 = ssi'.setWidth 32 := congrArg UInt32.toBitVec h
    have hn := congrArg BitVec.toNat hw
    rw [BitVec.toNat_setWidth, BitVec.toNat_setWidth] at hn
    refine BitVec.eq_of_toNat_eq ?_
    have := ssi.isLt
    have := ssi'.isLt
    omega
  · rintro rfl
    rfl

/-! ## The twin -/

/-- The event of a clock cycle; `info92` is the decoded block. -/
inductive ReassEvent
  | frag1 (ssi : BitVec 24) (meta13 : BitVec 13) (info92 : BitVec 92)
  | endHu (ssi : BitVec 24) (info92 : BitVec 92)
  | tick
deriving DecidableEq, Repr

/-- The ports of the logic in that cycle: bits 30 to 91 of a start, 7 to 91 of an END. -/
def ReassEvent.ports (t0Frames : BitVec 4) : ReassEvent → ReassPorts
  | .frag1 ssi meta13 info92 =>
      { t0Frames := t0Frames
        frag1Pulse := true
        frag1Ssi := ssi
        frag1Bits := info92.extractLsb' 0 62
        frag1Meta := meta13 }
  | .endHu ssi info92 =>
      { t0Frames := t0Frames
        endHuPulse := true
        endHuSsi := ssi
        endHuBits := info92.extractLsb' 0 85 }
  | .tick => { t0Frames := t0Frames, frameTick := true }

/-- Both stores, what the software returned for the last event, the number of frame ticks,
and the number of them on which two slots expired. -/
structure Twin where
  rtl : DemandReassembly := {}
  sw : UlReass
  returned : Option UlReass.Demand := none
  ticks : ℕ := 0
  doubles : ℕ := 0

namespace Twin

/-- The software clock. -/
def nowMs (F : ℕ) (t : Twin) : UInt32 := UInt32.ofNat (t.ticks * F)

/-- Both stores started empty; the software is given the timeout in milliseconds. -/
def start (t0Frames : BitVec 4) (F : ℕ) : Twin :=
  { sw := UlReass.init (UInt32.ofNat (t0Frames.toNat * F)) }

def step (t0Frames : BitVec 4) (F : ℕ) (t : Twin) (e : ReassEvent) : Twin :=
  let rtl := t.rtl.clock (e.ports t0Frames)
  match e with
  | .frag1 ssi meta13 info92 =>
      { t with
        rtl := rtl
        sw := (t.sw.frag1 (ssiWord ssi) (onAir info92) (metaWord meta13) (t.nowMs F)).1
        returned := none }
  | .endHu ssi info92 =>
      let r := t.sw.reassEnd (ssiWord ssi) (onAir info92)
      { t with rtl := rtl, sw := r.1, returned := r.2 }
  | .tick =>
      let t' := { t with ticks := t.ticks + 1 }
      { t' with
        rtl := rtl
        sw := t.sw.tick (t'.nowMs F)
        returned := none
        doubles := t.doubles + if t.rtl.lastFrame 0 && t.rtl.lastFrame 1 then 1 else 0 }

end Twin

/-- What the logic delivers in a cycle, in the software's words. -/
def DemandReassembly.delivered (r : DemandReassembly) : Option UlReass.Demand :=
  if r.reassembledValid then
    some ⟨onAir r.reassembledBody, metaWord r.reassembledMeta, ssiWord r.reassembledSsi⟩
  else none

/-- The entry a slot of the logic holds. -/
def DemandReassembly.pending (r : DemandReassembly) (i : Fin 2) : Option (UInt32 × List Bool) :=
  if (r.s i).occ then some (ssiWord (r.s i).ssi, onAir (r.s i).frag1) else none

/-- The entry a slot of the software holds. -/
def ulReassPending (r : UlReass) (i : Fin 2) : Option (UInt32 × List Bool) :=
  if (r.slot i).occupied then some ((r.slot i).ssi, (r.slot i).frag1) else none

/-- The two agree after an event. -/
structure Agrees (t : Twin) : Prop where
  delivered : t.rtl.delivered = t.returned
  pending : ∀ i, t.rtl.pending i = ulReassPending t.sw i
  dropCnt : t.sw.dropCnt.toNat ≡ t.rtl.dropCnt.toNat + t.doubles [MOD 2 ^ 16]

/-! ## The simulation

`N` is the timeout in frames, `T` the one in milliseconds. -/

/-- The two timeouts end on the same tick: the `N`th is the first one not before `T`. -/
structure Timing (N F T : ℕ) : Prop where
  lt : N < 16
  frame : F ≤ 2 ^ 31
  lower : (N - 1) * F < T
  upper : T ≤ N * F
  range : T < 2 ^ 31

/-- A slot of the logic and one of the software after `ticks` ticks: they hold the same
fragment, which came `age` ticks ago. -/
structure SlotSim (N F T ticks : ℕ) (h : ReassSlot) (c : UlReassSlot) : Prop where
  occ : c.occupied = h.occ
  entry : h.occ = true → c.ssi = ssiWord h.ssi ∧ c.frag1 = onAir h.frag1 ∧
    c.meta13 = metaWord h.meta13
  timer : h.occ = true → ∃ age < N, age ≤ ticks ∧ h.t0Left.toNat = N - age ∧
    c.t0DeadlineMs = UInt32.ofNat ((ticks - age) * F) + UInt32.ofNat T

variable {N F T ticks : ℕ}

namespace SlotSim

variable {h : ReassSlot} {c : UlReassSlot}

/-- An empty slot simulates an empty slot. -/
theorem of_free (ho : h.occ = false) (hc : c.occupied = false) : SlotSim N F T ticks h c :=
  ⟨hc.trans ho.symm, fun h' ↦ absurd (ho.symm.trans h') Bool.false_ne_true,
    fun h' ↦ absurd (ho.symm.trans h') Bool.false_ne_true⟩

theorem holds_iff (hs : SlotSim N F T ticks h c) (ssi : BitVec 24) :
    c.holds (ssiWord ssi) = (h.occ && h.ssi == ssi) := by
  rw [UlReassSlot.holds, hs.occ]
  cases ho : h.occ with
  | false => rfl
  | true =>
      rw [(hs.entry ho).1, Bool.true_and, Bool.true_and, Bool.eq_iff_iff, beq_iff_eq, beq_iff_eq]
      exact ssiWord_inj

/-- At the next tick the deadline has passed exactly if the count of frames is at 1. -/
theorem expired_iff (hT : Timing N F T) (hs : SlotSim N F T ticks h c) :
    c.expired (UInt32.ofNat ((ticks + 1) * F)) = (h.occ && h.t0Left == 1#4) := by
  rw [UlReassSlot.expired, hs.occ]
  cases ho : h.occ with
  | false => rfl
  | true =>
      obtain ⟨age, hage, hle, hleft, hdeadline⟩ := hs.timer ho
      have hsplit : (ticks + 1) * F = (ticks - age) * F + (age + 1) * F := by
        rw [← Nat.add_mul]
        congr 1
        omega
      have hage' : age * F ≤ (N - 1) * F := Nat.mul_le_mul_right F (by omega)
      have hbound : (age + 1) * F < T + 2 ^ 31 := by
        have := hT.lower
        have := hT.frame
        rw [Nat.succ_mul]
        omega
      have hpassed : passed (UInt32.ofNat ((ticks + 1) * F)) c.t0DeadlineMs = true ↔
          age + 1 = N := by
        rw [hdeadline, hsplit, passed_iff hT.range hbound]
        constructor
        · intro hT'
          by_contra hne
          have : (age + 1) * F ≤ (N - 1) * F := Nat.mul_le_mul_right F (by omega)
          have := hT.lower
          omega
        · rintro rfl
          exact hT.upper
      have hone : h.t0Left = 1#4 ↔ age + 1 = N := by
        rw [← BitVec.toNat_inj, hleft]
        change N - age = 1 ↔ _
        omega
      rw [Bool.true_and, Bool.true_and, Bool.eq_iff_iff, beq_iff_eq, hpassed, hone]

/-- A tick keeps a slot simulated. -/
theorem aged (hT : Timing N F T) (hs : SlotSim N F T ticks h c) :
    SlotSim N F T (ticks + 1) (DemandReassembly.aged h)
      (if c.expired (UInt32.ofNat ((ticks + 1) * F)) then { c with occupied := false } else c) := by
  rw [hs.expired_iff hT]
  cases ho : h.occ with
  | false =>
      refine of_free ?_ (hs.occ.trans ho)
      simp [DemandReassembly.aged, ho]
  | true =>
      by_cases hl : h.t0Left = 1#4
      · refine of_free ?_ ?_
        · simp [DemandReassembly.aged, ho, hl]
        · simp [hl]
      obtain ⟨age, hage, hle, hleft, hdeadline⟩ := hs.timer ho
      have hN : N - age ≠ 1 := by
        intro h1
        exact hl (BitVec.eq_of_toNat_eq (hleft.trans h1))
      have hlt := hT.lt
      have hz : h.t0Left ≠ 0#4 := by
        intro h0
        rw [h0] at hleft
        change 0 = N - age at hleft
        omega
      have hocc : (DemandReassembly.aged h).occ = true := by
        simp [DemandReassembly.aged, ho, bne_iff_ne.2 hl]
      refine ⟨?_, fun _ ↦ ?_, fun _ ↦ ⟨age + 1, by omega, by omega, ?_, ?_⟩⟩
      · simpa [hl, hs.occ, ho] using hocc
      · simpa [DemandReassembly.aged, ho, hl] using hs.entry ho
      · have hsub : (h.t0Left - 1#4).toNat = N - (age + 1) := by
          rw [BitVec.toNat_sub, hleft]
          change (2 ^ 4 - 1 + (N - age)) % 2 ^ 4 = _
          omega
        simpa [DemandReassembly.aged, ho, hz] using hsub
      · rw [Nat.add_sub_add_right]
        simpa [hl] using hdeadline

end SlotSim

/-- The twin after any run: slot by slot the two hold the same. -/
structure Sim (N F T : ℕ) (t : Twin) : Prop where
  slot : ∀ i, SlotSim N F T t.ticks (t.rtl.s i) (t.sw.slot i)
  t0Ms : t.sw.t0Ms = UInt32.ofNat T
  delivered : t.rtl.delivered = t.returned
  dropCnt : t.sw.dropCnt.toNat ≡ t.rtl.dropCnt.toNat + t.doubles [MOD 2 ^ 16]

namespace Sim

variable {t : Twin} {t0Frames : BitVec 4}

theorem agrees (hs : Sim N F T t) : Agrees t := by
  refine ⟨hs.delivered, fun i ↦ ?_, hs.dropCnt⟩
  rw [DemandReassembly.pending, ulReassPending, (hs.slot i).occ]
  cases ho : (t.rtl.s i).occ with
  | false => rfl
  | true =>
      obtain ⟨hssi, hfrag, -⟩ := (hs.slot i).entry ho
      rw [if_pos rfl, if_pos rfl, hssi, hfrag]

theorem holds_eq (hs : Sim N F T t) (i : Fin 2) (ssi : BitVec 24) :
    (t.sw.slot i).holds (ssiWord ssi) = t.rtl.holds i ssi := (hs.slot i).holds_iff ssi

/-- Both put a fragment in the same slot. -/
theorem target_eq (hs : Sim N F T t) (ssi : BitVec 24) :
    t.sw.target (ssiWord ssi) = t.rtl.target ssi := by
  simp only [UlReass.target, DemandReassembly.target, hs.holds_eq, (hs.slot _).occ]

/-- Both take the first half from the same slot. -/
theorem matching_eq (hs : Sim N F T t) (ssi : BitVec 24) :
    t.sw.matching (ssiWord ssi) = t.rtl.matching ssi := by
  simp only [UlReass.matching, DemandReassembly.matching, ssiWord_and, hs.holds_eq]

/-- A slot that is written on both sides is simulated if the two records are. -/
theorem slot_update (hs : Sim N F T t) {h : ReassSlot} {c : UlReassSlot} (i : Fin 2)
    (hi : SlotSim N F T t.ticks h c) (j : Fin 2) :
    SlotSim N F T t.ticks (Function.update t.rtl.s i h j) (Function.update t.sw.slot i c j) := by
  by_cases hji : j = i
  · subst hji
    rwa [Function.update_self, Function.update_self]
  · rw [Function.update_of_ne hji, Function.update_of_ne hji]
    exact hs.slot j

theorem step_frag1 (hN : N = (t0Eff t0Frames).toNat) (hpos : 0 < N) (hs : Sim N F T t)
    (ssi : BitVec 24) (meta13 : BitVec 13) (info92 : BitVec 92) :
    Sim N F T (t.step t0Frames F (.frag1 ssi meta13 info92)) := by
  have htarget := hs.target_eq ssi
  simp only [Twin.step, UlReass.frag1]
  cases hr : t.rtl.target ssi with
  | none =>
      rw [hr] at htarget
      rw [htarget, DemandReassembly.clock_of_full rfl rfl rfl hr]
      refine ⟨hs.slot, hs.t0Ms, rfl, ?_⟩
      have hd := hs.dropCnt
      simp only [Nat.ModEq, UInt32.toNat_add, BitVec.toNat_add, UInt32.reduceToNat,
        BitVec.reduceToNat] at hd ⊢
      omega
  | some i =>
      rw [hr] at htarget
      rw [htarget, DemandReassembly.clock_of_target rfl rfl rfl hr]
      refine ⟨hs.slot_update i ?_, hs.t0Ms, rfl, hs.dropCnt⟩
      refine ⟨rfl, fun _ ↦ ⟨ssiWord_and ssi, ?_, metaWord_and meta13⟩, fun _ ↦
        ⟨0, hpos, Nat.zero_le _, hN.symm, ?_⟩⟩
      · change slice (onAir info92) 30 62 = onAir (info92.extractLsb' 0 62)
        rw [onAir_extractLsb'_zero _ (by decide), slice]
        exact List.take_of_length_le (by simp)
      · change Twin.nowMs F t + t.sw.t0Ms = _
        rw [hs.t0Ms]
        rfl

theorem step_endHu (hs : Sim N F T t) (ssi : BitVec 24) (info92 : BitVec 92) :
    Sim N F T (t.step t0Frames F (.endHu ssi info92)) := by
  have hmatching := hs.matching_eq ssi
  simp only [Twin.step, UlReass.reassEnd]
  cases hr : t.rtl.matching ssi with
  | none =>
      rw [hr] at hmatching
      rw [hmatching, DemandReassembly.clock_of_orphan rfl rfl hr]
      exact ⟨hs.slot, hs.t0Ms, rfl, hs.dropCnt⟩
  | some i =>
      rw [hr] at hmatching
      have hocc : (t.rtl.s i).occ = true := DemandReassembly.occ_of_matching hr
      obtain ⟨hssi, hfrag, hmeta⟩ := (hs.slot i).entry hocc
      rw [hmatching, DemandReassembly.clock_of_matching rfl rfl rfl hr]
      refine ⟨hs.slot_update i (SlotSim.of_free rfl rfl), hs.t0Ms, ?_, hs.dropCnt⟩
      change some _ = some _
      have hbits : onAir (info92.extractLsb' 0 85) = slice (onAir info92) 7 85 := by
        rw [onAir_extractLsb'_zero _ (by decide), slice]
        exact (List.take_of_length_le (by simp)).symm
      rw [onAir_append, hssi, hfrag, hmeta]
      exact congrArg (fun b ↦ some (UlReass.Demand.mk (_ ++ b) _ _)) hbits

theorem step_tick (hT : Timing N F T) (hs : Sim N F T t) :
    Sim N F T (t.step t0Frames F .tick) := by
  have hexpired (i : Fin 2) :
      (t.sw.slot i).expired (UInt32.ofNat ((t.ticks + 1) * F)) = t.rtl.lastFrame i :=
    (hs.slot i).expired_iff hT
  simp only [Twin.step]
  rw [DemandReassembly.clock_of_tick rfl rfl rfl]
  refine ⟨fun i ↦ ?_, ?_, rfl, ?_⟩
  · change SlotSim N F T (t.ticks + 1) _ ((t.sw.tick _).slot i)
    rw [UlReass.tick_slot]
    exact (hs.slot i).aged hT
  · exact (UlReass.tick_t0Ms _ _).trans hs.t0Ms
  · have hd := hs.dropCnt
    change (t.sw.tick (UInt32.ofNat ((t.ticks + 1) * F))).dropCnt.toNat ≡ _ [MOD 2 ^ 16]
    rw [UlReass.tick_dropCnt, hexpired, hexpired]
    cases t.rtl.lastFrame 0 <;> cases t.rtl.lastFrame 1 <;>
      simp [Nat.ModEq, UInt32.toNat_add, BitVec.toNat_add] at hd ⊢ <;> omega

/-- Every event keeps the twin simulated. -/
theorem step (hT : Timing N F T) (hN : N = (t0Eff t0Frames).toNat) (hpos : 0 < N)
    (hs : Sim N F T t) (e : ReassEvent) : Sim N F T (t.step t0Frames F e) := by
  cases e with
  | frag1 ssi meta13 info92 => exact hs.step_frag1 hN hpos ssi meta13 info92
  | endHu ssi info92 => exact hs.step_endHu ssi info92
  | tick => exact hs.step_tick hT

end Sim

/-! ## Agreement over runs -/

/-- The timeouts that last equally long on both sides: any given in frames, and the default for
frames of 57 to 112 ms. -/
def SameTimeout (t0Frames : BitVec 4) (F : ℕ) : Prop :=
  0 < t0Frames.toNat ∧ t0Frames.toNat * F < 2 ^ 31 ∨ t0Frames = 0#4 ∧ 57 ≤ F ∧ F ≤ 112

/-- The timeout of the software, in milliseconds. -/
def softwareT0 (t0Frames : BitVec 4) (F : ℕ) : ℕ :=
  (UlReass.init (UInt32.ofNat (t0Frames.toNat * F))).t0Ms.toNat

theorem SameTimeout.timing {t0Frames : BitVec 4} (hF : 0 < F) (h : SameTimeout t0Frames F) :
    0 < (t0Eff t0Frames).toNat ∧ Timing (t0Eff t0Frames).toNat F (softwareT0 t0Frames F) := by
  rcases h with ⟨hpos, hrange⟩ | ⟨rfl, hlo, hhi⟩
  · have hne : t0Frames ≠ 0#4 := by
      rintro rfl
      exact Nat.lt_irrefl 0 hpos
    have heff : t0Eff t0Frames = t0Frames := by
      rw [t0Eff, if_neg (by simpa using hne)]
    have hword : (UInt32.ofNat (t0Frames.toNat * F)).toNat = t0Frames.toNat * F :=
      UInt32.toNat_ofNat_of_lt (Nat.lt_trans hrange (by decide))
    have hT : softwareT0 t0Frames F = t0Frames.toNat * F := by
      rw [softwareT0, UlReass.init, if_pos ?_, hword]
      intro h0
      rw [h0] at hword
      exact (Nat.mul_pos hpos hF).ne hword
    have hle : F ≤ t0Frames.toNat * F := Nat.le_mul_of_pos_left F hpos
    have hlower : (t0Frames.toNat - 1) * F < t0Frames.toNat * F :=
      Nat.mul_lt_mul_of_pos_right (by omega) hF
    rw [heff, hT]
    exact ⟨hpos, t0Frames.isLt, by omega, hlower, Nat.le_refl _, hrange⟩
  · have hT : softwareT0 0#4 F = 113 := by
      change (UlReass.init (UInt32.ofNat (0 * F))).t0Ms.toNat = 113
      rw [Nat.zero_mul]
      rfl
    have heff : (t0Eff 0#4).toNat = 2 := rfl
    rw [heff, hT]
    exact ⟨by omega, by omega, by omega, by omega, by omega, by omega⟩

theorem sim_start {t0Frames : BitVec 4} :
    Sim N F (softwareT0 t0Frames F) (Twin.start t0Frames F) :=
  ⟨fun _ ↦ SlotSim.of_free rfl rfl, UInt32.ofNat_toNat.symm, rfl, rfl⟩

/-- **The two reassemblies agree.**  After every event of every run they have delivered the same,
they hold the same entries, and their drop counters differ by the ticks on which two entries
expired, as far as the 16 bits of the logic's counter show. -/
theorem reassembly_agrees {t0Frames : BitVec 4} {F : ℕ} (hF : 0 < F)
    (h : SameTimeout t0Frames F) (es : List ReassEvent) :
    Run.Throughout (Twin.step t0Frames F) Agrees (Twin.start t0Frames F) es := by
  obtain ⟨hpos, hT⟩ := h.timing hF
  have hsim : Run.Throughout (Twin.step t0Frames F)
      (Sim (t0Eff t0Frames).toNat F (softwareT0 t0Frames F)) (Twin.start t0Frames F) es :=
    Run.throughout_of_step _ (fun _ e hs ↦ hs.step hT rfl hpos e) sim_start es
  exact hsim.imp _ fun _ hs ↦ hs.agrees

/-- A demand of two blocks with a frame between them. -/
theorem reassembly_agrees_handshake :
    SameTimeout 2#4 57 ∧ Run.Throughout (Twin.step 2#4 57) Agrees (Twin.start 2#4 57)
      [.frag1 0xABCDEF#24 0x1ABC#13 0x5A5A5#92, .tick, .endHu 0xABCDEF#24 0x3C3C3#92] := by
  have htimeout : SameTimeout 2#4 57 := .inl (by decide)
  exact ⟨htimeout, reassembly_agrees (by decide) htimeout _⟩

/-! ## Where they drift -/

/-- While both slots are taken, another terminal's fragments are only counted. -/
theorem exec_full {t0Frames : BitVec 4} {t : Twin} {ssi : BitVec 24} (meta13 : BitVec 13)
    (info92 : BitVec 92) (hr : t.rtl.target ssi = none) (hs : t.sw.target (ssiWord ssi) = none)
    (n : ℕ) :
    let u := Run.exec (Twin.step t0Frames F) t (List.replicate n (.frag1 ssi meta13 info92))
    u.rtl.dropCnt = t.rtl.dropCnt + BitVec.ofNat 16 n ∧
      u.sw.dropCnt = t.sw.dropCnt + UInt32.ofNat n ∧ u.doubles = t.doubles := by
  induction n generalizing t with
  | zero => simp
  | succ n ih =>
      have hstep : t.step t0Frames F (.frag1 ssi meta13 info92) =
          { t with
            rtl :=
              { t.rtl with dropCnt := t.rtl.dropCnt + 1#16, reassembledValid := false }
            sw := { t.sw with dropCnt := t.sw.dropCnt + 1 }
            returned := none } := by
        simp only [Twin.step, UlReass.frag1, hs]
        rw [DemandReassembly.clock_of_full rfl rfl rfl hr]
      rw [List.replicate_succ, Run.exec_cons, hstep]
      obtain ⟨hrtl, hsw, hdoubles⟩ := @ih
        { t with
          rtl := { t.rtl with dropCnt := t.rtl.dropCnt + 1#16, reassembledValid := false }
          sw := { t.sw with dropCnt := t.sw.dropCnt + 1 }
          returned := none } hr hs
      refine ⟨hrtl.trans ?_, hsw.trans ?_, hdoubles⟩
      · rw [BitVec.add_assoc, ← BitVec.ofNat_add, Nat.add_comm]
      · rw [UInt32.add_assoc, Nat.add_comm, UInt32.ofNat_add]
        rfl

/-- A fragment and two frames. -/
def timeoutRun : List ReassEvent := [.frag1 0x111111#24 0#13 0#92, .tick, .tick]

/-- Two fragments fill the slots, 65536 of a third terminal find none. -/
def fullRun : List ReassEvent :=
  .frag1 0x111111#24 0#13 0#92 :: .frag1 0x222222#24 0#13 0#92 ::
    List.replicate 65536 (.frag1 0x333333#24 0#13 0#92)

/-- With the default timeout and frames of 56 ms the software still holds a fragment that the
logic has dropped; and once 65536 fragments were turned away the logic counts 0, although no
two entries ever expired together. -/
theorem reassembly_drift :
    ((Run.exec (Twin.step 0#4 56) (Twin.start 0#4 56) timeoutRun).rtl.pending 0 = none ∧
      ulReassPending (Run.exec (Twin.step 0#4 56) (Twin.start 0#4 56) timeoutRun).sw 0 ≠ none) ∧
    (Run.exec (Twin.step 2#4 57) (Twin.start 2#4 57) fullRun).rtl.dropCnt.toNat = 0 ∧
      (Run.exec (Twin.step 2#4 57) (Twin.start 2#4 57) fullRun).sw.dropCnt.toNat = 65536 ∧
      (Run.exec (Twin.step 2#4 57) (Twin.start 2#4 57) fullRun).doubles = 0 := by
  refine ⟨by decide +kernel, ?_⟩
  rw [fullRun, Run.exec_cons, Run.exec_cons]
  obtain ⟨hrtl, hsw, hdoubles⟩ := @exec_full 57 2#4
    (((Twin.start 2#4 57).step 2#4 57 (.frag1 0x111111#24 0#13 0#92)).step 2#4 57
      (.frag1 0x222222#24 0#13 0#92))
    0x333333#24 0#13 0#92 (by decide +kernel) (by decide +kernel) 65536
  refine ⟨?_, ?_, hdoubles⟩
  · rw [hrtl]
    decide +kernel
  · rw [hsw]
    decide +kernel

end TetraPhy.Rx
