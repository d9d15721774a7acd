import TetraPhy.Lib.Run
import TetraPhy.Rx.DemandReassembly

/-!
# What becomes of a first fragment

A first fragment that is no retransmission is spliced, dropped or still in a slot, and the module
counts the first two.  The three blocks of an edge write the same registers, and the last write
wins, so an edge on which several things happen need not count them all:

| On one edge                                          | Effect                                  |
|------------------------------------------------------|-----------------------------------------|
| both slots expire, or one expires and one is refused | `drop_cnt` counts one of the two        |
| a slot expires and is spliced                        | it counts as dropped too                |
| a fragment replaces one that is spliced              | it is freed with it, and counts nowhere |

A `Watch` counts the fragments that came, and `fragments_accounted` says exactly on which edges the
books go wrong.
-/

namespace TetraPhy.Rx

open Pool

namespace DemandReassembly

variable (r : DemandReassembly) (p : ReassPorts)

/-- The time of the slot is up. -/
def expires (i : Fin 2) : Bool := p.frameTick && r.lastFrame i

/-- The slot is spliced. -/
def delivers (i : Fin 2) : Bool := p.endHuPulse && r.matching p.endHuSsi == some i

/-- The fragment goes to the slot. -/
def enters (i : Fin 2) : Bool := p.frag1Pulse && r.target p.frag1Ssi == some i

/-- The fragment finds no slot. -/
def refuses : Bool := p.frag1Pulse && r.target p.frag1Ssi == none

/-- The fragment of the slot is lost. -/
def loses (i : Fin 2) : Bool := r.expires p i && !r.delivers p i

/-- The fragment is no retransmission. -/
def isFresh : Bool := p.frag1Pulse && !(r.holds 0 p.frag1Ssi || r.holds 1 p.frag1Ssi)

/-- The slots in use. -/
def busy : ℕ := (r.s 0).occ.toNat + (r.s 1).occ.toNat

/-! ## One edge -/

section Edge

variable {r p}

theorem lastFrame_occ {i : Fin 2} (h : r.expires p i = true) : (r.s i).occ = true :=
  (Bool.and_eq_true_iff.1 (Bool.and_eq_true_iff.1 h).2).1

theorem delivers_occ {i : Fin 2} (h : r.delivers p i = true) : (r.s i).occ = true :=
  occ_of_matching (eq_of_beq (Bool.and_eq_true_iff.1 h).2)

/-- The block under `frame_tick_sys`. -/
theorem tickBlock_books {n : DemandReassembly} (hn : n.s = r.s) (hd : n.dropCnt = r.dropCnt) :
    (∀ i, ((tickBlock r p n).s i).occ = ((r.s i).occ && !r.expires p i)) ∧
      (tickBlock r p n).dropCnt =
        (if r.expires p 0 || r.expires p 1 then r.dropCnt + 1#16 else r.dropCnt) ∧
      (tickBlock r p n).reassembledCnt = n.reassembledCnt := by
  cases hp : p.frameTick with
  | false => simp [tickBlock, expires, hp, hn, hd]
  | true =>
      rw [tickBlock_eq hp hn hd]
      refine ⟨fun i ↦ ?_, by simp [expires, hp], rfl⟩
      cases hocc : (r.s i).occ <;> simp [aged, expires, lastFrame, hp, hocc, bne]

/-- The block under `frag1_pulse_sys`. -/
theorem frag1Block_books {n : DemandReassembly} (hn : ∀ j, (n.s j).ssi = (r.s j).ssi) :
    (∀ i, ((frag1Block r p n).s i).occ = ((n.s i).occ || (r.enters p i && !(r.s i).occ))) ∧
      (frag1Block r p n).dropCnt = (if r.refuses p then r.dropCnt + 1#16 else n.dropCnt) ∧
      (frag1Block r p n).reassembledCnt = n.reassembledCnt := by
  cases hp : p.frag1Pulse with
  | false => simp [frag1Block, enters, refuses, hp]
  | true =>
      cases ht : r.target p.frag1Ssi with
      | none =>
          rw [frag1Block_of_full hp ht]
          simp [enters, refuses, hp, ht]
      | some j =>
          rw [frag1Block_of_target hp hn ht]
          refine ⟨fun i ↦ ?_, by simp [refuses, ht], rfl⟩
          by_cases hij : i = j
          · subst hij
            simp [enters, hp, ht]
          · simp [enters, hp, ht, Function.update_of_ne hij, Ne.symm hij]

/-- The block under `end_hu_pulse_sys`. -/
theorem endBlock_books (n : DemandReassembly) :
    (∀ i, ((endBlock r p n).s i).occ = ((n.s i).occ && !r.delivers p i)) ∧
      (endBlock r p n).dropCnt = n.dropCnt ∧
      (endBlock r p n).reassembledCnt =
        (if r.delivers p 0 || r.delivers p 1 then r.reassembledCnt + 1#16
          else n.reassembledCnt) := by
  by_cases hm : p.endHuPulse = true ∧ ∃ i, r.matching p.endHuSsi = some i
  · obtain ⟨hp, i, hi⟩ := hm
    rw [endBlock_of_matching hp hi]
    refine ⟨fun j ↦ ?_, rfl, ?_⟩
    · by_cases hji : j = i
      · subst hji
        simp [delivers, hp, hi]
      · simp [delivers, hi, Function.update_of_ne hji, Ne.symm hji]
    · have hany : (r.delivers p 0 || r.delivers p 1) = true := by
        have hdel : r.delivers p i = true := by simp [delivers, hp, hi]
        obtain rfl | rfl : i = 0 ∨ i = 1 := by omega
        · rw [hdel, Bool.true_or]
        · rw [hdel, Bool.or_true]
      rw [hany, if_pos rfl]
  · have hnone : p.endHuPulse = true → r.matching p.endHuSsi = none := fun hp ↦
      Option.eq_none_iff_forall_ne_some.2 fun i hi ↦ hm ⟨hp, i, hi⟩
    have hno : ∀ i, r.delivers p i = false := by
      intro i
      cases hp : p.endHuPulse with
      | false => simp [delivers, hp]
      | true => simp [delivers, hnone hp]
    rw [endBlock_of_orphan hnone]
    simp [hno]

/-- What an edge does to the slots and the counters. -/
theorem clock_books (r : DemandReassembly) (p : ReassPorts) :
    (∀ i, ((r.clock p).s i).occ =
        (((r.s i).occ && !r.expires p i || r.enters p i && !(r.s i).occ) && !r.delivers p i)) ∧
      (r.clock p).dropCnt =
        (if r.expires p 0 || r.expires p 1 || r.refuses p then r.dropCnt + 1#16
          else r.dropCnt) ∧
      (r.clock p).reassembledCnt =
        (if r.delivers p 0 || r.delivers p 1 then r.reassembledCnt + 1#16
          else r.reassembledCnt) := by
  obtain ⟨htick, hdrop, hcnt⟩ :=
    tickBlock_books (r := r) (p := p) (n := { r with reassembledValid := false }) rfl rfl
  have hssi := kept_tickBlock r p (n := { r with reassembledValid := false }) rfl rfl
  obtain ⟨hfrag, hdrop', hcnt'⟩ := frag1Block_books (p := p) fun j ↦ (hssi j).ssi
  obtain ⟨hend, hdrop'', hcnt''⟩ := endBlock_books (r := r) (p := p)
    (frag1Block r p (tickBlock r p { r with reassembledValid := false }))
  refine ⟨fun i ↦ ?_, ?_, ?_⟩
  · rw [clock, hend, hfrag, htick]
  · rw [clock, hdrop'', hdrop', hdrop]
    cases r.refuses p <;> simp
  · rw [clock, hcnt'', hcnt', hcnt]

/-- Two slots do not match the same END. -/
theorem delivers_one (r : DemandReassembly) (p : ReassPorts) :
    (r.delivers p 0 && r.delivers p 1) = false := by
  unfold delivers
  cases r.matching p.endHuSsi with
  | none => simp
  | some i =>
      obtain rfl | rfl : i = 0 ∨ i = 1 := by omega
      · simp
      · simp

/-- A slot in use is kept, lost or spliced, and one that is free is taken or not. -/
theorem slot_clock (r : DemandReassembly) (p : ReassPorts) (i : Fin 2) :
    ((r.clock p).s i).occ.toNat + (r.loses p i).toNat + (r.delivers p i).toNat =
      (r.s i).occ.toNat + (r.enters p i && !(r.s i).occ).toNat := by
  have hexp := @lastFrame_occ r p i
  have hdel := @delivers_occ r p i
  rw [(clock_books r p).1, loses]
  cases hocc : (r.s i).occ with
  | false =>
      rw [hocc] at hexp hdel
      rw [Bool.eq_false_iff.2 fun h ↦ absurd (hexp h) Bool.false_ne_true,
        Bool.eq_false_iff.2 fun h ↦ absurd (hdel h) Bool.false_ne_true]
      cases r.enters p i <;> rfl
  | true =>
      cases r.expires p i <;> cases r.delivers p i <;> simp

/-- A fresh fragment takes a slot or is refused. -/
theorem fresh_clock (r : DemandReassembly) (p : ReassPorts) :
    (r.enters p 0 && !(r.s 0).occ).toNat + (r.enters p 1 && !(r.s 1).occ).toNat +
      (r.refuses p).toNat = (r.isFresh p).toNat := by
  have hocc : ∀ i, r.holds i p.frag1Ssi = true → (r.s i).occ = true :=
    fun i h ↦ (Bool.and_eq_true_iff.1 h).1
  unfold enters refuses isFresh target
  cases p.frag1Pulse with
  | false => rfl
  | true =>
      cases h0 : r.holds 0 p.frag1Ssi with
      | true => simp [hocc 0 h0]
      | false =>
          cases h1 : r.holds 1 p.frag1Ssi with
          | true => simp [hocc 1 h1]
          | false => cases (r.s 0).occ <;> cases (r.s 1).occ <;> simp

/-- **What an edge does to the number of slots in use**: those lost or spliced are freed, and one is
taken for a fresh fragment that is not refused. -/
theorem busy_clock (r : DemandReassembly) (p : ReassPorts) :
    (r.clock p).busy + (r.loses p 0).toNat + (r.loses p 1).toNat +
        (r.delivers p 0 || r.delivers p 1).toNat + (r.refuses p).toNat =
      r.busy + (r.isFresh p).toNat := by
  have h0 := slot_clock r p 0
  have h1 := slot_clock r p 1
  have hfresh := fresh_clock r p
  have hone : (r.delivers p 0 || r.delivers p 1).toNat =
      (r.delivers p 0).toNat + (r.delivers p 1).toNat := by
    have := delivers_one r p
    revert this
    cases r.delivers p 0 <;> cases r.delivers p 1 <;> decide
  simp only [busy]
  omega

end Edge

/-! ## The books -/

/-- The fragments that the edge drops. -/
def losses : ℕ := (r.loses p 0).toNat + (r.loses p 1).toNat + (r.refuses p).toNat

/-- If a slot expires or a fragment is refused, then one fragment is lost, and no more. -/
def OneLoss : Prop :=
  (r.expires p 0 || r.expires p 1 || r.refuses p) = true → r.losses p = 1

instance : Decidable (r.OneLoss p) := inferInstanceAs (Decidable (_ → _))

variable {r p} in
/-- The counter counts every loss. -/
theorem OneLoss.counted (h : r.OneLoss p) :
    (r.expires p 0 || r.expires p 1 || r.refuses p).toNat = r.losses p := by
  cases hany : r.expires p 0 || r.expires p 1 || r.refuses p with
  | true => exact (h hany).symm
  | false =>
      simp only [Bool.or_eq_false_iff] at hany
      obtain ⟨⟨h0, h1⟩, hr⟩ := hany
      simp [losses, loses, h0, h1, hr]

/-- The module and the number of fresh fragments that came. -/
structure Watch where
  core : DemandReassembly := {}
  fresh : ℕ := 0

/-- One edge. -/
def Watch.step (w : Watch) (p : ReassPorts) : Watch where
  core := w.core.clock p
  fresh := w.fresh + (w.core.isFresh p).toNat

/-- What came was spliced or dropped, or is in a slot. -/
def Watch.Balanced (w : Watch) : Prop :=
  (w.core.reassembledCnt.toNat + w.core.dropCnt.toNat + w.core.busy) % 65536 =
    w.fresh % 65536

instance (w : Watch) : Decidable w.Balanced := inferInstanceAs (Decidable (_ = _))

/-- **An edge keeps the books exactly when it counts what it drops.** -/
theorem Watch.balanced_step {w : Watch} (h : w.Balanced) :
    (w.step p).Balanced ↔ w.core.OneLoss p := by
  obtain ⟨-, hdrop, hcnt⟩ := clock_books w.core p
  have hbusy := busy_clock w.core p
  have hinc : ∀ (b : Bool) (x : BitVec 16),
      (if b then x + 1#16 else x).toNat = (x.toNat + b.toNat) % 65536 := by
    intro b x
    cases b
    · exact (Nat.mod_eq_of_lt x.isLt).symm
    · exact BitVec.toNat_add x 1#16
  have hcounted : (w.core.expires p 0 || w.core.expires p 1 || w.core.refuses p).toNat ≤ 1 :=
    Bool.toNat_le _
  have hlost : ∀ i, (w.core.loses p i).toNat ≤ 1 := fun i ↦ Bool.toNat_le _
  have hrefused : (w.core.refuses p).toNat ≤ 1 := Bool.toNat_le _
  have h0 := hlost 0
  have h1 := hlost 1
  have hiff : (w.step p).Balanced ↔
      (w.core.expires p 0 || w.core.expires p 1 || w.core.refuses p).toNat = w.core.losses p := by
    unfold Balanced at h ⊢
    simp only [step, hdrop, hcnt, hinc, losses]
    omega
  refine hiff.trans ⟨fun hc hany ↦ ?_, OneLoss.counted⟩
  rw [← hc, hany]
  rfl

/-! ## The fragment that comes -/

/-- The slots in use are those of different terminals. -/
def SlotsApart : Prop := Apart (fun s ↦ s.occ = true) (fun s s' ↦ s.ssi = s'.ssi) r.s

/-- The slot has the fragment. -/
def hasFrag (p : ReassPorts) (s : ReassSlot) : Bool :=
  s.occ && s.ssi == p.frag1Ssi && s.frag1 == p.frag1Bits && s.meta13 == p.frag1Meta

/-- The fragment that comes is in a slot, or `drop_cnt` has counted it, besides what is lost in the
slots it does not go to. -/
def ArrivalAccounted : Prop :=
  p.frag1Pulse = true → (r.clock p).dropCnt =
    r.dropCnt + BitVec.ofNat 16 ((r.loses p 0 && !r.enters p 0).toNat +
      (r.loses p 1 && !r.enters p 1).toNat +
      (!(hasFrag p ((r.clock p).s 0) || hasFrag p ((r.clock p).s 1))).toNat)

/-- The fragment replaces one that is just spliced. -/
def Overtaken : Prop := ∃ i, r.enters p i = true ∧ r.delivers p i = true

section Arrival

variable {r p}

theorem target_of_holds (h : r.SlotsApart) {ssi : BitVec 24} {i : Fin 2}
    (hi : r.holds i ssi = true) : r.target ssi = some i := by
  have hssi : ∀ {j}, r.holds j ssi = true → (r.s j).occ = true ∧ (r.s j).ssi = ssi :=
    fun hj ↦ ⟨(Bool.and_eq_true_iff.1 hj).1, eq_of_beq (Bool.and_eq_true_iff.1 hj).2⟩
  have hsame : ∀ {j}, r.holds j ssi = true → j = i := fun hj ↦
    h.eq (hssi hj).1 (hssi hi).1 ((hssi hj).2.trans (hssi hi).2.symm)
  unfold target
  by_cases h0 : r.holds 0 ssi = true
  · rw [if_pos h0, hsame h0]
  rw [if_neg h0]
  by_cases h1 : r.holds 1 ssi = true
  · rw [if_pos h1, hsame h1]
  obtain rfl | rfl : i = 0 ∨ i = 1 := by omega
  · exact absurd hi h0
  · exact absurd hi h1

/-- A slot of the fragment's terminal is the slot it goes to. -/
theorem enters_of_ssi (h : r.SlotsApart) (hp : p.frag1Pulse = true) {i : Fin 2}
    (hocc : ((r.clock p).s i).occ = true) (hssi : ((r.clock p).s i).ssi = p.frag1Ssi) :
    r.enters p i = true := by
  have hslot := clock_slot r p i
  split at hslot
  · next he => simp [enters, he.1, he.2]
  · next he =>
    have hheld : r.holds i p.frag1Ssi = true :=
      Bool.and_eq_true_iff.2 ⟨hslot.occ hocc, beq_iff_eq.2 (hslot.ssi.symm.trans hssi)⟩
    exact absurd ⟨hp, target_of_holds h hheld⟩ he

theorem slotsApart_clock (h : r.SlotsApart) : (r.clock p).SlotsApart := by
  intro i j hij hi hj hssi
  have hsi := clock_slot r p i
  have hsj := clock_slot r p j
  by_cases hei : p.frag1Pulse = true ∧ r.target p.frag1Ssi = some i
  · rw [if_pos hei] at hsi
    have hej := enters_of_ssi h hei.1 hj (hssi.symm.trans hsi.1)
    simp only [enters, hei.1, hei.2, Bool.true_and, beq_iff_eq, Option.some.injEq] at hej
    exact hij hej
  by_cases hej : p.frag1Pulse = true ∧ r.target p.frag1Ssi = some j
  · rw [if_pos hej] at hsj
    have hei' := enters_of_ssi h hej.1 hi (hssi.trans hsj.1)
    simp only [enters, hej.1, hej.2, Bool.true_and, beq_iff_eq, Option.some.injEq] at hei'
    exact hij hei'.symm
  rw [if_neg hei] at hsi
  rw [if_neg hej] at hsj
  exact h i j hij (hsi.occ hi) (hsj.occ hj) (hsi.ssi.symm.trans (hssi.trans hsj.ssi))

/-- The fragment is where it went, if the slot is still in use. -/
theorem hasFrag_clock (h : r.SlotsApart) (hp : p.frag1Pulse = true) (i : Fin 2) :
    hasFrag p ((r.clock p).s i) = (r.enters p i && ((r.clock p).s i).occ) := by
  have hslot := clock_slot r p i
  cases he : r.enters p i with
  | true =>
      rw [enters, Bool.and_eq_true, beq_iff_eq] at he
      rw [if_pos he] at hslot
      simp [hasFrag, hslot.1, hslot.2.1, hslot.2.2]
  | false =>
      refine Bool.eq_false_iff.2 fun hf ↦ ?_
      simp only [hasFrag, Bool.and_eq_true, beq_iff_eq] at hf
      exact absurd (enters_of_ssi h hp hf.1.1.1 hf.1.1.2) (by simp [he])

/-- A slot that the fragment goes to is in use afterwards unless it expires or is spliced. -/
theorem occ_of_enters {i : Fin 2} (he : r.enters p i = true) :
    ((r.clock p).s i).occ = (!r.expires p i && !r.delivers p i) := by
  have hexp := @lastFrame_occ r p i
  rw [(clock_books r p).1, he]
  cases hx : r.expires p i with
  | false => cases (r.s i).occ <;> simp
  | true => simp [hexp hx]

/-- The loss in the slot that the fragment goes to is the fragment's own, unless it is spliced. -/
theorem loses_of_enters {i : Fin 2} (he : r.enters p i = true) :
    (r.loses p i).toNat = (!((r.clock p).s i).occ).toNat ↔ r.delivers p i = false := by
  rw [occ_of_enters he, loses]
  cases r.expires p i <;> cases r.delivers p i <;> decide

/-- **Where every loss is counted, the fragment that comes is accounted for unless it replaces one
that is just spliced.** -/
theorem arrivalAccounted_iff (h : r.SlotsApart) (hloss : r.OneLoss p) :
    r.ArrivalAccounted p ↔ ¬r.Overtaken p := by
  cases hp : p.frag1Pulse with
  | false =>
      refine iff_of_true (fun hp' ↦ absurd hp' (by simp [hp])) ?_
      rintro ⟨i, he, -⟩
      simp [enters, hp] at he
  | true =>
      have hdrop : (r.clock p).dropCnt = r.dropCnt + BitVec.ofNat 16 (r.losses p) := by
        rw [(clock_books r p).2.1, ← hloss.counted]
        split_ifs with hany
        · rw [hany]
          rfl
        · rw [Bool.not_eq_true] at hany
          rw [hany]
          exact (BitVec.add_zero _).symm
      have hsmall : ∀ m n : ℕ, m < 65536 → n < 65536 →
          (r.dropCnt + BitVec.ofNat 16 m = r.dropCnt + BitVec.ofNat 16 n ↔ m = n) := by
        intro m n hm hn
        rw [BitVec.add_right_inj, ← BitVec.toNat_inj, BitVec.toNat_ofNat, BitVec.toNat_ofNat,
          Nat.mod_eq_of_lt hm, Nat.mod_eq_of_lt hn]
      have hbool : ∀ b : Bool, b.toNat ≤ 1 := Bool.toNat_le
      have hlosses : r.losses p < 65536 := by
        have h0 := hbool (r.loses p 0)
        have h1 := hbool (r.loses p 1)
        have h2 := hbool (r.refuses p)
        simp only [losses]
        omega
      have hsum : ∀ b c d : Bool, b.toNat + c.toNat + d.toNat < 65536 := by decide
      have hiff : r.ArrivalAccounted p ↔ r.losses p =
          (r.loses p 0 && !r.enters p 0).toNat + (r.loses p 1 && !r.enters p 1).toNat +
            (!(r.enters p 0 && ((r.clock p).s 0).occ ||
              r.enters p 1 && ((r.clock p).s 1).occ)).toNat := by
        rw [ArrivalAccounted, forall_prop_of_true hp, hdrop, hasFrag_clock h hp,
          hasFrag_clock h hp, hsmall _ _ hlosses (hsum _ _ _)]
      refine hiff.trans ?_
      cases ht : r.target p.frag1Ssi with
      | none =>
          have he : ∀ i, r.enters p i = false := fun i ↦ by simp [enters, ht]
          have hr : r.refuses p = true := by simp [refuses, hp, ht]
          refine iff_of_true (by simp [losses, he, hr]) ?_
          rintro ⟨i, hei, -⟩
          simp [he i] at hei
      | some j =>
          have he : ∀ i, r.enters p i = true ↔ j = i := fun i ↦ by simp [enters, hp, ht]
          have hr : r.refuses p = false := by simp [refuses, ht]
          have hover : r.Overtaken p ↔ r.delivers p j = true := by
            constructor
            · rintro ⟨i, hei, hd⟩
              exact (he i).1 hei ▸ hd
            · exact fun hd ↦ ⟨j, (he j).2 rfl, hd⟩
          rw [hover, Bool.not_eq_true, ← loses_of_enters ((he j).2 rfl)]
          obtain rfl | rfl : j = 0 ∨ j = 1 := by omega
          · have h1 : r.enters p 1 = false := Bool.eq_false_iff.2 fun h1 ↦
              absurd ((he 1).1 h1) (by decide)
            simp only [losses, hr, (he 0).2 rfl, h1, Bool.not_true, Bool.and_false, Bool.false_and,
              Bool.not_false, Bool.and_true, Bool.true_and, Bool.or_false, Bool.toNat_false]
            omega
          · have h0 : r.enters p 0 = false := Bool.eq_false_iff.2 fun h0 ↦
              absurd ((he 0).1 h0) (by decide)
            simp only [losses, hr, (he 1).2 rfl, h0, Bool.not_true, Bool.and_false, Bool.false_and,
              Bool.not_false, Bool.and_true, Bool.true_and, Bool.false_or, Bool.toNat_false]
            omega

end Arrival

/-! ## Runs -/

/-- Nothing on the edge that the counters miss: what expires or is refused is one fragment, and no
fragment replaces one that is just spliced. -/
def Orderly (w : Watch) (p : ReassPorts) : Prop := w.core.OneLoss p ∧ ¬w.core.Overtaken p

theorem accounted_run {w : Watch} (ha : w.core.SlotsApart) (hb : w.Balanced)
    (ps : List ReassPorts) :
    Run.Throughout Watch.step Watch.Balanced w ps ∧
        Run.Along Watch.step (fun w p ↦ w.core.ArrivalAccounted p) w ps ↔
      Run.Along Watch.step Orderly w ps := by
  induction ps generalizing w with
  | nil => exact iff_of_true ⟨hb, trivial⟩ trivial
  | cons p ps ih =>
      have hnext : (w.step p).core.SlotsApart := slotsApart_clock ha
      constructor
      · rintro ⟨⟨-, hthrough⟩, harr, halong⟩
        have hb' : (w.step p).Balanced := Run.Throughout.head _ hthrough
        have hloss := (Watch.balanced_step p hb).1 hb'
        exact ⟨⟨hloss, (arrivalAccounted_iff ha hloss).1 harr⟩,
          (ih hnext hb').1 ⟨hthrough, halong⟩⟩
      · rintro ⟨⟨hloss, hover⟩, halong⟩
        have hb' : (w.step p).Balanced := (Watch.balanced_step p hb).2 hloss
        obtain ⟨hthrough, harr⟩ := (ih hnext hb').2 halong
        exact ⟨⟨hb, hthrough⟩, (arrivalAccounted_iff ha hloss).2 hover, harr⟩

/-- **Every first fragment is accounted for exactly in the runs without such an edge**: from reset
on, the counters and the slots add up to the fragments that came, and each that comes is kept or
counted. -/
theorem fragments_accounted (ps : List ReassPorts) :
    Run.Throughout Watch.step Watch.Balanced {} ps ∧
        Run.Along Watch.step (fun w p ↦ w.core.ArrivalAccounted p) {} ps ↔
      Run.Along Watch.step Orderly {} ps :=
  accounted_run (fun _ _ _ h ↦ absurd h Bool.false_ne_true) (by decide) ps

/-- Two fragments of one frame expire together and count once; one that expires as it is spliced
counts twice; and one that replaces a spliced one is in no slot and in no counter. -/
theorem fragments_unaccounted :
    let one : ReassPorts := { t0Frames := 1, frag1Pulse := true, frag1Ssi := 1 }
    let two : ReassPorts := { t0Frames := 1, frag1Pulse := true, frag1Ssi := 2 }
    let tick : ReassPorts := { t0Frames := 1, frameTick := true }
    let spliced : ReassPorts := { t0Frames := 1, endHuPulse := true, endHuSsi := 1 }
    ¬(Run.exec Watch.step {} [one, two, tick]).Balanced ∧
      ¬(Run.exec Watch.step {} [one, { spliced with frameTick := true }]).Balanced ∧
      ¬(Run.exec Watch.step {} [one]).core.ArrivalAccounted
        { spliced with frag1Pulse := true, frag1Ssi := 1 } := by
  refine ⟨by decide +kernel, by decide +kernel, fun h ↦ ?_⟩
  exact absurd (h rfl) (by decide +kernel)

end DemandReassembly

end TetraPhy.Rx
