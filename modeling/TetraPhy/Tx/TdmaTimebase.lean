import Mathlib.Algebra.Ring.Nat
import TetraPhy.Lib.Counter
import TetraPhy.Lib.Run

/-!
# The TDMA time base

`tetra_tdma_timebase.v`: the counters of symbol, slot, frame, multiframe and hyperframe, which a
symbol enable moves on, and a shadow register through which the software loads them.  A load waits
for the next symbol enable, where it starts a slot; one that comes in the cycle of a symbol enable
is committed there, and stays pending for the next one as well.

| Strobe       | When                                                             |
|--------------|------------------------------------------------------------------|
| `tdma_tick`  | the cycle after the symbol counter wraps                         |
| `slot_pulse` | the cycle after `tdma_tick`                                      |

A commit is a restart and no slot boundary: it raises neither of them.
-/

namespace TetraPhy.Tx

/-- What the software loads. -/
structure SyncWord where
  tn : BitVec 2 := 0
  fn : BitVec 5 := 0
  mn : BitVec 6 := 0
  hn : BitVec 6 := 0
deriving DecidableEq, Repr

/-- The fields are legal. -/
def SyncWord.InRange (w : SyncWord) : Prop := w.fn.toNat < 18 ∧ w.mn.toNat < 60

/-- The inputs of a cycle. -/
structure TimebaseIn where
  symEn : Bool := false
  syncLoadStrobe : Bool := false
  syncIn : SyncWord := {}
deriving DecidableEq, Repr

/-- The registers. -/
structure TdmaTimebase where
  syncLoadPending : Bool := false
  syncShadow : SyncWord := {}
  symCnt : BitVec 8 := 0
  tn : BitVec 2 := 0
  fn : BitVec 5 := 0
  mn : BitVec 6 := 0
  hn : BitVec 6 := 0
  slotPulse : Bool := false
  tdmaTick : Bool := false
deriving DecidableEq, Repr

namespace TdmaTimebase

variable (t : TdmaTimebase) (i : TimebaseIn)

/-- `slot_edge_sys`. -/
def slotEdge : Bool := i.symEn && t.symCnt == 254

/-- `sync_commit_sys`. -/
def syncCommit : Bool := i.symEn && (t.syncLoadPending || i.syncLoadStrobe)

/-- The block of the shadow register. -/
def shadowBlock (n : TdmaTimebase) : TdmaTimebase :=
  if i.syncLoadStrobe then { n with syncShadow := i.syncIn, syncLoadPending := true }
  else if i.symEn && t.syncLoadPending then { n with syncLoadPending := false }
  else n

/-- The block of the counters. -/
def counterBlock (n : TdmaTimebase) : TdmaTimebase :=
  if t.syncCommit i then
    let w := if i.syncLoadStrobe then i.syncIn else t.syncShadow
    { n with symCnt := 0, tn := w.tn, fn := w.fn, mn := w.mn, hn := w.hn }
  else if i.symEn then
    if t.slotEdge i then
      if t.tn == 3 then
        if t.fn == 17 then
          if t.mn == 59 then { n with symCnt := 0, tn := 0, fn := 0, mn := 0, hn := t.hn + 1 }
          else { n with symCnt := 0, tn := 0, fn := 0, mn := t.mn + 1 }
        else { n with symCnt := 0, tn := 0, fn := t.fn + 1 }
      else { n with symCnt := 0, tn := t.tn + 1 }
    else { n with symCnt := t.symCnt + 1 }
  else n

/-- One edge of `clk_sys`. -/
def step : TdmaTimebase :=
  { t.counterBlock i (t.shadowBlock i t) with
    tdmaTick := t.slotEdge i && !t.syncCommit i
    slotPulse := t.tdmaTick }

/-! ## The look-ahead

The slot after that of the counters, for the encoders that work one slot ahead. -/

/-- `tx_tn_wrap_sys`. -/
def tnWrap : Bool := t.tn == 3

/-- `tx_fn_wrap_sys`. -/
def fnWrap : Bool := t.tnWrap && t.fn == 17

/-- `tx_mn_wrap_sys`. -/
def mnWrap : Bool := t.fnWrap && t.mn == 59

/-- `tx_tn_next_sys`. -/
def tnNext : BitVec 2 := if t.tnWrap then 0 else t.tn + 1

/-- `tx_fn_next_sys`. -/
def fnNext : BitVec 5 := if t.tnWrap then if t.fnWrap then 0 else t.fn + 1 else t.fn

/-- `tx_mn_next_sys`. -/
def mnNext : BitVec 6 := if t.fnWrap then if t.mnWrap then 0 else t.mn + 1 else t.mn

/-! ## The frame structure -/

/-- 255 symbols, 4 slots, 18 frames, 60 multiframes, 64 hyperframes. -/
def radices : List ℕ := [255, 4, 18, 60, 64]

/-- The counters, the symbol first. -/
def tuple : List ℕ := [t.symCnt.toNat, t.tn.toNat, t.fn.toNat, t.mn.toNat, t.hn.toNat]

/-- The tuple as a number of symbols. -/
def time : ℕ := Odometer.value radices t.tuple

/-- The fields are legal, also those that wait to be loaded. -/
structure InRange (t : TdmaTimebase) : Prop where
  counters : Odometer.Legal radices t.tuple
  shadow : t.syncLoadPending = true → t.syncShadow.InRange

/-- The boundary of a slot is crossed: the last symbol ends, and no load starts another slot. -/
def Crosses : Prop := t.slotEdge i = true ∧ t.syncCommit i = false

instance : Decidable (t.Crosses i) := inferInstanceAs (Decidable (_ ∧ _))

variable {t i}

theorem legal_iff : Odometer.Legal radices t.tuple ↔
    t.symCnt.toNat < 255 ∧ t.fn.toNat < 18 ∧ t.mn.toNat < 60 := by
  have htn := t.tn.isLt
  have hhn := t.hn.isLt
  simp only [Odometer.Legal, radices, tuple, List.forall₂_cons, List.Forall₂.nil, and_true]
  omega

/-! ### One step -/

theorem tuple_shadowBlock : (t.shadowBlock i t).tuple = t.tuple := by
  unfold shadowBlock
  split_ifs <;> rfl

/-- A counter that does not wrap. -/
theorem toNat_succ {w : ℕ} {x : BitVec w} (h : x.toNat + 1 < 2 ^ w) :
    (x + 1#w).toNat = x.toNat + 1 := by
  rw [BitVec.toNat_add, BitVec.toNat_ofNat, Nat.add_mod_mod, Nat.mod_eq_of_lt h]

/-- A counter wraps at its last value. -/
theorem wraps_iff {w r : ℕ} {x c : BitVec w} (hc : c.toNat + 1 = r) : x.toNat + 1 = r ↔ x = c := by
  rw [← hc, Nat.add_right_cancel_iff, BitVec.toNat_inj]

theorem advance_tuple (t : TdmaTimebase) : Odometer.advance radices t.tuple =
    if t.symCnt = 254 then
      0 :: if t.tn = 3 then
        0 :: if t.fn = 17 then
          0 :: if t.mn = 59 then
            0 :: if t.hn = 63 then [0] else [t.hn.toNat + 1]
          else [t.mn.toNat + 1, t.hn.toNat]
        else [t.fn.toNat + 1, t.mn.toNat, t.hn.toNat]
      else [t.tn.toNat + 1, t.fn.toNat, t.mn.toNat, t.hn.toNat]
    else [t.symCnt.toNat + 1, t.tn.toNat, t.fn.toNat, t.mn.toNat, t.hn.toNat] := by
  have hsym : t.symCnt.toNat + 1 = 255 ↔ t.symCnt = 254 := wraps_iff rfl
  have htn : t.tn.toNat + 1 = 4 ↔ t.tn = 3 := wraps_iff rfl
  have hfn : t.fn.toNat + 1 = 18 ↔ t.fn = 17 := wraps_iff rfl
  have hmn : t.mn.toNat + 1 = 60 ↔ t.mn = 59 := wraps_iff rfl
  have hhn : t.hn.toNat + 1 = 64 ↔ t.hn = 63 := wraps_iff rfl
  simp only [radices, tuple, Odometer.advance, hsym, htn, hfn, hmn, hhn]

/-- **A symbol enable that commits no load is a step of the cascade**, and without one the
counters rest. -/
theorem tuple_step (h : t.InRange) (hc : t.syncCommit i = false) :
    (t.step i).tuple = if i.symEn then Odometer.advance radices t.tuple else t.tuple := by
  obtain ⟨hsym, hfn, hmn⟩ := legal_iff.1 h.counters
  have hkeep : (t.shadowBlock i t).tuple = t.tuple := tuple_shadowBlock
  obtain ⟨-, htn', hfn', hmn', hhn'⟩ : (t.shadowBlock i t).symCnt = t.symCnt ∧
      (t.shadowBlock i t).tn = t.tn ∧ (t.shadowBlock i t).fn = t.fn ∧
      (t.shadowBlock i t).mn = t.mn ∧ (t.shadowBlock i t).hn = t.hn := by
    simpa [tuple, BitVec.toNat_inj] using hkeep
  change (t.counterBlock i (t.shadowBlock i t)).tuple = _
  rw [counterBlock, if_neg (by simp [hc])]
  cases hen : i.symEn with
  | false => exact hkeep
  | true =>
      rw [if_pos rfl, if_pos rfl, advance_tuple, slotEdge, hen, Bool.true_and]
      by_cases h254 : t.symCnt = 254#8
      · by_cases h3 : t.tn = 3#2
        · by_cases h17 : t.fn = 17#5
          · by_cases h59 : t.mn = 59#6
            · by_cases h63 : t.hn = 63#6
              · simp [tuple, h254, h3, h17, h59, h63]
              · have hlt : t.hn.toNat + 1 < 2 ^ 6 := Nat.lt_of_le_of_ne t.hn.isLt
                  fun he ↦ h63 ((wraps_iff rfl).1 he)
                simp [tuple, h254, h3, h17, h59, h63, toNat_succ hlt]
            · simp [tuple, h254, h3, h17, h59, hhn', toNat_succ (x := t.mn) (by omega)]
          · simp [tuple, h254, h3, h17, hmn', hhn', toNat_succ (x := t.fn) (by omega)]
        · have hlt : t.tn.toNat + 1 < 2 ^ 2 := Nat.lt_of_le_of_ne t.tn.isLt
            fun he ↦ h3 ((wraps_iff rfl).1 he)
          simp [tuple, h254, h3, hfn', hmn', hhn', toNat_succ hlt]
      · simp [tuple, h254, htn', hfn', hmn', hhn', toNat_succ (x := t.symCnt) (by omega)]

/-- A commit starts a slot of what was loaded. -/
theorem step_commit (hc : t.syncCommit i = true) :
    (t.step i).tuple = let w := if i.syncLoadStrobe then i.syncIn else t.syncShadow
      [0, w.tn.toNat, w.fn.toNat, w.mn.toNat, w.hn.toNat] := by
  change (t.counterBlock i (t.shadowBlock i t)).tuple = _
  rw [counterBlock, if_pos hc]
  rfl

theorem step_pending : (t.step i).syncLoadPending =
    (i.syncLoadStrobe || (t.syncLoadPending && !i.symEn)) := by
  have hstep : (t.step i).syncLoadPending = (t.shadowBlock i t).syncLoadPending := by
    change (t.counterBlock i (t.shadowBlock i t)).syncLoadPending = _
    unfold counterBlock
    split_ifs <;> rfl
  rw [hstep, shadowBlock]
  cases i.syncLoadStrobe <;> cases i.symEn <;> cases hp : t.syncLoadPending <;> simp [hp]

theorem step_shadow : (t.step i).syncShadow =
    if i.syncLoadStrobe then i.syncIn else t.syncShadow := by
  have hstep : (t.step i).syncShadow = (t.shadowBlock i t).syncShadow := by
    change (t.counterBlock i (t.shadowBlock i t)).syncShadow = _
    unfold counterBlock
    split_ifs <;> rfl
  rw [hstep, shadowBlock]
  split_ifs <;> rfl

/-- **The fields stay legal**, whatever the instant of a load. -/
theorem InRange.step (h : t.InRange) (hi : i.syncLoadStrobe = true → i.syncIn.InRange) :
    (t.step i).InRange := by
  refine ⟨?_, ?_⟩
  · cases hc : t.syncCommit i with
    | false =>
        rw [tuple_step h hc]
        split_ifs
        · exact h.counters.advance
        · exact h.counters
    | true =>
        have hw : (if i.syncLoadStrobe then i.syncIn else t.syncShadow).InRange := by
          split_ifs with hs
          · exact hi hs
          · rw [syncCommit, Bool.and_eq_true, Bool.or_eq_true] at hc
            exact h.shadow (hc.2.resolve_right hs)
        rw [step_commit hc]
        have htn := (if i.syncLoadStrobe then i.syncIn else t.syncShadow).tn.isLt
        have hhn := (if i.syncLoadStrobe then i.syncIn else t.syncShadow).hn.isLt
        exact .cons (by decide) (.cons htn (.cons hw.1 (.cons hw.2 (.cons hhn .nil))))
  · intro hp
    rw [step_shadow]
    rw [step_pending] at hp
    split_ifs with hs
    · exact hi hs
    · rw [Bool.or_eq_true, Bool.and_eq_true] at hp
      exact h.shadow (hp.resolve_left hs).1

/-- The reset state is legal. -/
theorem inRange_reset : InRange {} := ⟨legal_iff.2 (by decide), fun h ↦ absurd h (by decide)⟩

/-! ### Runs -/

/-- A run that commits no load. -/
def Unloaded (t : TdmaTimebase) (es : List TimebaseIn) : Prop :=
  t.syncLoadPending = false ∧ ∀ i ∈ es, i.syncLoadStrobe = false

/-- The number of boundaries of a slot that a run crosses. -/
def crossings : TdmaTimebase → List TimebaseIn → ℕ
  | _, [] => 0
  | t, i :: es => (if t.Crosses i then 1 else 0) + crossings (t.step i) es

/-- The number of cycles of a run that end with `slot_pulse`. -/
def pulses : TdmaTimebase → List TimebaseIn → ℕ
  | _, [] => 0
  | t, i :: es => (if (t.step i).slotPulse then 1 else 0) + pulses (t.step i) es

/-- The pulse that is due in the next cycle. -/
def due (t : TdmaTimebase) : ℕ := if t.tdmaTick then 1 else 0

theorem Unloaded.commit {es : List TimebaseIn} (h : t.Unloaded (i :: es)) :
    t.syncCommit i = false := by
  simp [syncCommit, h.1, h.2 i List.mem_cons_self]

theorem Unloaded.tail {es : List TimebaseIn} (h : t.Unloaded (i :: es)) :
    (t.step i).Unloaded es :=
  ⟨by rw [step_pending, h.1, h.2 i List.mem_cons_self]; rfl,
    fun j hj ↦ h.2 j (List.mem_cons_of_mem i hj)⟩

/-- **Without a load, `n` symbol enables are `n` steps of the cascade.** -/
theorem tuple_run {es : List TimebaseIn} (h : t.InRange) (hu : t.Unloaded es) :
    (Run.exec step t es).tuple = (Odometer.advance radices)^[es.countP (·.symEn)] t.tuple := by
  induction es generalizing t with
  | nil => rfl
  | cons i es ih =>
      have hs : i.syncLoadStrobe = false := hu.2 i List.mem_cons_self
      have hnext : (t.step i).InRange := h.step fun hi ↦ absurd hi (by simp [hs])
      rw [Run.exec_cons, ih hnext hu.tail, tuple_step h hu.commit, List.countP_cons]
      split_ifs
      · rw [Function.iterate_succ_apply]
      · rw [Nat.add_zero]

/-- A boundary lies at every multiple of 255 symbols. -/
theorem crosses_iff {n : ℕ} (hc : t.syncCommit i = false)
    (ht : t.tuple = Odometer.digits radices n) :
    t.Crosses i ↔ i.symEn = true ∧ n % 255 = 254 := by
  have hsym : t.symCnt.toNat = n % 255 := congrArg (·.headD 0) ht
  have h254 : t.symCnt = 254#8 ↔ n % 255 = 254 := by
    rw [← hsym, ← BitVec.toNat_inj]
    rfl
  simp only [Crosses, slotEdge, hc, and_true, Bool.and_eq_true, beq_iff_eq]
  exact and_congr_right fun _ ↦ h254

/-- **Without a load, the boundaries crossed are the slots that passed.** -/
theorem crossings_run {es : List TimebaseIn} {n : ℕ} (h : t.InRange) (hu : t.Unloaded es)
    (ht : t.tuple = Odometer.digits radices n) :
    n / 255 + crossings t es = (n + es.countP (·.symEn)) / 255 := by
  induction es generalizing t n with
  | nil => rfl
  | cons i es ih =>
      have hs : i.syncLoadStrobe = false := hu.2 i List.mem_cons_self
      have hnext : (t.step i).InRange := h.step fun hi ↦ absurd hi (by simp [hs])
      have hstep := tuple_step h hu.commit
      rw [crossings, List.countP_cons]
      cases hen : i.symEn with
      | false =>
          rw [if_neg fun hx ↦ absurd ((crosses_iff hu.commit ht).1 hx).1 (by simp [hen]),
            Nat.zero_add]
          rw [hen] at hstep
          exact ih hnext hu.tail (hstep.trans ht)
      | true =>
          rw [hen, if_pos rfl, ht, Odometer.advance_digits (by decide)] at hstep
          have hrest := ih hnext hu.tail hstep
          have hone : n / 255 + (if t.Crosses i then 1 else 0) = (n + 1) / 255 := by
            rw [ite_cond_congr (propext ((crosses_iff hu.commit ht).trans
              (and_iff_right hen)))]
            split_ifs <;> omega
          rw [← Nat.add_assoc, hone, hrest, if_pos rfl]
          congr 1
          omega

/-- **A boundary is followed by its pulse two cycles later**, and nothing else is. -/
theorem slotPulse_iff (t : TdmaTimebase) (i j : TimebaseIn) :
    ((t.step i).step j).slotPulse = true ↔ t.Crosses i := by
  change (t.slotEdge i && !t.syncCommit i) = true ↔ _
  rw [Bool.and_eq_true, Bool.not_eq_true', Crosses]

/-- A boundary makes a pulse due. -/
theorem due_step (t : TdmaTimebase) (i : TimebaseIn) :
    due (t.step i) = if t.Crosses i then 1 else 0 := by
  refine ite_cond_congr (propext ?_)
  change (t.slotEdge i && !t.syncCommit i) = true ↔ _
  rw [Bool.and_eq_true, Bool.not_eq_true', Crosses]

/-- **Every boundary gets one pulse**: the pulses of a run, and the one that is still due, are the
boundaries, and the one that was due. -/
theorem pulses_add_due (t : TdmaTimebase) (es : List TimebaseIn) :
    pulses t es + due (Run.exec step t es) = due t + crossings t es := by
  induction es generalizing t with
  | nil => exact Nat.add_comm 0 _
  | cons i es ih =>
      have hpulse : (if (t.step i).slotPulse then 1 else 0) = due t := rfl
      rw [pulses, crossings, Run.exec_cons, hpulse, Nat.add_assoc, ih, due_step]

theorem step_symCnt (t : TdmaTimebase) (i : TimebaseIn) : (t.step i).symCnt =
    if t.syncCommit i then 0
    else if i.symEn then if t.slotEdge i then 0 else t.symCnt + 1 else t.symCnt := by
  have hshadow : (t.shadowBlock i t).symCnt = t.symCnt := by
    unfold shadowBlock
    split_ifs <;> rfl
  change (t.counterBlock i (t.shadowBlock i t)).symCnt = _
  unfold counterBlock
  split_ifs
  all_goals first | rfl | exact hshadow

/-- A cycle counts one symbol at most. -/
theorem step_symCnt_le (t : TdmaTimebase) (i : TimebaseIn) :
    (t.step i).symCnt.toNat ≤ t.symCnt.toNat + 1 := by
  rw [step_symCnt]
  split_ifs
  · exact Nat.zero_le _
  · exact Nat.zero_le _
  · rw [BitVec.toNat_add]
    exact Nat.mod_le _ _
  · exact Nat.le_succ _

/-- With `n` cycles since the last pulse, or since the reset, the time base has counted so many
symbols at most, and the next pulse is 255 cycles away from the last. -/
structure Paced (t : TdmaTimebase) (n : ℕ) : Prop where
  count : t.symCnt.toNat ≤ n + 1
  tick : t.tdmaTick = true → t.symCnt = 0 ∧ 254 ≤ n
  pulse : t.slotPulse = true → t.symCnt.toNat ≤ 1 ∧ t.tdmaTick = false ∧ 255 ≤ n

namespace Paced

variable {n : ℕ}

theorem age (h : t.Paced n) (hp : t.slotPulse = true) : 255 ≤ n := (h.pulse hp).2.2

/-- No slot ends before its pulse has come. -/
theorem slotEdge (h : t.Paced n) (he : t.slotEdge i = true) :
    t.tdmaTick = false ∧ t.slotPulse = false ∧ 253 ≤ n := by
  have h254 : t.symCnt = 254 := beq_iff_eq.1 (Bool.and_eq_true_iff.1 he).2
  refine ⟨Bool.eq_false_iff.2 fun ht ↦ ?_, Bool.eq_false_iff.2 fun hp ↦ ?_, ?_⟩
  · exact absurd (h254.symm.trans (h.tick ht).1) (by decide)
  · have hcnt := (h.pulse hp).1
    rw [h254] at hcnt
    exact absurd hcnt (by decide)
  · have hcnt := h.count
    rw [h254] at hcnt
    exact Nat.le_of_succ_le_succ hcnt

/-- **Pulses are 255 cycles apart**, with loads at whatever instants. -/
theorem step (h : t.Paced n) (i : TimebaseIn) :
    (t.step i).Paced (if t.slotPulse then 1 else n + 1) := by
  have hle := step_symCnt_le t i
  refine ⟨?_, fun ht ↦ ?_, fun hp ↦ ?_⟩
  · have hcnt := h.count
    split_ifs with hp
    · have hone := (h.pulse hp).1
      omega
    · omega
  · obtain ⟨he, hc⟩ : t.slotEdge i = true ∧ (!t.syncCommit i) = true := Bool.and_eq_true_iff.1 ht
    rw [Bool.not_eq_true'] at hc
    obtain ⟨-, hp, hage⟩ := h.slotEdge he
    have hen : i.symEn = true := (Bool.and_eq_true_iff.1 he).1
    rw [step_symCnt, if_neg (by simp [hc]), if_pos hen, if_pos he, if_neg (by simp [hp])]
    exact ⟨rfl, by omega⟩
  · have ht : t.tdmaTick = true := hp
    obtain ⟨hzero, hage⟩ := h.tick ht
    have hedge : t.slotEdge i = false :=
      Bool.eq_false_iff.2 fun he ↦ absurd (ht.symm.trans (h.slotEdge he).1) (by decide)
    have hnow : t.slotPulse = false :=
      Bool.eq_false_iff.2 fun hp ↦ absurd (ht.symm.trans (h.pulse hp).2.1) (by decide)
    have htick : (t.step i).tdmaTick = false := by
      change (t.slotEdge i && !t.syncCommit i) = false
      rw [hedge, Bool.false_and]
    rw [hzero] at hle
    rw [if_neg (by simp [hnow])]
    exact ⟨hle, htick, by omega⟩

end Paced

theorem paced_reset : Paced {} 0 :=
  ⟨by decide, fun h ↦ absurd h (by decide), fun h ↦ absurd h (by decide)⟩

/-- The fields stay legal in every run of legal loads. -/
theorem throughout_inRange {es : List TimebaseIn} (h : t.InRange)
    (hes : ∀ i ∈ es, i.syncLoadStrobe = true → i.syncIn.InRange) :
    Run.Throughout step InRange t es := by
  induction es generalizing t with
  | nil => exact h
  | cons i es ih =>
      obtain ⟨hi, hes⟩ := List.forall_mem_cons.1 hes
      exact ⟨h, ih (h.step hi) hes⟩

/-- **The time base keeps time.**  From legal counters, `n` symbol enables without a load add `n`
in the mixed radix of the frame structure, and cross as many boundaries as slots passed; legal
loads keep every field legal, at whatever instant they come; and each boundary, with or without
loads, gets one pulse of its own. -/
theorem keepsTime (t : TdmaTimebase) (h : t.InRange) (es : List TimebaseIn) :
    (t.Unloaded es →
      (Run.exec step t es).tuple = Odometer.digits radices (t.time + es.countP (·.symEn)) ∧
        t.time / 255 + crossings t es = (t.time + es.countP (·.symEn)) / 255) ∧
    ((∀ i ∈ es, i.syncLoadStrobe = true → i.syncIn.InRange) →
      Run.Throughout step InRange t es) ∧
    (∀ i j, (Run.exec step t (es ++ [i, j])).slotPulse = true ↔ (Run.exec step t es).Crosses i) ∧
    pulses t es + due (Run.exec step t es) = due t + crossings t es := by
  have htime : t.tuple = Odometer.digits radices t.time :=
    (Odometer.digits_value h.counters).symm
  refine ⟨fun hu ↦ ⟨?_, crossings_run h hu htime⟩, throughout_inRange h, fun i j ↦ ?_,
    pulses_add_due t es⟩
  · rw [tuple_run h hu, Odometer.iterate_advance h.counters, time]
  · rw [Run.exec_append]
    exact slotPulse_iff _ i j

/-- A slot from reset, and a load in it. -/
theorem keepsTime_reset :
    (Run.exec step {} (List.replicate 255 ⟨true, false, {}⟩)).tuple = [0, 1, 0, 0, 0] ∧
      (Run.exec step {} [⟨true, true, ⟨3, 17, 59, 63⟩⟩]).InRange ∧
      pulses {} (List.replicate 257 ⟨true, false, {}⟩) = 1 := by
  have hslot := ((keepsTime {} inRange_reset (List.replicate 255 ⟨true, false, {}⟩)).1
    ⟨rfl, fun i hi ↦ by rw [List.eq_of_mem_replicate hi]⟩).1
  have hload := (keepsTime {} inRange_reset [⟨true, true, ⟨3, 17, 59, 63⟩⟩]).2.1
    fun i hi _ ↦ by
      rw [List.mem_singleton.1 hi]
      exact ⟨by decide, by decide⟩
  refine ⟨hslot.trans ?_, hload.last, ?_⟩
  · rw [List.countP_replicate, if_pos rfl]
    decide
  · decide +kernel

end TdmaTimebase

end TetraPhy.Tx
