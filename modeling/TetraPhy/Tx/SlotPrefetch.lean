import TetraPhy.Tx.SlotContentMux
import TetraPhy.Tx.TdmaTimebase

/-!
# The prefetched schedule

What `tetra_slot_content_mux.v` has read when a slot begins.  The slots are numbered from the
reset, where slot 0 runs without a pulse of its own; slot `n` is timeslot `n % 4` of frame
`n / 4 % 18` in multiframe `n / 72 % 60`.

| after the pulse of slot | the registers hold, or are being filled with |
|-------------------------|----------------------------------------------|
| 1, 2                    | frame 0 (the first refresh)                  |
| 3 .. 6                  | frame 1                                      |
| 7 .. 10                 | frame 2, and so on                           |

So they are due to hold frame `(n + 1) / 4` after the pulse of slot `n`, and do so six cycles later.
-/

namespace TetraPhy.Tx

/-- The place of a timeslot in the schedule, which lasts four multiframes. -/
def schedIndex (m f k : ℕ) : BitVec 9 := BitVec.ofNat 9 (m % 4 * 72 + 4 * f + k)

namespace SlotContentMux

/-! ## The time base that drives it -/

/-- The counters are those of slot `n`. -/
structure InSlot (n : ℕ) (i : MuxIn) : Prop where
  tn : i.tn.toNat = n % 4
  fn : i.fn.toNat = n / 4 % 18
  mn : i.mn.toNat = n / 72 % 60

/-- The pulses are those of the slots after `n`, in order and eight cycles apart, with `g` cycles
since the last; the memory keeps its content. -/
def FreeRunning (schedule : BitVec 9 → BitVec 16) : ℕ → ℕ → List MuxIn → Prop
  | _, _, [] => True
  | n, g, i :: is => i.schedule = schedule ∧
      if i.slotPulse then 8 ≤ g ∧ InSlot (n + 1) i ∧ FreeRunning schedule (n + 1) 1 is
      else FreeRunning schedule n (g + 1) is

variable {schedule : BitVec 9 → BitVec 16} {s : SlotContentMux} {i : MuxIn} {n g c t : ℕ}

/-! ## One refresh -/

/-- The state `c` cycles after a refresh began. -/
def stage : ℕ → MuxState
  | 1 => .rd0
  | 2 => .rd1
  | 3 => .rd2
  | 4 => .rd3
  | 5 => .cap3
  | _ => .idle

/-- The word of timeslot `k` of frame `t`, counted from the reset. -/
def word (schedule : BitVec 9 → BitVec 16) (t k : ℕ) : BitVec 16 :=
  schedule (schedIndex (t / 18) (t % 18) k)

/-- A refresh for frame `t` began `c` cycles ago. -/
structure Refreshing (schedule : BitVec 9 → BitVec 16) (t c : ℕ) (s : SlotContentMux) : Prop where
  pending : s.firstRefreshPending = false
  state : s.state = stage c
  fn : s.refreshFn.toNat = t % 18
  mn : s.refreshMnLow2.toNat = t / 18 % 4
  data : c ≤ 4 → s.schedData = word schedule t (c - 1)
  entry : ∀ k : BitVec 2, k.toNat + 1 < c → s.entry k = word schedule t k.toNat

/-- The address is the place of the timeslot, in the frame that is read. -/
theorem schedAddr_eq {m f : ℕ} (hm : (s.effMnLow2 i).toNat = m % 4) (hf : (s.effFn i).toNat = f) :
    s.schedAddr i = schedIndex m f (s.tnForAddr i).toNat := by
  have hmn := (s.effMnLow2 i).isLt
  have hfn := (s.effFn i).isLt
  apply BitVec.eq_of_toNat_eq
  rw [schedAddr, schedIndex, ← hm, ← hf]
  simp only [BitVec.toNat_add, BitVec.toNat_shiftLeft, BitVec.toNat_setWidth, BitVec.toNat_ofNat,
    Nat.shiftLeft_eq]
  omega

/-- **A refresh begins**, and the first word is on its way. -/
theorem refreshing_start (hs : s.starts i = true) (hsched : i.schedule = schedule)
    (hmn : (s.effMnLow2 i).toNat = t / 18 % 4) (hfn : (s.effFn i).toNat = t % 18) :
    Refreshing schedule t 1 (s.step i) := by
  obtain ⟨hidle, htrig⟩ : s.state = .idle ∧ s.refreshTrigger i = true := by
    simpa [starts] using hs
  have hnext : s.nextState i = .rd0 := by simp [nextState, hidle, htrig]
  refine ⟨?_, hnext, hfn, hmn, fun _ ↦ ?_, fun k hk ↦ absurd hk (by omega)⟩
  · show (if s.starts i then false else s.firstRefreshPending) = false
    rw [if_pos hs]
  · show i.schedule (s.schedAddr i) = _
    rw [schedAddr_eq hmn hfn, hsched, tnForAddr, hnext]
    rfl

/-- After five cycles the refresh is over. -/
theorem stage_of_le (hc : 6 ≤ c) : stage c = .idle := by
  unfold stage
  split
  all_goals first | omega | rfl

/-- The state moves on by one stage. -/
theorem nextState_stage (hc : 1 ≤ c) (hs : s.starts i = false) (h : s.state = stage c) :
    s.nextState i = stage (c + 1) := by
  match c with
  | 1 | 2 | 3 | 4 | 5 => rw [nextState, h]; rfl
  | c + 6 =>
      rw [stage_of_le (Nat.le_add_left 6 c)] at h
      have htrig : s.refreshTrigger i = false := by simpa [starts, h] using hs
      rw [stage_of_le (by omega), nextState, h, htrig]
      rfl

/-- Each stage captures the word of its timeslot, and the others stay. -/
theorem entry_step (hc : 1 ≤ c) (h : s.state = stage c) (k : BitVec 2) :
    (s.step i).entry k = if k.toNat + 1 = c then s.schedData else s.entry k := by
  have hcap : ∀ j : BitVec 2, Function.update s.entry j s.schedData k =
      if k.toNat + 1 = j.toNat + 1 then s.schedData else s.entry k := fun j ↦ by
    rw [Function.update_apply]
    exact if_congr (by rw [Nat.add_right_cancel_iff, BitVec.toNat_inj]) rfl rfl
  have hk := k.isLt
  match c with
  | 1 => rw [step, h]; exact hcap 0
  | 2 => rw [step, h]; exact hcap 1
  | 3 => rw [step, h]; exact hcap 2
  | 4 => rw [step, h]; exact hcap 3
  | 5 => rw [step, h]; exact (if_neg (by omega)).symm
  | c + 6 =>
      rw [step, h, stage_of_le (Nat.le_add_left 6 c)]
      exact (if_neg (by omega)).symm

/-- **A refresh goes on**, whatever the counters show meanwhile. -/
theorem Refreshing.step (hc : 1 ≤ c) (h : Refreshing schedule t c s) (hs : s.starts i = false)
    (hsched : i.schedule = schedule) : Refreshing schedule t (c + 1) (s.step i) := by
  have hnext := nextState_stage hc hs h.state
  have hmn : s.effMnLow2 i = s.refreshMnLow2 := if_neg (by simp [hs])
  have hfn : s.effFn i = s.refreshFn := if_neg (by simp [hs])
  refine ⟨?_, hnext, ?_, ?_, ?_, ?_⟩
  · show (if s.starts i then false else s.firstRefreshPending) = false
    rw [if_neg (by simp [hs]), h.pending]
  · exact (congrArg BitVec.toNat hfn).trans h.fn
  · exact (congrArg BitVec.toNat hmn).trans h.mn
  · intro hle
    show i.schedule (s.schedAddr i) = _
    rw [schedAddr_eq (hmn ▸ h.mn) (hfn ▸ h.fn), hsched, tnForAddr, hnext]
    match c with
    | 1 | 2 | 3 => rfl
    | c + 4 => omega
  · intro k hk
    have hk4 := k.isLt
    rw [entry_step hc h.state]
    split_ifs with hnow
    · rw [h.data (by omega), ← hnow, Nat.add_sub_cancel]
    · exact h.entry k (by omega)

/-! ## Over a run -/

/-- After the pulse of slot `n`, with `g` cycles since, a refresh for frame `(n + 1) / 4` has begun
no later than that pulse. -/
def Prefetched (schedule : BitVec 9 → BitVec 16) (n g : ℕ) (s : SlotContentMux) : Prop :=
  if n = 0 then s.state = .idle ∧ s.firstRefreshPending = true
  else ∃ c, 1 ≤ c ∧ g ≤ c ∧ Refreshing schedule ((n + 1) / 4) c s

theorem prefetched_reset : Prefetched schedule 0 g {} := ⟨rfl, rfl⟩

theorem Prefetched.refreshing (h : Prefetched schedule n g s) (hn : n ≠ 0) :
    ∃ c, 1 ≤ c ∧ g ≤ c ∧ Refreshing schedule ((n + 1) / 4) c s := by
  rwa [Prefetched, if_neg hn] at h

theorem InSlot.tn_eq (h : InSlot n i) : i.tn = 3 ↔ n % 4 = 3 := by
  rw [← h.tn]
  exact BitVec.toNat_inj.symm

/-- The frame that comes after that of slot `n`; every fourth multiframe is one of the hyperframe's,
so its number wraps where the index does. -/
theorem InSlot.next (h : InSlot n i) :
    (fnNext i).toNat = (n / 4 + 1) % 18 ∧ (mnNextLow2 i).toNat = (n / 4 + 1) / 18 % 4 := by
  have hfn := h.fn
  have hmn : (i.mn.extractLsb' 0 2).toNat = n / 4 / 18 % 4 := by
    rw [BitVec.extractLsb'_toNat, h.mn]
    omega
  have hwrap : fnWrap i = true ↔ n / 4 % 18 = 17 := by
    rw [← hfn, fnWrap, beq_iff_eq]
    exact BitVec.toNat_inj.symm
  rw [fnNext, mnNextLow2]
  by_cases h17 : n / 4 % 18 = 17
  · rw [if_pos (hwrap.2 h17), if_pos (hwrap.2 h17), BitVec.toNat_add, hmn]
    refine ⟨?_, ?_⟩
    · show 0 = _
      omega
    · show (_ + 1) % 4 = _
      omega
  · rw [if_neg (mt hwrap.1 h17), if_neg (mt hwrap.1 h17), BitVec.toNat_add, hmn, hfn]
    refine ⟨?_, ?_⟩
    · show (_ + 1) % 32 = _
      omega
    · omega

/-- Between two pulses no refresh begins. -/
theorem starts_of_not_pulse (hp : i.slotPulse = false) : s.starts i = false := by
  simp [starts, refreshTrigger, hp]

/-- Between two pulses, a refresh that has begun goes on. -/
theorem Prefetched.rest (h : Prefetched schedule n g s) (hp : i.slotPulse = false)
    (hsched : i.schedule = schedule) : Prefetched schedule n (g + 1) (s.step i) := by
  have hs : s.starts i = false := starts_of_not_pulse hp
  unfold Prefetched at h ⊢
  split_ifs at h ⊢ with hn
  · refine ⟨?_, ?_⟩
    · show s.nextState i = .idle
      simp [nextState, h.1, refreshTrigger, hp]
    · show (if s.starts i then false else s.firstRefreshPending) = true
      rw [if_neg (by simp [hs]), h.2]
  · obtain ⟨c, hc, hg, href⟩ := h
    exact ⟨c + 1, Nat.le_add_left 1 c, Nat.succ_le_succ hg, href.step hc hs hsched⟩

/-- **At the pulse of a slot** the next frame is begun when the slot is a frame's last, and after
the reset the current one; the refresh before is over by then. -/
theorem Prefetched.pulse (h : Prefetched schedule n g s) (hp : i.slotPulse = true) (hg : 8 ≤ g)
    (hi : InSlot (n + 1) i) (hsched : i.schedule = schedule) :
    Prefetched schedule (n + 1) 1 (s.step i) := by
  unfold Prefetched at h ⊢
  rw [if_neg n.succ_ne_zero]
  split_ifs at h with hn
  · obtain ⟨hidle, hpending⟩ := h
    have hs : s.starts i = true := by simp [starts, refreshTrigger, hidle, hpending, hp]
    subst hn
    refine ⟨1, le_rfl, le_rfl, refreshing_start hs hsched ?_ ?_⟩
    · rw [effMnLow2, if_pos hs, if_pos hpending, BitVec.extractLsb'_toNat, hi.mn]
      rfl
    · rw [effFn, if_pos hs, if_pos hpending, hi.fn]
  · obtain ⟨c, hc, hgc, href⟩ := h
    have hidle : s.state = .idle := href.state.trans (stage_of_le (by omega))
    by_cases h3 : (n + 1) % 4 = 3
    · have hs : s.starts i = true := by
        simp [starts, refreshTrigger, hidle, hp, hi.tn_eq.2 h3]
      have hpending : ¬ s.firstRefreshPending = true := by simp [href.pending]
      have hframe : (n + 1 + 1) / 4 = (n + 1) / 4 + 1 := by omega
      refine ⟨1, le_rfl, le_rfl, refreshing_start hs hsched ?_ ?_⟩
      · rw [effMnLow2, if_pos hs, if_neg hpending, hi.next.2, hframe]
      · rw [effFn, if_pos hs, if_neg hpending, hi.next.1, hframe]
    · have htn : ¬ i.tn = 3#2 := mt hi.tn_eq.1 h3
      have hs : s.starts i = false := by simp [starts, refreshTrigger, href.pending, htn]
      have hframe : (n + 1 + 1) / 4 = (n + 1) / 4 := by omega
      rw [hframe]
      exact ⟨c + 1, Nat.le_add_left 1 c, by omega, href.step hc hs hsched⟩

/-- **A run keeps the registers a frame ahead.** -/
theorem prefetched_run {is js : List MuxIn} (h : Prefetched schedule n g s)
    (hrun : FreeRunning schedule n g (is ++ js)) :
    ∃ g', Prefetched schedule (n + is.countP (·.slotPulse)) g' (Run.exec step s is) ∧
      FreeRunning schedule (n + is.countP (·.slotPulse)) g' js := by
  induction is generalizing s n g with
  | nil => exact ⟨g, h, hrun⟩
  | cons i is ih =>
      obtain ⟨hsched, hrun⟩ := hrun
      rw [List.countP_cons, Run.exec_cons]
      split_ifs at hrun ⊢ with hp
      · obtain ⟨hg, hi, hrun⟩ := hrun
        rw [Nat.add_comm (List.countP _ is), ← Nat.add_assoc]
        exact ih (h.pulse hp hg hi hsched) hrun
      · exact ih (h.rest (Bool.eq_false_iff.2 hp) hsched) hrun

/-- **When a slot begins its entry is there.**  At every pulse after the first, so from the second
frame on, the register of the timeslot that begins holds the word that the schedule has for the
timeslot in this frame and multiframe. -/
theorem entry_at_pulse {is : List MuxIn} (hrun : FreeRunning schedule 0 8 (is ++ [i]))
    (hp : i.slotPulse = true) (hn : 1 ≤ is.countP (·.slotPulse)) :
    (Run.exec step {} is).entry i.tn =
      schedule (schedIndex i.mn.toNat i.fn.toNat i.tn.toNat) := by
  obtain ⟨g, hpre, hsched, hlast⟩ := prefetched_run prefetched_reset hrun
  rw [if_pos hp] at hlast
  obtain ⟨hg, hi, -⟩ := hlast
  obtain ⟨c, -, hgc, href⟩ := hpre.refreshing (by omega)
  have htn := i.tn.isLt
  rw [Nat.zero_add] at hi href
  rw [href.entry i.tn (by omega), word, schedIndex, schedIndex, hi.tn, hi.fn, hi.mn]
  congr 4
  omega

end SlotContentMux

/-! ## The time base is such a driver -/

namespace TdmaTimebase

open SlotContentMux

variable (schedule : BitVec 9 → BitVec 16)

/-- What the multiplexer sees in a cycle, as `tetra_zynq_top.v` wires it. -/
def muxIn (t : TdmaTimebase) : MuxIn := ⟨t.tn, t.fn, t.mn, t.slotPulse, schedule⟩

/-- What it sees in the cycles of a run. -/
def muxRun : TdmaTimebase → List TimebaseIn → List MuxIn
  | _, [] => []
  | t, e :: es => t.muxIn schedule :: muxRun (t.step e) es

/-- The pulses of boundaries that were crossed, the one of this cycle included. -/
def owed (t : TdmaTimebase) : ℕ := t.due + if t.slotPulse then 1 else 0

variable {t : TdmaTimebase}

/-- At the pulse of a slot the counters are those of the slot. -/
theorem inSlot_muxIn {n m : ℕ} (ht : t.tuple = Odometer.digits radices m) (hn : n = m / 255) :
    InSlot n (t.muxIn schedule) := by
  have htuple : t.tn.toNat = m / 255 % 4 ∧ t.fn.toNat = m / 255 / 4 % 18 ∧
      t.mn.toNat = m / 255 / 4 / 18 % 60 := by
    simp only [tuple, radices, Odometer.digits, List.cons.injEq] at ht
    exact ⟨ht.2.1, ht.2.2.1, ht.2.2.2.1⟩
  subst hn
  refine ⟨htuple.1, htuple.2.1, htuple.2.2.trans ?_⟩
  rw [Nat.div_div_eq_div_mul]

/-- **Without a load the pulses come in order**, 255 cycles apart, from whatever symbol enables. -/
theorem freeRunning_muxRun {es : List TimebaseIn} {n g m : ℕ} (h : t.InRange)
    (hu : t.Unloaded es) (ht : t.tuple = Odometer.digits radices m) (hn : n + t.owed = m / 255)
    (hp : t.Paced g) : FreeRunning schedule n g (muxRun schedule t es) := by
  induction es generalizing t n g m with
  | nil => trivial
  | cons e es ih =>
      have hs : e.syncLoadStrobe = false := hu.2 e List.mem_cons_self
      have hnext : (t.step e).InRange := h.step fun hi ↦ absurd hi (by simp [hs])
      have hone : t.Unloaded [e] := ⟨hu.1, by simpa using hs⟩
      have htuple : (t.step e).tuple =
          Odometer.digits radices (m + if e.symEn then 1 else 0) := by
        rw [tuple_step h hu.commit, ht, Odometer.advance_digits (by decide)]
        split_ifs <;> rfl
      have hcross : m / 255 + (if t.Crosses e then 1 else 0) =
          (m + if e.symEn then 1 else 0) / 255 := by
        simpa [crossings, List.countP_cons] using crossings_run h hone ht
      have howed : (t.step e).owed = (if t.Crosses e then 1 else 0) + t.due :=
        congrArg (· + t.due) (due_step t e)
      refine ⟨rfl, ?_⟩
      have hpaced := hp.step e
      show if t.slotPulse then _ else _
      split_ifs at hpaced ⊢ with hnow
      · obtain ⟨-, htick, hage⟩ := hp.pulse hnow
        have hdue : t.due = 0 := if_neg (by simp [htick])
        rw [owed, if_pos hnow, hdue] at hn
        refine ⟨by omega, inSlot_muxIn schedule ht (by omega), ?_⟩
        exact ih hnext hu.tail htuple (by omega) hpaced
      · rw [owed, if_neg hnow] at hn
        exact ih hnext hu.tail htuple (by omega) hpaced

end TdmaTimebase

namespace SlotContentMux

/-- **The schedule is fetched in time.**  At every pulse after the first, so from the second frame
on, the register of the timeslot that begins holds the word that the schedule has for the timeslot
in this frame and multiframe; and the time base from reset, without a load, is such a driver. -/
theorem scheduled_at_pulse (schedule : BitVec 9 → BitVec 16) :
    (∀ is i, FreeRunning schedule 0 8 (is ++ [i]) → i.slotPulse = true →
      1 ≤ is.countP (·.slotPulse) → (Run.exec step {} is).entry i.tn =
        schedule (schedIndex i.mn.toNat i.fn.toNat i.tn.toNat)) ∧
    ∀ es : List TimebaseIn, (∀ e ∈ es, e.syncLoadStrobe = false) →
      FreeRunning schedule 0 8 (TdmaTimebase.muxRun schedule {} es) := by
  refine ⟨fun is i ↦ entry_at_pulse, fun es hes ↦ ?_⟩
  have hpaced : TdmaTimebase.Paced {} 8 :=
    ⟨by decide, fun h ↦ absurd h (by decide), fun h ↦ absurd h (by decide)⟩
  exact TdmaTimebase.freeRunning_muxRun schedule (m := 0) TdmaTimebase.inRange_reset ⟨rfl, hes⟩
    (by decide) rfl hpaced

/-- A slot of eight cycles whose counters stay. -/
def eightCycles (schedule : BitVec 9 → BitVec 16) (tn : BitVec 2) (fn : BitVec 5) : List MuxIn :=
  ⟨tn, fn, 0, true, schedule⟩ :: List.replicate 7 ⟨tn, fn, 0, false, schedule⟩

theorem FreeRunning.eightCycles {tn : BitVec 2} {fn : BitVec 5} {is : List MuxIn}
    (hi : InSlot (n + 1) ⟨tn, fn, 0, true, schedule⟩) (h : FreeRunning schedule (n + 1) 8 is) :
    FreeRunning schedule n 8 (SlotContentMux.eightCycles schedule tn fn ++ is) :=
  ⟨rfl, le_rfl, hi, rfl, rfl, rfl, rfl, rfl, rfl, rfl, h⟩

/-- Five slots, eight cycles each, into the second frame, with a schedule that holds its
addresses. -/
theorem scheduled_at_pulse_two :
    let slot := eightCycles (·.setWidth 16)
    (Run.exec step {} (slot 1 0 ++ (slot 2 0 ++ (slot 3 0 ++ slot 0 1)))).entry 1 = 5 ∧
      FreeRunning (·.setWidth 16) 0 8
        (TdmaTimebase.muxRun (·.setWidth 16) {} [{ symEn := true }]) := by
  intro slot
  have hpulse : FreeRunning (·.setWidth 16) 4 8 [⟨1, 1, 0, true, (·.setWidth 16)⟩] :=
    ⟨rfl, le_rfl, ⟨rfl, rfl, rfl⟩, trivial⟩
  have hrun : FreeRunning (·.setWidth 16) 0 8
      (slot 1 0 ++ (slot 2 0 ++ (slot 3 0 ++ slot 0 1)) ++ [⟨1, 1, 0, true, (·.setWidth 16)⟩]) :=
    .eightCycles ⟨rfl, rfl, rfl⟩ <| .eightCycles ⟨rfl, rfl, rfl⟩ <|
      .eightCycles ⟨rfl, rfl, rfl⟩ <| .eightCycles ⟨rfl, rfl, rfl⟩ hpulse
  exact ⟨(scheduled_at_pulse _).1 _ _ hrun rfl (by decide),
    (scheduled_at_pulse _).2 _ (by decide)⟩

end SlotContentMux

end TetraPhy.Tx
