import TetraPhy.Daemon.SdsRelay

/-!
# When the blocks of a long SDS are posted

`service_sds_dl_delivery` is polled at any time and reads the air frame number, 0 to 17.  A poll
posts a block, ends the delivery, or does nothing (`Outcome`); the log of a run has the frame
number and the outcome of each poll.

* `SdsDl.due_of_deliver` — with any frame numbers, the blocks go out in their order, in a frame that
  is new, the first one early enough and none in frame 17;
* `SdsDl.deliver_everyFrame` — if no air frame goes by without a poll, block `k` goes out in frame
  `F + k` and the delivery ends in frame `F + n`, all of them in one frame cycle.

**`delivery_schedule`** says both of a delivery that `sds_dl_delivery_start` accepted, whatever the
call FSM and the voice pipe do beside it.
-/

namespace TetraPhy.Daemon

open Sw Lmac Run

/-! ## What a poll does -/

/-- What a poll comes to. -/
inductive Outcome
  | nothing
  | posted (block : ℕ)
  | finished
deriving DecidableEq, Repr

/-- The block that was posted. -/
def Outcome.block : Outcome → Option ℕ
  | posted k => some k
  | _ => none

namespace SdsDl

/-- A poll in a frame. -/
def poll (s : SdsDl) (fn : UInt16) : SdsDl × Outcome :=
  if !s.active then (s, .nothing)
  else if fn == s.lastFn then (s, .nothing)
  else
    let s := { s with lastFn := fn }
    if s.idx < s.n then
      let win : ℤ := 16 - s.n
      if s.idx == 0 && decide (win ≥ 0) && decide (fn.toNat > win) then (s, .nothing)
      else if fn == 17 then (s, .nothing)
      else ({ s with idx := s.idx + 1 }, .posted s.idx)
    else ({ s with active := false }, .finished)

variable {s : SdsDl} {fn : UInt16}

theorem poll_of_inactive (h : s.active = false) : s.poll fn = (s, .nothing) := by
  rw [poll, h]
  rfl

theorem poll_same_frame (h : fn = s.lastFn) : s.poll fn = (s, .nothing) := by
  rw [poll, if_pos (beq_iff_eq.2 h), ite_self]

/-- A poll of an active delivery in a new frame. -/
theorem poll_new_frame (ha : s.active = true) (h : fn ≠ s.lastFn) (hn : s.n ≤ 16) :
    s.poll fn =
      if s.idx < s.n then
        if s.idx = 0 ∧ 16 < fn.toNat + s.n ∨ fn = 17 then ({ s with lastFn := fn }, .nothing)
        else ({ s with lastFn := fn, idx := s.idx + 1 }, .posted s.idx)
      else ({ s with lastFn := fn, active := false }, .finished) := by
  rw [poll, ha, if_neg (by decide), if_neg (by simpa using h)]
  dsimp only
  refine if_congr Iff.rfl ?_ rfl
  have hwin : (s.idx == 0 && decide ((16 : ℤ) - s.n ≥ 0) && decide ((fn.toNat : ℤ) > 16 - s.n)) =
      decide (s.idx = 0 ∧ 16 < fn.toNat + s.n) := by
    rw [decide_eq_true (show (16 : ℤ) - s.n ≥ 0 by omega), Bool.and_true, Bool.decide_and]
    exact congrArg₂ (· && ·) rfl (decide_eq_decide.2 (by omega))
  rw [hwin]
  by_cases hw : s.idx = 0 ∧ 16 < fn.toNat + s.n
  · rw [if_pos (decide_eq_true hw), if_pos (.inl hw)]
  · rw [if_neg (by simpa using hw)]
    exact if_congr (by rw [beq_iff_eq, or_iff_right hw]) rfl rfl

/-! ## Polls one after another -/

/-- A delivery that is polled in these frames: where it stands, and the log. -/
def deliver (s : SdsDl) : List UInt16 → SdsDl × List (UInt16 × Outcome)
  | [] => (s, [])
  | fn :: fns =>
    let r := (s.poll fn).1.deliver fns
    (r.1, (fn, (s.poll fn).2) :: r.2)

theorem deliver_append (s : SdsDl) (fns gns : List UInt16) :
    s.deliver (fns ++ gns) =
      (((s.deliver fns).1.deliver gns).1, (s.deliver fns).2 ++ ((s.deliver fns).1.deliver gns).2) := by
  induction fns generalizing s with
  | nil => rfl
  | cons fn fns ih => rw [List.cons_append, deliver, ih, deliver]; rfl

theorem map_fst_deliver (s : SdsDl) (fns : List UInt16) : (s.deliver fns).2.map Prod.fst = fns := by
  induction fns generalizing s with
  | nil => rfl
  | cons fn fns ih => rw [deliver, List.map_cons, ih]

/-- An entry of the log is a poll after those before it. -/
theorem deliver_split {fns : List UInt16} {pre post : List (UInt16 × Outcome)} {o : Outcome}
    (h : (s.deliver fns).2 = pre ++ (fn, o) :: post) :
    ∃ before, (s.deliver before).2 = pre ∧ o = ((s.deliver before).1.poll fn).2 := by
  have hfns := congrArg (List.map Prod.fst) h
  rw [map_fst_deliver, List.map_append, List.map_cons] at hfns
  refine ⟨pre.map Prod.fst, ?_⟩
  rw [hfns, deliver_append, deliver] at h
  obtain ⟨hpre, hcons⟩ := List.append_inj h (by
    rw [← List.length_map Prod.fst, map_fst_deliver, List.length_map])
  exact ⟨hpre, (Prod.mk.inj (List.cons.inj hcons).1).2.symm⟩

/-! ### In any frames -/

/-- The blocks of a log. -/
def blocks (log : List (UInt16 × Outcome)) : List ℕ := log.filterMap fun x ↦ x.2.block

/-- The frame that was observed last; `f₀` is that of the start. -/
def lastFrame (f₀ : UInt16) (log : List (UInt16 × Outcome)) : UInt16 :=
  (log.map Prod.fst).getLastD f₀

/-- What an outcome demands of the log before it and of the frame: the blocks come one after
another and in new frames, the first one early enough, none in frame 17; the end comes after the
last block and once. -/
def Due (n : ℕ) (f₀ : UInt16) (log : List (UInt16 × Outcome)) (fn : UInt16) : Outcome → Prop
  | .nothing => True
  | .posted k => k < n ∧ blocks log = List.range k ∧ fn ≠ lastFrame f₀ log ∧ fn ≠ 17 ∧
      (k = 0 → fn.toNat ≤ 16 - n)
  | .finished => blocks log = List.range n ∧ fn ≠ lastFrame f₀ log ∧
      .finished ∉ log.map Prod.snd

/-- Where a delivery of `n` blocks stands after a log. -/
structure After (n : ℕ) (f₀ : UInt16) (log : List (UInt16 × Outcome)) (s : SdsDl) : Prop where
  n_eq : s.n = n
  blocks : blocks log = List.range s.idx
  idx_le : s.idx ≤ n
  going : s.active = true → s.lastFn = lastFrame f₀ log ∧ .finished ∉ log.map Prod.snd
  ended : s.active = false → s.idx = n

theorem blocks_append (log : List (UInt16 × Outcome)) (x : UInt16 × Outcome) :
    blocks (log ++ [x]) = blocks log ++ x.2.block.toList := by
  rw [blocks, List.filterMap_append]
  refine congrArg (blocks log ++ ·) ?_
  cases h : x.2.block with
  | none => exact List.filterMap_cons_none h
  | some k => exact List.filterMap_cons_some h

theorem lastFrame_append (f₀ fn : UInt16) (log : List (UInt16 × Outcome)) (o : Outcome) :
    lastFrame f₀ (log ++ [(fn, o)]) = fn := by
  rw [lastFrame, List.map_append]
  exact List.getLastD_concat

variable {n : ℕ} {f₀ : UInt16} {log : List (UInt16 × Outcome)}

theorem After.of_nothing (h : After n f₀ log s) :
    After n f₀ (log ++ [(fn, .nothing)]) (if s.active then { s with lastFn := fn } else s) where
  n_eq := by split_ifs <;> exact h.n_eq
  blocks := by
    rw [blocks_append, h.blocks]
    split_ifs <;> exact List.append_nil _
  idx_le := by split_ifs <;> exact h.idx_le
  going ha := by
    split_ifs at ha ⊢ with hact
    · refine ⟨(lastFrame_append f₀ fn log _).symm, ?_⟩
      rw [List.map_append, List.mem_append, not_or]
      exact ⟨(h.going hact).2, by simp⟩
    · exact absurd ha hact
  ended ha := by
    split_ifs at ha ⊢ with hact
    · exact absurd (hact.symm.trans ha) (by decide)
    · exact h.ended ha

/-- **What a poll does is due**, and leaves the delivery where it stands after it. -/
theorem After.poll (h : After n f₀ log s) (hn : n ≤ 16) (fn : UInt16) :
    Due n f₀ log fn (s.poll fn).2 ∧ After n f₀ (log ++ [(fn, (s.poll fn).2)]) (s.poll fn).1 := by
  have hnothing : After n f₀ (log ++ [(fn, .nothing)]) _ := h.of_nothing
  obtain rfl := h.n_eq
  cases ha : s.active with
  | false =>
      rw [if_neg (by rw [ha]; decide)] at hnothing
      rw [poll_of_inactive ha]
      exact ⟨trivial, hnothing⟩
  | true =>
      rw [if_pos ha] at hnothing
      obtain ⟨hlast, hnot⟩ := h.going ha
      by_cases hfn : fn = s.lastFn
      · rw [poll_same_frame hfn]
        exact ⟨trivial, by subst hfn; exact hnothing⟩
      have hnew : fn ≠ lastFrame f₀ log := hlast ▸ hfn
      have hnotIn (o : Outcome) (ho : o ≠ .finished) :
          .finished ∉ (log ++ [(fn, o)]).map Prod.snd := by
        rw [List.map_append, List.mem_append, not_or]
        exact ⟨hnot, by simpa using ho.symm⟩
      rw [poll_new_frame ha hfn hn]
      split_ifs with hidx hwin
      · exact ⟨trivial, hnothing⟩
      · obtain ⟨hearly, h17⟩ := not_or.1 hwin
        refine ⟨⟨hidx, h.blocks, hnew, h17, fun h0 ↦ ?_⟩, h.n_eq, ?_, hidx, fun _ ↦ ?_, fun hf ↦ ?_⟩
        · have := not_and.1 hearly h0
          omega
        · rw [blocks_append, h.blocks]
          exact List.range_succ.symm
        · exact ⟨(lastFrame_append f₀ fn log _).symm, hnotIn _ (by simp)⟩
        · exact absurd (ha.symm.trans hf) (by decide)
      · have hall : s.idx = s.n := Nat.le_antisymm h.idx_le (Nat.not_lt.1 hidx)
        refine ⟨⟨hall ▸ h.blocks, hnew, hnot⟩, h.n_eq, ?_, h.idx_le, fun hf ↦ ?_, fun _ ↦ hall⟩
        · rw [blocks_append, h.blocks]
          exact List.append_nil _
        · exact absurd hf Bool.false_ne_true

/-- Polls leave a delivery where it stands after their log. -/
theorem After.deliver (h : After n f₀ log s) (hn : n ≤ 16) (fns : List UInt16) :
    After n f₀ (log ++ (s.deliver fns).2) (s.deliver fns).1 := by
  induction fns generalizing s log with
  | nil =>
      rw [SdsDl.deliver, List.append_nil]
      exact h
  | cons fn fns ih =>
      have := ih (h.poll hn fn).2
      rw [List.append_assoc] at this
      exact this

/-- **In any frames**: every entry of the log is due after those before it. -/
theorem After.due_of_deliver (h : After n f₀ [] s) (hn : n ≤ 16) {fns : List UInt16}
    {pre post : List (UInt16 × Outcome)} {o : Outcome}
    (hlog : (s.deliver fns).2 = pre ++ (fn, o) :: post) : Due n f₀ pre fn o := by
  obtain ⟨before, rfl, rfl⟩ := deliver_split hlog
  exact ((h.deliver hn before).poll hn fn).1

/-! ### In every frame -/

/-- The air frames in which a delivery is polled, by a count that goes on: none is left out. -/
def EveryFrame : ℕ → List ℕ → Prop
  | _, [] => True
  | p, t :: ts => (t = p ∨ t = p + 1) ∧ EveryFrame t ts

instance decidableEveryFrame : ∀ p ts, Decidable (EveryFrame p ts)
  | _, [] => inferInstanceAs (Decidable True)
  | p, t :: ts =>
    have := decidableEveryFrame t ts
    inferInstanceAs (Decidable ((t = p ∨ t = p + 1) ∧ EveryFrame t ts))

/-- What is due in air frame `t` after a poll in `p`, if block 0 goes out in frame `F`. -/
def dueAt (F n p t : ℕ) : Outcome :=
  if t = p then .nothing
  else if F ≤ t ∧ t < F + n then .posted (t - F)
  else if t = F + n then .finished
  else .nothing

/-- What is due in frames one after another. -/
def schedule (F n : ℕ) : ℕ → List ℕ → List Outcome
  | _, [] => []
  | p, t :: ts => dueAt F n p t :: schedule F n t ts

/-- `F` is the first frame after `t₀` from which `n` frames lie before frame 17. -/
structure FirstFrame (n t₀ F : ℕ) : Prop where
  after : t₀ < F
  early : F % 18 + n ≤ 16
  first : ∀ t, t₀ < t → t % 18 + n ≤ 16 → F ≤ t

/-- There is such a frame. -/
theorem exists_firstFrame (hn : n ≤ 16) (t₀ : ℕ) : ∃ F, FirstFrame n t₀ F := by
  have hex : ∃ F, t₀ < F ∧ F % 18 + n ≤ 16 := ⟨18 * (t₀ + 1), by omega, by omega⟩
  classical
  obtain ⟨hafter, hearly⟩ := Nat.find_spec hex
  exact ⟨Nat.find hex, hafter, hearly, fun t ht he ↦ Nat.find_min' hex ⟨ht, he⟩⟩

/-- Where a delivery stands after a poll in air frame `p`. -/
structure At (F n p : ℕ) (s : SdsDl) : Prop where
  n_eq : s.n = n
  active : s.active = decide (p < F + n)
  lastFn : s.active = true → s.lastFn.toNat = p % 18
  idx : s.idx = min (p + 1 - F) n

variable {t₀ F p t : ℕ}

/-- A poll in the same frame or in the next one does what is due in it. -/
theorem At.poll (h : At F n p s) (hF : FirstFrame n t₀ F) (hpos : 0 < n) (hp : t₀ ≤ p) (ht : t = p ∨ t = p + 1)
    (hfn : fn.toNat = t % 18) : (s.poll fn).2 = dueAt F n p t ∧ At F n t (s.poll fn).1 := by
  have hn : n ≤ 16 := le_trans (Nat.le_add_left _ _) hF.early
  have hearly := hF.early
  have hidx := h.idx
  cases ha : s.active with
  | false =>
      have hover : F + n ≤ p := by simpa [ha] using h.active
      rw [poll_of_inactive ha]
      refine ⟨?_, h.n_eq, ?_, fun hc ↦ absurd (ha.symm.trans hc) (by decide), by
        dsimp only
        omega⟩
      · rw [dueAt]
        split_ifs <;> first | rfl | omega
      · rw [ha, decide_eq_false (by omega)]
  | true =>
      have hgoing : p < F + n := by simpa [ha] using h.active
      have hlast := h.lastFn ha
      rcases ht with rfl | rfl
      · have hsame : fn = s.lastFn := UInt16.toNat_inj.1 (hfn.trans hlast.symm)
        rw [poll_same_frame hsame, dueAt, if_pos rfl]
        exact ⟨rfl, h⟩
      · have hne : fn ≠ s.lastFn := by
          rintro rfl
          omega
        have h17 : fn = 17 ↔ (p + 1) % 18 = 17 := by
          rw [← UInt16.toNat_inj, hfn]
          rfl
        have hmod : F ≤ p + 1 → p + 1 ≤ F + n → (p + 1) % 18 = F % 18 + (p + 1 - F) := by omega
        obtain rfl := h.n_eq
        rw [poll_new_frame ha hne hn, dueAt, if_neg (show ¬ p + 1 = p by omega)]
        rcases Nat.lt_or_ge (p + 1) F with hbefore | hfrom
        · -- the first block would be too late
          have hwait : 16 < (p + 1) % 18 + s.n := by
            by_contra hearly'
            exact absurd (hF.first (p + 1) (by omega) (Nat.not_lt.1 hearly')) (by omega)
          rw [if_pos (show s.idx < s.n by omega), if_pos (.inl ⟨by omega, by omega⟩),
            if_neg (by omega), if_neg (by omega)]
          refine ⟨rfl, rfl, ?_, fun _ ↦ hfn, ?_⟩
          · exact ha.trans (decide_eq_true (by omega)).symm
          · dsimp only
            omega
        · rcases Nat.lt_or_ge (p + 1) (F + s.n) with hin | hend
          · have hnot : ¬ (s.idx = 0 ∧ 16 < fn.toNat + s.n ∨ fn = 17) := by
              rw [h17, hfn]
              have := hmod hfrom hin.le
              omega
            rw [if_pos (show s.idx < s.n by omega), if_neg hnot, if_pos ⟨hfrom, hin⟩]
            refine ⟨congrArg Outcome.posted (by omega), rfl, ?_, fun _ ↦ hfn, ?_⟩
            · exact ha.trans (decide_eq_true (by omega)).symm
            · dsimp only
              omega
          · rw [if_neg (show ¬ s.idx < s.n by omega), if_neg (by omega),
              if_pos (show p + 1 = F + s.n by omega)]
            refine ⟨rfl, rfl, ?_, fun hc ↦ absurd hc Bool.false_ne_true, ?_⟩
            · exact (decide_eq_false (by omega)).symm
            · dsimp only
              omega

/-- **In every frame**: the log is the schedule. -/
theorem At.deliver (h : At F n p s) (hF : FirstFrame n t₀ F) (hpos : 0 < n) (hp : t₀ ≤ p)
    {fns : List UInt16} {ts : List ℕ} (hts : EveryFrame p ts)
    (hfns : fns.map UInt16.toNat = ts.map (· % 18)) :
    (s.deliver fns).2.map Prod.snd = schedule F n p ts := by
  induction ts generalizing s p fns with
  | nil =>
      rw [List.map_nil, List.map_eq_nil_iff] at hfns
      rw [hfns]
      rfl
  | cons t ts ih =>
      cases fns with
      | nil => cases hfns
      | cons fn fns =>
          obtain ⟨hfn, hfns⟩ := List.cons.inj hfns
          obtain ⟨hdue, hat⟩ := h.poll hF hpos hp hts.1 hfn
          rw [SdsDl.deliver, List.map_cons, schedule]
          exact congrArg₂ List.cons hdue (ih hat (by rcases hts.1 with h | h <;> omega) hts.2 hfns)

end SdsDl

/-! ## The delivery in the daemon -/

namespace Services

variable (d : Services)

/-- What a poll writes: the block on the bank of TS1 and the mask; or the mask, the cleared bank and
the slot grant for the recipient. -/
def PollWrites (idle : Bool) (ws : List RegWrite) : Outcome → Prop
  | .nothing => ws = []
  | .posted k => ∃ m, ws = voiceFillerWriteTs (d.sds.type5 k) 1 ++ [⟨regVoiceActiveMask, m⟩]
  | .finished => ∃ m, ws = [⟨regVoiceActiveMask, m⟩] ++ voiceFillerClearTs 1 ++
      (rxSlotgrant idle d.sds.dest).1

/-- What `service_sds_dl_delivery` does is what its outcome says. -/
theorem serviceSdsDlDelivery_poll (txTdma : UInt32) (idle : Bool) :
    (d.serviceSdsDlDelivery txTdma idle).sds = (d.sds.poll (airFn txTdma)).1 ∧
      ∃ ws, (d.serviceSdsDlDelivery txTdma idle).fsm.hal = d.fsm.hal ++ ws ∧
        d.PollWrites idle ws (d.sds.poll (airFn txTdma)).2 := by
  rw [serviceSdsDlDelivery, SdsDl.poll]
  dsimp only
  split_ifs
  · exact ⟨rfl, [], (List.append_nil _).symm, rfl⟩
  · exact ⟨rfl, [], (List.append_nil _).symm, rfl⟩
  · exact ⟨rfl, [], (List.append_nil _).symm, rfl⟩
  · exact ⟨rfl, [], (List.append_nil _).symm, rfl⟩
  · exact ⟨rfl, _, List.append_assoc _ _ _, _, rfl⟩
  · refine ⟨rfl, [⟨regVoiceActiveMask,
      d.fsm.maskReg &&& ~~~(((1 : UInt32) <<< 4) ||| ((1 : UInt32) <<< 8))⟩] ++ voiceFillerClearTs 1 ++
        (rxSlotgrant idle d.sds.dest).1, ?_, _, rfl⟩
    simp only [finish, CallFsm.Fsm.emit, List.append_assoc]

/-- The polls of a run: the frame that was observed and the outcome. -/
def log (d : Services) : List Event → List (UInt16 × Outcome)
  | [] => []
  | .poll txTdma idle :: es =>
    (airFn txTdma, (d.sds.poll (airFn txTdma)).2) :: log (d.step (.poll txTdma idle)) es
  | e :: es => log (d.step e) es

/-- The frames that a run observes. -/
def frames (es : List Event) : List UInt16 :=
  es.filterMap fun
    | .poll txTdma _ => some (airFn txTdma)
    | _ => none

/-- A start is attempted while a delivery is active only. -/
def StartsBusy (d : Services) : Event → Prop
  | .start _ _ _ _ => d.sds.active = true
  | _ => True

/-- It leaves the delivery alone. -/
theorem step_start_of_active {d : Services} (h : d.sds.active = true) (dest : UInt32) (n : ℕ)
    (type5 : ℕ → ℕ → Bool) (txTdma : UInt32) : d.step (.start dest n type5 txTdma) = d := by
  rw [step, SdsDl.start, h, Bool.true_or, if_pos rfl]

/-- The log of a run is that of the polls alone. -/
theorem log_eq_deliver {d : Services} {es : List Event} (h : Along step StartsBusy d es) :
    d.log es = (d.sds.deliver (frames es)).2 := by
  induction es generalizing d with
  | nil => rfl
  | cons e es ih =>
      have hrest := ih h.2
      cases e with
      | poll txTdma idle =>
          rw [log, hrest]
          change _ :: (SdsDl.deliver (d.serviceSdsDlDelivery txTdma idle).sds (frames es)).2 = _
          rw [(d.serviceSdsDlDelivery_poll txTdma idle).1]
          rfl
      | start dest n type5 txTdma =>
          change (d.step (.start dest n type5 txTdma)).log es = _
          rw [hrest, step_start_of_active h.1]
          rfl
      | call e => exact hrest
      | pipe burst => exact hrest

end Services

/-! ### An accepted start -/

theorem length_sdsFragChain {room : ℕ} {rest : List Bool} {chain : List SdsFrag}
    (h : sdsFragChain room rest = some chain) : chain.length ≤ room := by
  fun_induction sdsFragChain room rest generalizing chain with
  | case1 => cases h
  | case2 room =>
      obtain rfl := Option.some.inj h
      exact Nat.le_add_left 1 room
  | case3 room b rest hlong ih =>
      obtain ⟨tail, htail, rfl⟩ := Option.map_eq_some_iff.1 h
      exact Nat.succ_le_succ (ih htail)
  | case4 room b rest hshort =>
      obtain rfl := Option.some.inj h
      exact Nat.le_add_left 1 room

/-- A chain has one block to eight. -/
theorem length_sdsDlBuildFragments {dest calling : UInt32} {ns nr : UInt8} {udd : List UInt8}
    {frags : List SdsFrag} (h : sdsDlBuildFragments dest calling ns nr udd = some frags) :
    0 < frags.length ∧ frags.length ≤ sdsDlFragMax := by
  rw [sdsDlBuildFragments] at h
  split_ifs at h
  obtain ⟨tail, htail, rfl⟩ := Option.map_eq_some_iff.1 h
  exact ⟨Nat.succ_pos _, Nat.succ_le_succ (length_sdsFragChain htail)⟩

/-- What an accepted start leaves. -/
structure Accepted (env : SdsEnv) (s : SdsDl) : Prop where
  active : s.active = true
  pos : 0 < s.n
  le : s.n ≤ sdsDlFragMax
  idx : s.idx = 0
  lastFn : s.lastFn = airFn env.txTdma

theorem accepted_of_start {env : SdsEnv} {dest calling : UInt32} {ns nr : UInt8}
    {udd : List UInt8} {s : SdsDl} (hs : s.active = false)
    (h : (sdsDlDeliveryStart env dest calling ns nr udd s).active = true) :
    Accepted env (sdsDlDeliveryStart env dest calling ns nr udd s) := by
  rw [sdsDlDeliveryStart, if_neg (by rw [hs]; decide)] at h ⊢
  cases hfrags : sdsDlBuildFragments dest calling ns nr udd with
  | none =>
      rw [hfrags] at h
      exact absurd (hs.symm.trans h) (by decide)
  | some frags =>
      obtain ⟨type5, hmap, -⟩ := mapM_schfEncode env frags
      obtain ⟨hpos, hle⟩ := length_sdsDlBuildFragments hfrags
      have hn : (s.active || frags.length == 0) = false := by
        rw [hs, Bool.false_or, beq_eq_false_iff_ne]
        exact hpos.ne'
      dsimp only
      rw [hmap]
      dsimp only
      rw [SdsDl.start, hn, if_neg Bool.false_ne_true]
      exact ⟨rfl, hpos, hle, rfl, rfl⟩

namespace Services

/-- **The schedule of a delivery** that was accepted.  With any polls, what each of them does is due
after those before it; if no air frame goes by without a poll, block `k` goes out in frame `F + k`
and the delivery ends in frame `F + n`.  Each poll writes what its outcome says, and a start that
is attempted meanwhile changes nothing. -/
theorem delivery_schedule {env : SdsEnv} {dest calling : UInt32} {ns nr : UInt8}
    {udd : List UInt8} {s : SdsDl} (hs : s.active = false) {d : Services}
    (hd : d.sds = sdsDlDeliveryStart env dest calling ns nr udd s) (hact : d.sds.active = true)
    (es : List Event) (hstarts : Along step StartsBusy d es) :
    (∀ pre fn o post, d.log es = pre ++ (fn, o) :: post →
      SdsDl.Due d.sds.n (airFn env.txTdma) pre fn o) ∧
    (∀ t₀ ts, (airFn env.txTdma).toNat = t₀ % 18 → SdsDl.EveryFrame t₀ ts →
      (frames es).map UInt16.toNat = ts.map (· % 18) →
        ∃ F, SdsDl.FirstFrame d.sds.n t₀ F ∧
          (d.log es).map Prod.snd = SdsDl.schedule F d.sds.n t₀ ts) ∧
    (∀ (d' : Services) (txTdma : UInt32) (idle : Bool),
      ∃ ws, (d'.step (.poll txTdma idle)).fsm.hal = d'.fsm.hal ++ ws ∧
        d'.PollWrites idle ws (d'.sds.poll (airFn txTdma)).2) ∧
    (∀ d' : Services, d'.sds.active = true →
      (∀ dest n type5 txTdma, d'.step (.start dest n type5 txTdma) = d') ∧
        ∀ env dest calling ns nr udd, sdsDlDeliveryStart env dest calling ns nr udd d'.sds =
          d'.sds) := by
  have hacc : Accepted env d.sds := by
    rw [hd] at hact ⊢
    exact accepted_of_start hs hact
  have hn : d.sds.n ≤ 16 := hacc.le.trans (by decide)
  rw [log_eq_deliver hstarts]
  refine ⟨fun pre fn o post hlog ↦ ?_, fun t₀ ts ht₀ hts hfns ↦ ?_,
    fun d' txTdma idle ↦ (d'.serviceSdsDlDelivery_poll txTdma idle).2,
    fun d' ha ↦ ⟨step_start_of_active ha, fun _ _ _ _ _ _ ↦ by rw [sdsDlDeliveryStart, if_pos ha]⟩⟩
  · have hafter : SdsDl.After d.sds.n (airFn env.txTdma) [] d.sds :=
      ⟨rfl, by rw [hacc.idx]; rfl, by rw [hacc.idx]; exact Nat.zero_le _,
        fun _ ↦ ⟨hacc.lastFn, List.not_mem_nil⟩, fun hf ↦ absurd (hact.symm.trans hf) (by decide)⟩
    exact hafter.due_of_deliver hn hlog
  · obtain ⟨F, hF⟩ := SdsDl.exists_firstFrame hn t₀
    have hlt := hF.after
    have hat : SdsDl.At F d.sds.n t₀ d.sds :=
      ⟨rfl, hact.trans (decide_eq_true (by omega)).symm, fun _ ↦ by rw [hacc.lastFn, ht₀],
        by rw [hacc.idx]; omega⟩
    exact ⟨F, hF, hat.deliver hF hacc.pos le_rfl hts hfns⟩

/-- 25 octets in two blocks: started in frame 0, polled in the frames 1 to 3, in frame 2 twice. -/
def twoBlocks : Services where
  sds := sdsDlDeliveryStart twentyFiveOctets 2633617 2633716 1 1 (List.replicate 25 0x41) {}

def twoBlocksRun : List Event := [.poll 4 true, .poll 8 true, .poll 8 true, .poll 12 true]

theorem twoBlocks_schedule :
    ∃ F, SdsDl.FirstFrame 2 0 F ∧
      (twoBlocks.log twoBlocksRun).map Prod.snd = SdsDl.schedule F 2 0 [1, 2, 2, 3] := by
  have hact : twoBlocks.sds.active = true := by decide +kernel
  have hn : twoBlocks.sds.n = 2 := by decide +kernel
  have hstart : twoBlocks.sds = sdsDlDeliveryStart twentyFiveOctets 2633617 2633716 1 1
      (List.replicate 25 0x41) {} := by rw [twoBlocks]
  have hidle : ({} : SdsDl).active = false := by decide
  obtain ⟨-, hevery, -⟩ := delivery_schedule hidle hstart hact twoBlocksRun
    ⟨trivial, trivial, trivial, trivial, trivial⟩
  have hrun := hevery 0 [1, 2, 2, 3] (by decide) (by decide) (by decide)
  rwa [hn] at hrun

end Services

end TetraPhy.Daemon
