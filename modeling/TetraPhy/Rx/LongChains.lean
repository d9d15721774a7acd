import TetraPhy.Rx.UplinkHistory

/-!
# Whose fragments a long SDS consists of

The long-SDS store has one chain for all timeslots.  A continuation on SCH/F carries no SSI, and
nothing is compared with the chain before it is appended; a new start throws away whatever chain
there is; and past `UL_LSDS_MAX_BITS` the buffer takes no more.

**`long_right_iff`** says which runs go right all the same; `long_mixed` is one that does not.
-/

namespace TetraPhy.Rx

open Sw

namespace History

/-- Everything received of the chain, oldest first. -/
def chainBits (s : History) : List Bool := s.chain.bits ++ s.parts.flatMap Part.bits

/-- The chain in the store is what was received of it, as far as the buffer goes. -/
structure Chained (s : History) : Prop where
  ssi : s.ctx.lsds.active = true → s.ctx.lsds.ssi = s.chain.issi
  body : s.ctx.lsds.active = true → s.ctx.lsds.body = s.chainBits.take ulLsdsMaxBits

theorem chained_init (cc scrSlot : UInt8) (mcc mnc : UInt16) :
    Chained (init cc scrSlot mcc mnc) :=
  ⟨fun h ↦ absurd h Bool.false_ne_true, fun h ↦ absurd h Bool.false_ne_true⟩

section Handle

variable {s : History} {sender nowMs : UInt32} {slot : Fin 4} {info : List Bool}

theorem Chained.start : Chained (s.handle sender nowMs (.start slot info)) := by
  refine ⟨fun _ ↦ issi_and info, fun _ ↦ ?_⟩
  change slice info 30 62 = (slice info 30 62 ++ ([] : List Part).flatMap Part.bits).take 8192
  rw [List.flatMap_nil, List.append_nil, List.take_of_length_le]
  have hlen : (slice info 30 62).length ≤ 62 := List.length_take_le _ _
  omega

theorem chainBits_frag (ha : s.ctx.lsds.active = true) (isEnd : Bool) :
    (s.handle sender nowMs (.frag slot isEnd info)).chainBits =
      s.chainBits ++ UlLsds.payload isEnd info := by
  simp only [handle, note, ha, if_true, chainBits, List.flatMap_append, List.flatMap_cons,
    List.flatMap_nil, List.append_nil, List.append_assoc]

/-- A fragment without a chain changes nothing. -/
theorem handle_frag_of_inactive (ha : s.ctx.lsds.active = false) (isEnd : Bool) :
    s.handle sender nowMs (.frag slot isEnd info) = s := by
  simp only [handle, note, UlRxCtx.handle, UlRxCtx.contLongSds, UlLsds.frag, ha, Bool.not_false,
    if_true, Bool.false_eq_true, if_false]

theorem Chained.frag (h : Chained s) (isEnd : Bool) :
    Chained (s.handle sender nowMs (.frag slot isEnd info)) := by
  cases ha : s.ctx.lsds.active with
  | false => rwa [handle_frag_of_inactive ha]
  | true =>
      refine ⟨fun hactive ↦ ?_, fun hactive ↦ ?_⟩
      · cases isEnd <;>
          simp [handle, note, UlRxCtx.handle, UlRxCtx.contLongSds, UlLsds.frag, ha] at hactive ⊢
        exact h.ssi ha
      · rw [chainBits_frag ha, ← UlLsds.take_append_take, ← h.body ha]
        cases isEnd <;>
          simp [handle, note, UlRxCtx.handle, UlRxCtx.contLongSds, UlLsds.frag, ha] at hactive ⊢

theorem Chained.handle (h : Chained s) (b : UlBlock) : Chained (s.handle sender nowMs b) := by
  cases b with
  | invalid => exact h
  | ignored => exact h
  | endHu slot info =>
      simp only [History.handle, note, UlRxCtx.handle, UlRxCtx.endDemand, UlReass.reassEnd, source]
      cases s.ctx.demand.matching (s.ctx.slotSsi slot) with
      | none => exact ⟨h.ssi, h.body⟩
      | some i => exact ⟨h.ssi, h.body⟩
  | start slot info => exact Chained.start
  | single info => exact h
  | frag slot isEnd info => exact h.frag isEnd
  | schf info => exact h

theorem Chained.tick (h : Chained s) (nowMs : UInt32) : Chained (s.step (.tick nowMs)) := by
  obtain ⟨held, book, hstep⟩ := step_tick s nowMs
  have hlsds : (s.ctx.lsds.tick nowMs).ssi = s.ctx.lsds.ssi ∧
      (s.ctx.lsds.tick nowMs).body = s.ctx.lsds.body := by
    rw [UlLsds.tick]
    split <;> exact ⟨rfl, rfl⟩
  rw [hstep]
  exact ⟨fun ha ↦ hlsds.1.trans (h.ssi (active_of_tick ha)),
    fun ha ↦ hlsds.2.trans (h.body (active_of_tick ha))⟩

theorem Chained.step (h : Chained s) (e : UplinkEvent) : Chained (s.step e) := by
  cases e with
  | burst words stack sender nowMs => exact h.handle _
  | tick nowMs => exact h.tick nowMs

end Handle

/-- A delivered long SDS `r` is its chain and the MAC-END `info`, whole and in order, and all of
it is of the terminal and from the timeslot of the start. -/
structure OneTransmission (s : History) (sender : UInt32) (slot : Fin 4) (info : List Bool)
    (r : UlRxResult) : Prop where
  body : r.body = s.chainBits ++ UlLsds.payload true info
  ssi : r.ssi = s.chain.issi
  parts : ∀ p ∈ s.parts ++ [⟨sender, slot, UlLsds.payload true info⟩],
    p.sender = s.chain.issi ∧ p.slot = s.chain.slot

/-- What the service delivers is one transmission, and a chain another terminal's start ends is
counted as dropped. -/
def LongRight (s : History) : UplinkEvent → Prop
  | .burst words stack sender nowMs =>
      let r := s.ctx.service words stack nowMs
      (r.2.1.haveBody = true → r.2.1.source = .longSds → ∃ slot info,
        s.ctx.ulBlockOf words stack = .frag slot true info ∧
          s.OneTransmission sender slot info r.2.1) ∧
      ∀ slot info, s.ctx.ulBlockOf words stack = .start slot info →
        s.ctx.lsds.active = true → s.ctx.lsds.ssi ≠ (ulMacAccessParse info).issi →
          r.1.lsds.dropCnt = s.ctx.lsds.dropCnt + 1
  | .tick _ => True

/-- A MAC-END completes a chain of its own terminal and timeslot that fits the buffer, and a start
finds no chain of another terminal. -/
def LongBlockFits (s : History) (sender : UInt32) : UlBlock → Prop
  | .frag slot true info => s.ctx.lsds.active = true →
      (∀ p ∈ s.parts ++ [⟨sender, slot, UlLsds.payload true info⟩],
        p.sender = s.chain.issi ∧ p.slot = s.chain.slot) ∧
      (s.chainBits ++ UlLsds.payload true info).length ≤ ulLsdsMaxBits
  | .start _ info => s.ctx.lsds.active = true → (ulMacAccessParse info).issi = s.chain.issi
  | _ => True

/-- The received block fits. -/
def LongFits (s : History) : UplinkEvent → Prop
  | .burst words stack sender _ => s.LongBlockFits sender (s.ctx.ulBlockOf words stack)
  | .tick _ => True

/-- What a MAC-END delivers. -/
theorem result_of_end {s : History} (h : Chained s) (ha : s.ctx.lsds.active = true)
    (nowMs : UInt32) (slot : Fin 4) (info : List Bool) :
    (s.ctx.handle nowMs (.frag slot true info)).2.ssi = s.chain.issi ∧
      (s.ctx.handle nowMs (.frag slot true info)).2.body =
        (s.chainBits ++ UlLsds.payload true info).take ulLsdsMaxBits := by
  simp only [UlRxCtx.handle, UlRxCtx.contLongSds, UlLsds.frag, ha, Bool.not_true,
    Bool.false_eq_true, if_false, if_true]
  refine ⟨h.ssi ha, ?_⟩
  rw [h.body ha]
  exact UlLsds.take_append_take _ _ _

theorem longRight_end {s : History} (h : Chained s) (sender nowMs : UInt32) (slot : Fin 4)
    (info : List Bool) (ha : s.ctx.lsds.active = true) :
    s.OneTransmission sender slot info (s.ctx.handle nowMs (.frag slot true info)).2 ↔
      s.LongBlockFits sender (.frag slot true info) := by
  obtain ⟨hssi, hbody⟩ := result_of_end h ha nowMs slot info
  constructor
  · rintro hone -
    refine ⟨hone.parts, ?_⟩
    have hlen := congrArg List.length (hbody.symm.trans hone.body)
    rw [List.length_take] at hlen
    omega
  · intro hfits
    obtain ⟨hparts, hlen⟩ := hfits ha
    exact ⟨hbody.trans (List.take_of_length_le hlen), hssi, hparts⟩

/-- A start resets the chain and counts nothing. -/
theorem longRight_start {s : History} (h : Chained s) (sender nowMs : UInt32) (slot : Fin 4)
    (info : List Bool) :
    (s.ctx.lsds.active = true → s.ctx.lsds.ssi ≠ (ulMacAccessParse info).issi →
      (s.ctx.handle nowMs (.start slot info)).1.lsds.dropCnt = s.ctx.lsds.dropCnt + 1) ↔
      s.LongBlockFits sender (.start slot info) := by
  have hdrop : s.ctx.lsds.dropCnt ≠ s.ctx.lsds.dropCnt + 1 := by
    intro hc
    have hnat := congrArg UInt32.toNat hc
    rw [UInt32.toNat_add] at hnat
    change _ = (_ + 1) % 2 ^ 32 at hnat
    omega
  constructor
  · intro hright ha
    by_contra hne
    refine hdrop (hright ha ?_)
    rw [h.ssi ha]
    exact Ne.symm hne
  · intro hfits ha hne
    exact absurd ((h.ssi ha).trans (hfits ha).symm) hne

/-- In every state: an event goes right exactly when it fits. -/
theorem longRight_iff {s : History} (h : Chained s) (e : UplinkEvent) :
    s.LongRight e ↔ s.LongFits e := by
  cases e with
  | tick nowMs => exact Iff.rfl
  | burst words stack sender nowMs =>
      obtain ⟨hctx, hresult⟩ := s.ctx.service_eq words stack nowMs
      simp only [LongRight, LongFits, hctx, hresult]
      cases hb : s.ctx.ulBlockOf words stack with
      | invalid => simp [UlRxCtx.handle, LongBlockFits]
      | ignored => simp [UlRxCtx.handle, LongBlockFits]
      | single info => simp [UlRxCtx.handle, UlRxCtx.singleBody, LongBlockFits]
      | schf info => simp [UlRxCtx.handle, LongBlockFits]
      | endHu slot info =>
          refine ⟨fun _ ↦ trivial, fun _ ↦ ⟨fun hbody hsource ↦ ?_, fun _ _ hc ↦ by cases hc⟩⟩
          rw [s.ctx.source_endHu nowMs slot info hbody] at hsource
          cases hsource
      | start slot info =>
          rw [← longRight_start h sender nowMs slot info]
          constructor
          · rintro ⟨-, hright⟩
            exact hright slot info rfl
          · intro hright
            refine ⟨fun hbody ↦ absurd hbody Bool.false_ne_true, ?_⟩
            rintro slot' info' ⟨⟩
            exact hright
      | frag slot isEnd info =>
          have hbody := s.ctx.haveBody_frag nowMs slot isEnd info
          have hsource := s.ctx.source_frag nowMs slot isEnd info
          cases isEnd with
          | false =>
              refine ⟨fun _ ↦ trivial, fun _ ↦ ⟨fun h1 ↦ ?_, fun _ _ hc ↦ by cases hc⟩⟩
              exact absurd (hbody.1 h1).1 Bool.false_ne_true
          | true =>
              constructor
              · rintro ⟨hright, -⟩ ha
                obtain ⟨slot', info', hblock, hone⟩ :=
                  hright (hbody.2 ⟨rfl, ha⟩) (hsource (hbody.2 ⟨rfl, ha⟩))
                cases hblock
                exact (longRight_end h sender nowMs slot info ha).1 hone ha
              · intro hfits
                refine ⟨fun h1 _ ↦ ⟨slot, info, rfl, ?_⟩, fun _ _ hc ↦ by cases hc⟩
                exact (longRight_end h sender nowMs slot info (hbody.1 h1).2).2 hfits

theorem not_long_right_of_unfit {s : History} (h : Chained s) {e f : UplinkEvent}
    (hf : ¬ (s.step e).LongFits f) : ¬ Run.Along step LongRight s [e, f] := by
  rintro ⟨-, hright, -⟩
  exact hf ((longRight_iff (h.step e) f).1 hright)

section Unfit

variable {s : History} {cc scrSlot : UInt8} {mcc mnc : UInt16} {slot : Fin 4} {info : List Bool}
  {sender : UInt32}

/-- A MAC-END of another terminal does not fit. -/
theorem unfit_of_end (hc : s.cell = (cc, scrSlot, mcc, mnc)) (hlen : info.length = 268)
    (hend : schfBlock slot info = .frag slot true info) (ha : s.ctx.lsds.active = true)
    (hsender : sender ≠ s.chain.issi) :
    ¬ s.LongFits (sentSchf cc scrSlot mcc mnc slot info sender) := by
  cases hc
  intro hfits
  rw [sentSchf, LongFits, ulBlockOf_schfWords s.ctx slot hlen, hend] at hfits
  exact hsender ((hfits ha).1 _ (List.mem_append_right _ (List.mem_singleton_self _))).1

/-- A start of another terminal does not fit. -/
theorem unfit_of_start (hc : s.cell = (cc, scrSlot, mcc, mnc)) (hlen : info.length = 92)
    (hstart : schhuBlock slot info = .start slot info) (ha : s.ctx.lsds.active = true)
    (hissi : (ulMacAccessParse info).issi ≠ s.chain.issi) :
    ¬ s.LongFits (sentSchhu cc scrSlot mcc mnc slot info sender) := by
  cases hc
  intro hfits
  rw [sentSchhu, LongFits, ulBlockOf_schhuWords s.ctx slot hlen, hstart] at hfits
  exact hissi (hfits ha)

end Unfit

end History

open History

/-- **Every long SDS is one transmission, and no terminal's chain ends another's unreported,
exactly along the runs in which every MAC-END and every start fits.** -/
theorem long_right_iff (cc scrSlot : UInt8) (mcc mnc : UInt16) (es : List UplinkEvent) :
    Run.Along History.step LongRight (History.init cc scrSlot mcc mnc) es ↔
      Run.Along History.step LongFits (History.init cc scrSlot mcc mnc) es :=
  Run.along_congr (I := Chained) History.step (fun _ e h ↦ h.step e)
    (fun _ e h ↦ longRight_iff h e) (chained_init cc scrSlot mcc mnc) es

/-- After the start of one terminal, the MAC-END of another one in another timeslot is delivered as
its rest; and the start of another one takes its place without a count. -/
theorem long_mixed :
    ¬ Run.Along History.step LongRight (History.init 1 0 262 1)
      [sentSchhu 1 0 262 1 0 firstStart 0x111111,
        sentSchf 1 0 262 1 1 (endSchfInfo (List.replicate 258 true)) 0x222222] ∧
    ¬ Run.Along History.step LongRight (History.init 1 0 262 1)
      [sentSchhu 1 0 262 1 0 firstStart 0x111111,
        sentSchhu 1 0 262 1 1 secondStart 0x222222] := by
  have hfirst : (History.init 1 0 262 1).step (sentSchhu 1 0 262 1 0 firstStart 0x111111) =
      (History.init 1 0 262 1).handle 0x111111 0 (.start 0 firstStart) :=
    step_sentSchhu rfl 0 (by decide) _
  constructor
  · refine not_long_right_of_unfit (chained_init 1 0 262 1) ?_
    rw [hfirst]
    exact unfit_of_end (by decide +kernel) (by decide +kernel) (by decide +kernel) rfl
      (by decide +kernel)
  · refine not_long_right_of_unfit (chained_init 1 0 262 1) ?_
    rw [hfirst]
    exact unfit_of_start (by decide +kernel) (by decide) (by decide) rfl (by decide +kernel)

end TetraPhy.Rx
