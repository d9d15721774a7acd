import Mathlib.Algebra.Ring.Nat
import TetraPhy.Rx.UplinkHistory

/-!
# Whose bits a reassembled demand consists of

The demand store is keyed by SSI, and a MAC-END-HU carries none: it is taken for the SSI that
last started in its timeslot.  Nothing ends that: not the delivery of the demand, not its
expiry, not a new start of the same terminal in another timeslot.

**`demand_right_iff`** says when the service joins only what belongs together: an END must not
find a pending start that another terminal sent, or that was received in another timeslot.
`demand_mixed` is a run of two terminals where it does.
-/

namespace TetraPhy.Rx

open Ledger Sw

namespace History

/-- A delivered demand `r` consists of the start `st` in slot `i` and of the END `info` of the
same terminal, in the same timeslot; and that start was in no body before, and did not
expire. -/
structure OneTerminal (s : History) (sender : UInt32) (slot : Fin 4) (info : List Bool)
    (r : UlRxResult) (i : Fin 2) (st : Start) : Prop where
  source : s.source slot = some i
  held : s.held i = some st
  body : r.body = st.bits ++ slice info 7 85
  ssi : r.ssi = st.issi
  meta13 : r.meta13 = st.meta13
  sender : sender = st.issi
  slot : slot = st.slot
  untaken : s.book.ticket i ∉ s.book.taken
  unused : st.id ∉ s.usedLong

/-- What the service delivers is one terminal's, and every start is delivered once. -/
def DemandRight (s : History) : UplinkEvent → Prop
  | .burst words stack sender nowMs =>
      let r := (s.ctx.service words stack nowMs).2.1
      (r.haveBody = true → r.source = .demand → ∃ slot info i st,
        s.ctx.ulBlockOf words stack = .endHu slot info ∧ s.OneTerminal sender slot info r i st) ∧
      (r.haveBody = true → r.source = .longSds →
        s.chain.id ∉ s.usedDemand ∧ s.chain.id ∉ s.usedLong)
  | .tick _ => True

/-- An END comes from the terminal and in the timeslot of the start that waits under the SSI
remembered for the timeslot, and the other store has not delivered that start. -/
def BlockFits (s : History) (sender : UInt32) : UlBlock → Prop
  | .endHu slot _ => ∀ i st, s.source slot = some i → s.held i = some st →
      sender = st.issi ∧ slot = st.slot ∧ st.id ∉ s.usedLong
  | .frag _ true _ => s.ctx.lsds.active = true → s.chain.id ∉ s.usedDemand
  | _ => True

/-- The received block fits. -/
def DemandFits (s : History) : UplinkEvent → Prop
  | .burst words stack sender _ => s.BlockFits sender (s.ctx.ulBlockOf words stack)
  | .tick _ => True

theorem demandRight_endHu {s : History} (h : Inv s) (sender nowMs : UInt32) (slot : Fin 4)
    (info : List Bool) :
    ((s.ctx.handle nowMs (.endHu slot info)).2.haveBody = true →
      (s.ctx.handle nowMs (.endHu slot info)).2.source = .demand → ∃ i st,
        s.OneTerminal sender slot info (s.ctx.handle nowMs (.endHu slot info)).2 i st) ↔
      ∀ i st, s.source slot = some i → s.held i = some st →
        sender = st.issi ∧ slot = st.slot ∧ st.id ∉ s.usedLong := by
  simp only [UlRxCtx.handle, UlRxCtx.endDemand, UlReass.reassEnd]
  cases hm : s.ctx.demand.matching (s.ctx.slotSsi slot) with
  | none =>
      refine ⟨fun _ i st hi ↦ ?_, fun _ hbody ↦ absurd hbody Bool.false_ne_true⟩
      exact absurd (hm.symm.trans hi) (Option.some_ne_none i).symm
  | some i =>
      obtain ⟨st, hst⟩ := Option.isSome_iff_exists.1
        (h.booked.isSome (UlReass.occupied_of_matching hm).1)
      obtain ⟨hssi, hfrag, hmeta⟩ := (h.booked.mirrors i).entry st hst
      constructor
      · intro hright j st' hj hst'
        obtain rfl : i = j := Option.some.inj (hm.symm.trans hj)
        obtain ⟨k, st'', hk⟩ := hright rfl rfl
        obtain rfl : i = k := Option.some.inj (hm.symm.trans hk.source)
        obtain rfl : st' = st'' := Option.some.inj (hst'.symm.trans hk.held)
        exact ⟨hk.sender, hk.slot, hk.unused⟩
      · intro hfits _ _
        obtain ⟨hsender, hslot, hunused⟩ := hfits i st hm hst
        refine ⟨i, st, hm, hst, ?_, hssi, hmeta, hsender, hslot, ?_, hunused⟩
        · exact congrArg (· ++ slice info 7 85) hfrag
        · exact h.booked.sound.untaken i (by simp [hst])

/-- In every state: an event goes right exactly when it fits. -/
theorem demandRight_iff {s : History} (h : Inv s) (e : UplinkEvent) :
    s.DemandRight e ↔ s.DemandFits e := by
  cases e with
  | tick nowMs => exact Iff.rfl
  | burst words stack sender nowMs =>
      have hservice := (s.ctx.service_eq words stack nowMs).2
      simp only [DemandRight, DemandFits, hservice, BlockFits]
      cases hb : s.ctx.ulBlockOf words stack with
      | invalid => simp [UlRxCtx.handle]
      | ignored => simp [UlRxCtx.handle]
      | start slot info => simp [UlRxCtx.handle]
      | single info => simp [UlRxCtx.handle, UlRxCtx.singleBody]
      | schf info => simp [UlRxCtx.handle]
      | endHu slot info =>
          refine Iff.trans ?_ (demandRight_endHu h sender nowMs slot info)
          constructor
          · rintro ⟨hdemand, -⟩ hbody hsource
            obtain ⟨slot', info', i, st, hblock, hone⟩ := hdemand hbody hsource
            cases hblock
            exact ⟨i, st, hone⟩
          · intro hdemand
            refine ⟨fun hbody hsource ↦ ?_, fun hbody hsource ↦ ?_⟩
            · obtain ⟨i, st, hone⟩ := hdemand hbody hsource
              exact ⟨slot, info, i, st, rfl, hone⟩
            · rw [s.ctx.source_endHu nowMs slot info hbody] at hsource
              cases hsource
      | frag slot isEnd info =>
          have hbody := s.ctx.haveBody_frag nowMs slot isEnd info
          have hsource := s.ctx.source_frag nowMs slot isEnd info
          have hnot : (s.ctx.handle nowMs (.frag slot isEnd info)).2.haveBody = true →
              (s.ctx.handle nowMs (.frag slot isEnd info)).2.source = .demand → False := by
            intro hb' hs'
            rw [hsource hb'] at hs'
            cases hs'
          cases isEnd with
          | false =>
              refine ⟨fun _ ↦ trivial, fun _ ↦ ⟨fun h1 h2 ↦ (hnot h1 h2).elim, fun h1 ↦ ?_⟩⟩
              exact absurd (hbody.1 h1).1 Bool.false_ne_true
          | true =>
              constructor
              · rintro ⟨-, hlong⟩ ha
                exact (hlong (hbody.2 ⟨rfl, ha⟩) (hsource (hbody.2 ⟨rfl, ha⟩))).1
              · intro hfits
                refine ⟨fun h1 h2 ↦ (hnot h1 h2).elim, fun h1 _ ↦ ?_⟩
                exact ⟨hfits (hbody.1 h1).2, h.fresh (hbody.1 h1).2⟩

theorem not_right_of_unfit {s : History} (h : Inv s) {e f g : UplinkEvent}
    (hg : ¬ ((s.step e).step f).DemandFits g) : ¬ Run.Along step DemandRight s [e, f, g] := by
  rintro ⟨-, -, hright, -⟩
  exact hg ((demandRight_iff ((h.step e).step f) g).1 hright)

/-- An END that finds a start of another terminal does not fit. -/
theorem unfit_of_endHu {s : History} {cc scrSlot : UInt8} {mcc mnc : UInt16}
    (hc : s.cell = (cc, scrSlot, mcc, mnc)) {slot : Fin 4} {info : List Bool}
    (hlen : info.length = 92) (hend : ulIsMacEndHu info = true) {sender : UInt32} {i : Fin 2}
    {st : Start} (hi : s.source slot = some i) (hst : s.held i = some st)
    (hsender : sender ≠ st.issi) :
    ¬ s.DemandFits (sentSchhu cc scrSlot mcc mnc slot info sender) := by
  cases hc
  intro hfits
  rw [sentSchhu, DemandFits, ulBlockOf_schhuWords s.ctx slot hlen, schhuBlock, if_pos hend] at hfits
  exact hsender (hfits i st hi hst).1

end History

open History

/-- **The service never mixes terminals in a demand, and never uses a start twice or after its
time, exactly along the runs in which every END fits.** -/
theorem demand_right_iff (cc scrSlot : UInt8) (mcc mnc : UInt16) (es : List UplinkEvent) :
    Run.Along History.step DemandRight (History.init cc scrSlot mcc mnc) es ↔
      Run.Along History.step DemandFits (History.init cc scrSlot mcc mnc) es :=
  Run.along_congr (I := Inv) History.step (fun _ e h ↦ h.step e) (fun _ e h ↦ demandRight_iff h e)
    (inv_init cc scrSlot mcc mnc) es

section Mixed

/-- The END of the first terminal. -/
def firstEnd : List Bool := endHuInfo (List.replicate 85 true)

def mixedDemand : List UplinkEvent :=
  [sentSchhu 1 0 262 1 0 firstStart 0x111111, sentSchhu 1 0 262 1 0 secondStart 0x222222,
    sentSchhu 1 0 262 1 0 firstEnd 0x111111]

/-- The first terminal's END is delivered as the second half of the other one's demand. -/
theorem demand_mixed :
    ¬ Run.Along History.step DemandRight (History.init 1 0 262 1) mixedDemand := by
  have hfirst : (History.init 1 0 262 1).step (sentSchhu 1 0 262 1 0 firstStart 0x111111) =
      (History.init 1 0 262 1).handle 0x111111 0 (.start 0 firstStart) :=
    step_sentSchhu rfl 0 (by decide) _
  have hsecond : ((History.init 1 0 262 1).handle 0x111111 0 (.start 0 firstStart)).step
      (sentSchhu 1 0 262 1 0 secondStart 0x222222) =
      ((History.init 1 0 262 1).handle 0x111111 0 (.start 0 firstStart)).handle 0x222222 0
        (.start 0 secondStart) :=
    step_sentSchhu (by decide) 0 (by decide) _
  refine not_right_of_unfit (inv_init 1 0 262 1) ?_
  rw [hfirst, hsecond]
  have hheld : (((History.init 1 0 262 1).handle 0x111111 0 (.start 0 firstStart)).handle 0x222222 0
      (.start 0 secondStart)).held 1 = some ⟨1, 0, secondStart⟩ := by decide +kernel
  exact unfit_of_endHu (by decide +kernel) (by decide) (by decide) (by decide +kernel) hheld
    (by decide +kernel)

end Mixed

end TetraPhy.Rx
