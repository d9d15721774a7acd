import TetraPhy.CallFsm.MaskShown

/-!
# Delivering a long SDS beside the voice calls

`sds_dl_delivery_start` and `service_sds_dl_delivery` of `tetra_attach_daemon.c`: a long SDS
goes out as a chain of coded bursts, one a frame, through the filler bank of TS1; bit 4 of
the voice mask register makes the dispatcher send that bank, bit 8 marks the last burst.
The call FSM and the voice pipe write the same register and the same mailbox.

The coded bursts themselves are an input of `start`; what the poll reads is the air frame
number and, from the register file, the mask.

`undisturbed_runs` says under which condition on each step the three services keep out of
each other's way, `setup_disturbs` that a call set up during a delivery does not meet it.
-/

namespace TetraPhy.Daemon

open Sw CallFsm Lmac Run

/-! ## State -/

/-- `g_sds_dl`. -/
structure SdsDl where
  active : Bool := false
  n : ℕ := 0
  idx : ℕ := 0
  lastFn : UInt16 := 0
  dest : UInt32 := 0
  type5 : ℕ → ℕ → Bool := fun _ _ ↦ false

/-- The daemon: the call FSM with the registers written so far, and the delivery. -/
structure Services where
  fsm : Fsm := {}
  sds : SdsDl := {}

/-- `main`, before its loop: the voice mask is cleared. -/
def Services.init : Services := { fsm := Fsm.init.emit [⟨regVoiceActiveMask, 0⟩] }

/-- The air frame number in `REG_TX_TDMA_STATE`. -/
def airFn (txTdma : UInt32) : UInt16 := ((txTdma >>> 2) &&& 0x1F).toUInt16

/-- `sds_dl_delivery_start`, once its `n` bursts are built and coded; it drops a delivery
while another one is active. -/
def SdsDl.start (dest : UInt32) (n : ℕ) (type5 : ℕ → ℕ → Bool) (txTdma : UInt32) (s : SdsDl) :
    SdsDl :=
  if s.active || n == 0 then s
  else
    { active := true, n := n, idx := 0, lastFn := airFn txTdma, dest := dest &&& 0x00FFFFFF
      type5 := type5 }

namespace Services

/-- One burst is posted. -/
def post (d : Services) : Services :=
  let fsm := d.fsm.emit (voiceFillerWriteTs (d.sds.type5 d.sds.idx) 1)
  let m := fsm.maskReg ||| ((1 : UInt32) <<< 4)
  let m := if d.sds.idx == d.sds.n - 1 then m ||| ((1 : UInt32) <<< 8)
    else m &&& ~~~((1 : UInt32) <<< 8)
  { fsm := fsm.emit [⟨regVoiceActiveMask, m⟩], sds := { d.sds with idx := d.sds.idx + 1 } }

/-- The delivery is over: the filler goes, the recipient gets a slot grant. -/
def finish (idle : Bool) (d : Services) : Services :=
  let m := d.fsm.maskReg
  let fsm := d.fsm.emit
    [⟨regVoiceActiveMask, m &&& ~~~(((1 : UInt32) <<< 4) ||| ((1 : UInt32) <<< 8))⟩]
  let fsm := fsm.emit (voiceFillerClearTs 1)
  { fsm := fsm.emit (rxSlotgrant idle d.sds.dest).1, sds := { d.sds with active := false } }

/-- `service_sds_dl_delivery`: something is done in a new air frame only; the chain starts
early enough to end before frame 18, in which nothing is posted. -/
def serviceSdsDlDelivery (txTdma : UInt32) (idle : Bool) (d : Services) : Services :=
  if !d.sds.active then d
  else if airFn txTdma == d.sds.lastFn then d
  else
    let d := { d with sds := { d.sds with lastFn := airFn txTdma } }
    if d.sds.idx < d.sds.n then
      let win : ℤ := 16 - d.sds.n
      if d.sds.idx == 0 && decide (win ≥ 0) && decide ((airFn txTdma).toNat > win) then d
      else if airFn txTdma == 17 then d
      else d.post
    else d.finish idle

/-- What happens to the services. -/
inductive Event
  | call (e : CallFsm.Event)
  | pipe (burst : Option PipeBurst)
  | start (dest : UInt32) (n : ℕ) (type5 : ℕ → ℕ → Bool) (txTdma : UInt32)
  | poll (txTdma : UInt32) (idle : Bool)

def step (d : Services) : Event → Services
  | .call e => { d with fsm := d.fsm.step e }
  | .pipe burst => { d with fsm := voicePipeTick burst d.fsm }
  | .start dest n type5 txTdma => { d with sds := d.sds.start dest n type5 txTdma }
  | .poll txTdma idle => d.serviceSdsDlDelivery txTdma idle

/-! ## What is asked of a run -/

/-- A burst has been posted and neither replaced nor withdrawn. -/
def Posted (d : Services) : Prop := d.sds.active = true ∧ 0 < d.sds.idx

/-- The posted burst is on the bank of TS1, and the mask sends it. -/
def BurstHeld (d : Services) : Prop :=
  d.Posted → d.fsm.filler.Holds 0 (d.sds.type5 (d.sds.idx - 1)) ∧
    d.fsm.maskReg.toBitVec.getLsbD 4 = true ∧
    (d.sds.idx = d.sds.n → d.fsm.maskReg.toBitVec.getLsbD 8 = true)

/-- After a tick the voice bits of the register are the voice mask. -/
def TickMask (d : Services) : Event → Prop
  | .call (.tick env) => (d.step (.call (.tick env))).fsm.maskReg &&& 0xF =
      computeVoiceMask (d.step (.call (.tick env))).fsm.slots env.maskNow
  | _ => True

/-- The clock reading nearest to where an event clears banks. -/
def Event.clock : Event → UInt32
  | .call (.handle env _ p) =>
      match p.pduType with
      | .uSetup => env.now 4
      | _ => env.now 1
  | .call (.tick env) => env.now
  | _ => 0

/-- The bank of a timeslot is invalidated from `st` to `st'` although its call speaks before
and after. -/
def CutOff (st st' : Fsm) (now : UInt32) : Prop :=
  ∃ ts, (1 ≤ ts ∧ ts ≤ 4) ∧ st.filler.valid (FillerMailbox.tsBank ts) = true ∧
    st'.filler.valid (FillerMailbox.tsBank ts) = false ∧
    ∃ i, (st.slots i).voiceTs = ts ∧ (st'.slots i).voiceTs = ts ∧
      (st.slots i).Speaking now ∧ (st'.slots i).Speaking now

/-- A bank is cleared only if its call has ended or gone quiet. -/
def ClearsEndedOnly (d : Services) (e : Event) : Prop :=
  ¬ CutOff d.fsm (d.step e).fsm e.clock

/-! ## The condition on a step -/

/-- A PDU whose handler clears the banks although its call goes on. -/
def OpensCall (p : CmcePdu) : Prop := p.pduType = .uSetup ∨ p.pduType = .uConnect

/-- A call into the call FSM reaches no clearing of all banks and relays no burst from TS1, and
where it computes a voice mask, the one written last shows the calls that speak by then. -/
def KeepsBurst (st : Fsm) : CallFsm.Event → Prop
  | .handle env ssi p => st.clearsBanks env ssi p = false ∧ st.KeepsMask env ssi p
  | .tick env => ¬ st.Relays env 1 ∧ st.Shows (st.SpeaksAfter env)
  | _ => True

/-- A call is set up or connected only while the bank of no speaking call is valid. -/
def OpensQuietly (st : Fsm) : CallFsm.Event → Prop
  | .handle env ssi p =>
      OpensCall p → st.clearsBanks env ssi p = true →
        ∀ i, (st.slots i).Speaking (Event.clock (.call (.handle env ssi p))) →
          st.filler.valid (FillerMailbox.tsBank (st.slots i).voiceTs) = false
  | _ => True

/-- A step that keeps the services out of each other's way. -/
def Undisturbed (d : Services) : Event → Prop
  | .call e => (d.Posted → KeepsBurst d.fsm e) ∧ OpensQuietly d.fsm e
  | .pipe burst => d.Posted → ∀ b, burst = some b → deltaToEtsiTs b.delta ≠ 1
  | .start _ _ _ _ => True
  | .poll _ _ => True

/-! ## One step -/

/-- What holds of every reachable state of the services. -/
structure Inv (d : Services) : Prop where
  table : d.fsm.table.Inv
  mask : d.fsm.MaskSync
  idx : d.sds.active = true → d.sds.idx ≤ d.sds.n

variable {d : Services}

/-- What posting a burst does. -/
theorem post_spec (d : Services) :
    d.post.fsm.filler.Holds 0 (d.sds.type5 d.sds.idx) ∧
      (∀ b ≠ 0, d.fsm.filler.SameBank d.post.fsm.filler b) ∧
      d.post.fsm.maskReg.toBitVec.getLsbD 4 = true ∧
      (d.sds.idx = d.sds.n - 1 → d.post.fsm.maskReg.toBitVec.getLsbD 8 = true) ∧
      d.post.fsm.maskReg &&& 0xF = d.fsm.maskReg &&& 0xF := by
  have hfill : d.post.fsm.filler =
      d.fsm.filler.writes (voiceFillerWriteTs (d.sds.type5 d.sds.idx) 1) :=
    (Fsm.filler_emit_mask _ _).trans (Fsm.filler_emit _ _)
  obtain ⟨hholds, hother⟩ :=
    d.fsm.filler.writes_voiceFillerWriteTs (d.sds.type5 d.sds.idx)
      (show (1 : UInt8) ≤ 1 by decide) (show (1 : UInt8) ≤ 4 by decide)
  have hread : (d.fsm.emit (voiceFillerWriteTs (d.sds.type5 d.sds.idx) 1)).maskReg = d.fsm.maskReg :=
    Fsm.maskReg_emit_of_writesOnly (writesOnly_voiceFillerWriteTs _ _) (by decide) _
  have hmask : d.post.fsm.maskReg = if (d.sds.idx == d.sds.n - 1) = true then
      d.fsm.maskReg ||| ((1 : UInt32) <<< 4) ||| ((1 : UInt32) <<< 8)
      else (d.fsm.maskReg ||| ((1 : UInt32) <<< 4)) &&& ~~~((1 : UInt32) <<< 8) := by
    rw [post, Fsm.maskReg_emit_mask, hread]
  rw [hfill, hmask]
  refine ⟨hholds, hother, ?_, fun hlast ↦ ?_, ?_⟩
  · split <;> simp
  · rw [if_pos (by simpa using hlast)]
    simp
  · have h4 : ((1 : UInt32) <<< 4) &&& 0xF = 0 := by decide
    have h8 : ((1 : UInt32) <<< 8) &&& 0xF = 0 := by decide
    have h8' : ~~~((1 : UInt32) <<< 8) &&& 0xF = 0xF := by decide
    split
    · rw [Fsm.or_and_distrib, Fsm.or_and_distrib, h4, h8, UInt32.or_zero, UInt32.or_zero]
    · rw [UInt32.and_assoc, h8', Fsm.or_and_distrib, h4, UInt32.or_zero]

/-- What ending the delivery does. -/
theorem finish_spec (idle : Bool) (d : Services) :
    (d.finish idle).fsm.filler.valid =
        Function.update d.fsm.filler.valid (FillerMailbox.tsBank 1) false ∧
      (d.finish idle).fsm.maskReg &&& 0xF = d.fsm.maskReg &&& 0xF := by
  have hr : (1 : UInt8) ≤ 1 ∧ (1 : UInt8) ≤ 4 := by decide
  have hgrant := Fsm.sameShared_rxSlotgrant idle d.sds.dest
    ((d.fsm.emit [⟨regVoiceActiveMask,
      d.fsm.maskReg &&& ~~~(((1 : UInt32) <<< 4) ||| ((1 : UInt32) <<< 8))⟩]).emit
        (voiceFillerClearTs 1))
  obtain ⟨hmask, -, hvalid⟩ := shared_clearTs hr (d.fsm.emit [⟨regVoiceActiveMask,
    d.fsm.maskReg &&& ~~~(((1 : UInt32) <<< 4) ||| ((1 : UInt32) <<< 8))⟩])
  have hbits : ~~~(((1 : UInt32) <<< 4) ||| ((1 : UInt32) <<< 8)) &&& 0xF = 0xF := by decide
  refine ⟨?_, ?_⟩
  · rw [finish, hgrant.filler, hvalid, Fsm.filler_emit_mask]
  · rw [finish, hgrant.maskReg, hmask, Fsm.maskReg_emit_mask, UInt32.and_assoc, hbits]

/-- What a poll comes to: a posted burst, the end of the delivery, or nothing but a noted
frame number. -/
theorem poll_cases (txTdma : UInt32) (idle : Bool) (d : Services) :
    (d.serviceSdsDlDelivery txTdma idle).fsm = d.fsm ∧
        (d.serviceSdsDlDelivery txTdma idle).sds.active = d.sds.active ∧
        (d.serviceSdsDlDelivery txTdma idle).sds.idx = d.sds.idx ∧
        (d.serviceSdsDlDelivery txTdma idle).sds.n = d.sds.n ∧
        (d.serviceSdsDlDelivery txTdma idle).sds.type5 = d.sds.type5 ∨
      (∃ d' : Services, d'.fsm = d.fsm ∧ d'.sds.idx = d.sds.idx ∧ d'.sds.n = d.sds.n ∧
        d'.sds.type5 = d.sds.type5 ∧ d'.sds.idx < d'.sds.n ∧
        d.serviceSdsDlDelivery txTdma idle = d'.post) ∨
      ∃ d' : Services, d'.fsm = d.fsm ∧ d.serviceSdsDlDelivery txTdma idle = d'.finish idle := by
  unfold serviceSdsDlDelivery
  dsimp only
  split_ifs with hact hfn hidx hwin hlast
  · exact .inl ⟨rfl, rfl, rfl, rfl, rfl⟩
  · exact .inl ⟨rfl, rfl, rfl, rfl, rfl⟩
  · exact .inl ⟨rfl, rfl, rfl, rfl, rfl⟩
  · exact .inl ⟨rfl, rfl, rfl, rfl, rfl⟩
  · exact .inr (.inl ⟨{ d with sds := { d.sds with lastFn := airFn txTdma } }, rfl, rfl, rfl, rfl,
      hidx, rfl⟩)
  · exact .inr (.inr ⟨{ d with sds := { d.sds with lastFn := airFn txTdma } }, rfl, rfl⟩)

/-! ### The invariant -/

theorem table_emit_mask (st : Fsm) (v : UInt32) :
    (st.emit [⟨regVoiceActiveMask, v⟩]).table = st.table :=
  table_emit fun w hw ↦ by
    rw [List.mem_singleton.1 hw]
    simp [otherRegs]

theorem table_post (d : Services) : d.post.fsm.table = d.fsm.table := by
  rw [post, table_emit_mask]
  exact table_emit ((writesOnly_voiceFillerWriteTs _ _).mono (by decide))

theorem table_finish (idle : Bool) (d : Services) : (d.finish idle).fsm.table = d.fsm.table := by
  rw [finish, table_emit_rxSlotgrant, table_emit_voiceFillerClearTs, table_emit_mask]

/-- The mask of the register keeps its voice bits. -/
theorem maskSync_of_bits {st st' : Fsm} (h : st.MaskSync) (hc : st'.maskCached = st.maskCached)
    (hm : st'.maskReg &&& 0xF = st.maskReg &&& 0xF) : st'.MaskSync := by
  rw [Fsm.MaskSync, hc, hm]
  exact h

theorem sameShared_notifyLateEntry (idle : Fin 8 → Bool) (gssi : UInt32) (st : Fsm) :
    st.SameShared (notifyLateEntry idle gssi st).1 := by
  refine notifyLateEntry_induction (.refl st) (fun idle i r hr ↦ ?_) idle gssi
  exact hr.trans (Fsm.sameShared_submit r idle .dSetup (dSetupMeta (r.slots i)))

/-- A call into the call FSM keeps register and copy of the mask in step. -/
theorem maskStep_call {st : Fsm} (hinv : st.table.Inv) (e : CallFsm.Event) :
    st.MaskStep (st.step e) := by
  cases e with
  | handle env ssi p => exact (Fsm.handledShared_handle env ssi p st).mask
  | tick env => exact (tick_shared env hinv).1
  | notifyUlBurst ts nowMs => exact (sameShared_notifyUlBurst ts nowMs st).maskStep
  | notifyFirstNub nowMs => exact (sameShared_notifyFirstNub nowMs st).maskStep
  | notifyLateEntry idle gssi => exact (sameShared_notifyLateEntry idle gssi st).maskStep

/-- **Every step keeps the invariant.** -/
theorem inv_step (d : Services) (e : Event) (h : d.Inv) : (d.step e).Inv := by
  cases e with
  | call e => exact ⟨d.fsm.step_inv e h.table, (maskStep_call h.table e).maskSync h.mask, h.idx⟩
  | pipe burst =>
      refine ⟨h.table.stamped (stamped_voicePipeTick burst d.fsm), ?_, h.idx⟩
      cases burst with
      | none => exact h.mask
      | some b =>
          obtain ⟨hm, hc, -⟩ := shared_voicePipeTick b d.fsm
          exact maskSync_of_bits h.mask hc (congrArg (· &&& 0xF) hm)
  | start dest n type5 txTdma =>
      refine ⟨h.table, h.mask, fun hact ↦ ?_⟩
      change ((d.sds.start dest n type5 txTdma).active = true) at hact
      change (d.sds.start dest n type5 txTdma).idx ≤ (d.sds.start dest n type5 txTdma).n
      unfold SdsDl.start at hact ⊢
      split_ifs at hact ⊢
      · exact h.idx hact
      · exact Nat.zero_le n
  | poll txTdma idle =>
      change (d.serviceSdsDlDelivery txTdma idle).Inv
      rcases poll_cases txTdma idle d with ⟨hf, ha, hi, hn, -⟩ | ⟨d', hf, hi, hn, -, hlt, hd⟩ |
        ⟨d', hf, hd⟩
      · exact ⟨hf ▸ h.table, hf ▸ h.mask, fun hact ↦ by rw [hi, hn]; exact h.idx (ha ▸ hact)⟩
      · obtain ⟨-, -, -, -, hbits⟩ := post_spec d'
        rw [hd]
        refine ⟨?_, ?_, fun _ ↦ hlt⟩
        · rw [table_post, hf]
          exact h.table
        · exact maskSync_of_bits h.mask (by rw [← hf]; rfl) (by rw [hbits, hf])
      · obtain ⟨-, hbits⟩ := finish_spec idle d'
        rw [hd]
        refine ⟨?_, ?_, fun hact ↦ absurd hact Bool.false_ne_true⟩
        · rw [table_finish, hf]
          exact h.table
        · exact maskSync_of_bits h.mask (by rw [← hf]; rfl) (by rw [hbits, hf])

/-! ### The burst -/

/-- A held burst stays held when bank and mask stand. -/
theorem BurstHeld.of_same {d d' : Services} (h : d.BurstHeld) (ha : d'.sds.active = d.sds.active)
    (hi : d'.sds.idx = d.sds.idx) (hn : d'.sds.n = d.sds.n) (ht : d'.sds.type5 = d.sds.type5)
    (hsame : d.Posted → d.fsm.filler.SameBank d'.fsm.filler 0 ∧ d'.fsm.maskReg = d.fsm.maskReg) :
    d'.BurstHeld := by
  intro hp
  have hp' : d.Posted := by rwa [Posted, ha, hi] at hp
  obtain ⟨hbank, hmask⟩ := hsame hp'
  obtain ⟨hholds, h4, h8⟩ := h hp'
  rw [hi, hn, ht, hmask]
  exact ⟨(hbank.holds_iff _).2 hholds, h4, h8⟩

theorem keeps_of_sameShared {st st' : Fsm} (h : st.SameShared st') :
    st.filler.SameBank st'.filler 0 ∧ st'.maskReg = st.maskReg :=
  ⟨by rw [h.filler]; exact ⟨rfl, rfl⟩, h.maskReg⟩

theorem keeps_call {st : Fsm} (hinv : st.table.Inv) (hs : st.MaskSync) {e : CallFsm.Event}
    (h : KeepsBurst st e) :
    st.filler.SameBank (st.step e).filler 0 ∧ (st.step e).maskReg = st.maskReg := by
  cases e with
  | handle env ssi p =>
      obtain ⟨hclear, hmask⟩ := h
      have hshared := Fsm.handledShared_handle env ssi p st
      rw [hclear] at hshared
      refine ⟨?_, hshared.mask.kept (Fsm.maskCached_handle hs hclear hmask)⟩
      change st.filler.SameBank (handle env ssi p st).1.filler 0
      rw [hshared.filler]
      exact ⟨rfl, rfl⟩
  | tick env =>
      obtain ⟨hrelay, hshows⟩ := h
      obtain ⟨hmask, hfill, -⟩ := tick_shared env hinv
      refine ⟨?_, hmask.kept (Fsm.maskCached_tick env hinv hs hshows)⟩
      change st.filler.SameBank (tick env st).filler 0
      rw [hfill]
      exact sameBank_tick env hinv hrelay
  | notifyUlBurst ts nowMs => exact keeps_of_sameShared (sameShared_notifyUlBurst ts nowMs st)
  | notifyFirstNub nowMs => exact keeps_of_sameShared (sameShared_notifyFirstNub nowMs st)
  | notifyLateEntry idle gssi =>
      exact keeps_of_sameShared (sameShared_notifyLateEntry idle gssi st)

/-- An undisturbed step keeps the burst on the bank. -/
theorem burstHeld_step (d : Services) (e : Event) (hinv : d.Inv) (h : d.BurstHeld)
    (hu : d.Undisturbed e) : (d.step e).BurstHeld := by
  cases e with
  | call e => exact h.of_same rfl rfl rfl rfl fun hp ↦ keeps_call hinv.table hinv.mask (hu.1 hp)
  | pipe burst =>
      refine h.of_same rfl rfl rfl rfl fun hp ↦ ⟨sameBank_voicePipeTick (hu hp), ?_⟩
      cases burst with
      | none => rfl
      | some b => exact (shared_voicePipeTick b d.fsm).1
  | start dest n type5 txTdma =>
      intro hp
      have hact : d.sds.active = true := by
        by_contra hno
        have hstart : 0 < (d.sds.start dest n type5 txTdma).idx ∧
            (d.sds.start dest n type5 txTdma).active = true := ⟨hp.2, hp.1⟩
        unfold SdsDl.start at hstart
        split_ifs at hstart
        · exact hno hstart.2
        · exact Nat.lt_irrefl 0 hstart.1
      have hsame : d.step (.start dest n type5 txTdma) = d := by
        have hs : d.sds.start dest n type5 txTdma = d.sds := by
          rw [SdsDl.start, if_pos (by rw [hact]; rfl)]
        rw [step, hs]
      rw [hsame] at hp ⊢
      exact h hp
  | poll txTdma idle =>
      change (d.serviceSdsDlDelivery txTdma idle).BurstHeld
      rcases poll_cases txTdma idle d with ⟨hf, ha, hi, hn, ht⟩ | ⟨d', hf, hi, hn, ht, hlt, hd⟩ |
        ⟨d', hf, hd⟩
      · exact h.of_same ha hi hn ht fun _ ↦ by rw [hf]; exact ⟨⟨rfl, rfl⟩, rfl⟩
      · obtain ⟨hholds, -, h4, h8, -⟩ := post_spec d'
        rw [hd]
        refine fun _ ↦ ⟨hholds, h4, fun hlast ↦ h8 ?_⟩
        have hlast' : d'.sds.idx + 1 = d'.sds.n := hlast
        omega
      · rw [hd]
        exact fun hp ↦ absurd hp.1 Bool.false_ne_true

/-! ### The banks of the calls -/

/-- After a release that clears the banks nobody speaks. -/
theorem not_speaking_of_release {st : Fsm} {env : HandleEnv} {ssi : UInt32} {p : CmcePdu}
    (hp : ¬ OpensCall p) (hclear : st.clearsBanks env ssi p = true) {i : Fin 8}
    (hts : 1 ≤ ((handle env ssi p st).1.slots i).voiceTs ∧
      ((handle env ssi p st).1.slots i).voiceTs ≤ 4) :
    ¬ ((handle env ssi p st).1.slots i).Speaking (env.now 1) := by
  obtain ⟨hsetup, hconnect⟩ := not_or.1 hp
  rw [Fsm.clearsBanks, Bool.and_eq_true] at hclear
  obtain ⟨hssi, hclear⟩ := hclear
  have hrel : (p.pduType = .uRelease ∨ p.pduType = .uDisconnect) ∧
      ∃ j, findSlot st.slots ssi = some j ∧
        computeVoiceMask (Function.update st.slots j {}) (env.now 1) = 0 := by
    cases hpt : p.pduType <;> rw [hpt] at hclear hsetup hconnect <;> dsimp only at hclear
    all_goals first
      | exact absurd rfl hsetup
      | exact absurd rfl hconnect
      | exact absurd hclear Bool.false_ne_true
      | skip
    all_goals
      refine ⟨by simp, ?_⟩
      cases hf : findSlot st.slots ssi with
      | none => rw [hf] at hclear; exact absurd hclear Bool.false_ne_true
      | some j => rw [hf] at hclear; exact ⟨j, rfl, by simpa using hclear⟩
  obtain ⟨hpt, j, hj, hzero⟩ := hrel
  have hslots : (handle env ssi p st).1.slots = Function.update st.slots j {} := by
    have hssi' : ssi ≠ 0 := by simpa using hssi
    rw [← Fsm.slots_table, table_handle, Table.afterHandle, if_neg hssi']
    rcases hpt with hpt | hpt <;> rw [hpt]
    all_goals
      dsimp only
      rw [Table.afterRelease_owner (T := st.table) hj, Table.slots_close, Fsm.slots_table]
  rw [hslots] at hts ⊢
  exact Fsm.not_speaking_of_mask_zero hzero hts

theorem not_cutOff_of_valid {st st' : Fsm} {now : UInt32}
    (h : ∀ b, st.filler.valid b = true → st'.filler.valid b = true) : ¬ CutOff st st' now := by
  rintro ⟨ts, -, hv, hv', -⟩
  rw [h _ hv] at hv'
  cases hv'

theorem not_cutOff_of_sameShared {st st' : Fsm} {now : UInt32} (h : st.SameShared st') :
    ¬ CutOff st st' now :=
  not_cutOff_of_valid fun b hv ↦ by rw [h.filler]; exact hv

theorem not_cutOff_handle {st : Fsm} {env : HandleEnv} {ssi : UInt32} {p : CmcePdu}
    (h : OpensQuietly st (.handle env ssi p)) :
    ¬ CutOff st (handle env ssi p st).1 (Event.clock (.call (.handle env ssi p))) := by
  have hshared := Fsm.handledShared_handle env ssi p st
  cases hclear : st.clearsBanks env ssi p with
  | false =>
      rw [hclear] at hshared
      exact not_cutOff_of_valid fun b hv ↦ by rw [hshared.filler]; exact hv
  | true =>
      rintro ⟨ts, hr, hv, -, i, hi, hi', hsp, hsp'⟩
      by_cases hopen : OpensCall p
      · have hquiet := h hopen hclear i hsp
        rw [hi, hv] at hquiet
        cases hquiet
      · have hclock : Event.clock (.call (.handle env ssi p)) = env.now 1 := by
          rw [Event.clock]
          cases hpt : p.pduType
          case uSetup => exact absurd (.inl hpt) hopen
          all_goals rfl
        rw [hclock] at hsp'
        exact not_speaking_of_release hopen hclear (hi' ▸ hr) hsp'

theorem not_cutOff_tick {st : Fsm} (env : TickEnv) (hinv : st.table.Inv) :
    ¬ CutOff st (tick env st) env.now := by
  obtain ⟨-, hfill, hslots⟩ := tick_shared env hinv
  rintro ⟨ts, hr, hv, hv', i, -, hi', -, hsp'⟩
  rw [hfill] at hv'
  rw [hslots] at hi' hsp'
  exact (ticked_tick env hinv).valid ts hr hv hv' i hi' hsp'

theorem not_cutOff_pipe (burst : Option PipeBurst) (st : Fsm) (now : UInt32) :
    ¬ CutOff st (voicePipeTick burst st) now := by
  cases burst with
  | none => exact not_cutOff_of_sameShared (.refl st)
  | some b =>
      refine not_cutOff_of_valid fun k hv ↦ ?_
      obtain ⟨-, -, hfill⟩ := shared_voicePipeTick b st
      obtain ⟨hlo, hhi⟩ := deltaToEtsiTs_range b.delta
      obtain ⟨hholds, hother⟩ := st.filler.writes_voiceFillerWriteTs b.type5Out hlo hhi
      rw [hfill]
      rcases eq_or_ne k (FillerMailbox.tsBank (deltaToEtsiTs b.delta)) with rfl | hne
      · exact hholds.1
      · rw [(hother k hne).2]
        exact hv

/-- The delivery uses the bank of TS1, which no call is on. -/
theorem not_cutOff_poll {d : Services} (hinv : d.Inv) (txTdma : UInt32) (idle : Bool)
    (now : UInt32) : ¬ CutOff d.fsm (d.serviceSdsDlDelivery txTdma idle).fsm now := by
  rcases poll_cases txTdma idle d with ⟨hf, -⟩ | ⟨d', hf, -, -, -, -, hd⟩ | ⟨d', hf, hd⟩
  · rw [hf]
    exact not_cutOff_of_sameShared (.refl _)
  · obtain ⟨hholds, hother, -⟩ := post_spec d'
    refine not_cutOff_of_valid fun b hv ↦ ?_
    rw [hd]
    rcases eq_or_ne b 0 with rfl | hne
    · exact hholds.1
    · rw [(hother b hne).2, hf]
      exact hv
  · obtain ⟨hvalid, -⟩ := finish_spec idle d'
    rintro ⟨ts, hr, hv, hv', i, hi, -, hsp, -⟩
    rw [hd, hvalid, hf] at hv'
    rcases eq_or_ne ts 1 with rfl | hne
    · have hok := (hinv.table.ok i hsp.1).voiceTs.1
      rw [Fsm.slots_table, hi] at hok
      exact absurd hok (by decide)
    · have hb : FillerMailbox.tsBank ts ≠ FillerMailbox.tsBank 1 := fun he ↦
        hne (tsBank_inj hr (by decide) he)
      rw [Function.update_of_ne hb, hv] at hv'
      cases hv'

theorem fsm_step_call (d : Services) (e : CallFsm.Event) :
    (d.step (.call e)).fsm = d.fsm.step e := rfl

/-- A step clears the bank of no call that goes on speaking. -/
theorem clearsEndedOnly_step (d : Services) (e : Event) (hinv : d.Inv) (hu : d.Undisturbed e) :
    d.ClearsEndedOnly e := by
  rw [ClearsEndedOnly]
  cases e with
  | call e =>
      rw [fsm_step_call]
      cases e with
      | handle env ssi p => exact not_cutOff_handle hu.2
      | tick env => exact not_cutOff_tick env hinv.table
      | notifyUlBurst ts nowMs =>
          exact not_cutOff_of_sameShared (sameShared_notifyUlBurst ts nowMs d.fsm)
      | notifyFirstNub nowMs =>
          exact not_cutOff_of_sameShared (sameShared_notifyFirstNub nowMs d.fsm)
      | notifyLateEntry idle gssi =>
          exact not_cutOff_of_sameShared (sameShared_notifyLateEntry idle gssi d.fsm)
  | pipe burst => exact not_cutOff_pipe burst d.fsm _
  | start dest n type5 txTdma => exact not_cutOff_of_sameShared (.refl d.fsm)
  | poll txTdma idle => exact not_cutOff_poll hinv txTdma idle _

/-- Every tick leaves the voice mask in the register. -/
theorem tickMask_step (d : Services) (e : Event) (hinv : d.Inv) : d.TickMask e := by
  match e with
  | .call (.tick env) =>
      rw [TickMask, fsm_step_call, Fsm.step_tick]
      exact maskReg_tick env hinv.table hinv.mask
  | .call (.handle ..) | .call (.notifyUlBurst ..) | .call (.notifyFirstNub _)
  | .call (.notifyLateEntry ..) | .pipe _ | .start .. | .poll .. => trivial

/-! ## Runs -/

theorem init_inv : init.Inv where
  table := by
    rw [init, table_emit_mask]
    exact Fsm.init_inv
  mask := .inl rfl
  idx h := absurd h Bool.false_ne_true

/-- **The services keep apart in every run of undisturbed steps**: the posted burst stays on
the bank of TS1 with its mask bits set, every tick leaves the voice mask in the register,
and no bank of a call that goes on speaking is cleared. -/
theorem undisturbed_runs (es : List Event) (h : Along step Undisturbed init es) :
    Throughout step BurstHeld init es ∧
      Along step (fun d e ↦ d.TickMask e ∧ d.ClearsEndedOnly e) init es :=
  Along.throughout_and step inv_step
    (fun d e hinv hheld hu ↦ ⟨burstHeld_step d e hinv hheld hu, tickMask_step d e hinv,
      clearsEndedOnly_step d e hinv hu⟩)
    init_inv (fun hp ↦ absurd hp.1 Bool.false_ne_true) h

/-- A delivery of two bursts, and a call set up after the first one is posted. -/
def setupRun : List Event :=
  [.start 7 2 (fun _ _ ↦ false) 0, .poll 4 true, .call (.handle (.at 0) 1 (setupTo 100))]

/-- The set-up takes the posted burst off the bank and out of the mask. -/
theorem setup_disturbs :
    (exec step init (setupRun.take 2)).Posted ∧ ¬ Throughout step BurstHeld init setupRun := by
  refine ⟨⟨by decide +kernel, by decide +kernel⟩, fun h ↦ ?_⟩
  have hposted : (exec step init setupRun).Posted := ⟨by decide +kernel, by decide +kernel⟩
  have hmask : (exec step init setupRun).fsm.maskReg.toBitVec.getLsbD 4 = false := by
    decide +kernel
  have hheld := (Throughout.last step h hposted).2.1
  rw [hmask] at hheld
  cases hheld

/-- The outside of a tick with no burst pending. -/
def idleTick : TickEnv := ⟨0, 0, fun _ _ ↦ true, fun _ ↦ none⟩

/-- A terminal that demands to speak. -/
def txDemand : CmcePdu := { pduType := .uTxDemand }

/-- A call is set up, and goes on while a delivery of two bursts runs from start to end. -/
def quietRun : List Event :=
  [.call (.handle (.at 0) 1 (setupTo 100)), .start 7 2 (fun _ _ ↦ false) 0, .poll 4 true,
    .call (.handle (.at 0) 1 txDemand), .call (.tick idleTick), .poll 8 true, .poll 12 true]

theorem quietRun_apart : Throughout step BurstHeld init quietRun ∧
    Along step (fun d e ↦ d.TickMask e ∧ d.ClearsEndedOnly e) init quietRun := by
  refine undisturbed_runs quietRun ⟨⟨fun hp ↦ absurd hp.1 Bool.false_ne_true, ?_⟩, trivial,
    trivial, ⟨fun _ ↦ ⟨?_, ?_⟩, ?_⟩, ⟨fun _ ↦ ⟨?_, ?_⟩, trivial⟩, trivial, trivial, trivial⟩
  · exact fun _ _ i hsp ↦ absurd hsp.1 (by simp [init, Fsm.init])
  · decide +kernel
  · intro _ i hi
    obtain rfl : i = 0 := Option.some.inj (hi.symm.trans (by decide +kernel))
    decide +kernel
  · exact fun hopen ↦ absurd hopen (by simp [OpensCall, txDemand])
  · rintro ⟨i, b, -, hb, -⟩
    cases hb
  · decide +kernel

end Services

end TetraPhy.Daemon
