import TetraPhy.Lib.Run
import TetraPhy.Lmac.SignalPath

/-!
# The requests to the shared SCH/HD encoder

The slot grant and the acknowledgement each hold their request until they see `done`, and drop it
one cycle later.  In the cycle of `done` the arbiter is idle and sees the request still up: it takes
it again.  The job it does then is a repetition, and its `done` comes while nobody waits, or to the
next request of the channel.

`Requested` runs the path beside what the channels present.

* **`Requested.answered_iff`**: each `done` answers the request that is up, with the block that was
  asked for, exactly as long as each repetition finishes on a channel that asks for the same block
  again;
* `Requested.exists_done0`, `Requested.exists_done1`: a slot grant that waits is told `done`, and so
  is an acknowledgement while no slot grant requests.
-/

namespace TetraPhy.Lmac

open AirOrder Codec Run

/-! ## How long a job takes -/

namespace SchHdEncoder

/-- The cycles until the encoder is idle. -/
def left (e : SchHdEncoder) : ℕ :=
  match e.state with
  | .idle => 0
  | .crc => 124 - e.cnt + 362
  | .build => 362
  | .rcpc => 144 - e.cnt + 217
  | .scram => 216 - e.cnt + 1
  | .finish => 1

variable {e : SchHdEncoder} {info : BitVec 124} {init : BitVec 32}

/-- Each cycle is one less. -/
theorem Working.left_step (h : e.Working info init) (hs : e.state ≠ .idle) (start : Bool)
    (i : BitVec 124) (sc : BitVec 32) : (e.step start i sc).left + 1 = e.left := by
  rcases hst : e.state with _ | _ | _ | _ | _ | _
  · exact absurd hst hs
  · simp only [Working, hst] at h
    obtain ⟨-, -, -, hcnt, -⟩ := h
    by_cases hlast : e.cnt = 123
    · simp [left, SchHdEncoder.step, hst, hlast]
    · simp only [left, SchHdEncoder.step, hst, if_neg hlast]
      omega
  · simp only [Working, hst] at h
    simp [left, SchHdEncoder.step, hst, h]
  · simp only [Working, hst] at h
    obtain ⟨-, -, hcnt, -⟩ := h
    by_cases hlast : e.cnt = 143
    · simp [left, SchHdEncoder.step, hst, hlast]
    · simp only [left, SchHdEncoder.step, hst, if_neg hlast]
      omega
  · simp only [Working, hst] at h
    obtain ⟨-, -, hcnt, -⟩ := h
    by_cases hlast : e.cnt = 215
    · simp [left, SchHdEncoder.step, hst, hlast]
    · simp only [left, SchHdEncoder.step, hst, if_neg hlast]
      omega
  · simp [left, SchHdEncoder.step, hst]

theorem left_start (h : e.state = .idle) : (e.step true info init).left = 486 := by
  simp [left, step, h]

end SchHdEncoder

namespace SchHdShared

variable {a : SchHdShared} {ch0 ch1 : EncReq}

/-- The cycles until a busy arbiter tells `done`. -/
def left (a : SchHdShared) : ℕ := if a.encStart then 488 else a.enc.left + 1

/-- A busy arbiter comes nearer to the end of the job, and tells `done` at its end. -/
theorem Serving.left_step (h : a.Serving) (hb : a.state ≠ .idle) (ch0 ch1 : EncReq) :
    (a.step ch0 ch1).state = a.state ∧ (a.step ch0 ch1).left + 1 = a.left ∨
      (a.state = .ch0Busy → (a.step ch0 ch1).ch0Done = true) ∧
        (a.state = .ch1Busy → (a.step ch0 ch1).ch1Done = true) ∧
        (a.step ch0 ch1).state = .idle := by
  cases hv : a.enc.codedValid with
  | true =>
      refine .inr ?_
      rcases hs : a.state with _ | _ | _
      · exact absurd hs hb
      · simp [SchHdShared.step, hs, hv]
      · simp [SchHdShared.step, hs, hv]
  | false =>
      refine .inl ?_
      rw [step_wait hb hv]
      refine ⟨rfl, ?_⟩
      rcases h.busy hb with ⟨hst, hrest⟩ | ⟨hst, hwork⟩
      · have hleft : (a.enc.step true a.encInfoBits a.encScrambleInit).left = 486 :=
          SchHdEncoder.left_start hrest.1
        rw [left, left, if_neg Bool.false_ne_true, hst, if_pos rfl, encNext, hst, hleft]
      · have hrun : a.enc.state ≠ .idle := fun hidle ↦ by
          rw [hwork.codedValid_iff.2 hidle] at hv
          cases hv
        have hleft := hwork.left_step hrun a.encStart a.encInfoBits a.encScrambleInit
        rw [left, left, if_neg Bool.false_ne_true, hst, if_neg Bool.false_ne_true, encNext, ← hleft]

theorem Serving.left_le (h : a.Serving) (hb : a.state ≠ .idle) : a.left ≤ 488 := by
  rw [left]
  split_ifs with hst
  · exact le_rfl
  · rcases h.busy hb with ⟨hst', -⟩ | ⟨-, hwork⟩
    · exact absurd hst' hst
    · have hle : a.enc.left ≤ 486 := by
        rw [SchHdEncoder.left]
        split <;> omega
      omega

/-- What the arbiter does in a cycle: it takes a request, rests, waits for the encoder, or tells a
channel `done`. -/
inductive ArbStep (a : SchHdShared) (ch0 ch1 : EncReq) (a' : SchHdShared) : Prop
  | take0 (hs : a.state = .idle) (hr : ch0.req = true) (hs' : a'.state = .ch0Busy)
    (hd : a'.ch0Done = false ∧ a'.ch1Done = false) (hb : a'.block =
      schhdEncode (onAir ch0.infoBits) (UInt32.ofBitVec ch0.scrambleInit))
  | take1 (hs : a.state = .idle) (hr : ch0.req = false) (hr' : ch1.req = true)
    (hs' : a'.state = .ch1Busy) (hd : a'.ch0Done = false ∧ a'.ch1Done = false) (hb : a'.block =
      schhdEncode (onAir ch1.infoBits) (UInt32.ofBitVec ch1.scrambleInit))
  | rest (hs : a.state = .idle) (hr : ch0.req = false) (hr' : ch1.req = false)
    (hs' : a'.state = .idle) (hd : a'.ch0Done = false ∧ a'.ch1Done = false)
  | wait (hs : a.state ≠ .idle) (hv : a.enc.codedValid = false) (hs' : a'.state = a.state)
    (hd : a'.ch0Done = false ∧ a'.ch1Done = false) (hb : a'.block = a.block)
  | done0 (hs : a.state = .ch0Busy) (hv : a.enc.codedValid = true) (hs' : a'.state = .idle)
    (hd : a'.ch0Done = true ∧ a'.ch1Done = false) (hb : a'.block = a.block)
  | done1 (hs : a.state = .ch1Busy) (hv : a.enc.codedValid = true) (hs' : a'.state = .idle)
    (hd : a'.ch0Done = false ∧ a'.ch1Done = true) (hb : a'.block = a.block)

theorem arbStep (a : SchHdShared) (ch0 ch1 : EncReq) : ArbStep a ch0 ch1 (a.step ch0 ch1) := by
  rcases hs : a.state with _ | _ | _
  · cases h0 : ch0.req with
    | true =>
        refine .take0 hs h0 ?_ ?_ ?_ <;> simp [SchHdShared.step, hs, h0, block]
    | false =>
        cases h1 : ch1.req with
        | true => refine .take1 hs h0 h1 ?_ ?_ ?_ <;> simp [SchHdShared.step, hs, h0, h1, block]
        | false => refine .rest hs h0 h1 ?_ ?_ <;> simp [SchHdShared.step, hs, h0, h1]
  all_goals
    cases hv : a.enc.codedValid with
    | false =>
        refine .wait (by rw [hs]; decide) hv ?_ ?_ ?_ <;> simp [SchHdShared.step, hs, hv, block]
    | true => first
      | refine .done0 hs hv ?_ ?_ ?_ <;> simp [SchHdShared.step, hs, hv, block]
      | refine .done1 hs hv ?_ ?_ ?_ <;> simp [SchHdShared.step, hs, hv, block]

end SchHdShared

/-! ## What the channels present -/

/-- The block of a request. -/
def EncReq.block (r : EncReq) : List Bool :=
  schhdEncode (onAir r.infoBits) (UInt32.ofBitVec r.scrambleInit)

/-- What a channel has presented since its request is up, after another cycle. -/
def presented (r : EncReq) (before : List EncReq) : List EncReq := if r.req then r :: before else []

/-- A path; what the requests that are up have presented so far; and whether the job the arbiter
took last is a repetition, which it took in the cycle in which it told that channel `done`. -/
structure Requested where
  path : SignalPath
  asked0 : List EncReq
  asked1 : List EncReq
  repeated : Bool

namespace Requested

variable (o : Requested) (i : PathIn)

/-- One clock edge. -/
def step : Requested where
  path := o.path.step i
  asked0 := presented o.path.sgEnc o.asked0
  asked1 := presented (o.path.blckEnc i) o.asked1
  repeated :=
    if o.path.shared.state = .idle then
      if o.path.sgEnc.req then o.path.shared.ch0Done
      else if (o.path.blckEnc i).req then o.path.shared.ch1Done
      else o.repeated
    else o.repeated

def init : Requested := ⟨SignalPath.init, [], [], false⟩

/-- **Each `done` answers a request**: the machine waits for it, and the block is that of what the
machine has presented for the request. -/
structure Answered : Prop where
  slotgrant : o.path.shared.ch0Done = true → o.path.slotgrant.fsm.state = .enc ∧
    ∃ r ∈ o.asked0, onAir o.path.shared.ch0Coded = r.block
  blck : o.path.shared.ch1Done = true → o.path.blck.fsm.state = .enc ∧
    ∃ r ∈ o.asked1, onAir o.path.shared.ch1Coded = r.block

/-- If the encoder is through with a repetition, the channel asks for the same block again: it is
one of those presented up to this cycle. -/
def Renewed (o : Requested) (i : PathIn) : Prop :=
  o.repeated = true → o.path.shared.enc.codedValid = true →
    (o.path.shared.state = .ch0Busy → o.path.slotgrant.fsm.state = .enc ∧
      ∃ r ∈ presented o.path.sgEnc o.asked0, o.path.shared.block = r.block) ∧
    (o.path.shared.state = .ch1Busy → o.path.blck.fsm.state = .enc ∧
      ∃ r ∈ presented (o.path.blckEnc i) o.asked1, o.path.shared.block = r.block)

/-- **The invariant**: a job that is no repetition is one that the waiting machine has presented. -/
structure Inv : Prop where
  serving : o.path.shared.Serving
  req0 : o.path.slotgrant.fsm.encReq = decide (o.path.slotgrant.fsm.state = .enc)
  req1 : o.path.blck.fsm.encReq = decide (o.path.blck.fsm.state = .enc)
  busy0 : o.path.shared.state = .ch0Busy → o.repeated = false →
    o.path.slotgrant.fsm.state = .enc ∧ ∃ r ∈ o.asked0, o.path.shared.block = r.block
  busy1 : o.path.shared.state = .ch1Busy → o.repeated = false →
    o.path.blck.fsm.state = .enc ∧ ∃ r ∈ o.asked1, o.path.shared.block = r.block

end Requested

namespace ReplyFsm

variable {Lat : Type} {f : ReplyFsm Lat} {i : ReplyIn Lat}

/-- The request is up while the machine waits for the encoder. -/
theorem encReq_step (h : f.encReq = decide (f.state = .enc)) :
    (f.step i).encReq = decide ((f.step i).state = .enc) := by
  rcases hs : f.state with _ | _ | _ | _ <;> rw [hs] at h
  · cases ht : i.trigger <;> simp [step, hs, ht, h]
  · cases hb : i.builderValid <;> simp [step, hs, hb, h]
  · cases hd : i.encDone <;> simp [step, hs, hd, h]
  · simp [step, hs, h]

/-- It waits until it is told `done`. -/
theorem step_enc (hs : f.state = .enc) (hd : i.encDone = false) : (f.step i).state = .enc := by
  simp [step, hs, hd]

end ReplyFsm

namespace Requested

variable {o : Requested} {i : PathIn}

theorem inv_init : Inv init where
  serving := SchHdShared.serving_init
  req0 := by decide
  req1 := by decide
  busy0 h := nomatch h
  busy1 h := nomatch h

theorem mem_presented {r : EncReq} {before : List EncReq} (h : r.req = true) :
    r ∈ presented r before ∧ ∀ q ∈ before, q ∈ presented r before := by
  rw [presented, if_pos h]
  exact ⟨List.mem_cons_self, fun q hq ↦ List.mem_cons_of_mem r hq⟩

/-- The slot grant goes on waiting, and what it has presented stays. -/
theorem Inv.waits0 (h : Inv o) (hs : o.path.slotgrant.fsm.state = .enc)
    (hd : o.path.shared.ch0Done = false) :
    (o.step i).path.slotgrant.fsm.state = .enc ∧ o.path.sgEnc ∈ (o.step i).asked0 ∧
      ∀ r ∈ o.asked0, r ∈ (o.step i).asked0 :=
  ⟨ReplyFsm.step_enc hs hd, mem_presented (h.req0.trans (decide_eq_true hs))⟩

/-- The acknowledgement goes on waiting, and what it has presented stays. -/
theorem Inv.waits1 (h : Inv o) (hs : o.path.blck.fsm.state = .enc)
    (hd : o.path.shared.ch1Done = false) :
    (o.step i).path.blck.fsm.state = .enc ∧ o.path.blckEnc i ∈ (o.step i).asked1 ∧
      ∀ r ∈ o.asked1, r ∈ (o.step i).asked1 :=
  ⟨ReplyFsm.step_enc hs hd, mem_presented (h.req1.trans (decide_eq_true hs))⟩

/-- Nobody is told `done` while the arbiter is busy. -/
theorem Inv.not_done (h : Inv o) (hs : o.path.shared.state ≠ .idle) :
    o.path.shared.ch0Done = false ∧ o.path.shared.ch1Done = false :=
  ⟨Bool.eq_false_iff.2 fun hd ↦ hs (h.serving.done0 hd).1,
    Bool.eq_false_iff.2 fun hd ↦ hs (h.serving.done1 hd).1⟩

/-- **The invariant is kept.** -/
theorem Inv.step (h : Inv o) (i : PathIn) : Inv (o.step i) := by
  have harb := SchHdShared.arbStep o.path.shared o.path.sgEnc (o.path.blckEnc i)
  refine ⟨h.serving.step _ _, ReplyFsm.encReq_step h.req0, ReplyFsm.encReq_step h.req1,
    fun hbusy hrep ↦ ?_, fun hbusy hrep ↦ ?_⟩
  · cases harb with
    | take0 hs hr hs' hd hb =>
        have hnew : (o.step i).repeated = o.path.shared.ch0Done := by
          rw [Requested.step, if_pos hs, if_pos hr]
        have henc : o.path.slotgrant.fsm.state = .enc := of_decide_eq_true (h.req0.symm.trans hr)
        obtain ⟨hwait, hmem, -⟩ := h.waits0 (i := i) henc (hnew ▸ hrep)
        exact ⟨hwait, _, hmem, hb⟩
    | take1 hs hr hr' hs' hd hb => exact absurd (hs'.symm.trans hbusy) (by decide)
    | rest hs hr hr' hs' hd => exact absurd (hs'.symm.trans hbusy) (by decide)
    | wait hs hv hs' hd hb =>
        have hold : (o.step i).repeated = o.repeated := by rw [Requested.step, if_neg hs]
        obtain ⟨henc, r, hr, hblock⟩ := h.busy0 (hs'.symm.trans hbusy) (hold ▸ hrep)
        obtain ⟨hwait, -, hmem⟩ := h.waits0 (i := i) henc (h.not_done hs).1
        exact ⟨hwait, r, hmem r hr, hb.trans hblock⟩
    | done0 hs hv hs' hd hb => exact absurd (hs'.symm.trans hbusy) (by decide)
    | done1 hs hv hs' hd hb => exact absurd (hs'.symm.trans hbusy) (by decide)
  · cases harb with
    | take0 hs hr hs' hd hb => exact absurd (hs'.symm.trans hbusy) (by decide)
    | take1 hs hr hr' hs' hd hb =>
        have hnew : (o.step i).repeated = o.path.shared.ch1Done := by
          rw [Requested.step, if_pos hs, if_neg (by rw [hr]; decide), if_pos hr']
        have henc : o.path.blck.fsm.state = .enc := of_decide_eq_true (h.req1.symm.trans hr')
        obtain ⟨hwait, hmem, -⟩ := h.waits1 (i := i) henc (hnew ▸ hrep)
        exact ⟨hwait, _, hmem, hb⟩
    | rest hs hr hr' hs' hd => exact absurd (hs'.symm.trans hbusy) (by decide)
    | wait hs hv hs' hd hb =>
        have hold : (o.step i).repeated = o.repeated := by rw [Requested.step, if_neg hs]
        obtain ⟨henc, r, hr, hblock⟩ := h.busy1 (hs'.symm.trans hbusy) (hold ▸ hrep)
        obtain ⟨hwait, -, hmem⟩ := h.waits1 (i := i) henc (h.not_done hs).2
        exact ⟨hwait, r, hmem r hr, hb.trans hblock⟩
    | done0 hs hv hs' hd hb => exact absurd (hs'.symm.trans hbusy) (by decide)
    | done1 hs hv hs' hd hb => exact absurd (hs'.symm.trans hbusy) (by decide)

theorem req_of_mem_presented {q r : EncReq} {before : List EncReq} (h : q ∈ presented r before) :
    r.req = true := by
  by_contra hr
  rw [presented, if_neg hr] at h
  exact List.not_mem_nil h

/-- **Each `done` answers a request exactly if a repetition is renewed.** -/
theorem Inv.answered_step_iff (h : Inv o) (i : PathIn) : Answered (o.step i) ↔ Renewed o i := by
  have hserv := (h.step i).serving
  have hquiet (hd : (o.step i).path.shared.ch0Done = false ∧
      (o.step i).path.shared.ch1Done = false) : Answered (o.step i) :=
    ⟨fun hc ↦ absurd (hd.1.symm.trans hc) (by decide),
      fun hc ↦ absurd (hd.2.symm.trans hc) (by decide)⟩
  cases SchHdShared.arbStep o.path.shared o.path.sgEnc (o.path.blckEnc i) with
  | take0 hs hr hs' hd hb =>
      refine iff_of_true (hquiet hd) fun _ _ ↦ ?_
      rw [hs]
      exact ⟨fun hc ↦ (nomatch hc), fun hc ↦ (nomatch hc)⟩
  | take1 hs hr hr' hs' hd hb =>
      refine iff_of_true (hquiet hd) fun _ _ ↦ ?_
      rw [hs]
      exact ⟨fun hc ↦ (nomatch hc), fun hc ↦ (nomatch hc)⟩
  | rest hs hr hr' hs' hd =>
      refine iff_of_true (hquiet hd) fun _ _ ↦ ?_
      rw [hs]
      exact ⟨fun hc ↦ (nomatch hc), fun hc ↦ (nomatch hc)⟩
  | wait hs hv hs' hd hb =>
      exact iff_of_true (hquiet hd) fun _ hc ↦ absurd (hv.symm.trans hc) (by decide)
  | done0 hs hv hs' hd hb =>
      have hcoded : onAir (o.step i).path.shared.ch0Coded = o.path.shared.block :=
        (hserv.done0 hd.1).2.trans hb
      constructor
      · rintro ⟨hans, -⟩ - -
        obtain ⟨-, r, hr, hblock⟩ := hans hd.1
        refine ⟨fun _ ↦ ⟨?_, r, hr, hcoded.symm.trans hblock⟩, fun hc ↦ ?_⟩
        · exact of_decide_eq_true (h.req0.symm.trans (req_of_mem_presented hr))
        · exact absurd (hs.symm.trans hc) (by decide)
      · intro hrenew
        refine ⟨fun _ ↦ ?_, fun hc ↦ absurd (hd.2.symm.trans hc) (by decide)⟩
        have hnot := (h.not_done (by rw [hs]; decide)).1
        cases hrep : o.repeated with
        | true =>
            obtain ⟨henc, r, hr, hblock⟩ := (hrenew hrep hv).1 hs
            exact ⟨(h.waits0 henc hnot).1, r, hr, hcoded.trans hblock⟩
        | false =>
            obtain ⟨henc, r, hr, hblock⟩ := h.busy0 hs hrep
            obtain ⟨hwait, -, hmem⟩ := h.waits0 (i := i) henc hnot
            exact ⟨hwait, r, hmem r hr, hcoded.trans hblock⟩
  | done1 hs hv hs' hd hb =>
      have hcoded : onAir (o.step i).path.shared.ch1Coded = o.path.shared.block :=
        (hserv.done1 hd.2).2.trans hb
      constructor
      · rintro ⟨-, hans⟩ - -
        obtain ⟨-, r, hr, hblock⟩ := hans hd.2
        refine ⟨fun hc ↦ ?_, fun _ ↦ ⟨?_, r, hr, hcoded.symm.trans hblock⟩⟩
        · exact absurd (hs.symm.trans hc) (by decide)
        · exact of_decide_eq_true (h.req1.symm.trans (req_of_mem_presented hr))
      · intro hrenew
        refine ⟨fun hc ↦ absurd (hd.1.symm.trans hc) (by decide), fun _ ↦ ?_⟩
        have hnot := (h.not_done (by rw [hs]; decide)).2
        cases hrep : o.repeated with
        | true =>
            obtain ⟨henc, r, hr, hblock⟩ := (hrenew hrep hv).2 hs
            exact ⟨(h.waits1 henc hnot).1, r, hr, hcoded.trans hblock⟩
        | false =>
            obtain ⟨henc, r, hr, hblock⟩ := h.busy1 hs hrep
            obtain ⟨hwait, -, hmem⟩ := h.waits1 (i := i) henc hnot
            exact ⟨hwait, r, hmem r hr, hcoded.trans hblock⟩

/-! ## Every request gets an answer -/

/-- The cycles until a channel is told `done`, at most: `done` is that of the channel, and `own` the
arbiter's state in which it serves it. -/
def cyclesLeft (a : SchHdShared) (own : ArbState) (done : Bool) : ℕ :=
  if done then 0
  else if a.state = .idle then 489
  else if a.state = own then a.left
  else a.left + 489

theorem cyclesLeft_le {a : SchHdShared} (h : a.Serving) (own : ArbState) (done : Bool) :
    cyclesLeft a own done ≤ 977 := by
  rw [cyclesLeft]
  split_ifs with _ hs
  · exact Nat.zero_le _
  · decide
  · exact (h.left_le hs).trans (by decide)
  · exact Nat.add_le_add_right (h.left_le hs) 489

theorem left_pos (a : SchHdShared) : 0 < a.left := by
  rw [SchHdShared.left]
  split_ifs <;> omega

/-- A cycle in which the arbiter serves the channel, waits, or is through with the other one. -/
theorem cyclesLeft_lt {a a' : SchHdShared} {own : ArbState} {done' : Bool} (hserv' : a'.Serving)
    (h : a.state = .idle ∧ a'.state = own ∧ a'.state ≠ .idle ∨ a.state ≠ .idle ∧
      (a'.state = a.state ∧ a'.left + 1 = a.left ∨
        a'.state = .idle ∧ (a.state = own → done' = true))) :
    cyclesLeft a' own done' < cyclesLeft a own false := by
  have hpos := left_pos a
  simp only [cyclesLeft, Bool.false_eq_true, if_false]
  rcases h with ⟨hs, hown, hbusy⟩ | ⟨hs, ⟨hsame, hleft⟩ | ⟨hidle, hdone⟩⟩
  · have hle := hserv'.left_le hbusy
    rw [if_pos hs, if_neg hbusy, if_pos hown]
    split_ifs <;> omega
  · rw [if_neg hs, hsame, if_neg hs]
    split_ifs <;> omega
  · rw [if_neg hs, if_pos hidle]
    by_cases hown : a.state = own
    · rw [if_pos (hdone hown), if_pos hown]
      exact hpos
    · rw [if_neg hown]
      split_ifs <;> omega

/-- While the slot grant waits, each cycle is one less. -/
theorem Inv.cyclesLeft0_step (h : Inv o) (hs : o.path.slotgrant.fsm.state = .enc) (i : PathIn) :
    cyclesLeft (o.step i).path.shared .ch0Busy (o.step i).path.shared.ch0Done <
      cyclesLeft o.path.shared .ch0Busy false := by
  refine cyclesLeft_lt (h.step i).serving ?_
  have hreq : o.path.sgEnc.req = true := h.req0.trans (decide_eq_true hs)
  by_cases hidle : o.path.shared.state = .idle
  · refine .inl ⟨hidle, ?_⟩
    cases SchHdShared.arbStep o.path.shared o.path.sgEnc (o.path.blckEnc i) with
    | take0 _ _ hs' => exact ⟨hs', fun hc ↦ absurd (hs'.symm.trans hc) (by decide)⟩
    | take1 _ hr => exact absurd (hreq.symm.trans hr) (by decide)
    | rest _ hr => exact absurd (hreq.symm.trans hr) (by decide)
    | wait hb => exact absurd hidle hb
    | done0 hb => exact absurd (hidle.symm.trans hb) (by decide)
    | done1 hb => exact absurd (hidle.symm.trans hb) (by decide)
  · refine .inr ⟨hidle, (h.serving.left_step hidle _ _).imp_right fun ⟨hdone, _, hs'⟩ ↦ ?_⟩
    exact ⟨hs', hdone⟩

/-- While the acknowledgement waits and no slot grant requests, each cycle is one less. -/
theorem Inv.cyclesLeft1_step (h : Inv o) (hs : o.path.blck.fsm.state = .enc) {i : PathIn}
    (hr0 : o.path.slotgrant.fsm.state ≠ .enc) :
    cyclesLeft (o.step i).path.shared .ch1Busy (o.step i).path.shared.ch1Done <
      cyclesLeft o.path.shared .ch1Busy false := by
  refine cyclesLeft_lt (h.step i).serving ?_
  have hreq : (o.path.blckEnc i).req = true := h.req1.trans (decide_eq_true hs)
  have hreq0 : o.path.sgEnc.req = false := h.req0.trans (decide_eq_false hr0)
  by_cases hidle : o.path.shared.state = .idle
  · refine .inl ⟨hidle, ?_⟩
    cases SchHdShared.arbStep o.path.shared o.path.sgEnc (o.path.blckEnc i) with
    | take0 _ hr => exact absurd (hr.symm.trans hreq0) (by decide)
    | take1 _ _ _ hs' => exact ⟨hs', fun hc ↦ absurd (hs'.symm.trans hc) (by decide)⟩
    | rest _ _ hr => exact absurd (hreq.symm.trans hr) (by decide)
    | wait hb => exact absurd hidle hb
    | done0 hb => exact absurd (hidle.symm.trans hb) (by decide)
    | done1 hb => exact absurd (hidle.symm.trans hb) (by decide)
  · refine .inr ⟨hidle, (h.serving.left_step hidle _ _).imp_right fun ⟨_, hdone, hs'⟩ ↦ ?_⟩
    exact ⟨hs', hdone⟩

theorem done_of_cyclesLeft {a : SchHdShared} {own : ArbState} {done : Bool}
    (h : cyclesLeft a own done = 0) : done = true := by
  have := left_pos a
  rw [cyclesLeft] at h
  split_ifs at h with hd
  · exact hd
  all_goals omega

/-- **A slot grant that waits is told `done`**, after 977 cycles at most. -/
theorem Inv.exists_done0 (h : Inv o) (hs : o.path.slotgrant.fsm.state = .enc) {is : List PathIn}
    (hlen : 977 ≤ is.length) :
    ∃ k ≤ 977, (exec Requested.step o (is.take k)).path.slotgrant.fsm.state = .enc ∧
      (exec Requested.step o (is.take k)).path.shared.ch0Done = true := by
  obtain ⟨k, hk, ⟨-, henc⟩, hdone⟩ := exists_response Requested.step
    (W := fun o ↦ Inv o ∧ o.path.slotgrant.fsm.state = .enc)
    (D := fun o ↦ o.path.shared.ch0Done = true) (C := fun _ _ ↦ True)
    (m := fun o ↦ cyclesLeft o.path.shared .ch0Busy o.path.shared.ch0Done)
    (fun o i ⟨hinv, henc⟩ hd _ ↦ by
      rw [Bool.not_eq_true] at hd
      rw [hd]
      exact ⟨⟨hinv.step i, (hinv.waits0 henc hd).1⟩, hinv.cyclesLeft0_step henc i⟩)
    (fun o _ hz ↦ done_of_cyclesLeft hz) ⟨h, hs⟩ (cyclesLeft_le h.serving _ _) hlen
    (along_true _ _ _)
  exact ⟨k, hk, henc, hdone⟩

/-- **So is an acknowledgement that waits**, while no slot grant requests. -/
theorem Inv.exists_done1 (h : Inv o) (hs : o.path.blck.fsm.state = .enc) {is : List PathIn}
    (hlen : 977 ≤ is.length)
    (hno : Along Requested.step (fun o _ ↦ o.path.slotgrant.fsm.state ≠ .enc) o is) :
    ∃ k ≤ 977, (exec Requested.step o (is.take k)).path.blck.fsm.state = .enc ∧
      (exec Requested.step o (is.take k)).path.shared.ch1Done = true := by
  obtain ⟨k, hk, ⟨-, henc⟩, hdone⟩ := exists_response Requested.step
    (W := fun o ↦ Inv o ∧ o.path.blck.fsm.state = .enc)
    (D := fun o ↦ o.path.shared.ch1Done = true)
    (m := fun o ↦ cyclesLeft o.path.shared .ch1Busy o.path.shared.ch1Done)
    (fun o i ⟨hinv, henc⟩ hd hr0 ↦ by
      rw [Bool.not_eq_true] at hd
      rw [hd]
      exact ⟨⟨hinv.step i, (hinv.waits1 henc hd).1⟩, hinv.cyclesLeft1_step henc hr0⟩)
    (fun o _ hz ↦ done_of_cyclesLeft hz) ⟨h, hs⟩ (cyclesLeft_le h.serving _ _) hlen hno
  exact ⟨k, hk, henc, hdone⟩

/-- **When each request gets exactly one answer.**  In every run each `done` answers the request
that is up exactly if each repetition that is through is for a channel that asks for the same block
again; and a machine that waits gets its answer, the acknowledgement while no slot grant requests. -/
theorem answered_iff (is : List PathIn) :
    (Throughout step Answered init is ↔ Along step Renewed init is) ∧
    (∀ js : List PathIn, 977 ≤ js.length →
      (exec step init is).path.slotgrant.fsm.state = .enc →
        ∃ k ≤ 977, (exec step init (is ++ js.take k)).path.slotgrant.fsm.state = .enc ∧
          (exec step init (is ++ js.take k)).path.shared.ch0Done = true) ∧
    (∀ js : List PathIn, 977 ≤ js.length →
      (exec step init is).path.blck.fsm.state = .enc →
      Along step (fun o _ ↦ o.path.slotgrant.fsm.state ≠ .enc) (exec step init is) js →
        ∃ k ≤ 977, (exec step init (is ++ js.take k)).path.blck.fsm.state = .enc ∧
          (exec step init (is ++ js.take k)).path.shared.ch1Done = true) := by
  have hinv : Inv (exec step init is) := exec_induction step (fun _ i h ↦ h.step i) inv_init is
  refine ⟨?_, fun js hlen hs ↦ ?_, fun js hlen hs hno ↦ ?_⟩
  · exact throughout_iff_along step (fun _ i h ↦ h.step i) (fun o i h _ ↦ h.answered_step_iff i)
      inv_init ⟨fun hc ↦ (nomatch hc), fun hc ↦ (nomatch hc)⟩ is
  · obtain ⟨k, hk, hres⟩ := hinv.exists_done0 hs hlen
    exact ⟨k, hk, by rw [exec_append]; exact hres⟩
  · obtain ⟨k, hk, hres⟩ := hinv.exists_done1 hs hlen hno
    exact ⟨k, hk, by rw [exec_append]; exact hres⟩

/-! ### Runs -/

instance (o : Requested) (i : PathIn) : Decidable (o.Renewed i) := by
  unfold Renewed
  infer_instance

/-- A first fragment of the terminal 1, and cycles in which nothing happens. -/
def grantRequest (n : ℕ) : List PathIn :=
  { frag1Pulse := true, frag1MmType := 2, ulIssi := 1 } :: List.replicate n SignalPath.quiet

/-- Until its slot grant is pushed, nothing goes wrong; and it waits for the encoder and is told
`done`. -/
theorem grantRequest_answered : Throughout step Answered init (grantRequest 500) ∧
    ∃ k ≤ 977, (exec step init (grantRequest 8 ++
      (List.replicate 977 SignalPath.quiet).take k)).path.shared.ch0Done = true := by
  refine ⟨(answered_iff (grantRequest 500)).1.2 (by decide +kernel), ?_⟩
  obtain ⟨k, hk, -, hdone⟩ := (answered_iff (grantRequest 8)).2.1
    (List.replicate 977 SignalPath.quiet) (List.length_replicate.ge) (by decide +kernel)
  exact ⟨k, hk, hdone⟩

/-- The same, with the software asking for a slot grant for the terminal 3 meanwhile. -/
def grantRequests : List PathIn :=
  grantRequest 520 ++
    { mle := { goPulse := true
               mb := { word := fun k ↦ if k = 0 then 3 else if k = 9 then 0x4000 else 0 } } } ::
      List.replicate 464 SignalPath.quiet

/-- **The slot grant of the terminal 1 is told `done` twice**, and the second time it is idle; or the
terminal 3 waits for its own, and is told `done` for the job of the terminal 1. -/
theorem grantRequest_twice :
    (exec step init (grantRequest 496)).path.shared.ch0Done = true ∧
    (exec step init (grantRequest 985)).path.shared.ch0Done = true ∧
    (exec step init (grantRequest 985)).path.slotgrant.fsm.state = .idle ∧
    ¬ Throughout step Answered init (grantRequest 985) ∧
    (exec step init grantRequests).path.shared.ch0Done = true ∧
    (exec step init grantRequests).path.slotgrant.fsm.state = .enc ∧
    (exec step init grantRequests).path.slotgrant.fsm.lat.ssi = 3 ∧
    (exec step init grantRequests).path.shared.encInfoBits ≠
      (exec step init grantRequests).path.slotgrant.builder.pduBits := by
  have hdone : (exec step init (grantRequest 985)).path.shared.ch0Done = true := by decide +kernel
  have hidle : (exec step init (grantRequest 985)).path.slotgrant.fsm.state = .idle := by
    decide +kernel
  refine ⟨by decide +kernel, hdone, hidle, fun h ↦ ?_, by decide +kernel⟩
  have henc := ((Throughout.last step h).slotgrant hdone).1
  rw [hidle] at henc
  cases henc

end Requested

end TetraPhy.Lmac
