import TetraPhy.Lib.Run
import TetraPhy.Lmac.ReplyPath

/-!
# What becomes of the replies

A run of the reply path is the list of what happens in its clock cycles, from reset on.
`ReplyWatch` runs the path beside a record of what was asked and what was delivered; the record
never feeds back into the path.

The software's side is `reply_wait_idle`: it has the mailbox to itself from the moment it sees
`busy` low until its next GO (`released`), and writes the mailbox only then.  A GO that is given
then is owed a block, of the fields the mailbox shows at the GO; what else the FSM takes for a GO
is answered too.

**`willAnswer_iff`**: every GO is answered, once, with the right block and in order, exactly as
long as none of those owed comes in the cycle of a U-ITSI-DETACH or in the one after it.  In
`S_IDLE` the detach has precedence, in `S_DETACH_NOOP` the GO is not looked at, and nothing keeps
it: the pulse is gone in the next cycle.
-/

namespace TetraPhy.Lmac

open AirOrder Codec Run Sw

/-- The reply path and the record of its run. -/
structure ReplyWatch where
  path : ReplyPath := {}
  released : Bool := false
  due : List (List Bool) := []
  delivered : List (List Bool) := []
  age : ℕ := 0

namespace ReplyWatch

variable (cfg : CellConfig) (w : ReplyWatch) (c : ReplyCycle)

/-- A GO that is owed an answer, or that the FSM takes. -/
def asks : Bool :=
  c.sw.isGo && !w.path.mb.rawSlotgrant && (w.released || decide (w.path.Accepts cfg c))

/-- A cycle: the path steps, the record notes what was asked and delivered, and when. -/
def step : ReplyWatch :=
  let path := w.path.step cfg c
  { path
    released := match c.sw with
      | .go => false
      | .poll => w.released || !w.path.mle.busy
      | _ => w.released
    due := if w.asks cfg c then w.due ++ [(w.path.mb.request cfg).block] else w.due
    delivered :=
      if path.mle.reqValid then w.delivered ++ [onAir path.mle.reqCodedBits] else w.delivered
    age := if w.asks cfg c then 0 else w.age + 1 }

/-- The mailbox is written only while the software has it to itself. -/
def Staged : Prop := ∀ x, c.sw = .write x → w.released = true

/-- A GO that is owed an answer comes neither with a detach nor right after one. -/
def Undetached : Prop :=
  c.sw = .go → w.path.mb.rawSlotgrant = false → w.released = true →
    c.ulDetachValid = false ∧ w.path.mle.state ≠ .detachNoop

instance : Decidable (w.Staged c) :=
  match h : c.sw with
  | .write x => decidable_of_iff (w.released = true)
      ⟨fun hr _ _ ↦ hr, fun hs ↦ hs x h⟩
  | .none => isTrue fun _ hx ↦ nomatch h.symm.trans hx
  | .go => isTrue fun _ hx ↦ nomatch h.symm.trans hx
  | .poll => isTrue fun _ hx ↦ nomatch h.symm.trans hx

theorem isGo_iff {a : SwAccess} : a.isGo = true ↔ a = .go := by cases a <;> simp [SwAccess.isGo]

instance : Decidable (w.Undetached c) :=
  decidable_of_iff (c.sw.isGo = true → w.path.mb.rawSlotgrant = false → w.released = true →
    c.ulDetachValid = false ∧ w.path.mle.state ≠ .detachNoop) (by rw [isGo_iff]; rfl)

/-- Everything asked was delivered, but for a block that was asked less than 1005 cycles ago. -/
def Answered : Prop :=
  w.delivered = w.due ∨ w.age < 1005 ∧ ∃ bits, w.due = w.delivered ++ [bits]

/-- If nothing more happened, everything would be delivered in time. -/
def WillAnswer : Prop := ∀ n, (exec (step cfg) w (List.replicate n {})).Answered

/-! ## What a cycle does -/

/-- A block is on its way, and the software waits for it. -/
structure Flight (bits : List Bool) (n : ℕ) : Prop where
  flying : w.path.Flying cfg bits n
  pos : 0 < n
  age : n + w.age = 1005
  released : w.released = false
  busy : w.path.mle.busy = true

/-- The path rests or a block is on its way. -/
def Inv : Prop := w.path.Resting ∨ ∃ bits n, w.Flight cfg bits n

/-- What was asked is delivered or on its way. -/
def Kept : Prop :=
  w.path.Resting ∧ w.delivered = w.due ∨
    ∃ bits n, w.Flight cfg bits n ∧ w.due = w.delivered ++ [bits]

variable {cfg w c}

theorem step_of_not_asks (h : w.asks cfg c = false) :
    (w.step cfg c).due = w.due ∧ (w.step cfg c).age = w.age + 1 := by
  constructor <;> simp [step, h]

theorem step_of_asks (h : w.asks cfg c = true) :
    (w.step cfg c).due = w.due ++ [(w.path.mb.request cfg).block] ∧ (w.step cfg c).age = 0 := by
  constructor <;> simp [step, h]

theorem delivered_step (h : (w.path.step cfg c).mle.reqValid = false) :
    (w.step cfg c).delivered = w.delivered := by
  simp [step, h]

/-- A GO that the FSM takes is noted. -/
theorem asks_of_accepts (h : w.path.Accepts cfg c) : w.asks cfg c = true := by
  have hgo := h.sw_eq
  obtain ⟨-, -, hmb⟩ := id h
  rw [MleIn.mbGoPulse, Bool.and_eq_true] at hmb
  rw [asks, hgo, decide_eq_true h, Bool.or_true, Bool.and_true]
  exact hmb.2

/-- While a block is on its way no GO is. -/
theorem asks_of_flying {bits : List Bool} {n : ℕ} (h : w.path.Flying cfg bits n)
    (hr : w.released = false) : w.asks cfg c = false := by
  have hno : ¬ w.path.Accepts cfg c := h.not_accepts
  rw [asks, hr, decide_eq_false hno, Bool.or_false, Bool.and_false]

/-- The software still waits. -/
theorem released_step (hr : w.released = false) (hb : w.path.mle.busy = true) :
    (w.step cfg c).released = false := by
  change (match c.sw with
    | .go => false
    | .poll => w.released || !w.path.mle.busy
    | _ => w.released) = false
  cases c.sw <;> simp [hr, hb]

/-- A GO is taken. -/
theorem step_accepts (h : w.path.Resting) (ha : w.path.Accepts cfg c) :
    (w.step cfg c).Flight cfg (w.path.mb.request cfg).block 1005 ∧
      (w.step cfg c).due = w.due ++ [(w.path.mb.request cfg).block] ∧
      (w.step cfg c).delivered = w.delivered := by
  obtain ⟨hfly, hvalid, hbusy⟩ := h.step_accepts ha
  obtain ⟨hdue, hage⟩ := step_of_asks (asks_of_accepts ha)
  have hr : (w.step cfg c).released = false := by
    change (match c.sw with
      | .go => false
      | .poll => w.released || !w.path.mle.busy
      | _ => w.released) = false
    rw [ha.sw_eq]
  exact ⟨⟨hfly, by decide, by rw [hage], hr, hbusy⟩, hdue, delivered_step hvalid⟩

/-- Nothing is taken. -/
theorem step_rest (h : w.path.Resting) (ha : ¬ w.path.Accepts cfg c) :
    (w.step cfg c).path.Resting ∧ (w.step cfg c).delivered = w.delivered := by
  obtain ⟨hrest, hvalid⟩ := h.step ha
  exact ⟨hrest, delivered_step hvalid⟩

/-- A block comes nearer. -/
theorem Flight.step {bits : List Bool} {n : ℕ} (h : w.Flight cfg bits n) (hn : 1 < n)
    (hs : w.Staged c) : (w.step cfg c).Flight cfg bits (n - 1) ∧ (w.step cfg c).due = w.due ∧
      (w.step cfg c).delivered = w.delivered := by
  have hw : ∀ x, c.sw ≠ .write x := fun x hx ↦ by
    have hrel := h.released
    rw [hs x hx] at hrel
    exact absurd hrel (by decide)
  obtain ⟨hfly, hvalid, hbusy⟩ := h.flying.step hn hw
  obtain ⟨hdue, hage⟩ := step_of_not_asks (asks_of_flying (c := c) h.flying h.released)
  have hsum := h.age
  refine ⟨⟨hfly, by omega, ?_, released_step h.released h.busy, hbusy.trans h.busy⟩, hdue,
    delivered_step hvalid⟩
  rw [hage]
  omega

/-- A block is delivered. -/
theorem Flight.delivered {bits : List Bool} (h : w.Flight cfg bits 1) :
    (w.step cfg c).path.Resting ∧ (w.step cfg c).due = w.due ∧
      (w.step cfg c).delivered = w.delivered ++ [bits] := by
  obtain ⟨hrest, hvalid, hbits⟩ := h.flying.delivered (c := c)
  obtain ⟨hdue, -⟩ := step_of_not_asks (asks_of_flying (c := c) h.flying h.released)
  refine ⟨hrest, hdue, ?_⟩
  simp [ReplyWatch.step, hvalid, hbits]

/-! ## Runs -/

theorem Inv.step (h : w.Inv cfg) (hs : w.Staged c) : (w.step cfg c).Inv cfg := by
  rcases h with hrest | ⟨bits, n, hf⟩
  · by_cases ha : w.path.Accepts cfg c
    · exact Or.inr ⟨_, _, (step_accepts hrest ha).1⟩
    · exact Or.inl (step_rest hrest ha).1
  · rcases Nat.lt_or_ge 1 n with hn | hn
    · exact Or.inr ⟨_, _, (hf.step hn hs).1⟩
    · obtain rfl : n = 1 := Nat.le_antisymm hn hf.pos
      exact Or.inl hf.delivered.1

theorem Kept.delivered_eq (h : w.Kept cfg) (hrest : w.path.Resting) : w.delivered = w.due := by
  rcases h with ⟨-, h⟩ | ⟨bits, n, hf, -⟩
  · exact h
  · exact absurd hf.flying hrest.not_flying

/-- Of a resting path a GO that is owed an answer is taken exactly if no detach disturbs it. -/
theorem undetached_iff (cfg : CellConfig) (hrest : w.path.Resting) :
    w.Undetached c ↔ (w.asks cfg c = true → w.path.Accepts cfg c) := by
  constructor
  · intro h hasks
    rw [asks, Bool.and_eq_true, Bool.and_eq_true, Bool.or_eq_true, decide_eq_true_iff, isGo_iff,
      Bool.not_eq_true'] at hasks
    obtain ⟨⟨hsw, hslot⟩, hrel | hacc⟩ := hasks
    · obtain ⟨hdet, hne⟩ := h hsw hslot hrel
      refine ⟨hrest.state.resolve_right hne, hdet, ?_⟩
      rw [MleIn.mbGoPulse, Bool.and_eq_true]
      exact ⟨isGo_iff.2 hsw, by rw [Bool.not_eq_true']; exact hslot⟩
    · exact hacc
  · intro h hsw hslot hrel
    have hasks : w.asks cfg c = true := by
      rw [asks, isGo_iff.2 hsw, hslot, hrel]
      rfl
    obtain ⟨hidle, hdet, -⟩ := h hasks
    exact ⟨hdet, by rw [hidle]; decide⟩

/-- **A cycle keeps the replies exactly if no detach disturbs its GO.** -/
theorem kept_step_iff (hs : w.Staged c) (hk : w.Kept cfg) :
    (w.step cfg c).Kept cfg ↔ w.Undetached c := by
  rcases hk with ⟨hrest, heq⟩ | ⟨bits, n, hf, heq⟩
  · rw [undetached_iff cfg hrest]
    by_cases ha : w.path.Accepts cfg c
    · obtain ⟨hf, hdue, hdel⟩ := step_accepts hrest ha
      exact iff_of_true (Or.inr ⟨_, _, hf, by rw [hdue, hdel, heq]⟩) fun _ ↦ ha
    obtain ⟨hrest', hdel⟩ := step_rest hrest ha
    cases hasks : w.asks cfg c with
    | true =>
        -- the GO is lost
        refine iff_of_false (fun hk' ↦ ?_) fun h ↦ ha (h rfl)
        have heq' := hk'.delivered_eq hrest'
        rw [hdel, (step_of_asks hasks).1, heq] at heq'
        simp at heq'
    | false =>
        refine iff_of_true (Or.inl ⟨hrest', ?_⟩) fun h ↦ absurd h (by decide)
        rw [hdel, (step_of_not_asks hasks).1, heq]
  · refine iff_of_true ?_ fun _ _ hrel ↦ absurd (hf.released.symm.trans hrel) (by decide)
    rcases Nat.lt_or_ge 1 n with hn | hn
    · obtain ⟨hf', hdue, hdel⟩ := hf.step hn hs
      exact Or.inr ⟨_, _, hf', by rw [hdue, hdel, heq]⟩
    · obtain rfl : n = 1 := Nat.le_antisymm hn hf.pos
      obtain ⟨hrest, hdue, hdel⟩ := hf.delivered (c := c)
      exact Or.inl ⟨hrest, by rw [hdue, hdel, heq]⟩

/-! ### What is still to come -/

theorem staged_quiet : w.Staged {} := nofun

theorem undetached_quiet : w.Undetached {} := nofun

theorem not_accepts_quiet (cfg : CellConfig) : ¬ w.path.Accepts cfg {} := fun h ↦ nomatch h.sw_eq

theorem WillAnswer.step (h : w.WillAnswer cfg) : (w.step cfg {}).WillAnswer cfg := fun n ↦ h (n + 1)

theorem Kept.answered (h : w.Kept cfg) : w.Answered := by
  rcases h with ⟨-, heq⟩ | ⟨bits, n, hf, heq⟩
  · exact Or.inl heq
  · have hsum := hf.age
    have hpos := hf.pos
    exact Or.inr ⟨by omega, bits, heq⟩

theorem Kept.willAnswer (h : w.Kept cfg) : w.WillAnswer cfg := by
  intro n
  induction n generalizing w with
  | zero => exact h.answered
  | succ n ih => exact ih ((kept_step_iff staged_quiet h).2 undetached_quiet)

/-- At rest nothing comes any more. -/
theorem exec_quiet (cfg : CellConfig) (hrest : w.path.Resting) (n : ℕ) :
    (exec (step cfg) w (List.replicate n {})).delivered = w.delivered ∧
      (exec (step cfg) w (List.replicate n {})).due = w.due ∧
      (exec (step cfg) w (List.replicate n {})).age = w.age + n := by
  induction n generalizing w with
  | zero => exact ⟨rfl, rfl, rfl⟩
  | succ n ih =>
      obtain ⟨hrest', hdel⟩ := step_rest hrest (not_accepts_quiet cfg)
      obtain ⟨hdue, hage⟩ : (w.step cfg {}).due = w.due ∧ (w.step cfg {}).age = w.age + 1 :=
        step_of_not_asks rfl
      obtain ⟨h1, h2, h3⟩ := ih hrest'
      rw [List.replicate_succ, exec_cons]
      exact ⟨h1.trans hdel, h2.trans hdue, by rw [h3, hage]; omega⟩

theorem WillAnswer.delivered_eq (h : w.WillAnswer cfg) (hrest : w.path.Resting) :
    w.delivered = w.due := by
  obtain ⟨hdel, hdue, hage⟩ := exec_quiet cfg hrest 1005
  rcases h 1005 with heq | ⟨hlt, -⟩
  · rw [hdel, hdue] at heq
    exact heq
  · rw [hage] at hlt
    exact absurd hlt (by omega)

theorem WillAnswer.due_eq {bits : List Bool} {n : ℕ} (h : w.WillAnswer cfg)
    (hf : w.Flight cfg bits n) : w.due = w.delivered ++ [bits] := by
  induction n generalizing w with
  | zero => exact absurd hf.pos (by decide)
  | succ n ih =>
      cases n with
      | zero =>
          obtain ⟨hrest, hdue, hdel⟩ := hf.delivered (c := {})
          rw [← hdue, ← hdel]
          exact (h.step.delivered_eq hrest).symm
      | succ n =>
          obtain ⟨hf', hdue, hdel⟩ := hf.step (c := {}) (by omega) staged_quiet
          rw [← hdue, ← hdel]
          exact ih h.step hf'

theorem willAnswer_iff_kept (hinv : w.Inv cfg) : w.WillAnswer cfg ↔ w.Kept cfg := by
  refine ⟨fun h ↦ ?_, Kept.willAnswer⟩
  rcases hinv with hrest | ⟨bits, n, hf⟩
  · exact Or.inl ⟨hrest, h.delivered_eq hrest⟩
  · exact Or.inr ⟨bits, n, hf, h.due_eq hf⟩

theorem resting_init : ({} : ReplyWatch).path.Resting :=
  ⟨Or.inl rfl, rfl, ⟨rfl, rfl, ⟨rfl, rfl⟩, rfl, rfl⟩, rfl, rfl⟩

/-- **Every reply is answered for exactly as long as no detach disturbs a GO.**  In every run in
which the mailbox is written only while the software has it to itself: at every point the blocks
delivered, and those still to come if nothing more happened, are the blocks of the mailboxes at
the GOs, each once and in order, if and only if no GO owed an answer came in the cycle of a
U-ITSI-DETACH or in the one after it. -/
theorem willAnswer_iff (cfg : CellConfig) {cs : List ReplyCycle}
    (h : Along (step cfg) Staged {} cs) :
    Throughout (step cfg) (WillAnswer cfg) {} cs ↔ Along (step cfg) Undetached {} cs := by
  have hinv : ∀ w c, Inv cfg w → Staged w c → Inv cfg (w.step cfg c) := fun _ _ hI hs ↦ hI.step hs
  have hkept : Kept cfg {} := Or.inl ⟨resting_init, rfl⟩
  refine throughout_iff_along_of (step cfg) hinv ?_ (Or.inl resting_init) hkept.willAnswer h
  intro w c hI hs hw
  rw [willAnswer_iff_kept (hI.step hs)]
  exact kept_step_iff hs ((willAnswer_iff_kept hI).1 hw)

/-! ### From the software on -/

/-- A register write of the software, as the path sees it. -/
def access (x : RegWrite) : SwAccess := if x.offset = regReplyGo then .go else .write x

/-- A submission, one access in a cycle: the poll that finds the FSM idle, then the writes. -/
def submission (cls : TxPduClass) (m : TxPduMeta) : List ReplyCycle :=
  { sw := .poll } :: (txSubmit true cls m).1.map fun x ↦ { sw := access x }

/-- The accept for a terminal that attaches. -/
def attachMeta : TxPduMeta := { targetSsi := 4711, locAccType := 3 }

/-- Alone it is answered. -/
theorem willAnswer_attach :
    Throughout (step {}) (WillAnswer {}) {} (submission .luAccept attachMeta) :=
  (willAnswer_iff {} (by decide +kernel)).2 (by decide +kernel)

/-- The same, but a terminal detaches in the cycle of the GO. -/
def detachedSubmission : List ReplyCycle :=
  (submission .luAccept attachMeta).dropLast ++ [{ ulDetachValid := true, sw := .go }]

/-- The reply is lost: however long one waits, nothing is delivered. -/
theorem detach_swallows_go : Along (step {}) Staged {} detachedSubmission ∧
    ∀ n, let w := exec (step {}) {} (detachedSubmission ++ List.replicate n ({} : ReplyCycle))
      w.due.length = 1 ∧ w.delivered = [] := by
  refine ⟨by decide +kernel, fun n ↦ ?_⟩
  have hno : Along (step {}) (fun w c ↦ ¬ w.path.Accepts {} c) {} detachedSubmission := by
    decide +kernel
  have hrest : (exec (step {}) {} detachedSubmission).path.Resting :=
    Throughout.last (step {}) (Along.throughout (step {}) (P := fun w ↦ w.path.Resting)
      (fun _ _ hr ha ↦ (step_rest hr ha).1) resting_init hno)
  obtain ⟨hdel, hdue, -⟩ := exec_quiet {} hrest n
  have hone : (exec (step {}) {} detachedSubmission).due.length = 1 := by decide +kernel
  have hnil : (exec (step {}) {} detachedSubmission).delivered = [] := by decide +kernel
  intro w
  have hw : w = exec (step {}) (exec (step {}) {} detachedSubmission) (List.replicate n {}) :=
    exec_append (step {}) {} _ _
  rw [hw, hdel, hdue]
  exact ⟨hone, hnil⟩

end ReplyWatch

end TetraPhy.Lmac
