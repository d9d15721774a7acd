import TetraPhy.Daemon.SdsRelay
import TetraPhy.Lib.Run
import TetraPhy.Rx.UlPduMailbox

/-!
# Handing over reassembled demands

The main loop of `tetra_attach_daemon.c` polls the status of the demand mailbox.  When a body is
pending, `service_uldbod` reads its seven words, each in two accesses, and at last acknowledges it;
the acknowledgement reaches the mailbox some clocks later.

| access | goes on if |
|---|---|
| status | a body is pending |
| index *n*, data *n*, for *n* = 0 .. 6 | |
| acknowledge | |

Bodies may come in any clock.  **`demands_handed_exactly_once`**: each is dropped and counted, or
handed over once as it came, provided the status is not polled while an acknowledgement is under way.
-/

namespace TetraPhy.Daemon

open Rx BitField

/-! ## The daemon -/

/-- The access that comes next, and the words read so far. -/
inductive UldbodPc
  | poll
  | index (words : List UInt32)
  | data (words : List UInt32)
  | ack
deriving DecidableEq, Repr

namespace UldbodPc

def words : UldbodPc → List UInt32
  | index ws => ws
  | data ws => ws
  | _ => []

/-- Words are being read. -/
def Reading : UldbodPc → Prop
  | index _ => True
  | data _ => True
  | _ => False

/-- How many accesses there are before that of the last word. -/
def left : UldbodPc → ℕ
  | poll => 14
  | index ws => 13 - 2 * ws.length
  | data ws => 12 - 2 * ws.length
  | ack => 0

end UldbodPc

/-- What is handed over: the seven words, and for the status and each word which body was in the
mailbox when it was read. -/
structure UldbodHanded where
  words : List UInt32
  sources : List ℕ
deriving DecidableEq, Repr

namespace UldbodHanded

variable (h : UldbodHanded)

/-- The body that was pending at the status. -/
def source : ℕ := h.sources.headD 0

/-- `service_uldbod` works with the words it has read. -/
def env (env : SdsEnv) : SdsEnv := { env with word := fun i ↦ h.words.getD i 0 }

/-- `uldbod_unpack` makes of the words what was pushed. -/
structure Carries (b : DemandBody) : Prop where
  length_words : h.words.length = 7
  body : ∀ env, ∀ p < 147, uldbodBody (h.env env) p = b.body.getLsbD (146 - p)
  metaBits : ∀ env, (uldbodMeta (h.env env)).toBitVec = b.metaBits.setWidth 16
  ssi : ∀ env, (uldbodSsi (h.env env)).toBitVec = b.ssi.setWidth 32

end UldbodHanded

/-- The words of a body carry it. -/
theorem carries_words (b : DemandBody) (sources : List ℕ) :
    (UldbodHanded.mk (b.words.map .ofBitVec) sources).Carries b where
  length_words := rfl
  body env p hp := by
    have hdef : uldbodBody ((UldbodHanded.mk (b.words.map .ofBitVec) sources).env env) p =
        if p < 32 then (b.body.extractLsb' 115 32).getLsbD (31 - p)
        else if p < 64 then (b.body.extractLsb' 83 32).getLsbD (63 - p)
        else if p < 96 then (b.body.extractLsb' 51 32).getLsbD (95 - p)
        else if p < 128 then (b.body.extractLsb' 19 32).getLsbD (127 - p)
        else ((b.body.extractLsb' 0 19).setWidth 32).getLsbD (146 - p) := by
      rw [uldbodBody, decide_eq_true hp, Bool.true_and]
      rfl
    rw [hdef]
    split_ifs with h0 h1 h2 h3
    · rw [BitVec.getLsbD_extractLsb', decide_eq_true (by omega), Bool.true_and]
      exact congrArg _ (by omega)
    · rw [BitVec.getLsbD_extractLsb', decide_eq_true (by omega), Bool.true_and]
      exact congrArg _ (by omega)
    · rw [BitVec.getLsbD_extractLsb', decide_eq_true (by omega), Bool.true_and]
      exact congrArg _ (by omega)
    · rw [BitVec.getLsbD_extractLsb', decide_eq_true (by omega), Bool.true_and]
      exact congrArg _ (by omega)
    · rw [BitVec.getLsbD_setWidth, BitVec.getLsbD_extractLsb', decide_eq_true (by omega),
        decide_eq_true (by omega), Bool.true_and, Bool.true_and, Nat.zero_add]
  metaBits env := by
    have hplace : place 32 0 b.metaBits = b.metaBits.setWidth 32 := BitVec.shiftLeft_zero _
    have hword : (place 32 24 0xA5#8 ||| place 32 0 b.metaBits) &&& 0x1FFF#32 =
        b.metaBits.setWidth 32 := by
      rw [BitVec.and_or_distrib_right, hplace, show place 32 24 0xA5#8 &&& 0x1FFF#32 = 0#32 from rfl,
        BitVec.zero_or]
      exact setWidth_and_mask b.metaBits (show 13 ≤ 32 by decide)
    have hdef : (uldbodMeta ((UldbodHanded.mk (b.words.map .ofBitVec) sources).env env)).toBitVec =
        ((place 32 24 0xA5#8 ||| place 32 0 b.metaBits) &&& 0x1FFF#32).setWidth 16 := rfl
    rw [hdef, hword]
    exact BitVec.setWidth_setWidth_of_le _ (by decide)
  ssi env := setWidth_and_mask b.ssi (show 24 ≤ 32 by decide)

/-! ## Mailbox and daemon -/

/-- What happens next: a clock, in which the reassembly may present a body and an acknowledgement
may arrive, or an access of the daemon. -/
inductive DemandEvent
  | clock (push : Option DemandBody) (ackArrives : Bool)
  | access
deriving DecidableEq, Repr

def DemandEvent.isAccess : DemandEvent → Bool
  | clock .. => false
  | access => true

/-- The mailbox, its index register, the acknowledgement on its way and the daemon; and what an
observer has written down: the bodies pushed, those dropped, what was handed over, which body is in
the mailbox, and the sources of the words being read. -/
structure DemandBus where
  mailbox : DemandBodyMailbox := {}
  uldbodIndex : BitVec 4 := 0
  ackUnderWay : Bool := false
  pc : UldbodPc := .poll
  pushed : List DemandBody := []
  dropped : List ℕ := []
  handed : List UldbodHanded := []
  latched : ℕ := 0
  sources : List ℕ := []

namespace DemandBus

/-- A clock. -/
def clock (s : DemandBus) (push : Option DemandBody) (ackArrives : Bool) : DemandBus :=
  { s with
    mailbox := s.mailbox.clock push (ackArrives && s.ackUnderWay)
    ackUnderWay := s.ackUnderWay && !ackArrives
    pushed := s.pushed ++ push.toList
    dropped :=
      if push.isSome && s.mailbox.indirect.pending then s.dropped ++ [s.pushed.length]
      else s.dropped
    latched := if push.isSome && !s.mailbox.indirect.pending then s.pushed.length else s.latched }

/-- An access. -/
def access (s : DemandBus) : DemandBus :=
  match s.pc with
  -- the main loop
  | .poll =>
      if s.mailbox.indirect.status &&& 1 != 0 then
        { s with pc := .index [], sources := [s.latched] }
      else s
  -- uldbod_read
  | .index ws => { s with pc := .data ws, uldbodIndex := BitVec.ofNat 4 ws.length }
  | .data ws =>
      let ws := ws ++ [s.mailbox.dataWord s.uldbodIndex]
      let sources := s.sources ++ [s.latched]
      if ws.length < 7 then { s with pc := .index ws, sources := sources }
      -- the last word is read: uldbod_unpack
      else { s with pc := .ack, sources := [], handed := s.handed ++ [⟨ws, sources⟩] }
  | .ack => { s with pc := .poll, ackUnderWay := true }

def step (s : DemandBus) : DemandEvent → DemandBus
  | .clock push ackArrives => s.clock push ackArrives
  | .access => s.access

/-- The body that is pending and was not handed over. -/
def waiting (s : DemandBus) : Option ℕ :=
  if s.mailbox.indirect.pending && s.pc != .ack && !s.ackUnderWay then some s.latched else none

/-- The status is not polled while an acknowledgement is under way. -/
def Settled (s : DemandBus) : DemandEvent → Prop
  | .access => s.pc = .poll → s.ackUnderWay = false
  | _ => True

instance (s : DemandBus) : DecidablePred s.Settled
  | .clock .. => .isTrue trivial
  | .access => inferInstanceAs (Decidable (s.pc = .poll → s.ackUnderWay = false))

/-- **Each body is dropped and counted, handed over, or waiting; and what is handed over is one
body as it was pushed.** -/
structure Exact (s : DemandBus) : Prop where
  once : (s.dropped ++ s.handed.map UldbodHanded.source ++ s.waiting.toList).Perm
    (List.range s.pushed.length)
  counted : s.mailbox.indirect.dropCnt.toNat = min s.dropped.length 65535
  whole : ∀ h ∈ s.handed, h.sources = List.replicate 8 h.source ∧
    ∃ b, s.pushed[h.source]? = some b ∧ h.Carries b

variable {s : DemandBus}

/-! ### The invariant -/

structure Inv (s : DemandBus) : Prop where
  index : ∀ ws, s.pc = .data ws → s.uldbodIndex = BitVec.ofNat 4 ws.length
  latched : s.mailbox.indirect.pending = true → s.pushed[s.latched]? = some s.mailbox.lat
  /-- What the daemon is at work on stays pending until its acknowledgement arrives. -/
  busy : s.pc ≠ .poll ∨ s.ackUnderWay = true → s.mailbox.indirect.pending = true
  idle : s.ackUnderWay = true → s.pc = .poll
  length_words : s.pc.Reading → s.pc.words.length < 7
  /-- The words are the first ones of the pending body. -/
  words : s.pc.Reading → s.pc.words = (s.mailbox.lat.words.take s.pc.words.length).map .ofBitVec
  sources : s.pc.Reading → s.sources = List.replicate (s.pc.words.length + 1) s.latched

theorem inv_init : Inv {} where
  index ws h := UldbodPc.noConfusion h
  latched h := Bool.noConfusion h
  busy h := by
    rcases h with h | h
    · exact absurd rfl h
    · exact h
  idle h := Bool.noConfusion h
  length_words h := h.elim
  words h := h.elim
  sources h := h.elim

theorem exact_init : Exact {} where
  once := List.Perm.refl []
  counted := rfl
  whole _ h := absurd h List.not_mem_nil

/-! ### A clock -/

/-- A clock without a body. -/
theorem clock_none (s : DemandBus) (a : Bool) :
    s.clock none a = { s with
      mailbox.indirect.pending := s.mailbox.indirect.pending && !(a && s.ackUnderWay)
      ackUnderWay := s.ackUnderWay && !a } := by
  simp [clock, DemandBodyMailbox.clock_none]

/-- A body that is latched. -/
theorem clock_accept (h : s.mailbox.indirect.pending = false) (b : DemandBody) (a : Bool) :
    s.clock (some b) a = { s with
      mailbox := { lat := b, indirect.pending := true
                   indirect.dropCnt := s.mailbox.indirect.dropCnt }
      ackUnderWay := s.ackUnderWay && !a
      pushed := s.pushed ++ [b]
      latched := s.pushed.length } := by
  simp [clock, DemandBodyMailbox.clock_accept h, h]

/-- A body that is dropped. -/
theorem clock_drop (h : s.mailbox.indirect.pending = true) (b : DemandBody) (a : Bool) :
    s.clock (some b) a = { s.clock none a with
      mailbox := s.mailbox.clock (some b) (a && s.ackUnderWay)
      pushed := s.pushed ++ [b]
      dropped := s.dropped ++ [s.pushed.length] } := by
  simp [clock, h]

/-- The mailbox is free: nothing is read, and no acknowledgement is under way. -/
theorem Inv.free (h : s.Inv) (hp : s.mailbox.indirect.pending = false) :
    s.pc = .poll ∧ s.ackUnderWay = false := by
  have hbusy : ¬ (s.pc ≠ .poll ∨ s.ackUnderWay = true) :=
    fun hc ↦ Bool.noConfusion (hp.symm.trans (h.busy hc))
  rw [not_or, not_not, Bool.not_eq_true] at hbusy
  exact hbusy

theorem Inv.clock_none (h : s.Inv) (a : Bool) : (s.clock none a).Inv := by
  rw [DemandBus.clock_none]
  refine ⟨h.index, fun hp ↦ h.latched (Bool.and_eq_true _ _ ▸ hp).1, ?_, ?_, h.length_words, h.words,
    h.sources⟩
  · intro hbusy
    cases hu : s.ackUnderWay with
    | false =>
        have hb := h.busy (by simpa [hu] using hbusy)
        simp [hb]
    | true =>
        -- not arrived yet, since the daemon is back at its poll
        have hpc := h.idle hu
        have ha : a = false := by simpa [hu, hpc] using hbusy
        simp [ha, h.busy (.inr hu)]
  · intro hu
    exact h.idle (Bool.and_eq_true _ _ ▸ hu).1

theorem Inv.accept (h : s.Inv) (hp : s.mailbox.indirect.pending = false) (b : DemandBody) (a : Bool) :
    (s.clock (some b) a).Inv := by
  obtain ⟨hpc, hu⟩ := h.free hp
  rw [clock_accept hp]
  refine ⟨h.index, fun _ ↦ List.getElem?_concat_length, fun _ ↦ rfl, fun _ ↦ hpc, ?_, ?_, ?_⟩
  all_goals exact fun hr ↦ absurd (show s.pc.Reading from hr) (by rw [hpc]; exact id)

/-- A body that is dropped changes nothing in what the daemon reads. -/
theorem Inv.drop (h : s.Inv) (hp : s.mailbox.indirect.pending = true) (b : DemandBody) (a : Bool) :
    (s.clock (some b) a).Inv := by
  have hnone := h.clock_none a
  rw [clock_drop hp, DemandBodyMailbox.clock_drop hp]
  rw [DemandBus.clock_none, hp, Bool.true_and] at hnone
  rw [DemandBus.clock_none]
  refine ⟨h.index, fun hp' ↦ ?_, hnone.busy, hnone.idle, h.length_words, h.words, h.sources⟩
  have hlat : s.pushed[s.latched]? = some s.mailbox.lat := h.latched hp
  exact (List.getElem?_append_left (List.getElem?_eq_some_iff.1 hlat).1).trans hlat

theorem Inv.clock (h : s.Inv) (push : Option DemandBody) (a : Bool) : (s.clock push a).Inv := by
  cases push with
  | none => exact h.clock_none a
  | some b =>
      cases hp : s.mailbox.indirect.pending with
      | false => exact h.accept hp b a
      | true => exact h.drop hp b a

theorem Inv.waiting_clock_none (h : s.Inv) (a : Bool) : (s.clock none a).waiting = s.waiting := by
  rw [DemandBus.clock_none]
  cases hu : s.ackUnderWay with
  | false => simp [waiting, hu]
  | true =>
      have hpc := h.idle hu
      have hp := h.busy (.inr hu)
      cases a with
      | false => simp [waiting, hu]
      | true => simp [waiting, hu]

theorem Inv.waiting_drop (h : s.Inv) (hp : s.mailbox.indirect.pending = true) (b : DemandBody)
    (a : Bool) : (s.clock (some b) a).waiting = s.waiting := by
  rw [← h.waiting_clock_none a, clock_drop hp, DemandBodyMailbox.clock_drop hp,
    DemandBus.clock_none]
  simp [waiting, hp]

/-- Later bodies change nothing about what was handed over. -/
theorem Exact.whole_append (hs : s.Exact) (bs : List DemandBody) :
    ∀ h ∈ s.handed, h.sources = List.replicate 8 h.source ∧
      ∃ b, (s.pushed ++ bs)[h.source]? = some b ∧ h.Carries b := by
  intro h hh
  obtain ⟨hsources, b, hb, hcarries⟩ := hs.whole h hh
  exact ⟨hsources, b, (List.getElem?_append_left (List.getElem?_eq_some_iff.1 hb).1).trans hb,
    hcarries⟩

theorem Exact.clock_none (hs : s.Exact) (h : s.Inv) (a : Bool) : (s.clock none a).Exact := by
  have hwaiting := h.waiting_clock_none a
  refine ⟨?_, ?_, ?_⟩
  · rw [hwaiting, DemandBus.clock_none]
    exact hs.once
  · rw [DemandBus.clock_none]
    exact hs.counted
  · rw [DemandBus.clock_none]
    exact hs.whole

theorem Exact.accept (hs : s.Exact) (h : s.Inv) (hp : s.mailbox.indirect.pending = false)
    (b : DemandBody) (a : Bool) : (s.clock (some b) a).Exact := by
  obtain ⟨hpc, hu⟩ := h.free hp
  rw [clock_accept hp]
  refine ⟨?_, hs.counted, hs.whole_append [b]⟩
  have hnone : s.waiting = none := by simp [waiting, hp]
  have honce := hs.once
  rw [hnone, Option.toList_none, List.append_nil] at honce
  have hsome : waiting { s with
      mailbox := { lat := b, indirect.pending := true
                   indirect.dropCnt := s.mailbox.indirect.dropCnt }
      ackUnderWay := s.ackUnderWay && !a
      pushed := s.pushed ++ [b]
      latched := s.pushed.length } = some s.pushed.length := by
    simp [waiting, hpc, hu]
  rw [hsome, List.length_append, List.length_singleton, List.range_succ]
  exact honce.append_right _

theorem Exact.drop (hs : s.Exact) (h : s.Inv) (hp : s.mailbox.indirect.pending = true)
    (b : DemandBody) (a : Bool) : (s.clock (some b) a).Exact := by
  refine ⟨?_, ?_, ?_⟩
  · rw [h.waiting_drop hp, clock_drop hp, List.length_append, List.length_singleton, List.range_succ]
    show (s.dropped ++ [s.pushed.length] ++ s.handed.map UldbodHanded.source ++
      s.waiting.toList).Perm _
    -- the new one is between the dropped and the handed over
    have hperm := hs.once.cons s.pushed.length
    rw [List.append_assoc] at hperm
    rw [List.append_assoc, List.append_assoc]
    exact (List.perm_middle.trans hperm).trans (List.perm_append_singleton _ _).symm
  · rw [clock_drop hp, DemandBodyMailbox.clock_drop hp, List.length_append, List.length_singleton]
    exact toNat_saturate hs.counted
  · rw [clock_drop hp, DemandBus.clock_none]
    exact hs.whole_append [b]

theorem Exact.clock (hs : s.Exact) (h : s.Inv) (push : Option DemandBody) (a : Bool) :
    (s.clock push a).Exact := by
  cases push with
  | none => exact hs.clock_none h a
  | some b =>
      cases hp : s.mailbox.indirect.pending with
      | false => exact hs.accept h hp b a
      | true => exact hs.drop h hp b a

/-! ### An access -/

section Access

variable {ws : List UInt32}

theorem access_poll (hpc : s.pc = .poll) (hp : s.mailbox.indirect.pending = true) :
    s.access = { s with pc := .index [], sources := [s.latched] } := by
  simp [access, hpc, IndirectMailbox.status_and_one, hp]

theorem access_poll_free (hpc : s.pc = .poll) (hp : s.mailbox.indirect.pending = false) :
    s.access = s := by
  simp [access, hpc, IndirectMailbox.status_and_one, hp]

theorem access_index (hpc : s.pc = .index ws) :
    s.access = { s with pc := .data ws, uldbodIndex := BitVec.ofNat 4 ws.length } := by
  simp [access, hpc]

theorem access_data (hpc : s.pc = .data ws) (hlt : ws.length + 1 < 7) :
    s.access = { s with
      pc := .index (ws ++ [s.mailbox.dataWord s.uldbodIndex])
      sources := s.sources ++ [s.latched] } := by
  simp [access, hpc, hlt]

theorem access_last (hpc : s.pc = .data ws) (hlast : ws.length = 6) :
    s.access = { s with
      pc := .ack
      sources := []
      handed := s.handed ++
        [⟨ws ++ [s.mailbox.dataWord s.uldbodIndex], s.sources ++ [s.latched]⟩] } := by
  simp [access, hpc, hlast]

theorem access_ack (hpc : s.pc = .ack) : s.access = { s with pc := .poll, ackUnderWay := true } := by
  simp [access, hpc]

/-- The next word of the pending body is read. -/
theorem Inv.data (h : s.Inv) (hpc : s.pc = .data ws) :
    ws ++ [s.mailbox.dataWord s.uldbodIndex] =
      (s.mailbox.lat.words.take (ws.length + 1)).map .ofBitVec ∧
    s.sources ++ [s.latched] = List.replicate (ws.length + 2) s.latched := by
  have hr : s.pc.Reading := by rw [hpc]; trivial
  have hlen : ws.length < 7 := by simpa [hpc, UldbodPc.words] using h.length_words hr
  have hwords : ws = (s.mailbox.lat.words.take ws.length).map .ofBitVec := by
    simpa [hpc, UldbodPc.words] using h.words hr
  have hsources : s.sources = List.replicate (ws.length + 1) s.latched := by
    simpa [hpc, UldbodPc.words] using h.sources hr
  constructor
  · rw [h.index ws hpc, DemandBodyMailbox.dataWord_of_lt _ hlen]
    have hget : s.mailbox.lat.words[ws.length]? = some (s.mailbox.lat.words.getD ws.length 0) := by
      rw [List.getD_eq_getElem _ _ (show ws.length < s.mailbox.lat.words.length from hlen)]
      exact List.getElem?_eq_getElem _
    rw [List.take_add_one, hget, List.map_append, ← hwords]
    rfl
  · rw [hsources]
    exact List.replicate_succ'.symm

theorem Inv.access (h : s.Inv) (hsettled : s.Settled .access) : s.access.Inv := by
  cases hpc : s.pc with
  | poll =>
      cases hp : s.mailbox.indirect.pending with
      | false =>
          rw [access_poll_free hpc hp]
          exact h
      | true =>
          rw [access_poll hpc hp]
          refine ⟨fun _ hd ↦ UldbodPc.noConfusion hd, h.latched, fun _ ↦ hp, fun hu ↦ ?_,
            fun _ ↦ show 0 < 7 by decide, fun _ ↦ rfl, fun _ ↦ rfl⟩
          exact Bool.noConfusion ((hsettled hpc).symm.trans hu)
  | index ws =>
      have hr : s.pc.Reading := by rw [hpc]; trivial
      have hp := h.busy (.inl (by rw [hpc]; exact UldbodPc.noConfusion))
      rw [access_index hpc]
      refine ⟨?_, h.latched, fun _ ↦ hp, fun hu ↦ ?_, fun _ ↦ ?_, fun _ ↦ ?_, fun _ ↦ ?_⟩
      · intro ws' hd
        rw [UldbodPc.data.inj hd]
      · exact UldbodPc.noConfusion (hpc.symm.trans (h.idle hu))
      · simpa [hpc, UldbodPc.words] using h.length_words hr
      · simpa [hpc, UldbodPc.words] using h.words hr
      · simpa [hpc, UldbodPc.words] using h.sources hr
  | data ws =>
      obtain ⟨hwords, hsources⟩ := h.data hpc
      have hp := h.busy (.inl (by rw [hpc]; exact UldbodPc.noConfusion))
      have hu : s.ackUnderWay = true → False :=
        fun hu ↦ UldbodPc.noConfusion (hpc.symm.trans (h.idle hu))
      have hlen : ws.length < 7 := by
        simpa [hpc, UldbodPc.words] using h.length_words (by rw [hpc]; trivial)
      rcases Nat.lt_or_eq_of_le (Nat.succ_le_of_lt hlen) with hlt | hlast
      · rw [access_data hpc hlt]
        refine ⟨fun _ hd ↦ UldbodPc.noConfusion hd, h.latched, fun _ ↦ hp, fun hu' ↦ (hu hu').elim,
          fun _ ↦ ?_, fun _ ↦ ?_, fun _ ↦ ?_⟩
        · rw [UldbodPc.words, List.length_append]
          exact hlt
        · rw [UldbodPc.words, List.length_append]
          exact hwords
        · rw [UldbodPc.words, List.length_append]
          exact hsources
      · rw [access_last hpc (Nat.succ.inj hlast)]
        exact ⟨fun _ hd ↦ UldbodPc.noConfusion hd, h.latched, fun _ ↦ hp, fun hu' ↦ (hu hu').elim,
          fun hr ↦ hr.elim, fun hr ↦ hr.elim, fun hr ↦ hr.elim⟩
  | ack =>
      have hp := h.busy (.inl (by rw [hpc]; exact UldbodPc.noConfusion))
      rw [access_ack hpc]
      exact ⟨fun _ hd ↦ UldbodPc.noConfusion hd, h.latched, fun _ ↦ hp, fun _ ↦ rfl,
        fun hr ↦ hr.elim, fun hr ↦ hr.elim, fun hr ↦ hr.elim⟩

/-- An access that hands nothing over keeps the accounts, if what waits is the same. -/
theorem Exact.of_waiting (hs : s.Exact) {s' : DemandBus} (hmailbox : s'.mailbox = s.mailbox)
    (hpushed : s'.pushed = s.pushed) (hdropped : s'.dropped = s.dropped)
    (hhanded : s'.handed = s.handed) (hwaiting : s'.waiting = s.waiting) : s'.Exact where
  once := by rw [hdropped, hhanded, hwaiting, hpushed]; exact hs.once
  counted := by rw [hmailbox, hdropped]; exact hs.counted
  whole := by rw [hhanded, hpushed]; exact hs.whole

/-- The words of the pending body are handed over. -/
theorem Inv.handed_last (h : s.Inv) (hpc : s.pc = .data ws) (hlast : ws.length = 6) :
    ⟨ws ++ [s.mailbox.dataWord s.uldbodIndex], s.sources ++ [s.latched]⟩ =
      UldbodHanded.mk (s.mailbox.lat.words.map .ofBitVec) (List.replicate 8 s.latched) := by
  obtain ⟨hwords, hsources⟩ := h.data hpc
  rw [hwords, hsources, hlast]
  rfl

theorem Inv.waiting_of_reading (h : s.Inv) (hr : s.pc.Reading) : s.waiting = some s.latched := by
  have hpc : s.pc ≠ .poll := by
    intro hpc
    rw [hpc] at hr
    exact hr
  have hack : s.pc ≠ .ack := by
    intro hpc
    rw [hpc] at hr
    exact hr
  have hu : s.ackUnderWay = false := Bool.eq_false_iff.2 fun hu ↦ hpc (h.idle hu)
  simp [waiting, h.busy (.inl hpc), hack, hu]

theorem Exact.last (hs : s.Exact) (h : s.Inv) (hpc : s.pc = .data ws) (hlast : ws.length = 6) :
    s.access.Exact := by
  have hp := h.busy (.inl (by rw [hpc]; exact UldbodPc.noConfusion))
  have hwaiting : s.access.waiting = none := by
    rw [access_last hpc hlast]
    simp [waiting]
  have honce := hs.once
  rw [h.waiting_of_reading (by rw [hpc]; trivial), Option.toList_some] at honce
  refine ⟨?_, ?_, ?_⟩
  · rw [hwaiting, access_last hpc hlast, h.handed_last hpc hlast, List.map_append,
      Option.toList_none, List.append_nil, ← List.append_assoc]
    exact honce
  · rw [access_last hpc hlast]
    exact hs.counted
  · rw [access_last hpc hlast, h.handed_last hpc hlast]
    intro x hx
    rcases List.mem_append.1 hx with hx | hx
    · exact hs.whole x hx
    · rw [List.mem_singleton.1 hx]
      exact ⟨rfl, s.mailbox.lat, h.latched hp, carries_words _ _⟩

theorem Exact.access (hs : s.Exact) (h : s.Inv) : s.access.Exact := by
  cases hpc : s.pc with
  | poll =>
      cases hp : s.mailbox.indirect.pending with
      | false =>
          rw [access_poll_free hpc hp]
          exact hs
      | true =>
          rw [access_poll hpc hp]
          exact hs.of_waiting rfl rfl rfl rfl (by simp [waiting, hpc])
  | index ws =>
      rw [access_index hpc]
      exact hs.of_waiting rfl rfl rfl rfl (by simp [waiting, hpc])
  | data ws =>
      have hlen : ws.length < 7 := by
        simpa [hpc, UldbodPc.words] using h.length_words (by rw [hpc]; trivial)
      rcases Nat.lt_or_eq_of_le (Nat.succ_le_of_lt hlen) with hlt | hlast
      · rw [access_data hpc hlt]
        exact hs.of_waiting rfl rfl rfl rfl (by simp [waiting, hpc])
      · exact hs.last h hpc (Nat.succ.inj hlast)
  | ack =>
      rw [access_ack hpc]
      exact hs.of_waiting rfl rfl rfl rfl (by simp [waiting, hpc])

end Access

/-! ### Runs -/

theorem Inv.step (h : s.Inv) (e : DemandEvent) (hsettled : s.Settled e) : (s.step e).Inv := by
  cases e with
  | clock push a => exact h.clock push a
  | access => exact h.access hsettled

theorem Exact.step (hs : s.Exact) (h : s.Inv) (e : DemandEvent) : (s.step e).Exact := by
  cases e with
  | clock push a => exact hs.clock h push a
  | access => exact hs.access h

/-- A body that waits does so until it is handed over. -/
theorem Inv.waiting_clock (h : s.Inv) {i : ℕ} (hw : s.waiting = some i) (push : Option DemandBody)
    (a : Bool) : (s.clock push a).waiting = some i := by
  have hp : s.mailbox.indirect.pending = true := by
    rw [waiting] at hw
    split_ifs at hw with hc
    simp only [Bool.and_eq_true] at hc
    exact hc.1.1
  cases push with
  | none => exact (h.waiting_clock_none a).trans hw
  | some b => exact (h.waiting_drop hp b a).trans hw

/-- **An access hands over what waits, or comes nearer to it.** -/
theorem Inv.access_response (h : s.Inv) {i : ℕ} (hw : s.waiting = some i) :
    i ∈ s.access.handed.map UldbodHanded.source ∨
      s.access.waiting = some i ∧ s.access.pc.left + 1 ≤ s.pc.left := by
  cases hpc : s.pc with
  | poll =>
      have hp : s.mailbox.indirect.pending = true := by
        cases hp : s.mailbox.indirect.pending with
        | false => simp [waiting, hp] at hw
        | true => rfl
      rw [access_poll hpc hp]
      refine .inr ⟨?_, Nat.le_refl _⟩
      rw [← hw]
      simp [waiting, hpc]
  | index ws =>
      have hlen : ws.length < 7 := by
        simpa [hpc, UldbodPc.words] using h.length_words (by rw [hpc]; trivial)
      rw [access_index hpc]
      refine .inr ⟨?_, ?_⟩
      · rw [← hw]
        simp [waiting, hpc]
      · simp only [UldbodPc.left]
        omega
  | data ws =>
      have hlen : ws.length < 7 := by
        simpa [hpc, UldbodPc.words] using h.length_words (by rw [hpc]; trivial)
      rcases Nat.lt_or_eq_of_le (Nat.succ_le_of_lt hlen) with hlt | hlast
      · rw [access_data hpc hlt]
        refine .inr ⟨?_, ?_⟩
        · rw [← hw]
          simp [waiting, hpc]
        · simp only [UldbodPc.left, List.length_append, List.length_singleton]
          omega
      · have hlatched : s.latched = i := by
          rw [h.waiting_of_reading (by rw [hpc]; trivial)] at hw
          exact Option.some.inj hw
        rw [access_last hpc (Nat.succ.inj hlast), h.handed_last hpc (Nat.succ.inj hlast)]
        refine .inl (List.mem_map.2 ⟨_, List.mem_append_right _ (List.mem_singleton_self _), ?_⟩)
        exact hlatched
  | ack => simp [waiting, hpc] at hw

theorem handed_step (s : DemandBus) (e : DemandEvent) : s.handed <+: (s.step e).handed := by
  cases e with
  | clock push a => exact List.prefix_refl _
  | access =>
      show s.handed <+: s.access.handed
      rw [access]
      split
      · split_ifs <;> exact List.prefix_refl _
      · exact List.prefix_refl _
      · dsimp only
        split_ifs
        · exact List.prefix_refl _
        · exact List.prefix_append _ _
      · exact List.prefix_refl _

/-- What waits is handed over within 15 accesses. -/
theorem Inv.response (h : s.Inv) {i : ℕ} (hw : s.waiting = some i) {es : List DemandEvent}
    (hsettled : Run.Along DemandBus.step Settled s es)
    (hlen : 14 < es.countP DemandEvent.isAccess) :
    i ∈ (Run.exec DemandBus.step s es).handed.map UldbodHanded.source := by
  refine Run.of_progress DemandBus.step (W := fun s ↦ s.Inv ∧ s.waiting = some i)
    (D := fun s ↦ i ∈ s.handed.map UldbodHanded.source) (m := fun s ↦ s.pc.left)
    DemandEvent.isAccess ?_ ?_ ⟨h, hw⟩ hsettled (Nat.lt_of_le_of_lt ?_ hlen)
  · rintro s e ⟨h, hw⟩ hsettled
    cases e with
    | clock push a => exact .inr ⟨⟨h.clock push a, h.waiting_clock hw push a⟩, Nat.le_refl _⟩
    | access => exact (h.access_response hw).imp_right fun hr ↦ ⟨⟨h.access hsettled, hr.1⟩, hr.2⟩
  · intro s e hd
    exact ((handed_step s e).map UldbodHanded.source).subset hd
  · cases s.pc with
    | poll => exact Nat.le_refl _
    | index ws => exact Nat.le_trans (Nat.sub_le _ _) (by decide)
    | data ws => exact Nat.le_trans (Nat.sub_le _ _) (by decide)
    | ack => exact Nat.zero_le _

/-- **Each body is dropped and counted, or handed over once as it came, at the latest with the 15th
access.** -/
theorem demands_handed_exactly_once {es : List DemandEvent} (h : Run.Along step Settled {} es) :
    Run.Throughout step Exact {} es ∧
      ∀ i fs, (Run.exec step {} es).waiting = some i →
        Run.Along step Settled (Run.exec step {} es) fs →
        14 < fs.countP DemandEvent.isAccess →
        i ∈ (Run.exec step (Run.exec step {} es) fs).handed.map UldbodHanded.source := by
  have hboth : Run.Throughout step (fun s ↦ s.Inv ∧ s.Exact) {} es :=
    h.throughout step (fun s e hs hsettled ↦ ⟨hs.1.step e hsettled, hs.2.step hs.1 e⟩)
      ⟨inv_init, exact_init⟩
  exact ⟨hboth.imp step fun _ hs ↦ hs.2, fun i fs hw hfs hlen ↦
    (hboth.last step).1.response hw hfs hlen⟩

/-- A body is handed over, and the one that came meanwhile is dropped. -/
def oneOfTwo : List DemandEvent :=
  .clock (some { ssi := 0x282FF4 }) false :: List.replicate 9 .access ++
    .clock (some { ssi := 0x282FF5 }) false :: List.replicate 7 .access ++ [.clock none true, .access]

theorem demands_handed_oneOfTwo :
    Run.Throughout step Exact {} oneOfTwo ∧ (Run.exec step {} oneOfTwo).dropped = [1] :=
  have hsettled : Run.Along step Settled {} oneOfTwo := by decide +kernel
  ⟨(demands_handed_exactly_once hsettled).1, by decide +kernel⟩

end DemandBus

end TetraPhy.Daemon
