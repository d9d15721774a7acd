import TetraPhy.CallFsm.VoiceRelay
import TetraPhy.Lib.BitField
import TetraPhy.Lib.Run

/-!
# Handing over voice bursts

The uplink captures voice bursts into `tetra_voice_nub_read_mailbox.v`, and `tetra_voice_pipe_tick`
reads one in more than a hundred register accesses, with a stopwatch that tells the timeslot.

| access | goes on if |
|---|---|
| status | a burst is pending |
| stopwatch, colour code, cell configuration | |
| index *w*, data *w*, for *w* = 0 .. 53 | |
| acknowledge | |

The mailbox holds one burst.  The next one overwrites it, and the stopwatch, whatever the software
is at, and an acknowledgement clears the flag of whichever burst is there when it arrives.
**`atomic_iff_undisturbed`** says in which interleavings the bursts handed over are nevertheless
those that were captured.

The read of the event counter, which is logged only, is left out, and the writes to the filler
mailbox are one with the read of the last word: the NUB mailbox does not see them.
-/

namespace TetraPhy.CallFsm

open Sw Lmac Permute Speech BitField

/-! ## The mailbox -/

/-- `tetra_voice_nub_read_mailbox`: the words as they were captured, and the flag. -/
structure NubMailbox where
  codedSofts : BitVec 1728 := 0
  valid : Bool := false
deriving DecidableEq, Repr

namespace NubMailbox

variable (m : NubMailbox)

/-- A clock: a capture goes before an acknowledgement. -/
def clock (codedSofts : Option (BitVec 1728)) (ackPulse : Bool) : NubMailbox where
  codedSofts := codedSofts.getD m.codedSofts
  valid := if codedSofts.isSome then true else if ackPulse then false else m.valid

/-- Word `w` of the capture. -/
def word (w : ℕ) : BitVec 32 := m.codedSofts.extractLsb' (32 * w) 32

/-- `rdata_sys`. -/
def rdata (index : BitVec 6) : UInt32 :=
  .ofBitVec (if index.toNat < 54 then m.word index.toNat
    else if index.toNat = 54 then place 32 0 (BitVec.ofBool m.valid) else 0)

/-- `REG_VOICE_NUB_READ_STATUS`. -/
def status : UInt32 := .ofBitVec (place 32 0 (BitVec.ofBool m.valid))

theorem status_and_one : (m.status &&& 0x1 == 0) = !m.valid := by
  cases hv : m.valid <;> rw [status, hv] <;> decide

theorem rdata_of_lt {w : ℕ} (hw : w < 54) : m.rdata (BitVec.ofNat 6 w) = .ofBitVec (m.word w) := by
  have hindex : (BitVec.ofNat 6 w).toNat = w := by
    rw [BitVec.toNat_ofNat]
    exact Nat.mod_eq_of_lt (by omega)
  rw [rdata, hindex, if_pos hw]

end NubMailbox

/-- The soft values of a capture, the first on air first. -/
def nubSofts (codedSofts : BitVec 1728) : List Int8 :=
  (List.range 432).map fun k ↦
    .ofBitVec ((codedSofts.extractLsb' (4 * (431 - k)) 4).signExtend 8)

/-- A nibble of a word is a soft value of the capture. -/
theorem signExtend4_word (m : NubMailbox) (k : ℕ) :
    signExtend4 ((UInt32.ofBitVec (m.word (k / 8)) >>> (4 * (k % 8)).toUInt32) &&& 0xF) =
      .ofBitVec ((m.codedSofts.extractLsb' (4 * k) 4).signExtend 8) := by
  have hall : ∀ x : BitVec 4, signExtend4 (.ofBitVec (x.setWidth 32)) = .ofBitVec (x.signExtend 8) := by
    decide
  rw [← hall]
  refine congrArg signExtend4 (UInt32.toNat_inj.1 ?_)
  have hshift : (4 * (k % 8)).toUInt32.toNat % 32 = 4 * (k % 8) := by
    rw [Nat.toUInt32, UInt32.toNat_ofNat']
    omega
  have hnib : (m.word (k / 8)).extractLsb' (4 * (k % 8)) 4 = m.codedSofts.extractLsb' (4 * k) 4 := by
    refine BitVec.eq_of_getLsbD_eq fun i hi ↦ ?_
    have hin : 4 * (k % 8) + i < 32 := by omega
    rw [BitVec.getLsbD_extractLsb', NubMailbox.word, BitVec.getLsbD_extractLsb',
      BitVec.getLsbD_extractLsb', decide_eq_true hi, decide_eq_true hin, Bool.true_and, Bool.true_and,
      Bool.true_and]
    exact congrArg _ (by omega)
  rw [toNat_shr_and_mask _ _ 0xF (k := 4) hshift rfl, UInt32.toBitVec_ofBitVec, hnib,
    UInt32.toNat_ofBitVec, BitVec.toNat_setWidth]
  exact (Nat.mod_eq_of_lt (Nat.lt_trans (BitVec.isLt _) (by decide))).symm

/-- **What is read from the words of one capture are its soft values.** -/
theorem readNubSofts_words (m : NubMailbox) {nubWord : ℕ → UInt32}
    (h : ∀ w < 54, nubWord w = .ofBitVec (m.word w)) :
    readNubSofts nubWord = nubSofts m.codedSofts := by
  have hcoded : codedSofts nubWord = (List.range 432).map fun k ↦
      .ofBitVec ((m.codedSofts.extractLsb' (4 * k) 4).signExtend 8) := by
    refine List.map_congr_left fun k hk ↦ ?_
    have hk := List.mem_range.1 hk
    rw [h _ (by omega)]
    exact signExtend4_word m k
  refine List.ext_getElem (by simp [readNubSofts, nubSofts]) fun p hp hp' ↦ ?_
  have hp432 : p < 432 := by simpa [nubSofts] using hp'
  have hback : nubIndex (431 - p) = p := by
    rw [nubIndex]
    omega
  have hget : (readNubSofts nubWord).getD (nubIndex (431 - p)) 0 =
      (codedSofts nubWord).getD (431 - p) 0 :=
    getD_scatter 0 nubIndex_lt nubIndex_inj _ (by omega)
  rw [hback, List.getD_eq_getElem _ _ hp, hcoded, List.getD_eq_getElem _ _ (by simp; omega)] at hget
  rw [hget]
  simp [nubSofts]

/-! ## The tick -/

/-- The access that comes next, and what was read so far: the registers, and the words. -/
inductive NubPc
  | status
  | delta
  | colourCode (r : NubReads)
  | cellCfg1 (r : NubReads)
  | index (r : NubReads) (words : List UInt32)
  | data (r : NubReads) (words : List UInt32)
  | ack

namespace NubPc

def words : NubPc → List UInt32
  | index _ ws => ws
  | data _ ws => ws
  | _ => []

/-- Words are being read. -/
def Reading : NubPc → Prop
  | index .. => True
  | data .. => True
  | _ => False

end NubPc

/-- What the tick finds outside the mailbox: the clock and the registers of the cell. -/
structure NubEnv where
  nowMs : UInt32 := 0
  nubMs : UInt32 := 0
  colourCode : UInt32 := 0
  cellCfg1 : UInt32 := 0

/-- What happens next: a clock, in which the stopwatch may be latched, a burst captured and an
acknowledgement arrive, or an access. -/
inductive NubEvent
  | clock (stopwatch : Option UInt32) (codedSofts : Option (BitVec 1728)) (ackArrives : Bool)
  | access (env : NubEnv)

/-- A burst that was captured, and its stopwatch value. -/
structure NubBurst where
  codedSofts : BitVec 1728
  delta : UInt32
deriving DecidableEq

/-- A burst that is handed over to the codec and the filler: what the tick has read, and for each
word which burst was in the mailbox then. -/
structure NubHanded where
  reads : NubReads
  sources : List ℕ

/-- The mailbox, its index register, the stopwatch, the acknowledgement on its way and the tick; and
what an observer has written down: the bursts captured, what was handed over, the sources of the
words being read, the burst of the last tick, and the bursts cleared though no tick had read them. -/
structure NubBus where
  mailbox : NubMailbox := {}
  vnubIndex : BitVec 6 := 0
  deltaLatch : UInt32 := 0
  ackUnderWay : Bool := false
  pc : NubPc := .status
  captured : List NubBurst := []
  handed : List NubHanded := []
  sources : List ℕ := []
  lastRead : Option ℕ := none
  lost : List ℕ := []

namespace NubBus

/-- The burst in the mailbox, counted from the first one. -/
def now (s : NubBus) : ℕ := s.captured.length - 1

/-- A tick has read all words of a burst. -/
def WasRead (s : NubBus) (n : ℕ) : Prop := ∃ h ∈ s.handed, h.sources = List.replicate 54 n

instance (s : NubBus) (n : ℕ) : Decidable (s.WasRead n) :=
  inferInstanceAs (Decidable (∃ h ∈ s.handed, h.sources = List.replicate 54 n))

/-- A clock. -/
def clock (s : NubBus) (stopwatch : Option UInt32) (codedSofts : Option (BitVec 1728))
    (ackArrives : Bool) : NubBus :=
  let ackPulse := ackArrives && s.ackUnderWay
  let deltaLatch := stopwatch.getD s.deltaLatch
  { s with
    mailbox := s.mailbox.clock codedSofts ackPulse
    deltaLatch := deltaLatch
    ackUnderWay := s.ackUnderWay && !ackArrives
    captured := s.captured ++ codedSofts.toList.map (⟨·, deltaLatch⟩)
    lost :=
      if codedSofts.isNone && ackPulse && s.mailbox.valid && !decide (s.WasRead s.now) then
        s.lost ++ [s.now]
      else s.lost }

/-- An access. -/
def access (s : NubBus) (env : NubEnv) : NubBus :=
  match s.pc with
  | .status =>
      if s.mailbox.status &&& 0x1 == 0 then s else { s with pc := .delta }
  | .delta =>
      { s with pc := .colourCode
                { delta := s.deltaLatch, nowMs := env.nowMs, nubMs := 0, colourCode := 0
                  cellCfg1 := 0, nubWord := fun _ ↦ 0 } }
  | .colourCode r => { s with pc := .cellCfg1 { r with colourCode := env.colourCode } }
  | .cellCfg1 r => { s with pc := .index { r with cellCfg1 := env.cellCfg1 } [], sources := [] }
  -- read_nub_softs
  | .index r ws => { s with pc := .data r ws, vnubIndex := BitVec.ofNat 6 ws.length }
  | .data r ws =>
      let ws := ws ++ [s.mailbox.rdata s.vnubIndex]
      let sources := s.sources ++ [s.now]
      if ws.length < 54 then { s with pc := .index r ws, sources := sources }
      else
        { s with
          pc := .ack
          sources := []
          handed := s.handed ++
            [⟨{ r with nubMs := env.nubMs, nubWord := fun w ↦ ws.getD w 0 }, sources⟩]
          lastRead := some s.now }
  | .ack => { s with pc := .status, ackUnderWay := true }

def step (s : NubBus) : NubEvent → NubBus
  | .clock stopwatch codedSofts ackArrives => s.clock stopwatch codedSofts ackArrives
  | .access env => s.access env

end NubBus

/-- What was handed over is a captured burst: its soft values are decoded, and what the codec makes
of them goes to the bank of its timeslot. -/
structure NubHanded.OfBurst (h : NubHanded) (b : NubBurst) : Prop where
  softs : h.reads.softsIn = nubSofts b.codedSofts
  timeslot : deltaToEtsiTs h.reads.delta = deltaToEtsiTs b.delta
  bank : ∀ st, bankBurst (voicePipeTick (some h.reads.burst) st).filler
      (FillerMailbox.tsBank (deltaToEtsiTs b.delta)) =
    encode (decodeSofti8 (nubSofts b.codedSofts) h.reads.scrambInit).1 h.reads.scrambInit

namespace NubBus

/-- **Every burst written to a filler bank is one captured burst, in the bank of its timeslot, and
no acknowledgement has cleared a burst that was not read.** -/
structure Atomic (s : NubBus) : Prop where
  whole : ∀ h ∈ s.handed, ∃ n b, s.captured[n]? = some b ∧ h.sources = List.replicate 54 n ∧
    h.OfBurst b
  unread : s.lost = []

/-- No burst is captured between the first and the last word that a tick reads, and the stopwatch
it has read names the timeslot of that burst; and an acknowledgement finds the burst of the last
tick. -/
def Undisturbed (s : NubBus) : NubEvent → Prop
  | .access _ => match s.pc with
    | .data r ws => ws.length = 53 → s.sources.head? = some s.now ∧
        ∀ b, s.captured[s.now]? = some b → deltaToEtsiTs r.delta = deltaToEtsiTs b.delta
    | _ => True
  | .clock _ codedSofts ackArrives =>
      codedSofts = none → ackArrives = true → s.ackUnderWay = true → s.mailbox.valid = true →
        s.lastRead = some s.now

variable {s : NubBus}

/-! ### The invariant -/

structure Inv (s : NubBus) : Prop where
  mailbox : s.captured ≠ [] → ∃ b, s.captured[s.now]? = some b ∧ b.codedSofts = s.mailbox.codedSofts
  valid : s.mailbox.valid = true → s.captured ≠ []
  busy : s.pc.Reading ∨ s.pc = .delta ∨ (∃ r, s.pc = .colourCode r) ∨ (∃ r, s.pc = .cellCfg1 r) →
    s.captured ≠ []
  index : ∀ r ws, s.pc = .data r ws → s.vnubIndex = BitVec.ofNat 6 ws.length
  length_words : s.pc.Reading → s.pc.words.length < 54
  length_sources : s.pc.Reading → s.sources.length = s.pc.words.length
  sources_le : ∀ k ∈ s.sources, k ≤ s.now
  head_le : ∀ n, s.sources.head? = some n → ∀ k ∈ s.sources, n ≤ k
  /-- As long as no burst has come since the first word, the words are those of the mailbox. -/
  current : s.pc.Reading → (∀ k ∈ s.sources, k = s.now) →
    s.pc.words = (List.range s.pc.words.length).map fun w ↦ .ofBitVec (s.mailbox.word w)
  handed_le : ∀ h ∈ s.handed, ∀ k ∈ h.sources, ∃ l, s.lastRead = some l ∧ k ≤ l
  lastRead_le : ∀ l, s.lastRead = some l → l ≤ s.now
  lastRead_mem : ∀ l, s.lastRead = some l → ∃ h ∈ s.handed, l ∈ h.sources

theorem inv_init : Inv {} where
  mailbox h := absurd rfl h
  valid h := Bool.noConfusion h
  busy h := by
    rcases h with h | h | ⟨r, h⟩ | ⟨r, h⟩
    · exact h.elim
    · exact NubPc.noConfusion h
    · exact NubPc.noConfusion h
    · exact NubPc.noConfusion h
  index r ws h := NubPc.noConfusion h
  length_words h := h.elim
  length_sources h := h.elim
  sources_le k h := absurd h List.not_mem_nil
  head_le n _ k h := absurd h List.not_mem_nil
  current h := h.elim
  handed_le h hh := absurd hh List.not_mem_nil
  lastRead_le l h := nomatch h
  lastRead_mem l h := nomatch h

theorem atomic_init : Atomic {} := ⟨fun _ h ↦ absurd h List.not_mem_nil, rfl⟩

/-! ### A clock -/

/-- A clock in which nothing is captured. -/
theorem clock_none (s : NubBus) (stopwatch : Option UInt32) (ackArrives : Bool) :
    s.clock stopwatch none ackArrives = { s with
      mailbox.valid := if ackArrives && s.ackUnderWay then false else s.mailbox.valid
      deltaLatch := stopwatch.getD s.deltaLatch
      ackUnderWay := s.ackUnderWay && !ackArrives
      lost :=
        if ackArrives && s.ackUnderWay && s.mailbox.valid && !decide (s.WasRead s.now) then
          s.lost ++ [s.now]
        else s.lost } := by
  simp [clock, NubMailbox.clock]

/-- A clock in which a burst is captured. -/
theorem clock_some (s : NubBus) (stopwatch : Option UInt32) (c : BitVec 1728) (ackArrives : Bool) :
    s.clock stopwatch (some c) ackArrives = { s with
      mailbox := ⟨c, true⟩
      deltaLatch := stopwatch.getD s.deltaLatch
      ackUnderWay := s.ackUnderWay && !ackArrives
      captured := s.captured ++ [⟨c, stopwatch.getD s.deltaLatch⟩] } := by
  simp [clock, NubMailbox.clock]

theorem Inv.clock_none (h : s.Inv) (stopwatch : Option UInt32) (ackArrives : Bool) :
    (s.clock stopwatch none ackArrives).Inv := by
  rw [NubBus.clock_none]
  refine ⟨h.mailbox, fun hv ↦ h.valid ?_, h.busy, h.index, h.length_words, h.length_sources,
    h.sources_le, h.head_le, h.current, h.handed_le, h.lastRead_le, h.lastRead_mem⟩
  by_cases hack : (ackArrives && s.ackUnderWay) = true
  · exact absurd hv (by simp [hack])
  · simpa [hack] using hv

theorem Inv.clock_some (h : s.Inv) (stopwatch : Option UInt32) (c : BitVec 1728)
    (ackArrives : Bool) : (s.clock stopwatch (some c) ackArrives).Inv := by
  rw [NubBus.clock_some]
  have hnow : ∀ b : NubBurst, (s.captured ++ [b]).length - 1 = s.captured.length := by
    intro b
    rw [List.length_append, List.length_singleton, Nat.add_sub_cancel]
  have hle : s.now ≤ s.captured.length := Nat.sub_le _ _
  refine ⟨fun _ ↦ ?_, fun _ ↦ ?_, fun _ ↦ ?_, h.index, h.length_words, h.length_sources, ?_, h.head_le,
    ?_, h.handed_le, ?_, h.lastRead_mem⟩
  · rw [now, hnow]
    exact ⟨_, List.getElem?_concat_length, rfl⟩
  · exact List.append_ne_nil_of_right_ne_nil _ (List.cons_ne_nil _ _)
  · exact List.append_ne_nil_of_right_ne_nil _ (List.cons_ne_nil _ _)
  · intro k hk
    rw [now, hnow]
    exact Nat.le_trans (h.sources_le k hk) hle
  · intro hr hall
    -- no word is from a burst that has just come
    have hnil : s.sources = [] := by
      refine List.eq_nil_iff_forall_not_mem.2 fun k hk ↦ ?_
      have hlt : s.now < s.captured.length :=
        Nat.sub_lt (List.length_pos_iff.2 (h.busy (.inl hr))) Nat.one_pos
      have hnew : k = s.captured.length := (hall k hk).trans (hnow _)
      exact absurd (h.sources_le k hk) (by omega)
    have hwords : s.pc.words.length = 0 := by rw [← h.length_sources hr, hnil, List.length_nil]
    show s.pc.words = (List.range s.pc.words.length).map _
    rw [List.eq_nil_of_length_eq_zero hwords]
    rfl
  · intro l hl
    rw [now, hnow]
    exact Nat.le_trans (h.lastRead_le l hl) hle

/-! ### An access -/

section Access

variable {env : NubEnv} {r : NubReads} {ws : List UInt32}

theorem access_status (hpc : s.pc = .status) (hv : s.mailbox.valid = true) :
    s.access env = { s with pc := .delta } := by
  simp [access, hpc, NubMailbox.status_and_one, hv]

theorem access_status_idle (hpc : s.pc = .status) (hv : s.mailbox.valid = false) :
    s.access env = s := by
  simp [access, hpc, NubMailbox.status_and_one, hv]

theorem access_data (hpc : s.pc = .data r ws) (hlt : ws.length + 1 < 54) :
    s.access env = { s with
      pc := .index r (ws ++ [s.mailbox.rdata s.vnubIndex])
      sources := s.sources ++ [s.now] } := by
  simp [access, hpc, hlt]

theorem access_last (hpc : s.pc = .data r ws) (hlast : ws.length = 53) :
    s.access env = { s with
      pc := .ack
      sources := []
      handed := s.handed ++
        [⟨{ r with
            nubMs := env.nubMs
            nubWord := fun w ↦ (ws ++ [s.mailbox.rdata s.vnubIndex]).getD w 0 },
          s.sources ++ [s.now]⟩]
      lastRead := some s.now } := by
  simp [access, hpc, hlast]

/-- The words with the next one. -/
theorem Inv.data (h : s.Inv) (hpc : s.pc = .data r ws) (hall : ∀ k ∈ s.sources, k = s.now) :
    ws ++ [s.mailbox.rdata s.vnubIndex] =
      (List.range (ws.length + 1)).map fun w ↦ .ofBitVec (s.mailbox.word w) := by
  have hr : s.pc.Reading := by rw [hpc]; trivial
  have hlen : ws.length < 54 := by simpa [hpc, NubPc.words] using h.length_words hr
  have hwords : ws = (List.range ws.length).map fun w ↦ .ofBitVec (s.mailbox.word w) := by
    simpa [hpc, NubPc.words] using h.current hr hall
  rw [List.range_succ, List.map_append, ← hwords, h.index r ws hpc, NubMailbox.rdata_of_lt _ hlen]
  rfl

/-- The next source. -/
theorem Inv.next_source (h : s.Inv) : (∀ k ∈ s.sources ++ [s.now], k ≤ s.now) ∧
    ∀ n, (s.sources ++ [s.now]).head? = some n → ∀ k ∈ s.sources ++ [s.now], n ≤ k := by
  have hle : ∀ k ∈ s.sources ++ [s.now], k ≤ s.now := by
    intro k hk
    rcases List.mem_append.1 hk with hk | hk
    · exact h.sources_le k hk
    · exact Nat.le_of_eq (List.mem_singleton.1 hk)
  refine ⟨hle, fun n hn k hk ↦ ?_⟩
  rcases List.mem_append.1 hk with hk' | hk'
  · refine h.head_le n ?_ k hk'
    rwa [List.head?_append_of_ne_nil _ (List.ne_nil_of_mem hk')] at hn
  · rw [List.mem_singleton.1 hk']
    exact hle n (List.mem_of_head? hn)

/-- Nothing is read for a hand-over yet, or nothing any more. -/
theorem Inv.idle (h : s.Inv) {pc : NubPc} (hr : ¬ pc.Reading)
    (hbusy : pc = .delta ∨ (∃ r, pc = .colourCode r) ∨ (∃ r, pc = .cellCfg1 r) → s.captured ≠ [])
    (ack : Bool) : Inv { s with pc := pc, ackUnderWay := ack } where
  mailbox := h.mailbox
  valid := h.valid
  busy hb := hbusy (hb.resolve_left hr)
  index r ws hpc := absurd (show pc.Reading by rw [show pc = .data r ws from hpc]; trivial) hr
  length_words hr' := absurd hr' hr
  length_sources hr' := absurd hr' hr
  sources_le := h.sources_le
  head_le := h.head_le
  current hr' := absurd hr' hr
  handed_le := h.handed_le
  lastRead_le := h.lastRead_le
  lastRead_mem := h.lastRead_mem

/-- The 54th word is read. -/
theorem Inv.last (h : s.Inv) (hpc : s.pc = .data r ws) (hlast : ws.length = 53) :
    (s.access env).Inv := by
  have hcap := h.busy (.inl (by rw [hpc]; trivial))
  rw [access_last hpc hlast]
  refine ⟨h.mailbox, h.valid, fun _ ↦ hcap, fun _ _ hd ↦ NubPc.noConfusion hd, fun hr ↦ hr.elim,
    fun hr ↦ hr.elim, fun _ hk ↦ absurd hk List.not_mem_nil, fun _ _ _ hk ↦ absurd hk List.not_mem_nil,
    fun hr ↦ hr.elim, ?_, ?_, ?_⟩
  · intro x hx k hk
    refine ⟨s.now, rfl, ?_⟩
    rcases List.mem_append.1 hx with hx | hx
    · obtain ⟨l, hl, hle⟩ := h.handed_le x hx k hk
      exact Nat.le_trans hle (h.lastRead_le l hl)
    · rw [List.mem_singleton.1 hx] at hk
      exact h.next_source.1 k hk
  · intro l hl
    exact Nat.le_of_eq (Option.some.inj hl).symm
  · intro l hl
    refine ⟨_, List.mem_append_right _ (List.mem_singleton_self _), ?_⟩
    rw [← Option.some.inj hl]
    exact List.mem_append_right _ (List.mem_singleton_self _)

theorem Inv.access (h : s.Inv) (env : NubEnv) : (s.access env).Inv := by
  cases hpc : s.pc with
  | status =>
      cases hv : s.mailbox.valid with
      | false =>
          rw [access_status_idle hpc hv]
          exact h
      | true =>
          rw [access_status hpc hv]
          exact h.idle id (fun _ ↦ h.valid hv) _
  | delta =>
      have hcap := h.busy (.inr (.inl hpc))
      have hstep : s.access env =
          { s with pc := .colourCode ⟨s.deltaLatch, env.nowMs, 0, 0, 0, fun _ ↦ 0⟩ } := by
        simp [NubBus.access, hpc]
      rw [hstep]
      exact h.idle id (fun _ ↦ hcap) _
  | colourCode r =>
      have hcap := h.busy (.inr (.inr (.inl ⟨r, hpc⟩)))
      have hstep : s.access env = { s with pc := .cellCfg1 { r with colourCode := env.colourCode } } := by
        simp [NubBus.access, hpc]
      rw [hstep]
      exact h.idle id (fun _ ↦ hcap) _
  | cellCfg1 r =>
      have hcap := h.busy (.inr (.inr (.inr ⟨r, hpc⟩)))
      have hstep : s.access env =
          { s with pc := .index { r with cellCfg1 := env.cellCfg1 } [], sources := [] } := by
        simp [NubBus.access, hpc]
      rw [hstep]
      exact ⟨h.mailbox, h.valid, fun _ ↦ hcap, fun _ _ hd ↦ NubPc.noConfusion hd,
        fun _ ↦ show 0 < 54 by decide, fun _ ↦ rfl, fun _ hk ↦ absurd hk List.not_mem_nil,
        fun _ _ _ hk ↦ absurd hk List.not_mem_nil, fun _ _ ↦ rfl, h.handed_le, h.lastRead_le,
        h.lastRead_mem⟩
  | index r ws =>
      have hr : s.pc.Reading := by rw [hpc]; trivial
      have hstep : s.access env =
          { s with pc := .data r ws, vnubIndex := BitVec.ofNat 6 ws.length } := by
        simp [NubBus.access, hpc]
      rw [hstep]
      refine ⟨h.mailbox, h.valid, fun _ ↦ h.busy (.inl hr), ?_, fun _ ↦ ?_, fun _ ↦ ?_, h.sources_le,
        h.head_le, fun _ hall ↦ ?_, h.handed_le, h.lastRead_le, h.lastRead_mem⟩
      · intro r' ws' hd
        rw [(NubPc.data.inj hd).2]
      · simpa [hpc, NubPc.words] using h.length_words hr
      · simpa [hpc, NubPc.words] using h.length_sources hr
      · simpa [hpc, NubPc.words] using h.current hr hall
  | data r ws =>
      have hr : s.pc.Reading := by rw [hpc]; trivial
      have hlen : ws.length < 54 := by simpa [hpc, NubPc.words] using h.length_words hr
      rcases Nat.lt_or_eq_of_le (Nat.succ_le_of_lt hlen) with hlt | hlast
      · rw [access_data hpc hlt]
        refine ⟨h.mailbox, h.valid, fun _ ↦ h.busy (.inl hr), fun _ _ hd ↦ NubPc.noConfusion hd,
          fun _ ↦ ?_, fun _ ↦ ?_, h.next_source.1, h.next_source.2, fun _ hall ↦ ?_, h.handed_le,
          h.lastRead_le, h.lastRead_mem⟩
        · rw [NubPc.words, List.length_append]
          exact hlt
        · have hsources : s.sources.length = ws.length := by
            simpa [hpc, NubPc.words] using h.length_sources hr
          rw [NubPc.words, List.length_append, List.length_append, hsources]
          rfl
        · rw [NubPc.words, List.length_append]
          exact h.data hpc fun k hk ↦ hall k (List.mem_append_left _ hk)
      · exact h.last hpc (Nat.succ.inj hlast)
  | ack =>
      have hstep : s.access env = { s with pc := .status, ackUnderWay := true } := by
        simp [NubBus.access, hpc]
      rw [hstep]
      refine h.idle id (fun hb ↦ ?_) true
      rcases hb with hb | ⟨r, hb⟩ | ⟨r, hb⟩ <;> exact NubPc.noConfusion hb

end Access

theorem Inv.step (h : s.Inv) (e : NubEvent) : (s.step e).Inv := by
  cases e with
  | clock stopwatch codedSofts ackArrives =>
      cases codedSofts with
      | none => exact h.clock_none stopwatch ackArrives
      | some c => exact h.clock_some stopwatch c ackArrives
  | access env => exact h.access env

/-! ### Which hand-overs are atomic -/

/-- Later bursts change nothing about what was handed over. -/
theorem Atomic.of_handed {s' : NubBus} (hs : s.Atomic) (hhanded : s'.handed = s.handed)
    (hcaptured : s.captured <+: s'.captured) (hlost : s'.lost = s.lost) : s'.Atomic := by
  refine ⟨fun x hx ↦ ?_, hlost.trans hs.unread⟩
  obtain ⟨n, b, hb, hsources, hburst⟩ := hs.whole x (hhanded ▸ hx)
  obtain ⟨rest, hrest⟩ := hcaptured
  refine ⟨n, b, ?_, hsources, hburst⟩
  rw [← hrest, List.getElem?_append_left (List.getElem?_eq_some_iff.1 hb).1, hb]

/-- The burst in the mailbox was read exactly if it is that of the last tick. -/
theorem Inv.wasRead_iff (h : s.Inv) (hs : s.Atomic) :
    s.WasRead s.now ↔ s.lastRead = some s.now := by
  constructor
  · rintro ⟨x, hx, hsources⟩
    have hmem : s.now ∈ x.sources := by
      rw [hsources]
      exact List.mem_replicate.2 ⟨by decide, rfl⟩
    obtain ⟨l, hl, hle⟩ := h.handed_le x hx _ hmem
    rw [hl, Nat.le_antisymm (h.lastRead_le l hl) hle]
  · intro hl
    obtain ⟨x, hx, hmem⟩ := h.lastRead_mem _ hl
    obtain ⟨n, -, -, hsources, -⟩ := hs.whole x hx
    refine ⟨x, hx, ?_⟩
    rw [hsources] at hmem ⊢
    rw [List.eq_of_mem_replicate hmem]

/-- **An acknowledgement clears no unread burst exactly if it finds that of the last tick.** -/
theorem Inv.atomic_clock_none_iff (h : s.Inv) (hs : s.Atomic) (stopwatch : Option UInt32)
    (ackArrives : Bool) : (s.clock stopwatch none ackArrives).Atomic ↔
      (ackArrives = true → s.ackUnderWay = true → s.mailbox.valid = true →
        s.lastRead = some s.now) := by
  rw [← h.wasRead_iff hs, NubBus.clock_none]
  constructor
  · intro hatomic ha hu hv
    by_contra hread
    have hlost := hatomic.unread
    simp [ha, hu, hv, hread] at hlost
  · intro hread
    refine hs.of_handed rfl (List.prefix_refl _) (if_neg fun hlost ↦ ?_)
    simp only [Bool.and_eq_true, Bool.not_eq_true', decide_eq_false_iff_not] at hlost
    obtain ⟨⟨⟨ha, hu⟩, hv⟩, hunread⟩ := hlost
    exact hunread (hread ha hu hv)

/-- What is read of one burst, with its timeslot, is that burst. -/
theorem ofBurst_of_words {r : NubReads} {b : NubBurst} {sources : List ℕ}
    (hsofts : r.softsIn = nubSofts b.codedSofts)
    (hts : deltaToEtsiTs r.delta = deltaToEtsiTs b.delta) : NubHanded.OfBurst ⟨r, sources⟩ b where
  softs := hsofts
  timeslot := hts
  bank st := by
    have hbank := relayed_eq (show (1 : UInt32) &&& 0x1 ≠ 0 by decide) r st
    rw [relayed, hts, hsofts] at hbank
    exact hbank

/-- **The last word makes an atomic hand-over exactly if no burst has come since the first, and the
timeslot is its own.** -/
theorem Inv.atomic_last_iff (h : s.Inv) (hs : s.Atomic) {env : NubEnv} {r : NubReads}
    {ws : List UInt32} (hpc : s.pc = .data r ws) (hlast : ws.length = 53) :
    (s.access env).Atomic ↔ s.sources.head? = some s.now ∧
      ∀ b, s.captured[s.now]? = some b → deltaToEtsiTs r.delta = deltaToEtsiTs b.delta := by
  have hr : s.pc.Reading := by rw [hpc]; trivial
  have hlen : s.sources.length = 53 := by
    rw [h.length_sources hr, hpc]
    exact hlast
  obtain ⟨first, hfirst⟩ : ∃ first, s.sources.head? = some first := by
    refine ⟨_, List.head?_eq_some_head fun hnil ↦ ?_⟩
    rw [hnil] at hlen
    exact absurd hlen (by decide)
  rw [access_last hpc hlast]
  constructor
  · intro hatomic
    obtain ⟨n, b, hb, hsources, hburst⟩ :=
      hatomic.whole _ (List.mem_append_right _ (List.mem_singleton_self _))
    have hmem : ∀ k ∈ s.sources ++ [s.now], k = n := by
      intro k hk
      rw [show s.sources ++ [s.now] = List.replicate 54 n from hsources] at hk
      exact List.eq_of_mem_replicate hk
    have hnow := hmem s.now (List.mem_append_right _ (List.mem_singleton_self _))
    rw [hfirst, hmem first (List.mem_append_left _ (List.mem_of_head? hfirst)), hnow]
    refine ⟨rfl, fun b' hb' ↦ ?_⟩
    rw [← Option.some.inj (hb.symm.trans hb')]
    exact hburst.timeslot
  · rintro ⟨hhead, hts⟩
    have hall : ∀ k ∈ s.sources, k = s.now :=
      fun k hk ↦ Nat.le_antisymm (h.sources_le k hk) (h.head_le _ hhead k hk)
    obtain ⟨b, hb, hcoded⟩ := h.mailbox (h.busy (.inl hr))
    refine ⟨fun x hx ↦ ?_, hs.unread⟩
    rcases List.mem_append.1 hx with hx | hx
    · exact hs.whole x hx
    · rw [List.mem_singleton.1 hx]
      refine ⟨s.now, b, hb, ?_, ofBurst_of_words ?_ (hts b hb)⟩
      · refine List.eq_replicate_iff.2 ⟨by rw [List.length_append, hlen]; rfl, fun k hk ↦ ?_⟩
        rcases List.mem_append.1 hk with hk | hk
        · exact hall k hk
        · exact List.mem_singleton.1 hk
      · rw [hcoded]
        refine readNubSofts_words s.mailbox fun w hw ↦ ?_
        show (ws ++ [s.mailbox.rdata s.vnubIndex]).getD w 0 = _
        rw [h.data hpc hall, List.getD_eq_getElem _ _ (by simp; omega)]
        simp

/-- An access that does not read the last word hands nothing over. -/
theorem handed_access {env : NubEnv}
    (hlast : ∀ r ws, s.pc = .data r ws → ws.length ≠ 53) (h : s.Inv) :
    (s.access env).handed = s.handed := by
  cases hpc : s.pc with
  | data r ws =>
      have hlen : ws.length < 54 := by
        simpa [hpc, NubPc.words] using h.length_words (by rw [hpc]; trivial)
      have hne := hlast r ws hpc
      rw [access_data hpc (by omega)]
  | status =>
      cases hv : s.mailbox.valid with
      | false => rw [access_status_idle hpc hv]
      | true => rw [access_status hpc hv]
  | _ => simp [access, hpc]

theorem captured_access (s : NubBus) (env : NubEnv) :
    (s.access env).captured = s.captured ∧ (s.access env).lost = s.lost := by
  cases hpc : s.pc with
  | status =>
      cases hv : s.mailbox.valid with
      | false => rw [access_status_idle hpc hv]; exact ⟨rfl, rfl⟩
      | true => rw [access_status hpc hv]; exact ⟨rfl, rfl⟩
  | data r ws =>
      simp only [access, hpc]
      split_ifs <;> exact ⟨rfl, rfl⟩
  | _ => simp [access, hpc]

theorem Inv.atomic_step_iff (h : s.Inv) (hs : s.Atomic) (e : NubEvent) :
    (s.step e).Atomic ↔ s.Undisturbed e := by
  cases e with
  | clock stopwatch codedSofts ackArrives =>
      cases codedSofts with
      | none =>
          refine (h.atomic_clock_none_iff hs stopwatch ackArrives).trans ?_
          exact ⟨fun hc _ ↦ hc, fun hc ↦ hc rfl⟩
      | some c =>
          refine iff_of_true ?_ fun hc ↦ absurd hc (Option.some_ne_none c)
          show (s.clock stopwatch (some c) ackArrives).Atomic
          rw [NubBus.clock_some]
          exact hs.of_handed rfl (List.prefix_append _ _) rfl
  | access env =>
      by_cases hlast : ∃ r ws, s.pc = .data r ws ∧ ws.length = 53
      · obtain ⟨r, ws, hpc, hlast⟩ := hlast
        refine (h.atomic_last_iff hs hpc hlast).trans ?_
        rw [Undisturbed, hpc]
        exact ⟨fun hc _ ↦ hc, fun hc ↦ hc hlast⟩
      · have hne : ∀ r ws, s.pc = .data r ws → ws.length ≠ 53 :=
          fun r ws hpc hlen ↦ hlast ⟨r, ws, hpc, hlen⟩
        obtain ⟨hcaptured, hlost⟩ := captured_access s env
        refine iff_of_true (hs.of_handed (handed_access hne h)
          (by show s.captured <+: (s.access env).captured; rw [hcaptured]) hlost) ?_
        rw [Undisturbed]
        split
        · next r ws hpc => exact fun hc ↦ absurd hc (hne r ws hpc)
        · trivial

/-- **Which runs hand over only captured bursts**: those in which no burst comes between the first
and the last word of a tick, the stopwatch it has read names the burst's timeslot, and each
acknowledgement finds the burst of the last tick. -/
theorem atomic_iff_undisturbed (es : List NubEvent) :
    Run.Throughout step Atomic {} es ↔ Run.Along step Undisturbed {} es :=
  Run.throughout_iff_along step (fun _ e h ↦ h.step e) (fun _ e h hs ↦ h.atomic_step_iff hs e)
    inv_init atomic_init es

/-- A burst comes when half of the words of another are read. -/
def overwritten : List NubEvent :=
  .clock (some 2250700) (some 0) false :: List.replicate 58 (.access {}) ++
    .clock (some 3667400) (some (BitVec.allOnes 1728)) false :: List.replicate 54 (.access {})

/-- The codec is given half of each. -/
theorem not_atomic_overwritten : ¬ Run.Throughout step Atomic {} overwritten := by
  intro h
  obtain ⟨x, hx, hfirst, hlast⟩ : ∃ x ∈ (Run.exec step {} overwritten).handed,
      0 ∈ x.sources ∧ 1 ∈ x.sources := by
    decide +kernel
  obtain ⟨n, -, -, hsources, -⟩ := (h.last step).whole x hx
  rw [hsources] at hfirst hlast
  exact absurd ((List.eq_of_mem_replicate hfirst).trans (List.eq_of_mem_replicate hlast).symm)
    Nat.zero_ne_one

end NubBus

end TetraPhy.CallFsm
