import TetraPhy.Lib.Run
import TetraPhy.Rx.UlPduMailbox

/-!
# Dispatching single-burst call control

The main loop of `tetra_attach_daemon.c` reads a PDU from the mailbox of single-burst PDUs in six
register accesses and hands it to the CMCE parser and the call control.  It takes a PDU for new if
the count in the status has changed.

| access | goes on if |
|---|---|
| status | the count is not that of the last status |
| status 2 | the PDU is CMCE |
| SSI, raw 0, raw 1, raw 2 | |

Before that `service_sds_frag_start` reads status and SSI and clears VALID.  Nothing stops the
hardware from latching the next PDU between two accesses, so a run is an interleaving of accesses
with blocks received.  **`faithful_iff_undisturbed`** says in which runs only whole PDUs are handed
over, each once: those where no PDU comes between the status and the last word of a hand-over.
-/

namespace TetraPhy.Daemon

open Rx BitField

/-! ## What is handed over -/

/-- What the dispatch makes of the registers: the arguments of `tetra_cmce_parse` and
`tetra_call_fsm_handle`, and the fields they were made with. -/
structure Handover where
  llcType : UInt32
  optFlag : Bool
  fragFlag : Bool
  cmceSsi : UInt32
  raws : List UInt32
deriving DecidableEq, Repr

namespace Handover

/-- The six words as they are read. -/
def ofWords (status status2 ssi raw0 raw1 raw2 : UInt32) : Handover where
  llcType := ulStatus2LlcType status2
  optFlag := ulStatusOptFlag status != 0
  fragFlag := ulStatusFragFlag status != 0
  cmceSsi := ssi &&& 0x00FFFFFF
  raws := [raw0, raw1, raw2 &&& 0x0FFFFFFF]

variable (h : Handover)

def llcHdrBits : ℕ :=
  if h.llcType &&& 0x3 = 0x0 then 6
  else if h.llcType &&& 0x3 = 0x1 then 5
  else if h.llcType &&& 0x3 = 0x3 then 4
  else 4

def cmceStart : ℕ := (if h.optFlag then 36 else 30) + h.llcHdrBits + 3

def cmceBits : ℕ := 92 - h.cmceStart

/-- The body for `tetra_cmce_parse`. -/
def body : List Bool :=
  (List.range h.cmceBits).map fun i ↦
    let n := h.cmceStart + i
    (h.raws.getD (n / 32) 0 >>> (n % 32).toUInt32) &&& 1 != 0

end Handover

/-- What should be handed over of a PDU. -/
def handoverOf (p : UlPdu) : Handover where
  llcType := .ofBitVec (p.llcPduType.setWidth 32)
  optFlag := p.optionalFieldFlag
  fragFlag := p.fragFlag
  cmceSsi := .ofBitVec (p.issi.setWidth 32)
  raws := [.ofBitVec (p.rawInfoBits.extractLsb' 0 32), .ofBitVec (p.rawInfoBits.extractLsb' 32 32),
    .ofBitVec ((p.rawInfoBits.extractLsb' 64 28).setWidth 32)]

/-- The words of one mailbox are those of its PDU; VALID may have been cleared meanwhile. -/
theorem ofWords_mailbox (m : UlPduMailbox) (s : Bool) :
    Handover.ofWords { m with validSticky := s }.status m.status2 m.ssi m.raw0 m.raw1 m.raw2 =
      handoverOf m.lat := by
  have hllc : ulStatus2LlcType m.status2 = .ofBitVec (m.lat.llcPduType.setWidth 32) := by
    refine UInt32.toNat_inj.1 ((UlPduMailbox.toNat_llcType m).trans ?_)
    have hlt : m.lat.llcPduType.toNat < 2 ^ 32 := Nat.lt_of_lt_of_le m.lat.llcPduType.isLt (by decide)
    rw [UInt32.toNat_ofBitVec, BitVec.toNat_setWidth, Nat.mod_eq_of_lt hlt]
  have hssi : m.ssi &&& 0x00FFFFFF = .ofBitVec (m.lat.issi.setWidth 32) :=
    UInt32.toBitVec_inj.1 (setWidth_and_mask m.lat.issi (by decide))
  have hraw2 : m.raw2 &&& 0x0FFFFFFF =
      .ofBitVec ((m.lat.rawInfoBits.extractLsb' 64 28).setWidth 32) :=
    UInt32.toBitVec_inj.1 (setWidth_and_mask (m.lat.rawInfoBits.extractLsb' 64 28) (by decide))
  rw [Handover.ofWords, handoverOf, hllc, hssi, hraw2,
    flag_ne_zero (UlPduMailbox.toNat_optFlag { m with validSticky := s }),
    flag_ne_zero (UlPduMailbox.toNat_fragFlag { m with validSticky := s })]
  rfl

/-- A bit of a word as the daemon reads it. -/
theorem bit_eq (x : UInt32) {k : ℕ} (hk : k < 32) :
    ((x >>> k.toUInt32) &&& 1 != 0) = x.toBitVec.getLsbD k := by
  refine flag_ne_zero ?_
  have hshift : k.toUInt32.toNat % 32 = k := by
    rw [Nat.toUInt32, UInt32.toNat_ofNat']
    omega
  rw [toNat_shr_and_mask x k.toUInt32 1 (k := 1) hshift rfl, BitVec.extractLsb'_toNat,
    BitVec.getLsbD, Nat.toNat_testBit, Nat.shiftRight_eq_div_pow, Nat.pow_one]

/-- The body of a PDU: its bits from the start of the CMCE SDU on. -/
theorem body_handoverOf (p : UlPdu) :
    (handoverOf p).body = (List.range (handoverOf p).cmceBits).map fun i ↦
      p.rawInfoBits.getLsbD ((handoverOf p).cmceStart + i) := by
  refine List.map_congr_left fun i hi ↦ ?_
  have hn : (handoverOf p).cmceStart + i < 92 := by
    have hi := List.mem_range.1 hi
    rw [Handover.cmceBits] at hi
    omega
  generalize (handoverOf p).cmceStart + i = n at hn ⊢
  have hword : ((handoverOf p).raws.getD (n / 32) 0).toBitVec.getLsbD (n % 32) =
      p.rawInfoBits.getLsbD n := by
    have hdiv := Nat.div_add_mod n 32
    have hmod := Nat.mod_lt n (show 32 > 0 by decide)
    rcases (show n / 32 = 0 ∨ n / 32 = 1 ∨ n / 32 = 2 by omega) with h | h | h <;>
      rw [h] at hdiv ⊢ <;> simp [handoverOf] <;> grind
  rw [← hword]
  exact bit_eq _ (Nat.mod_lt n (by decide))

/-! ## The main loop -/

/-- Where the daemon is: the access that comes next, and what was read for it. -/
inductive Pc
  | fragStatus
  | fragSsi
  | fragClear
  | status
  | status2 (status : UInt32)
  | ssi (status status2 : UInt32)
  | raw0 (status status2 ssi : UInt32)
  | raw1 (status status2 ssi raw0 : UInt32)
  | raw2 (status status2 ssi raw0 raw1 : UInt32)
deriving DecidableEq, Repr

/-- How many words of a hand-over are read. -/
def Pc.words : Pc → ℕ
  | .status2 _ => 1
  | .ssi .. => 2
  | .raw0 .. => 3
  | .raw1 .. => 4
  | .raw2 .. => 5
  | _ => 0

theorem Pc.words_eq_five {pc : Pc} (h : pc.words = 5) :
    ∃ st st2 si r0 r1, pc = .raw2 st st2 si r0 r1 := by
  cases pc with
  | raw2 st st2 si r0 r1 => exact ⟨st, st2, si, r0, r1, rfl⟩
  | _ => exact absurd h (by simp [words])

/-- The daemon.  The count that is seen first is always a new one. -/
structure Dispatch where
  pc : Pc := .fragStatus
  lastUlCount : UInt16 := 0xFFFF
deriving DecidableEq, Repr

/-- One access. -/
def Dispatch.step (d : Dispatch) (m : UlPduMailbox) : Dispatch × UlPduMailbox × Option Handover :=
  match d.pc with
  -- service_sds_frag_start
  | .fragStatus =>
      if ulStatusValid m.status != 0 && ulStatusPduType m.status == 0 &&
          ulStatusFragFlag m.status != 0 then ({ d with pc := .fragSsi }, m, none)
      else ({ d with pc := .status }, m, none)
  | .fragSsi => ({ d with pc := .fragClear }, m, none)
  | .fragClear => ({ d with pc := .status }, m.swClear, none)
  -- the dispatch
  | .status =>
      if (ulStatusPduCount m.status).toUInt16 != d.lastUlCount then
        ({ pc := .status2 m.status, lastUlCount := (ulStatusPduCount m.status).toUInt16 }, m, none)
      else ({ d with pc := .fragStatus }, m, none)
  | .status2 st =>
      if ulStatus2MleDisc m.status2 == 2 then ({ d with pc := .ssi st m.status2 }, m, none)
      else ({ d with pc := .fragStatus }, m, none)
  | .ssi st st2 => ({ d with pc := .raw0 st st2 m.ssi }, m, none)
  | .raw0 st st2 ssi => ({ d with pc := .raw1 st st2 ssi m.raw0 }, m, none)
  | .raw1 st st2 ssi r0 => ({ d with pc := .raw2 st st2 ssi r0 m.raw1 }, m, none)
  | .raw2 st st2 ssi r0 r1 =>
      ({ d with pc := .fragStatus }, m, some (.ofWords st st2 ssi r0 r1 m.raw2))

/-! ## Interleavings -/

/-- What happens next: a block is received, the daemon makes an access, or another program
clears VALID. -/
inductive BusEvent
  | block (info : BitVec 92)
  | access
  | clear

/-- A hand-over, and for each of its words which PDU was in the mailbox when it was read. -/
structure Handed where
  handover : Handover
  sources : List ℕ

/-- The uplink path up to the daemon, and what an observer has written down: the PDUs that were in
the mailbox, what was handed over, the sources of the words read for the next hand-over, and which
PDU was there at the last status. -/
structure Bus where
  parser : MacAccessParser := {}
  mailbox : UlPduMailbox := {}
  daemon : Dispatch := {}
  received : List UlPdu := [{}]
  handed : List Handed := []
  sources : List ℕ := []
  seen : ℕ := 0

namespace Bus

/-- The daemon starts, whatever the hardware has done before. -/
def init (parser : MacAccessParser) (mailbox : UlPduMailbox) : Bus where
  parser := parser
  mailbox := mailbox
  received := [mailbox.lat]

/-- The PDU in the mailbox, counted from the first one. -/
def now (s : Bus) : ℕ := s.received.length - 1

/-- A block with a right CRC is received. -/
def block (s : Bus) (info : BitVec 92) : Bus :=
  let parser := s.parser.clock { infoBits := info, infoValid := true, crcOk := true }
  if parser.pduValid then
    { s with
      parser := parser
      mailbox := s.mailbox.latch parser.ulPdu
      received := s.received ++ [parser.ulPdu] }
  else { s with parser := parser }

/-- The sources of the words that are kept, after an access. -/
def sourcesAfter (s : Bus) : Pc → List ℕ
  | .status2 _ | .ssi .. | .raw0 .. | .raw1 .. | .raw2 .. => s.sources ++ [s.now]
  | _ => []

/-- The daemon makes an access. -/
def access (s : Bus) : Bus :=
  let (daemon, mailbox, handover) := s.daemon.step s.mailbox
  { s with
    daemon := daemon
    mailbox := mailbox
    handed := s.handed ++ handover.toList.map (⟨·, s.sources ++ [s.now]⟩)
    sources := s.sourcesAfter daemon.pc
    seen := if s.daemon.pc = .status then s.now else s.seen }

def step (s : Bus) : BusEvent → Bus
  | .block info => s.block info
  | .access => s.access
  | .clear => { s with mailbox := s.mailbox.swClear }

/-- **Only whole PDUs are handed over, each once.** -/
structure Faithful (s : Bus) : Prop where
  whole : ∀ h ∈ s.handed, ∃ n p, s.received[n]? = some p ∧ h.sources = List.replicate 6 n ∧
    h.handover = handoverOf p
  once : (s.handed.map Handed.sources).Nodup

/-- The last word of a hand-over is not read when a PDU has come since its status was. -/
def Undisturbed (s : Bus) : BusEvent → Prop
  | .access => s.daemon.pc.words = 5 → s.seen = s.now
  | _ => True

end Bus

/-! ### The words read so far -/

namespace Pc

/-- They are the words of the mailbox, up to VALID. -/
def Current (m : UlPduMailbox) : Pc → Prop
  | status2 st => ∃ v, st = { m with validSticky := v }.status
  | ssi st st2 => (∃ v, st = { m with validSticky := v }.status) ∧ st2 = m.status2
  | raw0 st st2 si => (∃ v, st = { m with validSticky := v }.status) ∧ st2 = m.status2 ∧ si = m.ssi
  | raw1 st st2 si r0 => (∃ v, st = { m with validSticky := v }.status) ∧ st2 = m.status2 ∧
      si = m.ssi ∧ r0 = m.raw0
  | raw2 st st2 si r0 r1 => (∃ v, st = { m with validSticky := v }.status) ∧ st2 = m.status2 ∧
      si = m.ssi ∧ r0 = m.raw0 ∧ r1 = m.raw1
  | _ => True

theorem Current.swClear {m : UlPduMailbox} {pc : Pc} (h : pc.Current m) : pc.Current m.swClear := by
  cases pc <;> exact h

end Pc

namespace Bus

variable {s : Bus} {info : BitVec 92}

/-- The invariant of every interleaving. -/
structure Inv (s : Bus) : Prop where
  latched : s.received[s.now]? = some s.mailbox.lat
  seen_le : s.seen ≤ s.now
  /-- The last count is that of the last status. -/
  counted : (s.handed = [] ∧ s.daemon.pc.words = 0) ∨
    ∃ p, s.received[s.seen]? = some p ∧ p.pduCount.toNat = s.daemon.lastUlCount.toNat
  length_sources : s.sources.length = s.daemon.pc.words
  head_sources : s.daemon.pc.words ≠ 0 → s.sources.head? = some s.seen
  sources_le : ∀ k ∈ s.sources, s.seen ≤ k ∧ k ≤ s.now
  current : s.seen = s.now → s.daemon.pc.Current s.mailbox
  /-- What was handed over began with an earlier status. -/
  before : ∀ h ∈ s.handed, ∃ n, h.sources.head? = some n ∧ n ≤ s.seen ∧
    (s.daemon.pc.words ≠ 0 → n < s.seen)

theorem inv_init (parser : MacAccessParser) (mailbox : UlPduMailbox) : (init parser mailbox).Inv where
  latched := rfl
  seen_le := Nat.le_refl 0
  counted := .inl ⟨rfl, rfl⟩
  length_sources := rfl
  head_sources h := absurd rfl h
  sources_le _ h := absurd h List.not_mem_nil
  current _ := trivial
  before _ h := absurd h List.not_mem_nil

theorem Inv.length_received (h : s.Inv) : s.received.length = s.now + 1 := by
  obtain ⟨hlt, -⟩ := List.getElem?_eq_some_iff.1 h.latched
  have hnow : s.now = s.received.length - 1 := rfl
  omega

/-- The next PDU is latched. -/
theorem Inv.latch (h : s.Inv) (r : MacAccessParser) :
    Inv { s with
      parser := r
      mailbox := s.mailbox.latch r.ulPdu
      received := s.received ++ [r.ulPdu] } := by
  have hlen := h.length_received
  have hnow : (s.received ++ [r.ulPdu]).length - 1 = s.now + 1 := by
    rw [List.length_append, hlen]
    rfl
  refine ⟨?_, ?_, ?_, h.length_sources, h.head_sources, ?_, ?_, h.before⟩
  · rw [now, hnow, ← hlen]
    exact List.getElem?_concat_length
  · rw [now, hnow]
    exact Nat.le_succ_of_le h.seen_le
  · refine h.counted.imp_right ?_
    rintro ⟨p, hp, hcount⟩
    exact ⟨p, (List.getElem?_append_left (List.getElem?_eq_some_iff.1 hp).1).trans hp, hcount⟩
  · intro k hk
    obtain ⟨hle, hge⟩ := h.sources_le k hk
    rw [now, hnow]
    exact ⟨hle, Nat.le_succ_of_le hge⟩
  · intro hseen
    have hseen : s.seen = s.now + 1 := hseen.trans hnow
    exact absurd h.seen_le (by omega)

theorem Inv.block (h : s.Inv) (info : BitVec 92) : (s.block info).Inv := by
  rw [Bus.block]
  split_ifs with hvalid
  · exact h.latch _
  · exact ⟨h.latched, h.seen_le, h.counted, h.length_sources, h.head_sources, h.sources_le,
      h.current, h.before⟩

/-- Nothing is read for a hand-over, or what was read is dropped. -/
theorem Inv.idle (h : s.Inv) {pc : Pc} (hpc : pc.words = 0) (v : Bool) :
    Inv { s with
      daemon := { s.daemon with pc := pc }
      mailbox := { s.mailbox with validSticky := v }
      sources := [] } where
  latched := h.latched
  seen_le := h.seen_le
  counted := h.counted.imp_left fun hno ↦ ⟨hno.1, hpc⟩
  length_sources := hpc.symm
  head_sources hne := absurd hpc hne
  sources_le _ hk := absurd hk List.not_mem_nil
  current _ := by cases pc <;> trivial
  before x hx := by
    obtain ⟨n, hhead, hle, -⟩ := h.before x hx
    exact ⟨n, hhead, hle, fun hne ↦ absurd hpc hne⟩

/-- The next word of a hand-over is read. -/
theorem Inv.next (h : s.Inv) {pc : Pc} (hold : s.daemon.pc.words ≠ 0)
    (hpc : pc.words = s.daemon.pc.words + 1)
    (hcurrent : s.daemon.pc.Current s.mailbox → pc.Current s.mailbox) :
    Inv { s with
      daemon := { s.daemon with pc := pc }
      sources := s.sources ++ [s.now] } where
  latched := h.latched
  seen_le := h.seen_le
  counted := .inr (h.counted.resolve_left fun hno ↦ hold hno.2)
  length_sources := by rw [List.length_append, h.length_sources, List.length_singleton, hpc]
  head_sources _ := by rw [List.head?_append, h.head_sources hold, Option.some_or]
  sources_le k hk := by
    rcases List.mem_append.1 hk with hk | hk
    · exact h.sources_le k hk
    · rw [List.mem_singleton.1 hk]
      exact ⟨h.seen_le, Nat.le_refl _⟩
  current hseen := hcurrent (h.current hseen)
  before x hx := by
    obtain ⟨n, hhead, hle, hlt⟩ := h.before x hx
    exact ⟨n, hhead, hle, fun _ ↦ hlt hold⟩

theorem toNat_count (m : UlPduMailbox) :
    (ulStatusPduCount m.status).toUInt16.toNat = m.lat.pduCount.toNat := by
  rw [UInt32.toNat_toUInt16, UlPduMailbox.toNat_pduCount]
  exact Nat.mod_eq_of_lt m.lat.pduCount.isLt

/-- The status is read: its count is another one only if a PDU has come since the last status. -/
theorem Inv.status (h : s.Inv) (hpc : s.daemon.pc = .status) : s.access.Inv := by
  have hsources : s.sources = [] :=
    List.eq_nil_of_length_eq_zero (h.length_sources.trans (by rw [hpc]; rfl))
  by_cases hnew : ((ulStatusPduCount s.mailbox.status).toUInt16 != s.daemon.lastUlCount) = true
  · have hstep : s.access = { s with
        daemon := ⟨.status2 s.mailbox.status, (ulStatusPduCount s.mailbox.status).toUInt16⟩
        sources := [s.now]
        seen := s.now } := by
      simp only [Bus.access, Dispatch.step, hpc, hnew, sourcesAfter, hsources]
      simp
    rw [hstep]
    refine ⟨h.latched, Nat.le_refl _, ?_, rfl, fun _ ↦ rfl, ?_, fun _ ↦ ⟨_, rfl⟩, ?_⟩
    · exact .inr ⟨_, h.latched, (toNat_count s.mailbox).symm⟩
    · intro k hk
      rw [List.mem_singleton.1 hk]
      exact ⟨Nat.le_refl _, Nat.le_refl _⟩
    · intro x hx
      obtain ⟨n, hhead, hle, -⟩ := h.before x hx
      have hlt : s.seen < s.now := by
        refine Nat.lt_of_le_of_ne h.seen_le fun hseen ↦ ?_
        -- else it is the PDU of the last status
        rcases h.counted with ⟨hnone, -⟩ | ⟨p, hp, hcount⟩
        · exact absurd hx (by rw [hnone]; exact List.not_mem_nil)
        · rw [hseen, h.latched] at hp
          rw [← Option.some.inj hp, ← toNat_count] at hcount
          exact absurd (UInt16.toNat_inj.1 hcount) (by simpa using hnew)
      exact ⟨n, hhead, Nat.le_trans hle h.seen_le, fun _ ↦ Nat.lt_of_le_of_lt hle hlt⟩
  · have hsame : (ulStatusPduCount s.mailbox.status).toUInt16 = s.daemon.lastUlCount := by
      simpa using hnew
    have hstep : s.access = { s with
        daemon := { s.daemon with pc := .fragStatus }
        sources := []
        seen := s.now } := by
      simp only [Bus.access, Dispatch.step, hpc, hnew, sourcesAfter, hsources]
      simp
    rw [hstep]
    refine ⟨h.latched, Nat.le_refl _, ?_, rfl, fun hne ↦ absurd rfl hne,
      fun _ hk ↦ absurd hk List.not_mem_nil, fun _ ↦ trivial, ?_⟩
    · exact .inr ⟨_, h.latched, by rw [← hsame, toNat_count]⟩
    · intro x hx
      obtain ⟨n, hhead, hle, -⟩ := h.before x hx
      exact ⟨n, hhead, Nat.le_trans hle h.seen_le, fun hne ↦ absurd rfl hne⟩

/-- What the last word is added to. -/
theorem access_last {st st2 si r0 r1 : UInt32} (hpc : s.daemon.pc = .raw2 st st2 si r0 r1) :
    s.access = { s with
      daemon := { s.daemon with pc := .fragStatus }
      handed := s.handed ++ [⟨.ofWords st st2 si r0 r1 s.mailbox.raw2, s.sources ++ [s.now]⟩]
      sources := [] } := by
  simp [Bus.access, Dispatch.step, hpc, sourcesAfter]

/-- The last word is read. -/
theorem Inv.last (h : s.Inv) {st st2 si r0 r1 : UInt32}
    (hpc : s.daemon.pc = .raw2 st st2 si r0 r1) : s.access.Inv := by
  have hwords : s.daemon.pc.words ≠ 0 := by rw [hpc]; exact Nat.succ_ne_zero _
  rw [access_last hpc]
  refine ⟨h.latched, h.seen_le, ?_, rfl, fun hne ↦ absurd rfl hne,
    fun _ hk ↦ absurd hk List.not_mem_nil, fun _ ↦ trivial, ?_⟩
  · exact .inr (h.counted.resolve_left fun hno ↦ hwords hno.2)
  · intro x hx
    rcases List.mem_append.1 hx with hx | hx
    · obtain ⟨n, hhead, hle, -⟩ := h.before x hx
      exact ⟨n, hhead, hle, fun hne ↦ absurd rfl hne⟩
    · rw [List.mem_singleton.1 hx]
      refine ⟨s.seen, ?_, Nat.le_refl _, fun hne ↦ absurd rfl hne⟩
      rw [List.head?_append, h.head_sources hwords, Option.some_or]

/-- An access that hands nothing over. -/
theorem access_eq {d : Dispatch} {m : UlPduMailbox} (hpc : s.daemon.pc ≠ .status)
    (hstep : s.daemon.step s.mailbox = (d, m, none)) :
    s.access = { s with daemon := d, mailbox := m, sources := s.sourcesAfter d.pc } := by
  simp [Bus.access, hstep, hpc]

theorem Inv.access (h : s.Inv) : s.access.Inv := by
  cases hpc : s.daemon.pc with
  | fragStatus =>
      have hne : s.daemon.pc ≠ .status := by rw [hpc]; exact Pc.noConfusion
      by_cases hstart : (ulStatusValid s.mailbox.status != 0 &&
          ulStatusPduType s.mailbox.status == 0 && ulStatusFragFlag s.mailbox.status != 0) = true
      · rw [access_eq hne (by rw [Dispatch.step, hpc]; exact if_pos hstart)]
        exact h.idle rfl _
      · rw [access_eq hne (by rw [Dispatch.step, hpc]; exact if_neg hstart)]
        exact h.idle rfl _
  | fragSsi =>
      rw [access_eq (by rw [hpc]; exact Pc.noConfusion) (by rw [Dispatch.step, hpc])]
      exact h.idle rfl _
  | fragClear =>
      rw [access_eq (by rw [hpc]; exact Pc.noConfusion) (by rw [Dispatch.step, hpc])]
      exact h.idle rfl _
  | status => exact h.status hpc
  | status2 st =>
      have hne : s.daemon.pc ≠ .status := by rw [hpc]; exact Pc.noConfusion
      by_cases hcmce : (ulStatus2MleDisc s.mailbox.status2 == 2) = true
      · rw [access_eq hne (by rw [Dispatch.step, hpc]; exact if_pos hcmce)]
        refine h.next (by rw [hpc]; exact Nat.succ_ne_zero _) (by rw [hpc]; rfl) fun hc ↦ ?_
        rw [hpc] at hc
        exact ⟨hc, rfl⟩
      · rw [access_eq hne (by rw [Dispatch.step, hpc]; exact if_neg hcmce)]
        exact h.idle rfl _
  | ssi st st2 =>
      rw [access_eq (by rw [hpc]; exact Pc.noConfusion) (by rw [Dispatch.step, hpc])]
      refine h.next (by rw [hpc]; exact Nat.succ_ne_zero _) (by rw [hpc]; rfl) fun hc ↦ ?_
      rw [hpc] at hc
      exact ⟨hc.1, hc.2, rfl⟩
  | raw0 st st2 si =>
      rw [access_eq (by rw [hpc]; exact Pc.noConfusion) (by rw [Dispatch.step, hpc])]
      refine h.next (by rw [hpc]; exact Nat.succ_ne_zero _) (by rw [hpc]; rfl) fun hc ↦ ?_
      rw [hpc] at hc
      exact ⟨hc.1, hc.2.1, hc.2.2, rfl⟩
  | raw1 st st2 si r0 =>
      rw [access_eq (by rw [hpc]; exact Pc.noConfusion) (by rw [Dispatch.step, hpc])]
      refine h.next (by rw [hpc]; exact Nat.succ_ne_zero _) (by rw [hpc]; rfl) fun hc ↦ ?_
      rw [hpc] at hc
      exact ⟨hc.1, hc.2.1, hc.2.2.1, hc.2.2.2, rfl⟩
  | raw2 st st2 si r0 r1 => exact h.last hpc

theorem Inv.clear (h : s.Inv) : (s.step .clear).Inv :=
  ⟨h.latched, h.seen_le, h.counted, h.length_sources, h.head_sources, h.sources_le,
    fun hseen ↦ (h.current hseen).swClear, h.before⟩

theorem Inv.step (h : s.Inv) (e : BusEvent) : (s.step e).Inv := by
  cases e with
  | block info => exact h.block info
  | access => exact h.access
  | clear => exact h.clear

/-! ### Which hand-overs are whole -/

theorem faithful_init (parser : MacAccessParser) (mailbox : UlPduMailbox) :
    (init parser mailbox).Faithful :=
  ⟨fun _ h ↦ absurd h List.not_mem_nil, List.nodup_nil⟩

/-- Later PDUs change nothing about what was handed over. -/
theorem Faithful.of_handed {s' : Bus} (h : s.Faithful) (hhanded : s'.handed = s.handed)
    (hreceived : s.received <+: s'.received) : s'.Faithful := by
  refine ⟨fun x hx ↦ ?_, hhanded ▸ h.once⟩
  obtain ⟨n, p, hp, hsources, hover⟩ := h.whole x (hhanded ▸ hx)
  obtain ⟨rest, hrest⟩ := hreceived
  refine ⟨n, p, ?_, hsources, hover⟩
  rw [← hrest, List.getElem?_append_left (List.getElem?_eq_some_iff.1 hp).1, hp]

/-- **The last word makes a whole hand-over exactly if no PDU has come since the status.** -/
theorem Inv.faithful_last_iff (h : s.Inv) (hs : s.Faithful) {st st2 si r0 r1 : UInt32}
    (hpc : s.daemon.pc = .raw2 st st2 si r0 r1) : s.access.Faithful ↔ s.seen = s.now := by
  have hwords : s.daemon.pc.words = 5 := by rw [hpc]; rfl
  have hhead := h.head_sources (by rw [hwords]; decide)
  have hlen : (s.sources ++ [s.now]).length = 6 := by
    rw [List.length_append, h.length_sources, hwords]
    rfl
  rw [access_last hpc]
  constructor
  · intro hf
    obtain ⟨n, p, -, hsources, -⟩ := hf.whole _ (List.mem_append_right _ (List.mem_singleton_self _))
    have hmem : ∀ k ∈ s.sources ++ [s.now], k = n := by
      intro k hk
      rw [show s.sources ++ [s.now] = List.replicate 6 n from hsources] at hk
      exact List.eq_of_mem_replicate hk
    rw [hmem s.seen (List.mem_append_left _ (List.mem_of_head? hhead)),
      hmem s.now (List.mem_append_right _ (List.mem_singleton_self _))]
  · intro hseen
    have hall : s.sources ++ [s.now] = List.replicate 6 s.now := by
      refine List.eq_replicate_iff.2 ⟨hlen, fun k hk ↦ ?_⟩
      rcases List.mem_append.1 hk with hk | hk
      · obtain ⟨hle, hge⟩ := h.sources_le k hk
        exact Nat.le_antisymm hge (hseen ▸ hle)
      · exact List.mem_singleton.1 hk
    have hcurrent := h.current hseen
    rw [hpc] at hcurrent
    obtain ⟨⟨v, rfl⟩, rfl, rfl, rfl, rfl⟩ := hcurrent
    refine ⟨fun x hx ↦ ?_, ?_⟩
    · rcases List.mem_append.1 hx with hx | hx
      · exact hs.whole x hx
      · rw [List.mem_singleton.1 hx]
        exact ⟨s.now, s.mailbox.lat, h.latched, hall, ofWords_mailbox s.mailbox v⟩
    · rw [List.map_append, List.map_singleton, List.nodup_append]
      refine ⟨hs.once, List.nodup_cons.2 ⟨List.not_mem_nil, List.nodup_nil⟩, fun src hsrc src' hsrc' heq ↦ ?_⟩
      obtain ⟨x, hx, rfl⟩ := List.mem_map.1 hsrc
      -- an earlier hand-over began with an earlier status
      obtain ⟨n, hn, -, hlt⟩ := h.before x hx
      have hnow : (s.sources ++ [s.now]).head? = some s.seen := by
        rw [List.head?_append, hhead, Option.some_or]
      rw [heq, List.mem_singleton.1 hsrc', hnow] at hn
      have hlt := hlt (by rw [hwords]; decide)
      exact absurd (Option.some.inj hn) (Nat.ne_of_gt hlt)

/-- Every other access hands nothing over. -/
theorem handed_access (h : ∀ st st2 si r0 r1, s.daemon.pc ≠ .raw2 st st2 si r0 r1) :
    s.access.handed = s.handed := by
  have hnone : (s.daemon.step s.mailbox).2.2 = none := by
    rw [Dispatch.step]
    split
    case h_9 st st2 si r0 r1 hpc => exact absurd hpc (h st st2 si r0 r1)
    all_goals first | rfl | (split_ifs <;> rfl)
  simp [Bus.access, hnone]

theorem received_block (s : Bus) (info : BitVec 92) : s.received <+: (s.block info).received := by
  rw [Bus.block]
  split_ifs
  · exact List.prefix_append _ _
  · exact List.prefix_refl _

theorem handed_block (s : Bus) (info : BitVec 92) : (s.block info).handed = s.handed := by
  rw [Bus.block]
  split_ifs <;> rfl

theorem Inv.faithful_step_iff (h : s.Inv) (e : BusEvent) (hs : s.Faithful) :
    (s.step e).Faithful ↔ s.Undisturbed e := by
  cases e with
  | block info =>
      exact iff_of_true (hs.of_handed (handed_block s info) (received_block s info)) trivial
  | clear => exact iff_of_true (hs.of_handed rfl (List.prefix_refl _)) trivial
  | access =>
      by_cases hlast : s.daemon.pc.words = 5
      · obtain ⟨st, st2, si, r0, r1, hpc⟩ := Pc.words_eq_five hlast
        exact (h.faithful_last_iff hs hpc).trans ⟨fun hc _ ↦ hc, fun hc ↦ hc hlast⟩
      · refine iff_of_true (hs.of_handed (handed_access ?_) (List.prefix_refl _)) fun hc ↦
          absurd hc hlast
        intro st st2 si r0 r1 hpc
        exact hlast (by rw [hpc]; rfl)

/-- **Which runs hand over only whole PDUs, each once**: those in which no PDU comes between the
status and the last word of a hand-over. -/
theorem faithful_iff_undisturbed (parser : MacAccessParser) (mailbox : UlPduMailbox)
    (es : List BusEvent) :
    Run.Throughout step Faithful (init parser mailbox) es ↔
      Run.Along step Undisturbed (init parser mailbox) es :=
  Run.throughout_iff_along step (fun _ e h ↦ h.step e) (fun _ e h hs ↦ h.faithful_step_iff e hs)
    (inv_init parser mailbox) (faithful_init parser mailbox) es

/-- A CMCE SDU in a BL-DATA, from the terminal 1. -/
def firstCmce : BitVec 92 := 1#92 <<< 28 ||| 1#92 <<< 33 ||| 1#92 <<< 36

/-- Another one, from the terminal 2. -/
def secondCmce : BitVec 92 := 1#92 <<< 27 ||| 1#92 <<< 33 ||| 1#92 <<< 36 ||| 1#92 <<< 40

/-- The second one comes when the SSI of the first has been read. -/
def overtaken : List BusEvent :=
  .block firstCmce :: List.replicate 4 .access ++ .block secondCmce :: List.replicate 10 .access

/-- The words of the second one are handed over twice, first under the SSI of the other. -/
theorem overtaken_not_faithful :
    ((Run.exec step (init {} {}) overtaken).handed.map fun h ↦
        (h.handover.cmceSsi, h.handover.raws)) =
      [(1, [0x8000000, 0x112, 0]), (2, [0x8000000, 0x112, 0])] ∧
    ¬ Run.Throughout step Faithful (init {} {}) overtaken := by
  refine ⟨by decide +kernel, fun h ↦ ?_⟩
  have hsources : (Run.exec step (init {} {}) overtaken).handed.map Handed.sources =
      [[1, 1, 1, 2, 2, 2], [2, 2, 2, 2, 2, 2]] := by decide +kernel
  have hmem : [1, 1, 1, 2, 2, 2] ∈
      (Run.exec step (init {} {}) overtaken).handed.map Handed.sources := by
    rw [hsources]
    exact List.mem_cons_self
  obtain ⟨x, hx, hxs⟩ := List.mem_map.1 hmem
  obtain ⟨n, p, -, hn, -⟩ := h.last.whole x hx
  have hall : ∀ k ∈ [1, 1, 1, 2, 2, 2], k = n := by
    rw [← hxs, hn]
    exact fun k ↦ List.eq_of_mem_replicate
  exact absurd ((hall 1 (by decide)).trans (hall 2 (by decide)).symm) (by decide)

end Bus

end TetraPhy.Daemon
