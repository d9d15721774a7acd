import TetraPhy.Rx.LongPacking

/-!
# The read-out of a long SDS

`service_long_sds_rx` polls the chain counter; when it has changed, it reads length, terminal and
words through the index, one register access after the other.  The acknowledgement of the module
is tied off, so that nothing keeps the next chain away from the words and the latches while they
are read.

**`readouts_whole`** says along which runs every body that is read is one completed chain all the
same; `readout_torn` is a run whose body is not.
-/

namespace TetraPhy.Rx

open WordPack

/-! ## The software -/

/-- What `service_long_sds_rx` reads next. -/
inductive ReadPhase where
  | cnt
  | lenOpt (cnt : BitVec 16)
  | ssi (cnt : BitVec 16) (lenOpt : BitVec 32)
  | word (cnt : BitVec 16) (lenOpt : BitVec 32) (ssi : BitVec 24) (words : List (BitVec 32))
deriving DecidableEq, Repr

/-- The variables of the service, and where it is. -/
structure LongReader where
  gLsdsLastCnt : BitVec 16 := 0#16
  gLsdsCntInit : Bool := false
  phase : ReadPhase := .cnt
deriving DecidableEq, Repr

/-- What was read. -/
structure Readout where
  cnt : BitVec 16
  nbits : ℕ
  opt : Bool
  ssi : BitVec 24
  body : List Bool
deriving DecidableEq, Repr

/-- `lenopt & 0xFFFF`. -/
def nbits (lenOpt : BitVec 32) : ℕ := (lenOpt.setWidth 16).toNat

/-- `nwords`. -/
def nwords (lenOpt : BitVec 32) : ℕ := (nbits lenOpt + 31) / 32

/-- `body`: bit `k` is bit `k % 32` from the top of word `k / 32`. -/
def lsdsBody (words : List (BitVec 32)) (n : ℕ) : List Bool :=
  (List.range n).map fun k ↦ (words.getD (k / 32) 0#32).getMsbD (k % 32)

theorem lsdsBody_eq {words : List (BitVec 32)} {bits : List Bool}
    (h : ∀ k < bits.length, (words.getD (k / 32) 0#32).getMsbD (k % 32) = bits.getD k false) :
    lsdsBody words bits.length = bits := by
  refine List.ext_getElem ?_ fun k _ hk ↦ ?_
  · rw [lsdsBody, List.length_map, List.length_range]
  · simp only [lsdsBody, List.getElem_map, List.getElem_range]
    rw [h k hk, List.getD_eq_getElem _ _ hk]

namespace ReadPhase

/-- The index of the next access. -/
def index : ReadPhase → BitVec 9
  | .cnt => nWords + 3#9
  | .lenOpt _ => nWords + 2#9
  | .ssi _ _ => nWords + 1#9
  | .word _ _ _ words => BitVec.ofNat 9 words.length

/-- The count is read, and the latches are not yet. -/
def header : ReadPhase → Bool
  | .lenOpt _ | .ssi _ _ => true
  | _ => false

/-- The word that is read next. -/
def next : ReadPhase → Option ℕ
  | .word _ _ _ words => some words.length
  | _ => none

end ReadPhase

/-- `service_long_sds_rx`, from one access to the next. -/
def LongReader.take (r : LongReader) (data : BitVec 32) : LongReader × Option Readout :=
  match r.phase with
  | .cnt =>
    let cnt := data.setWidth 16
    if !r.gLsdsCntInit then ({ r with gLsdsCntInit := true, gLsdsLastCnt := cnt }, none)
    else if cnt == r.gLsdsLastCnt then (r, none)
    else ({ r with gLsdsLastCnt := cnt, phase := .lenOpt cnt }, none)
  | .lenOpt cnt =>
    if nbits data = 0 ∨ 8192 < nbits data then ({ r with phase := .cnt }, none)
    else ({ r with phase := .ssi cnt data }, none)
  | .ssi cnt lenOpt => ({ r with phase := .word cnt lenOpt (data.setWidth 24) [] }, none)
  | .word cnt lenOpt ssi words =>
    let words := words ++ [data]
    if words.length < nwords lenOpt then ({ r with phase := .word cnt lenOpt ssi words }, none)
    else
      ({ r with phase := .cnt },
        some ⟨cnt, nbits lenOpt, lenOpt.getLsbD 16, ssi, lsdsBody words (nbits lenOpt)⟩)

/-! ## The system -/

/-- A chain that was completed. -/
structure LongChain where
  ssi : BitVec 24 := 0#24
  opt : Bool := false
  bits : List Bool := []
deriving DecidableEq, Repr

/-- The module and the software, with every chain that was completed and every body that was read.
`dirty` are the words written since the last chain was completed, `stale` those written since the
chain was completed that is being read, which is `chains[number]`. -/
structure LongSystem where
  watch : LongWatch
  reader : LongReader := {}
  chains : List LongChain := []
  readouts : List Readout := []
  dirty : List ℕ := []
  stale : List ℕ := []
  number : ℕ := 0

/-- An edge of `clk_sys`, or one at which an access of the software ends. -/
inductive LongEvent where
  | edge (p : LongPorts)
  | read (p : LongPorts)

namespace LongSystem

/-- The ports as they are wired. -/
def wired (p : LongPorts) : LongPorts := { p with t0Frames := 4#4, ackPulse := false }

/-- The word that is stored. -/
def written (r : LongReassembly) : List ℕ := if r.wordWe then [r.wordWptr.toNat] else []

/-- One edge. -/
def advance (s : LongSystem) (p : LongPorts) : LongSystem :=
  let r := s.watch.core
  { s with
    watch := s.watch.step (wired p)
    chains :=
      if r.state = .emit then s.chains ++ [⟨r.curSsi, r.curOpt, s.watch.bits⟩] else s.chains
    dirty := if r.state = .emit then [] else written r ++ s.dirty
    stale := written r ++ s.stale }

/-- The software has its data. -/
def receive (s : LongSystem) : LongSystem :=
  let t := s.reader.take s.watch.core.rdata
  { s with
    reader := t.1
    readouts := s.readouts ++ t.2.toList
    stale := if s.reader.phase = .cnt then s.dirty else s.stale
    number := if s.reader.phase = .cnt then s.chains.length - 1 else s.number }

def step (s : LongSystem) : LongEvent → LongSystem
  | .edge p => s.advance p
  | .read p => (s.advance { p with index := s.reader.phase.index }).receive

/-- Out of reset, whatever the memory holds. -/
def reset (wordMem : BitVec 8 → BitVec 32) (wordRdQ : BitVec 32) (rdIndexQ : BitVec 9) :
    LongSystem where
  watch := { core := { wordMem, wordRdQ, rdIndexQ } }

/-- A body that is one completed chain. -/
def Whole (chains : List LongChain) (o : Readout) : Prop :=
  ∃ k c, chains[k]? = some c ∧ o.cnt = BitVec.ofNat 16 (k + 1) ∧ o.ssi = c.ssi ∧ o.opt = c.opt ∧
    o.nbits = c.bits.length ∧ o.body = c.bits

/-- Every body that was read is one completed chain. -/
def AllWhole (s : LongSystem) : Prop := ∀ o ∈ s.readouts, Whole s.chains o

/-- No chain is completed between the count and the latches, and the word that is read was not
written since its chain was completed. -/
def Undisturbed (s : LongSystem) (e : LongEvent) : Prop :=
  ¬(s.watch.core.state = .emit ∧ s.reader.phase.header = true) ∧
    match e with
    | .edge _ => True
    | .read _ => ∀ i ∈ s.reader.phase.next, i ∉ s.stale

instance decidableUndisturbed (s : LongSystem) : ∀ e, Decidable (s.Undisturbed e)
  | .edge _ => inferInstanceAs
      (Decidable (¬(s.watch.core.state = .emit ∧ s.reader.phase.header = true) ∧ True))
  | .read _ => inferInstanceAs
      (Decidable (¬(s.watch.core.state = .emit ∧ s.reader.phase.header = true) ∧
        ∀ i ∈ s.reader.phase.next, i ∉ s.stale))

/-! ## One edge -/

/-- The latches are those of the chain. -/
structure Latched (r : LongReassembly) (c : LongChain) : Prop where
  ssi : r.doneSsi = c.ssi
  opt : r.doneOpt = c.opt
  len : r.doneLen.toNat = c.bits.length

/-- The words that were not written again are those of the chain. -/
def Kept (r : LongReassembly) (again : List ℕ) (c : LongChain) : Prop :=
  ∀ k < c.bits.length, k / 32 ∉ again →
    (r.words (k / 32)).getMsbD (k % 32) = c.bits.getD k false

variable {r : LongReassembly} {p : LongPorts} {c : LongChain} {again : List ℕ}

theorem Kept.clock (h : Kept r again c) : Kept (r.clock p) (written r ++ again) c := by
  intro k hk hnot
  rw [List.mem_append, not_or] at hnot
  rw [r.words_clock p]
  cases hwe : r.wordWe with
  | false => exact h k hk hnot.2
  | true =>
      have hne : k / 32 ≠ r.wordWptr.toNat := by
        intro heq
        refine hnot.1 ?_
        rw [written, hwe, if_pos rfl, heq]
        exact List.mem_singleton_self _
      rw [if_pos rfl, Function.update_of_ne hne]
      exact h k hk hnot.2

theorem Latched.clock (h : Latched r c) (hs : r.state ≠ .emit) : Latched (r.clock p) c := by
  have hdone := (r.clock_done p).2
  rw [if_neg hs] at hdone
  exact ⟨(congrArg DoneRegs.doneSsi hdone).trans h.ssi,
    (congrArg DoneRegs.doneOpt hdone).trans h.opt,
    (congrArg (DoneRegs.doneLen · |>.toNat) hdone).trans h.len⟩

/-- The index is registered. -/
theorem rdIndexQ_clock : (r.clock p).rdIndexQ = p.index :=
  congrArg WordMem.rdIndexQ (r.clock_mem p)

theorem rdata_cnt (hp : p.index = nWords + 3#9) :
    (r.clock p).rdata = 0#16 ++ (r.clock p).reassCnt := by
  rw [LongReassembly.rdata, rdIndexQ_clock, hp]
  rfl

theorem rdata_lenOpt (hp : p.index = nWords + 2#9) : (r.clock p).rdata =
    0#15 ++ BitVec.ofBool (r.clock p).doneOpt ++ (0#2 ++ (r.clock p).doneLen) := by
  rw [LongReassembly.rdata, rdIndexQ_clock, hp]
  rfl

theorem rdata_ssi (hp : p.index = nWords + 1#9) :
    (r.clock p).rdata = 0#8 ++ (r.clock p).doneSsi := by
  rw [LongReassembly.rdata, rdIndexQ_clock, hp]
  rfl

theorem rdata_word {i : ℕ} (hi : i < 256) (hp : p.index = BitVec.ofNat 9 i) :
    (r.clock p).rdata = r.words i := by
  have hlt : BitVec.ofNat 9 i < nWords := by
    rw [BitVec.lt_def, BitVec.toNat_ofNat, Nat.mod_eq_of_lt (Nat.lt_trans hi (by decide))]
    exact hi
  have hq : (r.clock p).wordRdQ = r.wordMem (p.index.setWidth 8) :=
    congrArg WordMem.wordRdQ (r.clock_mem p)
  have hidx : (BitVec.ofNat 9 i).setWidth 8 = BitVec.ofNat 8 i := by
    rw [BitVec.setWidth_ofNat_of_le (by decide)]
  rw [LongReassembly.rdata, rdIndexQ_clock, hp, if_pos hlt, hq, hp, hidx, LongReassembly.words,
    if_pos hi]

theorem nbits_lenOpt (opt : Bool) (len : BitVec 14) :
    nbits (0#15 ++ BitVec.ofBool opt ++ (0#2 ++ len)) = len.toNat := by
  rw [nbits, BitVec.setWidth_append_eq_right, BitVec.toNat_append, BitVec.toNat_ofNat]
  simp

theorem opt_lenOpt (opt : Bool) (len : BitVec 14) :
    (0#15 ++ BitVec.ofBool opt ++ (0#2 ++ len)).getLsbD 16 = opt := by
  rw [BitVec.getLsbD_append, BitVec.getLsbD_append]
  cases opt <;> rfl

/-! ## The invariant -/

/-- The chain that is read. -/
def target (s : LongSystem) : LongChain := s.chains.getD s.number {}

/-- The chain that is read was completed, and was counted as `cnt`. -/
structure Taken (s : LongSystem) (cnt : BitVec 16) : Prop where
  number : s.number < s.chains.length
  cnt : cnt = BitVec.ofNat 16 (s.number + 1)
  kept : Kept s.watch.core s.stale s.target

/-- The length and the flag are those of the chain. -/
structure Announced (lenOpt : BitVec 32) (c : LongChain) : Prop where
  pos : 0 < nbits lenOpt
  nbits : nbits lenOpt = c.bits.length
  opt : lenOpt.getLsbD 16 = c.opt

/-- The words that were read are those of the chain. -/
structure Reading (lenOpt : BitVec 32) (ssi : BitVec 24) (words : List (BitVec 32))
    (c : LongChain) : Prop where
  ssi : ssi = c.ssi
  short : words.length < nwords lenOpt
  words : ∀ k < c.bits.length, k / 32 < words.length →
    (words.getD (k / 32) 0#32).getMsbD (k % 32) = c.bits.getD k false

/-- What the software has, phase by phase. -/
def Has (s : LongSystem) : Prop :=
  match s.reader.phase with
  | .cnt => True
  | .lenOpt cnt => s.Taken cnt ∧ Latched s.watch.core s.target
  | .ssi cnt lenOpt => s.Taken cnt ∧ Latched s.watch.core s.target ∧ Announced lenOpt s.target
  | .word cnt lenOpt ssi words =>
    s.Taken cnt ∧ Announced lenOpt s.target ∧ Reading lenOpt ssi words s.target

/-- The invariant of the read-out. -/
structure Inv (s : LongSystem) : Prop where
  watch : s.watch.Inv
  count : s.watch.core.reassCnt = BitVec.ofNat 16 s.chains.length
  latched : ∀ c ∈ s.chains.getLast?, Latched s.watch.core c ∧ Kept s.watch.core s.dirty c
  fits : ∀ c ∈ s.chains, c.bits.length ≤ 8191
  fresh : s.chains = [] → s.reader.gLsdsLastCnt = 0#16
  has : s.Has
  whole : s.AllWhole

variable {s : LongSystem}

theorem advance_chains (s : LongSystem) (p : LongPorts) : s.chains <+: (s.advance p).chains := by
  rw [advance]
  dsimp only
  split_ifs
  · exact List.prefix_append _ _
  · exact List.prefix_rfl

theorem target_advance (h : s.number < s.chains.length) (p : LongPorts) :
    (s.advance p).target = s.target := by
  obtain ⟨more, hmore⟩ := s.advance_chains p
  change (s.advance p).chains.getD s.number {} = _
  rw [← hmore, List.getD_append _ _ _ _ h]
  rfl

theorem target_mem (h : s.number < s.chains.length) : s.target ∈ s.chains := by
  rw [target, List.getD_eq_getElem _ _ h]
  exact List.getElem_mem h

theorem Taken.advance {cnt : BitVec 16} (h : s.Taken cnt) (p : LongPorts) :
    (s.advance p).Taken cnt where
  number := Nat.lt_of_lt_of_le h.number (s.advance_chains p).length_le
  cnt := h.cnt
  kept := by
    rw [target_advance h.number]
    exact h.kept.clock

theorem Whole.mono {chains chains' : List LongChain} {o : Readout} (h : Whole chains o)
    (hpre : chains <+: chains') : Whole chains' o := by
  obtain ⟨k, c, hc, ho⟩ := h
  refine ⟨k, c, ?_, ho⟩
  obtain ⟨more, rfl⟩ := hpre
  rw [List.getElem?_append_left (List.getElem?_eq_some_iff.1 hc).1, hc]

/-- A chain that is completed is latched, and all of its words are stored. -/
theorem latched_emit (h : s.watch.Inv) (hs : s.watch.core.state = .emit) (p : LongPorts) :
    Latched (s.watch.core.clock p) ⟨s.watch.core.curSsi, s.watch.core.curOpt, s.watch.bits⟩ ∧
      Kept (s.watch.core.clock p) [] ⟨s.watch.core.curSsi, s.watch.core.curOpt, s.watch.bits⟩ := by
  have hpub := h.published hs p
  refine ⟨⟨hpub.doneSsi, hpub.doneOpt, hpub.doneLen⟩, fun k hk _ ↦ hpub.words k ?_⟩
  have hlen : k < s.watch.bits.length := hk
  omega

/-- What the software has stays. -/
theorem Has.advance (h : s.Has)
    (hquiet : ¬(s.watch.core.state = .emit ∧ s.reader.phase.header = true)) (p : LongPorts) :
    (s.advance p).Has := by
  have hheader : s.reader.phase.header = true → s.watch.core.state ≠ .emit :=
    fun hheader hs ↦ hquiet ⟨hs, hheader⟩
  have hphase : (s.advance p).reader.phase = s.reader.phase := rfl
  rw [Has] at h ⊢
  rw [hphase]
  cases hph : s.reader.phase with
  | cnt => trivial
  | lenOpt cnt =>
      rw [hph] at h hheader
      obtain ⟨htaken, hlatched⟩ := h
      refine ⟨htaken.advance p, ?_⟩
      rw [target_advance htaken.number]
      exact hlatched.clock (hheader rfl)
  | ssi cnt lenOpt =>
      rw [hph] at h hheader
      obtain ⟨htaken, hlatched, hann⟩ := h
      refine ⟨htaken.advance p, ?_⟩
      rw [target_advance htaken.number]
      exact ⟨hlatched.clock (hheader rfl), hann⟩
  | word cnt lenOpt ssi words =>
      rw [hph] at h
      obtain ⟨htaken, hread⟩ := h
      refine ⟨htaken.advance p, ?_⟩
      rw [target_advance htaken.number]
      exact hread

/-- **An edge between two accesses.** -/
theorem Inv.advance (h : s.Inv)
    (hquiet : ¬(s.watch.core.state = .emit ∧ s.reader.phase.header = true)) (p : LongPorts) :
    (s.advance p).Inv := by
  have hdone := (s.watch.core.clock_done (wired p)).2
  refine ⟨h.watch.step _, ?_, ?_, ?_, ?_, h.has.advance hquiet p,
    fun o ho ↦ (h.whole o ho).mono (s.advance_chains p)⟩
  · change (s.watch.core.clock (wired p)).reassCnt = BitVec.ofNat 16 (List.length (ite _ _ _))
    by_cases hs : s.watch.core.state = .emit
    · rw [if_pos hs] at hdone
      rw [if_pos hs, List.length_append, List.length_singleton, BitVec.ofNat_add, ← h.count]
      exact congrArg DoneRegs.reassCnt hdone
    · rw [if_neg hs] at hdone
      rw [if_neg hs, ← h.count]
      exact congrArg DoneRegs.reassCnt hdone
  · rw [LongSystem.advance]
    dsimp only
    intro c hc
    by_cases hs : s.watch.core.state = .emit
    · rw [if_pos hs, List.getLast?_concat, Option.mem_some_iff] at hc
      rw [if_pos hs, ← hc]
      exact latched_emit h.watch hs (wired p)
    · rw [if_neg hs] at hc
      rw [if_neg hs]
      exact ⟨(h.latched c hc).1.clock hs, (h.latched c hc).2.clock⟩
  · rw [LongSystem.advance]
    dsimp only
    intro c hc
    by_cases hs : s.watch.core.state = .emit
    · rw [if_pos hs] at hc
      obtain hc | hc := List.mem_append.1 hc
      · exact h.fits c hc
      · rw [List.mem_singleton.1 hc]
        exact h.watch.writing.fits
    · rw [if_neg hs] at hc
      exact h.fits c hc
  · intro hnil
    exact h.fresh (List.prefix_nil.1 (hnil ▸ s.advance_chains p))

/-! ## One access -/

/-- The software is shown what it asked for. -/
def Shown (s : LongSystem) : Prop :=
  match s.reader.phase with
  | .cnt => s.watch.core.rdata = 0#16 ++ s.watch.core.reassCnt
  | .lenOpt _ => s.watch.core.rdata =
      0#15 ++ BitVec.ofBool s.watch.core.doneOpt ++ (0#2 ++ s.watch.core.doneLen)
  | .ssi _ _ => s.watch.core.rdata = 0#8 ++ s.watch.core.doneSsi
  | .word _ _ _ words => ∀ k < s.target.bits.length, k / 32 = words.length →
      s.watch.core.rdata.getMsbD (k % 32) = s.target.bits.getD k false

theorem Inv.shown (h : s.Inv) (p : LongPorts) (hread : s.Undisturbed (.read p)) :
    (s.advance { p with index := s.reader.phase.index }).Shown := by
  obtain ⟨-, hnext⟩ := hread
  have hhas := h.has
  have hphase : (s.advance { p with index := s.reader.phase.index }).reader.phase =
      s.reader.phase := rfl
  rw [Has] at hhas
  rw [Shown, hphase]
  cases hph : s.reader.phase with
  | cnt => exact rdata_cnt rfl
  | lenOpt cnt => exact rdata_lenOpt rfl
  | ssi cnt lenOpt => exact rdata_ssi rfl
  | word cnt lenOpt ssi words =>
      rw [hph] at hhas hnext
      obtain ⟨htaken, hann, hwords⟩ := hhas
      have hfits := h.fits s.target (target_mem htaken.number)
      have hlt : words.length < 256 := by
        have := hwords.short
        rw [nwords, hann.nbits] at this
        omega
      dsimp only
      rw [target_advance htaken.number]
      intro k hk hword
      change ((s.watch.core.clock _).rdata).getMsbD _ = _
      rw [rdata_word hlt rfl, ← hword]
      exact htaken.kept k hk (hword ▸ hnext words.length rfl)

/-- The system with a software that has gone on. -/
def handled (s : LongSystem) (r : LongReader) (stale : List ℕ) (number : ℕ) (o : Option Readout) :
    LongSystem :=
  { s with reader := r, stale, number, readouts := s.readouts ++ o.toList }

theorem Inv.received (h : s.Inv) {r : LongReader} {o : Option Readout} {stale : List ℕ}
    {number : ℕ} (htake : s.reader.take s.watch.core.rdata = (r, o))
    (hstale : stale = if s.reader.phase = .cnt then s.dirty else s.stale)
    (hnumber : number = if s.reader.phase = .cnt then s.chains.length - 1 else s.number)
    (hfresh : s.chains = [] → r.gLsdsLastCnt = 0#16) (hhas : (s.handled r stale number o).Has)
    (hwhole : ∀ x ∈ o, Whole s.chains x) : s.receive.Inv := by
  have hrec : s.receive = s.handled r stale number o := by
    rw [receive, htake, hstale, hnumber]
    rfl
  rw [hrec]
  refine ⟨h.watch, h.count, h.latched, h.fits, hfresh, hhas, fun x hx ↦ ?_⟩
  obtain hx | hx := List.mem_append.1 hx
  · exact h.whole x hx
  · exact hwhole x (Option.mem_toList.1 hx)

theorem has_cnt (hph : s.reader.phase = .cnt) : s.Has := by
  rw [Has, hph]
  trivial

/-- The count is read. -/
theorem Inv.receive_cnt (h : s.Inv) (hshown : s.Shown) (hph : s.reader.phase = .cnt) :
    s.receive.Inv := by
  have hif : ∀ {α : Type} (a b : α), a = if s.reader.phase = .cnt then a else b :=
    fun _ _ ↦ (if_pos hph).symm
  have hnone : ∀ x ∈ (none : Option Readout), Whole s.chains x := fun x hx ↦ absurd hx (by simp)
  rw [Shown, hph] at hshown
  have hcnt : s.watch.core.rdata.setWidth 16 = s.watch.core.reassCnt := by
    rw [hshown]
    exact BitVec.setWidth_append_eq_right
  have hzero : s.chains = [] → s.watch.core.reassCnt = 0#16 := by
    intro hnil
    rw [h.count, hnil]
    rfl
  have htake : s.reader.take s.watch.core.rdata =
      if !s.reader.gLsdsCntInit then (⟨s.watch.core.reassCnt, true, .cnt⟩, none)
      else if s.watch.core.reassCnt == s.reader.gLsdsLastCnt then (s.reader, none)
      else (⟨s.watch.core.reassCnt, s.reader.gLsdsCntInit, .lenOpt s.watch.core.reassCnt⟩,
        none) := by
    rw [LongReader.take, hph, ← hcnt]
  cases hinit : s.reader.gLsdsCntInit with
  | false =>
      rw [hinit] at htake
      exact h.received htake (hif _ _) (hif _ _) hzero (has_cnt rfl) hnone
  | true =>
      rw [hinit] at htake
      cases hsame : s.watch.core.reassCnt == s.reader.gLsdsLastCnt with
      | true =>
          rw [hsame] at htake
          exact h.received htake (hif _ _) (hif _ _) h.fresh (has_cnt hph) hnone
      | false =>
          rw [hsame] at htake
          have hne : s.chains ≠ [] := by
            intro hnil
            refine ne_of_beq_false hsame ?_
            rw [hzero hnil, h.fresh hnil]
          have hpos : 0 < s.chains.length := List.length_pos_of_ne_nil hne
          have hlast : s.chains.getD (s.chains.length - 1) {} ∈ s.chains.getLast? := by
            rw [List.getLast?_eq_getElem?, List.getD_eq_getElem _ _ (by omega)]
            exact List.getElem?_eq_getElem (by omega)
          obtain ⟨hlatched, hkept⟩ := h.latched _ hlast
          refine h.received htake (hif _ _) (hif _ _) hzero ⟨⟨?_, ?_, hkept⟩, hlatched⟩ hnone
          · exact Nat.sub_lt hpos Nat.one_pos
          · change s.watch.core.reassCnt = BitVec.ofNat 16 (s.chains.length - 1 + 1)
            rw [h.count, Nat.sub_add_cancel hpos]

/-- The length is read. -/
theorem Inv.receive_lenOpt (h : s.Inv) (hshown : s.Shown) {cnt : BitVec 16}
    (hph : s.reader.phase = .lenOpt cnt) : s.receive.Inv := by
  have hif : ∀ {α : Type} (a b : α), b = if s.reader.phase = .cnt then a else b :=
    fun _ _ ↦ (if_neg (by simp [hph])).symm
  have hnone : ∀ x ∈ (none : Option Readout), Whole s.chains x := fun x hx ↦ absurd hx (by simp)
  have hhas := h.has
  rw [Has, hph] at hhas
  obtain ⟨htaken, hlatched⟩ := hhas
  rw [Shown, hph] at hshown
  have htake : s.reader.take s.watch.core.rdata =
      if nbits s.watch.core.rdata = 0 ∨ 8192 < nbits s.watch.core.rdata then
        ({ s.reader with phase := .cnt }, none)
      else ({ s.reader with phase := .ssi cnt s.watch.core.rdata }, none) := by
    rw [LongReader.take, hph]
  by_cases hbogus : nbits s.watch.core.rdata = 0 ∨ 8192 < nbits s.watch.core.rdata
  · rw [if_pos hbogus] at htake
    exact h.received htake (hif _ _) (hif _ _) h.fresh (has_cnt rfl) hnone
  · rw [if_neg hbogus] at htake
    refine h.received htake (hif _ _) (hif _ _) h.fresh
      ⟨⟨htaken.number, htaken.cnt, htaken.kept⟩, hlatched, ?_, ?_, ?_⟩ hnone
    · exact Nat.pos_of_ne_zero fun h0 ↦ hbogus (.inl h0)
    · rw [hshown, nbits_lenOpt]
      exact hlatched.len
    · rw [hshown, opt_lenOpt]
      exact hlatched.opt

/-- The terminal is read. -/
theorem Inv.receive_ssi (h : s.Inv) (hshown : s.Shown) {cnt : BitVec 16} {lenOpt : BitVec 32}
    (hph : s.reader.phase = .ssi cnt lenOpt) : s.receive.Inv := by
  have hif : ∀ {α : Type} (a b : α), b = if s.reader.phase = .cnt then a else b :=
    fun _ _ ↦ (if_neg (by simp [hph])).symm
  have hnone : ∀ x ∈ (none : Option Readout), Whole s.chains x := fun x hx ↦ absurd hx (by simp)
  have hhas := h.has
  rw [Has, hph] at hhas
  obtain ⟨htaken, hlatched, hann⟩ := hhas
  rw [Shown, hph] at hshown
  have htake : s.reader.take s.watch.core.rdata =
      ({ s.reader with phase := .word cnt lenOpt (s.watch.core.rdata.setWidth 24) [] }, none) := by
    rw [LongReader.take, hph]
  refine h.received htake (hif _ _) (hif _ _) h.fresh
    ⟨⟨htaken.number, htaken.cnt, htaken.kept⟩, hann, ?_, ?_, ?_⟩ hnone
  · rw [hshown]
    exact BitVec.setWidth_append_eq_right.trans hlatched.ssi
  · have hpos := hann.pos
    rw [List.length_nil, nwords]
    omega
  · exact fun k _ hk ↦ absurd hk (Nat.not_lt_zero _)

/-- A word is read, maybe the last. -/
theorem Inv.receive_word (h : s.Inv) (hshown : s.Shown) {cnt : BitVec 16} {lenOpt : BitVec 32}
    {ssi : BitVec 24} {words : List (BitVec 32)} (hph : s.reader.phase = .word cnt lenOpt ssi words) :
    s.receive.Inv := by
  have hif : ∀ {α : Type} (a b : α), b = if s.reader.phase = .cnt then a else b :=
    fun _ _ ↦ (if_neg (by simp [hph])).symm
  have hnone : ∀ x ∈ (none : Option Readout), Whole s.chains x := fun x hx ↦ absurd hx (by simp)
  have hhas := h.has
  rw [Has, hph] at hhas
  obtain ⟨htaken, hann, hread⟩ := hhas
  rw [Shown, hph] at hshown
  have hwords : ∀ k < s.target.bits.length, k / 32 < (words ++ [s.watch.core.rdata]).length →
      ((words ++ [s.watch.core.rdata]).getD (k / 32) 0#32).getMsbD (k % 32) =
        s.target.bits.getD k false := by
    intro k hk hlt
    rw [List.length_append, List.length_singleton] at hlt
    obtain hlt | heq := Nat.lt_succ_iff_lt_or_eq.1 hlt
    · rw [List.getD_append _ _ _ _ hlt]
      exact hread.words k hk hlt
    · rw [heq, List.getD_append_right _ _ _ _ (Nat.le_refl _), Nat.sub_self]
      exact hshown k hk heq
  have htake : s.reader.take s.watch.core.rdata =
      if (words ++ [s.watch.core.rdata]).length < nwords lenOpt then
        ({ s.reader with phase := .word cnt lenOpt ssi (words ++ [s.watch.core.rdata]) }, none)
      else ({ s.reader with phase := .cnt }, some ⟨cnt, nbits lenOpt, lenOpt.getLsbD 16, ssi,
        lsdsBody (words ++ [s.watch.core.rdata]) (nbits lenOpt)⟩) := by
    rw [LongReader.take, hph]
  by_cases hmore : (words ++ [s.watch.core.rdata]).length < nwords lenOpt
  · rw [if_pos hmore] at htake
    exact h.received htake (hif _ _) (hif _ _) h.fresh
      ⟨⟨htaken.number, htaken.cnt, htaken.kept⟩, hann, hread.ssi, hmore, hwords⟩ hnone
  · rw [if_neg hmore] at htake
    refine h.received htake (hif _ _) (hif _ _) h.fresh (has_cnt rfl) fun x hx ↦ ?_
    rw [← Option.mem_some_iff.1 hx]
    refine ⟨s.number, s.target, ?_, htaken.cnt, hread.ssi, hann.opt, hann.nbits, ?_⟩
    · rw [target, List.getD_eq_getElem _ _ htaken.number]
      exact List.getElem?_eq_getElem htaken.number
    · rw [hann.nbits]
      refine lsdsBody_eq fun k hk ↦ hwords k hk ?_
      rw [nwords, hann.nbits] at hmore
      omega

/-- **An access.** -/
theorem Inv.receive (h : s.Inv) (hshown : s.Shown) : s.receive.Inv := by
  cases hph : s.reader.phase with
  | cnt => exact h.receive_cnt hshown hph
  | lenOpt cnt => exact h.receive_lenOpt hshown hph
  | ssi cnt lenOpt => exact h.receive_ssi hshown hph
  | word cnt lenOpt ssi words => exact h.receive_word hshown hph

theorem Inv.step (h : s.Inv) {e : LongEvent} (hun : s.Undisturbed e) : (s.step e).Inv := by
  cases e with
  | edge p => exact h.advance hun.1 p
  | read p => exact (h.advance hun.1 _).receive (h.shown p hun)

theorem inv_reset (wordMem : BitVec 8 → BitVec 32) (wordRdQ : BitVec 32) (rdIndexQ : BitVec 9) :
    (reset wordMem wordRdQ rdIndexQ).Inv where
  watch := LongWatch.inv_reset wordMem wordRdQ rdIndexQ
  count := rfl
  latched _ h := absurd h (by simp [reset])
  fits _ h := absurd h List.not_mem_nil
  fresh _ := rfl
  has := trivial
  whole _ h := absurd h List.not_mem_nil

/-- **Along every undisturbed run, every body that is read is one completed chain.** -/
theorem readouts_whole (wordMem : BitVec 8 → BitVec 32) (wordRdQ : BitVec 32)
    (rdIndexQ : BitVec 9) {es : List LongEvent}
    (h : Run.Along step Undisturbed (reset wordMem wordRdQ rdIndexQ) es) :
    Run.Throughout step AllWhole (reset wordMem wordRdQ rdIndexQ) es :=
  (h.throughout step (P := Inv) (fun _ _ hs he ↦ hs.step he)
    (inv_reset wordMem wordRdQ rdIndexQ)).imp step fun _ h ↦ h.whole

/-! ## Two runs -/

/-- The edges at which a first fragment comes in. -/
def startEdges (bits : BitVec 62) : List LongEvent :=
  .edge { frag1Pulse := true, frag1Bits := bits } ::
    List.replicate 62 (.edge { frag1Bits := bits })

/-- The edges at which a MAC-END comes in. -/
def endEdges (b : BitVec 268) : List LongEvent :=
  .edge { schfValid := true, schfCrcOk := true, schfInfo := b } ::
    List.replicate 265 (.edge { schfInfo := b })

/-- The software polls, a chain is completed, and the software reads it. -/
def quietRun : List LongEvent :=
  .read {} :: startEdges 5#62 ++ endEdges 6#268 ++ List.replicate 13 (.read {})

theorem readouts_whole_quietRun :
    Run.Throughout step AllWhole (reset (fun _ ↦ 0#32) 0#32 0#9) quietRun :=
  readouts_whole (fun _ ↦ 0#32) 0#32 0#9 (by decide +kernel)

/-- Another first fragment comes in before the words are read. -/
def tornRun : List LongEvent :=
  .read {} :: startEdges 5#62 ++ endEdges 6#268 ++ [.read {}] ++ startEdges (5#62 <<< 40) ++
    List.replicate 12 (.read {})

/-- The body that is read has the first word of the other chain. -/
theorem readout_torn :
    ¬Run.Throughout step AllWhole (reset (fun _ ↦ 0#32) 0#32 0#9) tornRun := by
  intro h
  have htorn : ∃ o ∈ (Run.exec step (reset (fun _ ↦ 0#32) 0#32 0#9) tornRun).readouts,
      ∀ c ∈ (Run.exec step (reset (fun _ ↦ 0#32) 0#32 0#9) tornRun).chains, o.body ≠ c.bits := by
    decide +kernel
  obtain ⟨o, ho, hne⟩ := htorn
  obtain ⟨k, c, hc, -, -, -, -, hbody⟩ := h.last step o ho
  exact hne c (List.mem_of_getElem? hc) hbody

end LongSystem

end TetraPhy.Rx
