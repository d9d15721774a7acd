import TetraPhy.Lib.BitField
import TetraPhy.Lib.Run
import TetraPhy.Rx.DemandReassembly
import TetraPhy.Rx.UplinkParser

/-!
# From the parser to the reassembled body

The glue of `tetra_zynq_top.v` between the block parser and the demand reassembly: both are clocked
together, so the reassembly sees a block one cycle after the parser.

The observer of an `RxPath` keeps the block of the start in each slot and the terminal that sent
the last END.  A start names its terminal, an END does not: the parser tags it with the SSI of
the last fragmented start, of whatever terminal.

**`paths_joined_iff`** says in which runs the two halves of every body are one terminal's;
`paths_crossed` is a run of two overlapping handshakes in which they are not.
-/

namespace TetraPhy.Rx

open MacAccessParser Pool

/-- What arrives in a clock cycle: a decoded block and who sent it, the frame tick, and the
timeout register. -/
structure RxInput where
  port : ParserPorts := {}
  sender : BitVec 24 := 0#24
  frameTick : Bool := false
  t0Frames : BitVec 4 := 0#4
deriving DecidableEq, Repr

/-- `frag1_pulse_w`, `frag1_bits_w`, `frag1_meta_w` and the continuation, as they are wired. -/
def reassPorts (r : MacAccessParser) (x : RxInput) : ReassPorts :=
  { t0Frames := x.t0Frames
    frameTick := x.frameTick
    frag1Pulse := r.pduValid && r.ulFragFlag && r.ulAddrType != 1#2
    frag1Ssi := r.ulIssi
    frag1Bits := field r.rawInfoBits 30 62
    frag1Meta := r.ulLlcMmPduType ++ r.ulMleDisc ++ r.ulLlcPduType ++ BitVec.ofBool r.ulLlcNs ++
      BitVec.ofBool r.optionalFieldFlag
    endHuPulse := r.ulContinuationValid
    endHuSsi := r.ulContinuationSsi
    endHuBits := r.ulContinuationBits }

/-- The two modules and the observer. -/
structure RxPath where
  parser : MacAccessParser := {}
  reass : DemandReassembly := {}
  held : Fin 2 → BitVec 92 := fun _ ↦ 0#92
  endSender : BitVec 24 := 0#24

namespace RxPath

/-- One edge of `clk_sys`. -/
def step (s : RxPath) (x : RxInput) : RxPath :=
  let p := reassPorts s.parser x
  { parser := s.parser.clock x.port
    reass := s.reass.clock p
    held := if p.frag1Pulse then
        match s.reass.target p.frag1Ssi with
        | some i => Function.update s.held i s.parser.rawInfoBits
        | none => s.held
      else s.held
    endSender := if x.port.infoValid && x.port.crcOk && fPduType x.port.infoBits then x.sender
      else s.endSender }

/-- The slot the END in the parser will empty. -/
def source (s : RxPath) : Option (Fin 2) :=
  if s.parser.ulContinuationValid then s.reass.matching s.parser.ulContinuationSsi else none

/-- A body that leaves the reassembly consists of the last two blocks of one terminal: of the
start in the slot it came from, and of the END just parsed. -/
def Joined (s : RxPath) (x : RxInput) : Prop :=
  (s.step x).reass.reassembledValid = true → ∃ i, s.source = some i ∧
    (s.step x).reass.reassembledBody =
      field (s.held i) 30 62 ++ field s.parser.rawInfoBits 7 85 ∧
    (s.step x).reass.reassembledSsi = fIssi (s.held i) ∧ fIssi (s.held i) = s.endSender

/-- If the terminal remembered by the parser has a start in the store, it is the one that sent
the END. -/
def Fits (s : RxPath) (_ : RxInput) : Prop :=
  s.source ≠ none → s.endSender = s.parser.ulContinuationSsi

instance decidableFits (s : RxPath) (x : RxInput) : Decidable (s.Fits x) :=
  inferInstanceAs (Decidable (s.source ≠ none → _))

/-- The parser's registers are those of its last block, the slots hold what the observer says. -/
structure Inv (s : RxPath) : Prop where
  start : s.parser.pduValid = true → s.parser.ulIssi = fIssi s.parser.rawInfoBits
  bits : s.parser.ulContinuationValid = true →
    s.parser.ulContinuationBits = field s.parser.rawInfoBits 7 85
  slot : ∀ i, (s.reass.s i).occ = true →
    (s.reass.s i).ssi = fIssi (s.held i) ∧ (s.reass.s i).frag1 = field (s.held i) 30 62

theorem inv_init : Inv {} :=
  ⟨fun h ↦ absurd h Bool.false_ne_true, fun h ↦ absurd h Bool.false_ne_true,
    fun _ h ↦ absurd h Bool.false_ne_true⟩

theorem held_step (s : RxPath) (x : RxInput) (i : Fin 2) :
    (s.step x).held i =
      if (reassPorts s.parser x).frag1Pulse = true ∧
          s.reass.target (reassPorts s.parser x).frag1Ssi = some i then s.parser.rawInfoBits
      else s.held i := by
  by_cases hp : (reassPorts s.parser x).frag1Pulse = true
  · simp only [step, hp, if_true, true_and]
    cases s.reass.target (reassPorts s.parser x).frag1Ssi with
    | none => rw [if_neg (Option.some_ne_none i).symm]
    | some k =>
        by_cases hk : k = i
        · subst hk
          simp
        · simp [Function.update_of_ne (Ne.symm hk), hk]
  · simp only [step, hp]
    rfl

theorem Inv.step {s : RxPath} (h : Inv s) (x : RxInput) : Inv (s.step x) := by
  refine ⟨?_, ?_, fun i ↦ ?_⟩
  · change (s.parser.clock x.port).pduValid = true →
      (s.parser.clock x.port).ulIssi = fIssi (s.parser.clock x.port).rawInfoBits
    unfold MacAccessParser.clock parse
    split
    · dsimp only
      split
      · exact fun hv ↦ absurd hv Bool.false_ne_true
      · exact fun _ ↦ rfl
    · exact fun hv ↦ absurd hv Bool.false_ne_true
  · change (s.parser.clock x.port).ulContinuationValid = true →
      (s.parser.clock x.port).ulContinuationBits =
        field (s.parser.clock x.port).rawInfoBits 7 85
    unfold MacAccessParser.clock parse
    split
    · dsimp only
      split
      · exact fun _ ↦ rfl
      · exact fun hv ↦ absurd hv Bool.false_ne_true
    · exact fun hv ↦ absurd hv Bool.false_ne_true
  · intro hocc
    have hslot := s.reass.clock_slot (reassPorts s.parser x) i
    rw [held_step]
    by_cases hstored : (reassPorts s.parser x).frag1Pulse = true ∧
        s.reass.target (reassPorts s.parser x).frag1Ssi = some i
    · rw [if_pos hstored] at hslot ⊢
      have hvalid : s.parser.pduValid = true :=
        (Bool.and_eq_true_iff.1 (Bool.and_eq_true_iff.1 hstored.1).1).1
      exact ⟨hslot.1.trans (h.start hvalid), hslot.2.1⟩
    · rw [if_neg hstored] at hslot ⊢
      obtain ⟨hssi, hfrag⟩ := h.slot i (hslot.occ hocc)
      exact ⟨hslot.ssi.trans hssi, hslot.frag1.trans hfrag⟩

/-- In every state: what leaves is one terminal's exactly if the END fits. -/
theorem joined_iff {s : RxPath} (h : Inv s) (x : RxInput) : s.Joined x ↔ s.Fits x := by
  cases hsource : s.source with
  | none =>
      have hnone : (reassPorts s.parser x).endHuPulse = true →
          s.reass.matching (reassPorts s.parser x).endHuSsi = none := by
        intro he
        have hvalid : s.parser.ulContinuationValid = true := he
        rw [source, if_pos hvalid] at hsource
        exact hsource
      have hout := DemandReassembly.no_output hnone
      exact ⟨fun _ hne ↦ absurd hsource hne,
        fun _ hv ↦ absurd (hout.symm.trans hv) Bool.false_ne_true⟩
  | some i =>
      have hvalid : s.parser.ulContinuationValid = true := by
        by_contra hne
        rw [source, if_neg hne] at hsource
        cases hsource
      have hmatch : s.reass.matching s.parser.ulContinuationSsi = some i := by
        rw [source, if_pos hvalid] at hsource
        exact hsource
      obtain ⟨hout, hbody, hssi, -⟩ :=
        DemandReassembly.output_of_matching (p := reassPorts s.parser x) hvalid hmatch
      obtain ⟨hheld, hfrag⟩ := h.slot i (DemandReassembly.occ_of_matching hmatch)
      have htag : (s.reass.s i).ssi = s.parser.ulContinuationSsi :=
        DemandReassembly.ssi_of_matching hmatch
      constructor
      · intro hjoined _
        obtain ⟨j, hj, -, -, hsender⟩ := hjoined hout
        obtain rfl : i = j := Option.some.inj (hsource.symm.trans hj)
        exact hsender.symm.trans (hheld.symm.trans htag)
      · intro hfits _
        have hsender := hfits (by rw [hsource]; exact Option.some_ne_none i)
        refine ⟨i, hsource, ?_, hssi.trans hheld, hheld.symm.trans (htag.trans hsender.symm)⟩
        rw [← hfrag, ← h.bits hvalid]
        exact hbody

end RxPath

open RxPath

/-- **The halves of every body are of one terminal exactly along the runs in which no END meets a
pending start of another one under the SSI the parser remembers.** -/
theorem paths_joined_iff (xs : List RxInput) :
    Run.Along RxPath.step Joined {} xs ↔ Run.Along RxPath.step Fits {} xs :=
  Run.along_congr (I := Inv) RxPath.step (fun _ x h ↦ h.step x) (fun _ x h ↦ joined_iff h x)
    inv_init xs

/-- A fragmented MAC-ACCESS: optional field, capacity request, fragmented; the first bit on air is
bit 0. -/
def startBlock (issi : BitVec 24) : BitVec 92 :=
  BitField.place 92 5 issi.reverse ||| BitField.place 92 29 7#3

/-- A MAC-END-HU. -/
def endBlock : BitVec 92 := 1#92

/-- A parsed block. -/
def received (info : BitVec 92) (sender : BitVec 24) : RxInput :=
  { port := ⟨info, true, true⟩, sender := sender }

/-- Two terminals start, the first one ends: its END is joined to the other one's start. -/
theorem paths_crossed :
    ¬ Run.Along RxPath.step Joined {}
      [received (startBlock 0x111111#24) 0x111111#24, received (startBlock 0x222222#24) 0x222222#24,
        received endBlock 0x111111#24, {}] := by
  rw [paths_joined_iff]
  decide +kernel

end TetraPhy.Rx
