import TetraPhy.Lmac.MacResDlBuilder
import TetraPhy.Rx.UplinkParser
import TetraPhy.Sw.UlMacParse

/-!
# The order of the sequence numbers

The LLC header of a BL-ADATA, as the downlink builder sends it and as the two uplink parsers
read it:

| bit | `tetra_mac_resource_dl_builder.v` | `tetra_ul_mac_access_parser.v` | `tetra_ul_mac_parse.c` |
|---|---|---|---|
| 0 .. 3 | PDU type | PDU type | PDU type |
| 4 | N(R) | N(S) | N(S) |
| 5 | N(S) | N(R) | |

**`read_sequenceNumbers_iff`**: a header of the builder is read back exactly if the two numbers
are the same.
-/

namespace TetraPhy.Rx

open AirOrder Lmac Sw MacAccessParser

/-- A decoded block as the software has it, first bit on air first. -/
def blockBits (info : BitVec 92) : List Bool := (List.range 92).map info.getLsbD

theorem bitAt_blockBits (info : BitVec 92) (k : ℕ) : bitAt (blockBits info) k = info.getLsbD k := by
  rw [bitAt, blockBits]
  rcases Nat.lt_or_ge k 92 with hk | hk
  · rw [List.getD_eq_getElem _ _ (by simpa using hk), List.getElem_map, List.getElem_range]
  · rw [List.getD_eq_default _ _ (by simpa using hk), BitVec.getLsbD_of_ge _ _ hk]

/-- The six bits behind the MAC header of an emitted block. -/
def llcHeader {n m : ℕ} (i : MacResIn) (r : MacResDlBuilder n m) : List Bool :=
  ((onAir r.pduBits).drop i.macHdrBits).take 6

/-- The TL-SDU of an uplink block begins with the given bits. -/
def BeginsWith (info : BitVec 92) (bits : List Bool) : Prop :=
  ∀ k < bits.length, info.getLsbD (tlSduStart info + k) = bits.getD k false

instance (info : BitVec 92) (bits : List Bool) : Decidable (BeginsWith info bits) :=
  inferInstanceAs (Decidable (∀ k < bits.length, _))

/-- **The header the builder emits**: `N(R)` before `N(S)`. -/
theorem llcHeader_eq {r : MacResDlBuilder 268 144} (hs : r.state = .idle) {i : MacResIn}
    {ca : Option ChanAlloc} (h : i.Supported 268 144 ca) (hadata : i.llcPduType = 0)
    {es : List (Bool × MacResIn)} (hes : es.length = 5) :
    llcHeader i (Run.exec MacResDlBuilder.clock r ((true, i) :: es)) =
      [false, false, false, false, i.nr, i.ns] := by
  obtain ⟨htotal, -, -⟩ := MacResIn.total_le h
  have hpdu := (MacResDlBuilder.exec_start hs i hes).1
  have hhead : (i.headBits ca).length = i.macHdrBits :=
    (MacResIn.laidOut_header h.carries (Nat.le_refl _)).length
  have hllc : ∃ rest, i.llcBits = [false, false, false, false, i.nr, i.ns] ++ rest := by
    rw [MacResIn.llcBits, hadata]
    exact ⟨_, rfl⟩
  obtain ⟨rest, hrest⟩ := hllc
  rw [llcHeader, hpdu, MacResIn.onAir_pdu h (by decide) (by omega), List.append_assoc, ← hhead,
    List.drop_left, hrest, List.append_assoc]
  rfl

section Parsers

variable {info : BitVec 92} {nr ns : Bool}

/-- What the fields are at the beginning of a TL-SDU. -/
theorem BeginsWith.bits (h : BeginsWith info [false, false, false, false, nr, ns]) :
    info.getLsbD (tlSduStart info) = false ∧ info.getLsbD (tlSduStart info + 1) = false ∧
      info.getLsbD (tlSduStart info + 2) = false ∧ info.getLsbD (tlSduStart info + 3) = false ∧
      info.getLsbD (tlSduStart info + 4) = nr ∧ info.getLsbD (tlSduStart info + 5) = ns :=
  have hlt : ∀ k : Fin 6, k.val < [false, false, false, false, nr, ns].length := fun k ↦ k.isLt
  ⟨h 0 (hlt 0), h 1 (hlt 1), h 2 (hlt 2), h 3 (hlt 3), h 4 (hlt 4), h 5 (hlt 5)⟩

theorem getLsbD_field (info : BitVec 92) (start : ℕ) {n k : ℕ} (hk : k < n) :
    (field info start n).getLsbD k = info.getLsbD (start + (n - 1 - k)) := by
  have hlt : n - 1 - k < n := by omega
  rw [field, BitVec.getLsbD_reverse, BitVec.getMsbD_eq_getLsbD, decide_eq_true hk, Bool.true_and,
    BitVec.getLsbD_extractLsb', decide_eq_true hlt, Bool.true_and]

/-- The hardware takes the block for a BL-ADATA. -/
theorem fIsBlAdata_of (h : BeginsWith info [false, false, false, false, nr, ns]) :
    fIsBlAdata info = true := by
  obtain ⟨h0, -, h2, h3, -, -⟩ := h.bits
  have htype : fLlcBlPduType info = 0#2 := by
    refine BitVec.eq_of_getLsbD_eq fun k hk ↦ ?_
    rw [fLlcBlPduType, getLsbD_field info _ hk]
    obtain rfl | rfl : k = 0 ∨ k = 1 := by omega
    · exact h3
    · exact h2
  rw [fIsBlAdata, fLlcLinkType, h0, htype]
  rfl

/-- **The hardware reads the numbers the other way round.** -/
theorem parse_sequenceNumbers (p : MacAccessParser) (hacc : fPduType info = false)
    (h : BeginsWith info [false, false, false, false, nr, ns]) :
    (p.parse info).ulLlcNrValid = true ∧ (p.parse info).ulLlcNsValid = true ∧
      (p.parse info).ulLlcNr = ns ∧ (p.parse info).ulLlcNs = nr := by
  have hadata := fIsBlAdata_of h
  obtain ⟨-, -, -, -, h4, h5⟩ := h.bits
  have hparse : p.parse info = access { p.idle with
      pduType := fPduType info
      ulPduIsContinuation := fPduType info
      rawInfoBits := info } info := by
    rw [parse, hacc]
    rfl
  rw [hparse]
  refine ⟨?_, ?_, ?_, h4⟩
  · change (fIsBlAdata info || _) = true
    rw [hadata, Bool.true_or]
  · change (fIsBlAdata info || _) = true
    rw [hadata, Bool.true_or]
  · change fNrBit info = ns
    rw [fNrBit, hadata]
    exact h5

/-- **And so does the software**, which reads `N(S)` only. -/
theorem nsBit_ulMacAccessParse (h : BeginsWith info [false, false, false, false, nr, ns]) :
    (ulMacAccessParse (blockBits info)).nsBit = nr := by
  obtain ⟨-, -, -, -, h4, -⟩ := h.bits
  have hstart : (ulMacAccessParse (blockBits info)).tlSduStart = tlSduStart info := by
    change (if bitAt (blockBits info) 29 then 36 else 30) = if info.getLsbD 29 then 36 else 30
    rw [bitAt_blockBits]
  change bitAt (blockBits info) ((ulMacAccessParse (blockBits info)).tlSduStart + 4) = nr
  rw [bitAt_blockBits, hstart]
  exact h4

end Parsers

/-- **A sequence number comes back exactly if the other one is the same.**  The header is that of
any BL-ADATA of the builder, the uplink block any MAC-ACCESS whose TL-SDU begins with it. -/
theorem read_sequenceNumbers_iff {r : MacResDlBuilder 268 144} (hs : r.state = .idle)
    {i : MacResIn} {ca : Option ChanAlloc} (h : i.Supported 268 144 ca) (hadata : i.llcPduType = 0)
    {es : List (Bool × MacResIn)} (hes : es.length = 5) {info : BitVec 92}
    (hacc : fPduType info = false)
    (hfed : BeginsWith info (llcHeader i (Run.exec MacResDlBuilder.clock r ((true, i) :: es))))
    (p : MacAccessParser) :
    let q := p.clock ⟨info, true, true⟩
    q.ulLlcNrValid = true ∧ q.ulLlcNsValid = true ∧ (q.ulLlcNr = i.nr ↔ i.nr = i.ns) ∧
      (q.ulLlcNs = i.ns ↔ i.nr = i.ns) ∧
      ((ulMacAccessParse (blockBits info)).nsBit = i.ns ↔ i.nr = i.ns) := by
  rw [llcHeader_eq hs h hadata hes] at hfed
  obtain ⟨hnrv, hnsv, hnr, hns⟩ := parse_sequenceNumbers p hacc hfed
  intro q
  refine ⟨hnrv, hnsv, ?_, ?_, ?_⟩
  · rw [show q.ulLlcNr = i.ns from hnr]
    exact eq_comm
  · rw [show q.ulLlcNs = i.nr from hns]
  · rw [nsBit_ulMacAccessParse hfed]

/-- A BL-ADATA of the builder. -/
def adataIn (nr ns : Bool) : MacResIn where
  ssi := 2633716
  nr := nr
  ns := ns
  mmPduLenBits := 16

theorem supported_adataIn (nr ns : Bool) : (adataIn nr ns).Supported 268 144 none where
  addrType := .inl rfl
  sized := .full (.inl rfl)
  len := (by decide : 16 ≤ 128)
  carries := ⟨rfl, nofun, nofun, nofun, (by decide : 0 < 32)⟩

/-- The inputs at rest behind a start. -/
def restIn : List (Bool × MacResIn) := List.replicate 5 (false, {})

/-- Two numbers that are the same are read back. -/
theorem read_sequenceNumbers_same :
    (MacAccessParser.clock {} ⟨0b110000 <<< 30, true, true⟩).ulLlcNr = true := by
  have hfed : BeginsWith (0b110000 <<< 30) (llcHeader (adataIn true true)
      (Run.exec MacResDlBuilder.clock ({} : MacResDlBuilder 268 144)
        ((true, adataIn true true) :: restIn))) := by
    rw [llcHeader_eq rfl (supported_adataIn true true) rfl rfl]
    decide
  obtain ⟨-, -, hnr, -⟩ :=
    read_sequenceNumbers_iff rfl (supported_adataIn true true) rfl rfl rfl hfed {}
  exact hnr.2 rfl

/-- A header with `N(R) = 1` and `N(S) = 0` is read with `N(R) = 0` and `N(S) = 1`. -/
theorem sequenceNumbers_swapped :
    BeginsWith (0b010000 <<< 30) (llcHeader (adataIn true false)
      (Run.exec MacResDlBuilder.clock ({} : MacResDlBuilder 268 144)
        ((true, adataIn true false) :: restIn))) ∧
      (MacAccessParser.clock {} ⟨0b010000 <<< 30, true, true⟩).ulLlcNr = false ∧
      (MacAccessParser.clock {} ⟨0b010000 <<< 30, true, true⟩).ulLlcNs = true ∧
      (ulMacAccessParse (blockBits (0b010000 <<< 30))).nsBit = true := by
  refine ⟨?_, by decide, by decide, by decide⟩
  rw [llcHeader_eq rfl (supported_adataIn true false) rfl rfl]
  decide

end TetraPhy.Rx
