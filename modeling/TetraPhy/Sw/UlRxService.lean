import Mathlib.Algebra.Ring.Nat
import TetraPhy.Codec.Sch
import TetraPhy.Sw.UlMacParse
import TetraPhy.Sw.UlReassembly
import TetraPhy.Sw.UlRxMailbox

/-!
# The uplink receive service

`tetra_ul_rx_service.c`: one burst of the uplink mailbox is unpacked, decoded, classified and
given to the store its PDU belongs to.

| Channel | Block                       | Effect                                              |
|---------|-----------------------------|-----------------------------------------------------|
| SCH/HU  | MAC-END-HU                  | ends the demand of the SSI remembered for the slot  |
| SCH/HU  | MAC-ACCESS, fragmented      | the slot's SSI is remembered, both stores start     |
| SCH/HU  | MAC-ACCESS, not fragmented  | a complete body                                     |
| SCH/F   | MAC-FRAG, MAC-END           | continues or ends the long-SDS chain                |

`service_eq` separates what is received (`ulBlockOf`) from what is done with it (`handle`).
-/

namespace TetraPhy.Sw

open Codec

/-- There are timeslots. -/
theorem neZeroFour : NeZero 4 := ⟨by decide⟩

attribute [scoped instance] neZeroFour

/-- `UL_RX_SRC_SINGLE`, `UL_RX_SRC_DEMAND`, `UL_RX_SRC_LONGSDS`. -/
inductive UlRxSource
  | single | demand | longSds
deriving DecidableEq, Repr

/-- `ul_rx_result_t`; `body` is the filled part of the buffer. -/
structure UlRxResult where
  crcOk : Bool := false
  haveBody : Bool := false
  source : UlRxSource := .single
  body : List Bool := []
  ssi : UInt32 := 0
  meta13 : UInt16 := 0
deriving DecidableEq, Repr

/-- `ul_rx_ctx_t`. -/
structure UlRxCtx where
  demand : UlReass
  lsds : UlLsds
  cc : UInt8
  scrSlot : UInt8
  mcc : UInt16
  mnc : UInt16
  slotSsi : Fin 4 → UInt32 := fun _ ↦ 0

namespace UlRxCtx

/-- `tetra_ul_rx_init`. -/
def init (cc scrSlot : UInt8) (mcc mnc : UInt16) : UlRxCtx :=
  { demand := UlReass.init 0
    lsds := UlLsds.init 0
    cc := cc
    scrSlot := scrSlot
    mcc := mcc
    mnc := mnc }

/-- `tetra_ul_rx_tick`. -/
def tick (c : UlRxCtx) (nowMs : UInt32) : UlRxCtx :=
  { c with demand := c.demand.tick nowMs, lsds := c.lsds.tick nowMs }

/-- A MAC-END-HU: the second block of a demand, of the SSI that owns the slot. -/
def endDemand (c : UlRxCtx) (slot : Fin 4) (info : List Bool) : UlRxCtx × UlRxResult :=
  match c.demand.reassEnd (c.slotSsi slot) info with
  | (demand, some d) =>
      ({ c with demand := demand },
        { crcOk := true
          haveBody := true
          source := .demand
          body := d.body
          ssi := d.ssi
          meta13 := d.meta13 })
  | (demand, none) => ({ c with demand := demand }, { crcOk := true })

/-- A fragmented start: from now on the slot belongs to its SSI. -/
def startChains (c : UlRxCtx) (slot : Fin 4) (info : List Bool) (nowMs : UInt32) : UlRxCtx :=
  let p := ulMacAccessParse info
  { c with
    slotSsi := Function.update c.slotSsi slot p.issi
    demand := (c.demand.frag1 p.issi info p.meta13 nowMs).1
    lsds := c.lsds.start p.issi info p.optFlag nowMs }

/-- A PDU that is complete in its block. -/
def singleBody (info : List Bool) : UlRxResult :=
  let p := ulMacAccessParse info
  { crcOk := true
    haveBody := true
    source := .single
    body := slice info p.tlSduStart (92 - p.tlSduStart)
    ssi := p.issi
    meta13 := p.meta13 }

/-- The SCH/HU branch of `tetra_ul_rx_service` once the CRC is right. -/
def serviceSchhu (c : UlRxCtx) (slot : Fin 4) (info : List Bool) (nowMs : UInt32) :
    UlRxCtx × UlRxResult :=
  if ulIsMacEndHu info then c.endDemand slot info
  else if (ulMacAccessParse info).fragFlag then
    (c.startChains slot info nowMs, { crcOk := true })
  else (c, singleBody info)

/-- A MAC-FRAG or MAC-END. -/
def contLongSds (c : UlRxCtx) (isEnd : Bool) (info : List Bool) (nowMs : UInt32) :
    UlRxCtx × UlRxResult :=
  match c.lsds.frag info isEnd nowMs with
  | (lsds, some d) =>
      ({ c with lsds := lsds },
        { crcOk := true, haveBody := true, source := .longSds, body := d.body, ssi := d.ssi })
  | (lsds, none) => ({ c with lsds := lsds }, { crcOk := true })

/-- The SCH/F branch of `tetra_ul_rx_service` once the CRC is right. -/
def serviceSchf (c : UlRxCtx) (info : List Bool) (nowMs : UInt32) : UlRxCtx × UlRxResult :=
  if (ulSchfIsFrag info).1 then c.contLongSds (ulSchfIsFrag info).2 info nowMs
  else (c, { crcOk := true })

/-- The soft values the decoder reads: the burst's, and behind them what was on the stack. -/
def softOf (b : UlRxBurst) (stack : ℕ → ℤ) (n : ℕ) : List ℤ :=
  (List.range n).map fun i ↦ b.soft.getD i (stack i)

/-- The information bits, if the decoder returned 0. -/
def infoOf (r : Option (List Bool × ℤ)) : Option (List Bool) :=
  r.bind fun (info, rc) ↦ if rc = 0 then some info else none

/-- `tetra_ul_rx_service`: the context, `out` and the return value. -/
def service (c : UlRxCtx) (words : ℕ → UInt32) (stack : ℕ → ℤ) (nowMs : UInt32) :
    UlRxCtx × UlRxResult × Bool :=
  match ulRxUnpack words with
  | none => (c, {}, false)
  | some b =>
      let slot : Fin 4 := Fin.ofNat 4 (b.slotTn &&& 3).toNat
      if b.burstType == 0 then
        match infoOf (schhuDecodeSoft (softOf b stack 168) c.cc c.scrSlot c.mcc c.mnc) with
        | some info =>
            let r := c.serviceSchhu slot info nowMs
            (r.1, r.2, true)
        | none => (c, {}, true)
      else if b.burstType == 1 then
        match infoOf (schfDecodeSoft (softOf b stack 432) c.cc c.scrSlot c.mcc c.mnc) with
        | some info =>
            let r := c.serviceSchf info nowMs
            (r.1, r.2, true)
        | none => (c, {}, true)
      else (c, {}, true)

end UlRxCtx

/-! ## Receiving and handling -/

/-- What a burst turns out to be. -/
inductive UlBlock
  | invalid
  /-- A failed CRC, or a channel served elsewhere. -/
  | ignored
  | endHu (slot : Fin 4) (info : List Bool)
  | start (slot : Fin 4) (info : List Bool)
  | single (info : List Bool)
  /-- A MAC-END if `isEnd`, else a MAC-FRAG. -/
  | frag (slot : Fin 4) (isEnd : Bool) (info : List Bool)
  /-- Any other SCH/F block. -/
  | schf (info : List Bool)
deriving DecidableEq, Repr

/-- A decoded SCH/HU block. -/
def schhuBlock (slot : Fin 4) (info : List Bool) : UlBlock :=
  if ulIsMacEndHu info then .endHu slot info
  else if (ulMacAccessParse info).fragFlag then .start slot info
  else .single info

/-- A decoded SCH/F block. -/
def schfBlock (slot : Fin 4) (info : List Bool) : UlBlock :=
  if (ulSchfIsFrag info).1 then .frag slot (ulSchfIsFrag info).2 info else .schf info

namespace UlRxCtx

/-- What the words in the mailbox are. -/
def ulBlockOf (c : UlRxCtx) (words : ℕ → UInt32) (stack : ℕ → ℤ) : UlBlock :=
  match ulRxUnpack words with
  | none => .invalid
  | some b =>
      let slot : Fin 4 := Fin.ofNat 4 (b.slotTn &&& 3).toNat
      if b.burstType == 0 then
        match infoOf (schhuDecodeSoft (softOf b stack 168) c.cc c.scrSlot c.mcc c.mnc) with
        | some info => schhuBlock slot info
        | none => .ignored
      else if b.burstType == 1 then
        match infoOf (schfDecodeSoft (softOf b stack 432) c.cc c.scrSlot c.mcc c.mnc) with
        | some info => schfBlock slot info
        | none => .ignored
      else .ignored

/-- What is done with it. -/
def handle (c : UlRxCtx) (nowMs : UInt32) : UlBlock → UlRxCtx × UlRxResult
  | .invalid | .ignored => (c, {})
  | .endHu slot info => c.endDemand slot info
  | .start slot info => (c.startChains slot info nowMs, { crcOk := true })
  | .single info => (c, singleBody info)
  | .frag _ isEnd info => c.contLongSds isEnd info nowMs
  | .schf _ => (c, { crcOk := true })

theorem handle_schhuBlock (c : UlRxCtx) (slot : Fin 4) (info : List Bool) (nowMs : UInt32) :
    c.handle nowMs (schhuBlock slot info) = c.serviceSchhu slot info nowMs := by
  unfold schhuBlock serviceSchhu
  split
  · rfl
  split <;> rfl

theorem handle_schfBlock (c : UlRxCtx) (slot : Fin 4) (info : List Bool) (nowMs : UInt32) :
    c.handle nowMs (schfBlock slot info) = c.serviceSchf info nowMs := by
  unfold schfBlock serviceSchf
  split <;> rfl

/-- The service handles what the words are. -/
theorem service_eq (c : UlRxCtx) (words : ℕ → UInt32) (stack : ℕ → ℤ) (nowMs : UInt32) :
    (c.service words stack nowMs).1 = (c.handle nowMs (c.ulBlockOf words stack)).1 ∧
      (c.service words stack nowMs).2.1 = (c.handle nowMs (c.ulBlockOf words stack)).2 := by
  unfold service ulBlockOf
  cases ulRxUnpack words with
  | none => exact ⟨rfl, rfl⟩
  | some b =>
      dsimp only
      by_cases h0 : (b.burstType == 0) = true
      · rw [if_pos h0, if_pos h0]
        cases infoOf (schhuDecodeSoft (softOf b stack 168) c.cc c.scrSlot c.mcc c.mnc) with
        | none => exact ⟨rfl, rfl⟩
        | some info =>
            exact ⟨congrArg Prod.fst (c.handle_schhuBlock _ info nowMs).symm,
              congrArg Prod.snd (c.handle_schhuBlock _ info nowMs).symm⟩
      rw [if_neg h0, if_neg h0]
      by_cases h1 : (b.burstType == 1) = true
      · rw [if_pos h1, if_pos h1]
        cases infoOf (schfDecodeSoft (softOf b stack 432) c.cc c.scrSlot c.mcc c.mnc) with
        | none => exact ⟨rfl, rfl⟩
        | some info =>
            exact ⟨congrArg Prod.fst (c.handle_schfBlock _ info nowMs).symm,
              congrArg Prod.snd (c.handle_schfBlock _ info nowMs).symm⟩
      · rw [if_neg h1, if_neg h1]
        exact ⟨rfl, rfl⟩

/-- A long SDS is delivered exactly when a MAC-END finds the chain active. -/
theorem haveBody_frag (c : UlRxCtx) (nowMs : UInt32) (slot : Fin 4) (isEnd : Bool)
    (info : List Bool) : (c.handle nowMs (.frag slot isEnd info)).2.haveBody = true ↔
      isEnd = true ∧ c.lsds.active = true := by
  simp only [handle, contLongSds, UlLsds.frag]
  cases c.lsds.active <;> cases isEnd <;> simp

theorem source_frag (c : UlRxCtx) (nowMs : UInt32) (slot : Fin 4) (isEnd : Bool)
    (info : List Bool) (h : (c.handle nowMs (.frag slot isEnd info)).2.haveBody = true) :
    (c.handle nowMs (.frag slot isEnd info)).2.source = .longSds := by
  simp only [handle, contLongSds, UlLsds.frag] at h ⊢
  cases ha : c.lsds.active <;> cases isEnd <;> simp [ha] at h ⊢

/-- An END on SCH/HU ends no long SDS. -/
theorem source_endHu (c : UlRxCtx) (nowMs : UInt32) (slot : Fin 4) (info : List Bool)
    (h : (c.handle nowMs (.endHu slot info)).2.haveBody = true) :
    (c.handle nowMs (.endHu slot info)).2.source = .demand := by
  simp only [handle, endDemand, UlReass.reassEnd] at h ⊢
  cases hm : c.demand.matching (c.slotSsi slot) with
  | none => simp [hm] at h
  | some i => rfl

end UlRxCtx

/-! ## Blocks as they are sent -/

/-- The words of a burst of full confidence. -/
def burstWords (slot : Fin 4) (burstType : UInt8) (block : List Bool) : ℕ → UInt32 :=
  (ulRxPack (UInt8.ofNat slot) burstType (block.map softValue)).getD fun _ ↦ 0

theorem unpack_burstWords (slot : Fin 4) {burstType : UInt8} (ht : burstType &&& 3 = burstType)
    {block : List Bool} (h : block.length ≤ ulRxMaxSoft) :
    ulRxUnpack (burstWords slot burstType block) =
      some ⟨UInt8.ofNat slot, burstType, block.map softValue⟩ := by
  have hsoft : ∀ v ∈ block.map softValue, -8 ≤ v ∧ v ≤ 7 := by
    intro v hv
    obtain ⟨b, -, rfl⟩ := List.mem_map.1 hv
    cases b <;> decide
  have hslot : UInt8.ofNat slot &&& 3 = UInt8.ofNat slot := by
    revert slot
    decide
  have hround := unpack_pack (UInt8.ofNat slot) burstType (by simpa using h) hsoft
  obtain ⟨words, hwords⟩ : ∃ words, ulRxPack (UInt8.ofNat slot) burstType
      (block.map softValue) = some words := by
    rw [ulRxPack, if_neg (by simpa using h)]
    exact ⟨_, rfl⟩
  rw [burstWords, hwords, Option.getD_some]
  rw [hwords, Option.bind_some, hslot, ht] at hround
  exact hround

theorem softOf_map (slotTn burstType : UInt8) (stack : ℕ → ℤ) {block : List Bool} {n : ℕ}
    (h : block.length = n) :
    UlRxCtx.softOf ⟨slotTn, burstType, block.map softValue⟩ stack n = block.map softValue := by
  subst h
  refine List.ext_getElem (by simp [UlRxCtx.softOf]) fun i _ hi ↦ ?_
  simp only [UlRxCtx.softOf, List.getElem_map, List.getElem_range, List.getD_eq_getElem _ _ hi]

theorem fin_ofNat_slot (slot : Fin 4) : Fin.ofNat 4 (UInt8.ofNat slot &&& 3).toNat = slot := by
  revert slot
  decide

section Cell

variable (cc scrSlot : UInt8) (mcc mnc : UInt16)

/-- The words of an SCH/HU block as a terminal of the cell sends it. -/
def schhuWords (slot : Fin 4) (info : List Bool) : ℕ → UInt32 :=
  burstWords slot 0 ((schhuEncode info cc scrSlot mcc mnc).getD [])

/-- The words of an SCH/F block as a terminal of the cell sends it. -/
def schfWords (slot : Fin 4) (info : List Bool) : ℕ → UInt32 :=
  burstWords slot 1 ((schf.encode info cc scrSlot mcc mnc).getD [])

end Cell

/-- What was sent on SCH/HU is received. -/
theorem ulBlockOf_schhuWords (c : UlRxCtx) (slot : Fin 4) {info : List Bool}
    (h : info.length = 92) (stack : ℕ → ℤ) :
    c.ulBlockOf (schhuWords c.cc c.scrSlot c.mcc c.mnc slot info) stack = schhuBlock slot info := by
  obtain ⟨block, hblock, hlen, hdecode⟩ :=
    Channel.decode_encode (c := schhu) h c.cc c.scrSlot c.scrSlot c.mcc c.mnc
  have hsoft := (Channel.decodeSoft_map schhu (crc16CheckN · 92) hlen c.cc c.scrSlot c.mcc
    c.mnc).trans hdecode
  have hlen' : block.length = 168 := hlen
  rw [schhuWords, schhuEncode, hblock, Option.getD_some, UlRxCtx.ulBlockOf,
    unpack_burstWords slot rfl (by rw [hlen']; decide)]
  dsimp only
  rw [if_pos (by decide), softOf_map _ _ stack hlen', schhuDecodeSoft, hsoft, fin_ofNat_slot]
  rfl

/-- What was sent on SCH/F is received. -/
theorem ulBlockOf_schfWords (c : UlRxCtx) (slot : Fin 4) {info : List Bool}
    (h : info.length = 268) (stack : ℕ → ℤ) :
    c.ulBlockOf (schfWords c.cc c.scrSlot c.mcc c.mnc slot info) stack = schfBlock slot info := by
  obtain ⟨block, hblock, hlen, hdecode⟩ :=
    Channel.decode_encode (c := schf) h c.cc c.scrSlot c.scrSlot c.mcc c.mnc
  have hsoft := (Channel.decodeSoft_map schf (crc16CheckN · 268) hlen c.cc c.scrSlot c.mcc
    c.mnc).trans hdecode
  have hlen' : block.length = 432 := hlen
  rw [schfWords, hblock, Option.getD_some, UlRxCtx.ulBlockOf,
    unpack_burstWords slot rfl (by rw [hlen']; decide)]
  dsimp only
  rw [if_neg (by decide), if_pos (by decide), softOf_map _ _ stack hlen', schfDecodeSoft, hsoft,
    fin_ofNat_slot]
  rfl

end TetraPhy.Sw
