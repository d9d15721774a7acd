import TetraPhy.Daemon.CmceDispatch
import TetraPhy.Daemon.SdsFidelity
import TetraPhy.Sw.UlMacParse

/-!
# Where the CMCE PDU begins

Three places work out where a CMCE PDU begins behind its LLC header:

| LLC type            | header | `decode_sds_reassembled` | main loop | `tetra_ul_mac_parse` |
|---------------------|--------|--------------------------|-----------|----------------------|
| 0 BL-ADATA          | 6      | 6                        | 6         | 6                    |
| 1 BL-DATA           | 5      | 5                        | 5         | 5                    |
| 2 BL-UDATA          | 4      | 4                        | 4         | 4                    |
| 4 BL-ADATA with FCS | 6      | 5                        | 6         | 6                    |
| 5 BL-DATA with FCS  | 5      | 5                        | 5         | 5                    |
| 6 BL-UDATA with FCS | 4      | 5                        | 4         | 4                    |

The FCS are 32 bits behind the PDU, and fill bits may follow them: the short service passes 147 bits
of every demand.  `decode_sds_reassembled` does not know of the FCS, and takes user data that are
announced and do not end before it from there.

**`located_iff`** puts this together.
-/

namespace TetraPhy.Daemon

open Sw Lmac FieldReader Rx

/-! ## The three offsets -/

/-- `llc_payload_start` of `tetra_ul_mac_parse`. -/
def ulLlcPayloadStart (info92 : List Bool) : ℕ :=
  let o := ulMacAccessParse info92
  o.tlSduStart + if !o.llcLinkType && o.llcBlPduType == 0 then 6
    else if !o.llcLinkType && o.llcBlPduType == 1 then 5 else 4

/-- The fields behind the LLC header are read from there. -/
theorem mlePd_ulMacAccessParse (info92 : List Bool) :
    (ulMacAccessParse info92).mlePd = (getbits info92 (ulLlcPayloadStart info92) 3).toUInt8 ∧
      (ulMacAccessParse info92).mmPduType =
        (getbits info92 (ulLlcPayloadStart info92 + 3) 4).toUInt8 := ⟨rfl, rfl⟩

/-! ## The header as it is -/

/-- The LLC PDU types that carry a CMCE SDU. -/
def CarriesCmce (t : BitVec 4) : Prop := t = 0 ∨ t = 1 ∨ t = 2 ∨ t = 4 ∨ t = 5 ∨ t = 6

instance (t : BitVec 4) : Decidable (CarriesCmce t) := inferInstanceAs (Decidable (_ ∨ _))

/-- The first bit of the CMCE PDU: it is behind the optional field, the LLC header and the MLE
discriminator. -/
def cmceOffset (t : BitVec 4) (opt : Bool) : ℕ := (if opt then 6 else 0) + llcHeaderLen t.toNat + 3

/-- `k` bits may follow the PDU: they are the frame check sequence and the fill bits behind it.
Without FCS what follows the user data is part of the PDU. -/
def Follow (t : BitVec 4) (k : ℕ) : Prop := if t.getLsbD 2 then 32 ≤ k else k = 0

instance (t : BitVec 4) (k : ℕ) : Decidable (Follow t k) := inferInstanceAs (Decidable (ite _ _ _))

/-- Metadata of a header. -/
structure MetaOf (md : UInt16) (t : BitVec 4) (opt : Bool) : Prop where
  disc : (md >>> 6) &&& 0x7 = 2
  llc : (md >>> 2) &&& 0xF = ⟨t.setWidth 16⟩
  opt : ((md &&& 0x1) != 0) = opt

/-- A parsed block has a header. -/
structure ParsedAs (o : UlMacAccess) (t : BitVec 4) (opt : Bool) : Prop where
  linkType : o.llcLinkType = t.getLsbD 3
  hasFcs : o.llcHasFcs = t.getLsbD 2
  blPduType : o.llcBlPduType = ⟨(t.extractLsb' 0 2).setWidth 8⟩
  opt : o.optFlag = opt

section

variable {md : UInt16} {t : BitVec 4} {opt : Bool}

/-- **Which headers `decode_sds_reassembled` knows.** -/
theorem sdsCmceStart_eq_iff (hmd : MetaOf md t opt) (ht : CarriesCmce t) :
    sdsCmceStart md = cmceOffset t opt ↔ t ≠ 4 ∧ t ≠ 6 := by
  rw [sdsCmceStart, cmceOffset, hmd.opt, hmd.llc, Nat.add_right_cancel_iff,
    Nat.add_left_cancel_iff]
  rcases ht with rfl | rfl | rfl | rfl | rfl | rfl <;> decide

/-- The main loop knows all of them. -/
theorem cmceStart_handoverOf (ht : CarriesCmce t) {p : UlPdu} (hp : p.llcPduType = t)
    (hopt : p.optionalFieldFlag = opt) : (handoverOf p).cmceStart = 30 + cmceOffset t opt := by
  have htype : (handoverOf p).llcType = .ofBitVec (t.setWidth 32) := by
    rw [← hp]
    rfl
  have hllc : (handoverOf p).llcHdrBits = llcHeaderLen t.toNat := by
    rw [Handover.llcHdrBits, htype]
    rcases ht with rfl | rfl | rfl | rfl | rfl | rfl <;> decide
  have hflag : (handoverOf p).optFlag = opt := hopt
  rw [Handover.cmceStart, hllc, hflag, cmceOffset]
  split_ifs <;> omega

/-- And so does `tetra_ul_mac_parse`. -/
theorem ulLlcPayloadStart_eq (ht : CarriesCmce t) {info92 : List Bool}
    (hp : ParsedAs (ulMacAccessParse info92) t opt) :
    ulLlcPayloadStart info92 + 3 = 30 + cmceOffset t opt := by
  have hstart : (ulMacAccessParse info92).tlSduStart =
      if (ulMacAccessParse info92).optFlag then 36 else 30 := rfl
  rw [ulLlcPayloadStart, hstart, hp.opt, hp.linkType, hp.blPduType, cmceOffset]
  rcases ht with rfl | rfl | rfl | rfl | rfl | rfl <;> cases opt <;> decide

end

/-! ## The user data -/

/-- A U-SDS-DATA in front of `k` more bits. -/
theorem USdsAt.extend {b : ℕ → Bool} {nbits pos cpti udd : ℕ} {u : USds}
    (h : USdsAt b nbits pos cpti udd u) (k : ℕ) :
    USdsAt b (nbits + k) pos cpti udd
      { u with received := u.received ++ window b nbits k } where
  disc := h.disc
  pduType := h.pduType
  cptiEq := h.cptiEq
  known := h.known
  dest := h.dest
  start := h.start
  sdti := h.sdti
  lengthInd := h.lengthInd
  min := h.min
  inside := h.inside.trans (Nat.le_add_right _ _)
  received := by
    obtain ⟨r, rfl⟩ := Nat.exists_eq_add_of_le h.inside
    have hr := h.received
    rw [Nat.add_sub_cancel_left] at hr
    rw [hr, Nat.add_assoc, Nat.add_sub_cancel_left, window_add]

/-- More bits behind the user data do not make the protocol another one. -/
theorem USds.Known.append {u : USds} (h : u.Known) (bits : List Bool) :
    USds.Known { u with received := u.received ++ bits } := by
  refine ⟨?_, ?_⟩
  · rw [List.length_append]
    exact h.1.trans (Nat.le_add_right _ _)
  · rw [USds.proto, List.take_append_of_le_length h.1]
    exact h.2

/-- What is found in front of an octet more is the PDU exactly if its whole octets end there. -/
theorem holds_extend_iff {u : USds} {bits : List Bool} (hbits : 8 ≤ bits.length) {msg : SdsMsg}
    (h : Holds { u with received := u.received ++ bits } msg) :
    Holds u msg ↔ u.lengthInd / 8 ≤ u.received.length / 8 := by
  have hlen : msg.udd.length =
      min (u.lengthInd / 8) ((u.received.length + bits.length) / 8) := by
    rw [h.length, USds.octets, List.length_append]
  constructor
  · intro hu
    have hu' := hu.length
    rw [hlen, USds.octets] at hu'
    omega
  · intro hle
    have hoct : msg.udd.length = u.octets := by
      rw [hlen, USds.octets]
      omega
    have hbits' := h.bits
    rw [← h.length, hoct] at hbits'
    refine ⟨h.dest, h.li, hoct, hbits'.trans (List.take_append_of_le_length ?_)⟩
    rw [USds.octets]
    omega

/-- The message found at the right place. -/
theorem decode_of_usdsAt {b : ℕ → Bool} {nbits pos cpti udd : ℕ} {u : USds} {md : UInt16}
    (h : USdsAt b nbits pos cpti udd u) (hdisc : (md >>> 6) &&& 0x7 = 2)
    (hpos : sdsCmceStart md = pos + 3) (hknown : u.Known) (tcap : ℕ) {cap : ℕ}
    (hcap : u.octets ≤ cap) :
    ∃ msg, decodeSdsReassembled b nbits md tcap cap = some msg ∧ Holds u msg := by
  obtain ⟨text, htext⟩ := h.decode_eq hdisc (Nat.add_right_cancel hpos) tcap cap
  exact ⟨_, htext.trans (if_pos hknown), h.holds text hcap⟩

/-! ## Every header -/

/-- A U-SDS-DATA under a header is located right: the parsing begins behind the header, the message
is the PDU's, and the offset is that of the main loop and of `tetra_ul_mac_parse`. -/
structure Located (t : BitVec 4) (opt : Bool) (md : UInt16) (b : ℕ → Bool) (nbits tcap cap : ℕ)
    (u : USds) : Prop where
  start : sdsCmceStart md = cmceOffset t opt
  userData : ∃ msg, decodeSdsReassembled b nbits md tcap cap = some msg ∧ Holds u msg
  mainLoop : ∀ p : UlPdu, p.llcPduType = t → p.optionalFieldFlag = opt →
    (handoverOf p).cmceStart = 30 + sdsCmceStart md
  macParse : ∀ info92, ParsedAs (ulMacAccessParse info92) t opt →
    ulLlcPayloadStart info92 + 3 = 30 + sdsCmceStart md

/-- **Under which headers an SDS is located right**: not under a BL-ADATA or a BL-UDATA with FCS,
and under a BL-DATA with FCS if its whole octets end before the FCS.  The buffer holds the PDU, its
FCS and any fill bits, and what is read without the FCS is a U-SDS-DATA whose protocol the daemon
knows. -/
theorem located_iff {t : BitVec 4} {opt : Bool} {md : UInt16} {b : ℕ → Bool}
    {len k tcap cap : ℕ} {u : USds} (ht : CarriesCmce t) (hmd : MetaOf md t opt)
    (hread : readTlSdu t.toNat opt (window b 0 len) = some u) (hknown : u.Known)
    (hk : Follow t k) (hcap : min (u.lengthInd / 8) ((len + k) / 8) ≤ cap) :
    Located t opt md b (len + k) tcap cap u ↔
      t ≠ 4 ∧ t ≠ 6 ∧ (t = 5 → u.lengthInd / 8 ≤ u.received.length / 8) := by
  obtain ⟨cpti, udd, hat⟩ := usdsAt_of_read hread
  have hrec := hat.length_received
  have hfound (hstart : sdsCmceStart md = cmceOffset t opt) :
      ∃ msg, decodeSdsReassembled b (len + k) md tcap cap = some msg ∧
        Holds { u with received := u.received ++ window b len k } msg := by
    refine decode_of_usdsAt (hat.extend k) hmd.disc (hstart.trans rfl) (hknown.append _) tcap ?_
    rw [USds.octets, List.length_append, length_window]
    dsimp only
    omega
  have huser (hstart : sdsCmceStart md = cmceOffset t opt) :
      (∃ msg, decodeSdsReassembled b (len + k) md tcap cap = some msg ∧ Holds u msg) ↔
        (t = 5 → u.lengthInd / 8 ≤ u.received.length / 8) := by
    obtain ⟨msg, hdecode, hholds⟩ := hfound hstart
    have hmsg : (∃ m, decodeSdsReassembled b (len + k) md tcap cap = some m ∧ Holds u m) ↔
        Holds u msg := by
      rw [hdecode]
      constructor
      · rintro ⟨m, hm, hu⟩
        exact Option.some.inj hm ▸ hu
      · intro hu
        exact ⟨msg, rfl, hu⟩
    rw [hmsg]
    obtain ⟨h4, h6⟩ := (sdsCmceStart_eq_iff hmd ht).1 hstart
    by_cases h5 : t = 5
    · have hoctet : 8 ≤ (window b len k).length := by
        subst h5
        have h32 : 32 ≤ k := hk
        rw [length_window]
        omega
      rw [imp_iff_right h5]
      exact holds_extend_iff hoctet hholds
    · -- nothing follows the PDU
      have hnone : k = 0 := by
        rcases ht with rfl | rfl | rfl | rfl | rfl | rfl
        case inr.inr.inr.inl => exact absurd rfl h4
        case inr.inr.inr.inr.inl => exact absurd rfl h5
        case inr.inr.inr.inr.inr => exact absurd rfl h6
        all_goals exact hk
      rw [hnone] at hholds
      refine iff_of_true ?_ fun he ↦ absurd he h5
      rwa [show window b len 0 = [] from rfl, List.append_nil] at hholds
  constructor
  · intro h
    obtain ⟨h4, h6⟩ := (sdsCmceStart_eq_iff hmd ht).1 h.start
    exact ⟨h4, h6, (huser h.start).1 h.userData⟩
  · rintro ⟨h4, h6, h5⟩
    have hstart := (sdsCmceStart_eq_iff hmd ht).2 ⟨h4, h6⟩
    refine ⟨hstart, (huser hstart).2 h5, fun p hp hopt ↦ ?_, fun info92 hp ↦ ?_⟩
    · rw [hstart]
      exact cmceStart_handoverOf ht hp hopt
    · rw [hstart]
      exact ulLlcPayloadStart_eq ht hp

/-! ### Messages -/

/-- A U-SDS-DATA of two octets to 2633617. -/
def twoOctetsUSds : USds := ⟨2633617, 16, putBits 130 8 ++ putBits 65 8⟩

/-- It is a TL-SDU of 67 bits. -/
def twoOctetsSdu : List Bool :=
  putBits 2 3 ++ putBits 15 5 ++ putBits 0 4 ++ putBits 1 2 ++ putBits 2633617 24 ++ putBits 3 2 ++
    putBits 16 11 ++ twoOctetsUSds.received

/-- The buffer with an optional field and a header in front of it; what follows are ones. -/
def underHeader (header : List Bool) (p : ℕ) : Bool :=
  (List.replicate 6 false ++ header ++ twoOctetsSdu).getD p true

/-- Under a BL-DATA with FCS it is located among the 147 bits of a short demand. -/
theorem located_dataFcs :
    Located 5 true 0x95 (underHeader [false, true, false, true, false]) (78 + 69) 64 48
      twoOctetsUSds :=
  (located_iff (by decide) ⟨by decide, by decide, by decide⟩ (by decide) (by decide)
    (by decide) (by decide)).2 ⟨by decide, by decide, by decide⟩

/-- Under a BL-ADATA with FCS it is not found, and the main loop looks one bit further on. -/
theorem adataFcs_not_located :
    readTlSdu 4 true (window (underHeader [false, true, false, false, true, false]) 0 79) =
        some twoOctetsUSds ∧ twoOctetsUSds.Known ∧ MetaOf 0x91 4 true ∧
      decodeSdsReassembled (underHeader [false, true, false, false, true, false]) 147 0x91 64 48 =
        none ∧
      (handoverOf { llcPduType := 4, optionalFieldFlag := true }).cmceStart =
        30 + (sdsCmceStart 0x91 + 1) ∧
      ¬ Located 4 true 0x91 (underHeader [false, true, false, false, true, false]) 147 64 48
        twoOctetsUSds :=
  ⟨by decide, by decide, ⟨by decide, by decide, by decide⟩, by decide,
    by decide, fun h ↦ absurd h.start (by decide)⟩

end TetraPhy.Daemon
