import TetraPhy.Daemon.LlcOffset

/-!
# The two consumers of a reassembled demand

A reassembled TM-SDU of at most 147 bits fits the demand mailbox, which `service_uldbod` reads, and
the long-SDS mailbox, which `service_long_sds_rx` reads.  Each makes of it a call of the MM walker
or an SDS, and an acknowledgement (`Consumed`).

|                                | `service_uldbod`     | `service_long_sds_rx`            |
|--------------------------------|----------------------|----------------------------------|
| MM body                        | from bit 18          | behind the header there is       |
| SDS                            | behind the header    | behind a header of five bits     |
| `N(S)`                         | from the metadata    | the bit behind the LLC PDU type  |

**`consumers_agree_iff`**: on mobility management they agree if there is an optional field and the
LLC PDU is a BL-DATA, on a U-SDS-DATA if it is a BL-DATA.
-/

namespace TetraPhy.Daemon

open Sw Lmac FieldReader

theorem neZeroIdle : NeZero 2 := ⟨by decide⟩

attribute [local instance] neZeroIdle

/-! ## What a service makes of a mailbox -/

/-- A call of `tetra_mm_demand_parser_parse`: the PDU type, the SSI, and the body, which is that
from bit `start` on. -/
@[ext] structure WalkerCall where
  mmType : UInt8
  ssi : UInt32
  start : ℕ
  body : ℕ → Bool

/-- What a service makes of a mailbox. -/
structure Consumed where
  ack : Option TxPduMeta := none
  relay : Option SdsMsg := none
  walk : Option WalkerCall := none

/-- Bits of a buffer from `start` on, as many as the walker takes. -/
def walkerBody (b : ℕ → Bool) (nbits start i : ℕ) : Bool :=
  decide (i < mmDemandBodyBytes * 8) && decide (start + i < nbits) && b (start + i)

/-- `service_uldbod` calls the walker. -/
def uldbodWalk (env : SdsEnv) : WalkerCall where
  mmType := ((uldbodMeta env >>> 9) &&& 0xF).toUInt8
  ssi := uldbodSsi env
  start := 18
  body := walkerBody (uldbodBody env) 147 18

/-- `service_uldbod`. -/
def uldbodConsumed (env : SdsEnv) : Consumed :=
  match uldbodMsg env with
  | some msg => if msg.FragStart then {} else { ack := some (uldbodAck env), relay := some msg }
  | none => { walk := some (uldbodWalk env) }

/-- The acknowledgement of `service_long_sds_rx`. -/
def lsdsAck (env : SdsEnv) : TxPduMeta where
  targetSsi := lsdsSsi env
  nr := if lsdsBody env ((if lsdsOpt env then 6 else 0) + 4) then 1 else 0

/-- `service_long_sds_rx` calls the walker. -/
def lsdsWalk (env : SdsEnv) : WalkerCall where
  mmType := (sdsGbits (lsdsBody env) (lsdsMlePos env + 3) 4).toUInt8
  ssi := lsdsSsi env
  start := lsdsMlePos env + 3 + 4
  body := walkerBody (lsdsBody env) (lsdsNbits env) (lsdsMlePos env + 3 + 4)

/-- `service_long_sds_rx`, for a new body. -/
def lsdsConsumed (env : SdsEnv) : Consumed :=
  if sdsGbits (lsdsBody env) (lsdsMlePos env) 3 == 1 then
    { ack := some (lsdsAck env), walk := some (lsdsWalk env) }
  else { ack := some (lsdsAck env), relay := lsdsMsg env }

/-! ### They do what they make of it -/

/-- Acknowledge, relay, walk. -/
def SdsRx.take (s : SdsRx) (env : SdsEnv) (relay : SdsMsg → SdsRx → SdsRx) (c : Consumed) :
    SdsRx :=
  let s := match c.ack with
    | some ack => s.submit (env.idle 0) .blAck ack
    | none => s
  let s := match c.relay with
    | some msg => relay msg s
    | none => s
  match c.walk with
  | some w => env.walk w.mmType w.ssi w.body s
  | none => s

/-- How `service_uldbod` relays. -/
def relayShort (env : SdsEnv) (msg : SdsMsg) (s : SdsRx) : SdsRx :=
  if decide (msg.udd.length > 0) && decide (msg.udd.length ≤ 24) && env.registered msg.dest
  then s.submit (env.idle 1) .dSdsData (relayMeta (uldbodSsi env) msg)
  else s

/-- How `service_long_sds_rx` relays. -/
def relayChained (env : SdsEnv) (msg : SdsMsg) (s : SdsRx) : SdsRx :=
  if decide (msg.udd.length > 0) && decide (msg.udd.length ≤ 24) && env.registered msg.dest then
    s.submit (env.idle 1) .dSdsData (relayMeta (lsdsSsi env) msg)
  else if decide (msg.udd.length > 24) && env.registered msg.dest then
    { s with sds := sdsDlDeliveryStart env msg.dest (lsdsSsi env) 1 1 msg.udd s.sds }
  else s

theorem serviceUldbod_eq (env : SdsEnv) (s : SdsRx) :
    serviceUldbod env s = ((s.select regUlDemandBodyIndex (List.range 7)).take env
      (relayShort env) (uldbodConsumed env)).ackDemandBody := by
  rw [serviceUldbod, uldbodConsumed]
  cases uldbodMsg env with
  | none => rfl
  | some msg =>
      dsimp only
      by_cases hfrag : msg.FragStart
      · simp only [if_pos hfrag]
        rfl
      · simp only [if_neg hfrag]
        rfl

theorem walkerBody_lsds (env : SdsEnv) (start : ℕ) :
    (fun i ↦ decide (i < mmDemandBodyBytes * 8) && lsdsBody env (start + i)) =
      walkerBody (lsdsBody env) (lsdsNbits env) start := by
  funext i
  rw [walkerBody, lsdsBody, Bool.and_assoc, ← Bool.and_assoc (decide (start + i < _)), Bool.and_self]

theorem serviceLongSdsRx_eq (env : SdsEnv) {s : SdsRx} (hstart : s.lsdsCntInit = true)
    (hnew : lsdsCnt env ≠ s.lsdsLastCnt) (hpos : 0 < lsdsNbits env) (hle : lsdsNbits env ≤ 8192) :
    serviceLongSdsRx env s =
      (((({ s.select regLsdsReadIndex [lsdsIdxCnt] with lsdsLastCnt := lsdsCnt env } :
        SdsRx).select regLsdsReadIndex [lsdsIdxLenopt]).select regLsdsReadIndex
          (lsdsIdxSsi :: List.range ((lsdsNbits env + 31) / 32))).take env (relayChained env)
            (lsdsConsumed env)) := by
  have hbogus : (decide (lsdsNbits env = 0) || decide (lsdsNbits env > 8192)) = false := by
    rw [decide_eq_false hpos.ne', decide_eq_false (Nat.not_lt.2 hle)]
    rfl
  rw [serviceLongSdsRx, lsdsConsumed]
  dsimp only
  rw [if_neg (by simp [SdsRx.select, hstart]), if_neg (by simpa [SdsRx.select] using hnew), hbogus,
    if_neg Bool.false_ne_true]
  cases hmm : sdsGbits (lsdsBody env) (lsdsMlePos env) 3 == 1 with
  | true =>
      rw [walkerBody_lsds]
      rfl
  | false =>
      simp only [Bool.false_eq_true, if_false, SdsRx.take, relayLong]
      cases lsdsMsg env <;> rfl

/-! ## One TM-SDU in both mailboxes -/

/-- A TM-SDU of `len` bits is in both mailboxes: its LLC PDU is of type `t`, and it comes behind
the optional field.  In the demand mailbox there are zeros behind it, and metadata that were parsed
from it. -/
structure Presented (d l : SdsEnv) (b : ℕ → Bool) (len : ℕ) (t : BitVec 4) (opt : Bool)
    (ssi : UInt32) : Prop where
  le : len ≤ 147
  zero : ∀ p, len ≤ p → b p = false
  llc : number (window b (if opt then 6 else 0) 4) = t.toNat
  demandBody : uldbodBody d = b
  demandSsi : uldbodSsi d = ssi
  metaLlc : (uldbodMeta d >>> 2) &&& 0xF = ⟨t.setWidth 16⟩
  metaOpt : ((uldbodMeta d &&& 0x1) != 0) = opt
  metaNs : ((uldbodMeta d >>> 1) &&& 1).toUInt8 = if b ((if opt then 6 else 0) + 4) then 1 else 0
  metaDisc : ((uldbodMeta d >>> 6) &&& 0x7).toNat =
    number (window b ((if opt then 6 else 0) + llcHeaderLen t.toNat) 3)
  metaType : ((uldbodMeta d >>> 9) &&& 0xF).toNat =
    number (window b ((if opt then 6 else 0) + llcHeaderLen t.toNat + 3) 4)
  longBody : lsdsBody l = b
  longLen : lsdsNbits l = len
  longOpt : lsdsOpt l = opt
  longSsi : lsdsSsi l = ssi

namespace Presented

variable {d l : SdsEnv} {b : ℕ → Bool} {len : ℕ} {t : BitVec 4} {opt : Bool} {ssi : UInt32}
  (h : Presented d l b len t opt ssi)
include h

theorem lsdsMlePos_eq (ht : t = 0 ∨ t = 1) :
    lsdsMlePos l = (if opt then 6 else 0) + llcHeaderLen t.toNat := by
  have hllc : sdsGbits b (if opt then 6 else 0) 4 = ⟨t.setWidth 32⟩ := by
    refine (sdsGbits_eq_iff b _ (by decide) _).2 (h.llc.trans ?_)
    rcases ht with rfl | rfl <;> rfl
  rw [lsdsMlePos, h.longBody, h.longOpt, hllc]
  rcases ht with rfl | rfl <;> rfl

/-! ### Mobility management -/

/-- The two calls of the walker differ in their start at most. -/
theorem walk_eq_iff (ht : t = 0 ∨ t = 1) :
    uldbodWalk d = lsdsWalk l ↔ opt = true ∧ t = 1 := by
  have hmle := h.lsdsMlePos_eq ht
  have hstart : 18 = lsdsMlePos l + 3 + 4 ↔ opt = true ∧ t = 1 := by
    rw [hmle]
    rcases ht with rfl | rfl <;> cases opt <;> decide
  rw [← hstart]
  refine ⟨fun he ↦ congrArg WalkerCall.start he, fun he ↦ ?_⟩
  have htype : ((uldbodMeta d >>> 9) &&& 0xF).toUInt8 =
      (sdsGbits (lsdsBody l) (lsdsMlePos l + 3) 4).toUInt8 := by
    refine UInt8.toNat_inj.1 ?_
    rw [UInt16.toNat_toUInt8, UInt32.toNat_toUInt8, toNat_sdsGbits _ _ (by decide), h.longBody,
      hmle, h.metaType]
  have hbody : walkerBody (uldbodBody d) 147 18 =
      walkerBody (lsdsBody l) (lsdsNbits l) (lsdsMlePos l + 3 + 4) := by
    funext i
    rw [← he, h.demandBody, h.longBody, h.longLen, walkerBody, walkerBody]
    rcases Nat.lt_or_ge (18 + i) len with hlt | hge
    · have hle := h.le
      rw [decide_eq_true (p := 18 + i < 147) (by omega), decide_eq_true hlt]
    · rw [h.zero _ hge, Bool.and_false, Bool.and_false]
  exact WalkerCall.ext htype (h.demandSsi.trans h.longSsi.symm) he hbody

/-- Neither relays an MM body. -/
theorem consumed_of_mm (ht : t = 0 ∨ t = 1)
    (hmm : number (window b ((if opt then 6 else 0) + llcHeaderLen t.toNat) 3) = 1) :
    uldbodConsumed d = { walk := some (uldbodWalk d) } ∧
      lsdsConsumed l = { ack := some (lsdsAck l), walk := some (lsdsWalk l) } := by
  have hdisc : ((uldbodMeta d >>> 6) &&& 0x7 != 2) = true := by
    rw [bne_iff_ne]
    intro he
    have hone := h.metaDisc.trans hmm
    rw [he] at hone
    exact absurd hone (by decide)
  have hlong : (sdsGbits (lsdsBody l) (lsdsMlePos l) 3 == 1) = true := by
    rw [beq_iff_eq, h.longBody, h.lsdsMlePos_eq ht]
    exact (sdsGbits_eq_iff b _ (by decide) 1).2 hmm
  constructor
  · rw [uldbodConsumed, uldbodMsg, decodeSdsReassembled_eq, hdisc, if_pos rfl]
  · rw [lsdsConsumed, hlong, if_pos rfl]

end Presented

/-! ### A U-SDS-DATA -/

/-- Octets that are all there are the same in a larger buffer. -/
theorem sdsOctets_of_le (b : ℕ → Bool) {nbits pos k : ℕ} (h : pos + 8 * k ≤ nbits) :
    sdsOctets b nbits pos k = (List.range k).map fun j ↦ (sdsGbits b (pos + j * 8) 8).toUInt8 := by
  rw [sdsOctets_eq b (by omega), Nat.min_eq_left (by omega)]

/-- A text that fits does not depend on the room for it. -/
theorem sdsText_of_le (octets : List UInt8) {tcap : ℕ} (h : octets.length < tcap) :
    sdsText octets tcap = sdsText octets (octets.length + 1) := by
  have hlen : (octets.dropWhile (!isPrintable ·)).length ≤ octets.length :=
    (List.dropWhile_sublist _).length_le
  rw [sdsText, sdsText, List.take_of_length_le (by omega), List.take_of_length_le (by omega)]

/-- The message of a complete PDU does not depend on what is behind it, nor on the room for it. -/
theorem USdsAt.decode_congr {b : ℕ → Bool} {len n pos cpti udd : ℕ} {u : USds}
    (h : USdsAt b len pos cpti udd u) (hc : u.Complete) (hn : len ≤ n) {md md' : UInt16}
    (hdisc : (md >>> 6) &&& 0x7 = 2) (hdisc' : (md' >>> 6) &&& 0x7 = 2)
    (hpos : sdsCmceStart md = pos + 3) (hpos' : sdsCmceStart md' = pos + 3)
    {tcap tcap' cap cap' : ℕ} (ht : u.lengthInd / 8 ≤ tcap) (ht' : u.lengthInd / 8 ≤ tcap')
    (hcap : u.lengthInd / 8 ≤ cap) (hcap' : u.lengthInd / 8 ≤ cap') :
    decodeSdsReassembled b len md tcap cap = decodeSdsReassembled b n md' tcap' cap' := by
  rw [decodeSdsReassembled_eq, decodeSdsReassembled_eq, hdisc, hdisc', hpos, hpos',
    h.decodeSdsAt_eq (Nat.le_refl _), h.decodeSdsAt_eq hn]
  have hrec := h.length_received
  have hlt := h.lengthInd_lt
  have hmin := h.min
  have hins := h.inside
  have hstart := h.start
  rw [USds.Complete] at hc
  have hli : (sdsGbits b (pos + 14 + addressLen cpti + extensionLen cpti + 2) 11).toUInt16.toNat =
      u.lengthInd := by
    rw [h.sdsGbits_lengthInd, Nat.toUInt16, UInt16.toNat_ofNat']
    omega
  have hudd : pos + 14 + addressLen cpti + extensionLen cpti + 2 + 11 = udd := by omega
  have hoct (m : ℕ) (hm : len ≤ m) : sdsOctets b m udd (u.lengthInd / 8) =
      (List.range (u.lengthInd / 8)).map fun j ↦ (sdsGbits b (udd + j * 8) 8).toUInt8 :=
    sdsOctets_of_le b (by omega)
  have htext (m : ℕ) (hm : len ≤ m) : sdsOctets b m (udd + 8) ((u.lengthInd - 8) / 8) =
      (List.range ((u.lengthInd - 8) / 8)).map fun j ↦
        (sdsGbits b (udd + 8 + j * 8) 8).toUInt8 :=
    sdsOctets_of_le b (by omega)
  simp only [decodeSdsUserData, hli, hudd]
  rw [hoct len (Nat.le_refl _), hoct n hn, htext len (Nat.le_refl _), htext n hn]
  have hlen : ((List.range ((u.lengthInd - 8) / 8)).map fun j ↦
      (sdsGbits b (udd + 8 + j * 8) 8).toUInt8).length = (u.lengthInd - 8) / 8 := by
    rw [List.length_map, List.length_range]
  rw [sdsText_of_le _ (by omega : _ < tcap), sdsText_of_le _ (by omega : _ < tcap'),
    List.take_of_length_le (i := cap) (by rw [List.length_map, List.length_range]; exact hcap),
    List.take_of_length_le (i := cap') (by rw [List.length_map, List.length_range]; exact hcap'),
    if_neg (show ¬ udd + 8 > len by omega), if_neg (show ¬ udd + 8 > n by omega)]

/-- What is read from the data type identifier on. -/
theorem of_decodeSdsUserData {b : ℕ → Bool} {n pos tcap cap : ℕ} {dest : UInt32} {msg : SdsMsg}
    (h : decodeSdsUserData b n pos dest tcap cap = some msg) :
    number (window b pos 2) = 3 ∧ 8 ≤ number (window b (pos + 2) 11) ∧ pos + 13 + 8 ≤ n ∧
      sdsProtocols.contains (number (window b (pos + 13) 8)).toUInt8 = true := by
  rw [decodeSdsUserData] at h
  dsimp only at h
  split_ifs at h with hsdti hli hroom hproto
  have hlt := number_lt (window b (pos + 2) 11)
  have hlt8 := number_lt (window b (pos + 13) 8)
  rw [length_window] at hlt hlt8
  refine ⟨?_, ?_, Nat.not_lt.1 hroom, ?_⟩
  · exact (sdsGbits_eq_iff b _ (by decide) 3).1 (by simpa using hsdti)
  · have hmin : ¬ (sdsGbits b (pos + 2) 11).toUInt16 < 8 := fun hc ↦ hli (by simp [hc])
    rw [UInt16.lt_iff_toNat_lt, UInt32.toNat_toUInt16, toNat_sdsGbits b _ (by decide)] at hmin
    change ¬ _ < 8 at hmin
    omega
  · have hnum : (sdsGbits b (pos + 13) 8).toUInt8 = (number (window b (pos + 13) 8)).toUInt8 := by
      refine UInt8.toNat_inj.1 ?_
      rw [UInt32.toNat_toUInt8, toNat_sdsGbits b _ (by decide), Nat.toUInt8, UInt8.toNat_ofNat']
    rw [← hnum]
    simpa using hproto

/-- What `decode_sds_reassembled` takes for an SDS has the fields of a U-SDS-DATA, of a protocol
that it knows. -/
theorem usdsAt_of_decode {b : ℕ → Bool} {n pos : ℕ} {md : UInt16} {tcap cap : ℕ} {msg : SdsMsg}
    (hpos : sdsCmceStart md = pos + 3) (hdisc : number (window b pos 3) = 2)
    (h : decodeSdsReassembled b n md tcap cap = some msg) :
    ∃ cpti udd u, USdsAt b n pos cpti udd u ∧ u.Known := by
  rw [decodeSdsReassembled_eq, hpos] at h
  split_ifs at h with hmd
  rw [decodeSdsAt] at h
  obtain ⟨hroom, h⟩ := Option.ite_none_left_eq_some.1 h
  obtain ⟨htype, h⟩ := Option.ite_none_left_eq_some.1 h
  obtain ⟨hres, h⟩ := Option.ite_none_left_eq_some.1 h
  dsimp only at h
  rw [show pos + 3 + (5 + 4) = pos + 12 by omega] at h hres
  have hlt := number_lt (window b (pos + 12) 2)
  rw [length_window] at hlt
  have hcpti : sdsGbits b (pos + 12) 2 = (number (window b (pos + 12) 2)).toUInt32 := by
    rw [sdsGbits_eq_iff b _ (by decide), Nat.toUInt32, UInt32.toNat_ofNat']
    omega
  rw [hcpti] at h hres
  generalize hk : number (window b (pos + 12) 2) = cpti at h hres hlt
  obtain ⟨hknown, haddr, hext⟩ : cpti ≠ 3 ∧
      (if cpti.toUInt32 == 1 || cpti.toUInt32 == 2 then 24 else 8) = addressLen cpti ∧
      ∀ p, (if cpti.toUInt32 == 2 then p + 24 else p) = p + extensionLen cpti := by
    obtain rfl | rfl | rfl | rfl : cpti = 0 ∨ cpti = 1 ∨ cpti = 2 ∨ cpti = 3 := by omega
    · exact ⟨by decide, rfl, fun _ ↦ rfl⟩
    · exact ⟨by decide, rfl, fun _ ↦ rfl⟩
    · exact ⟨by decide, rfl, fun _ ↦ rfl⟩
    · exact absurd rfl hres
  rw [haddr, hext] at h
  obtain ⟨hsdti, hmin, hend, hproto⟩ := of_decodeSdsUserData h
  rw [show pos + 12 + 2 = pos + 14 by omega] at hsdti hmin hend hproto
  refine ⟨cpti, pos + 14 + addressLen cpti + extensionLen cpti + 13,
    ⟨number (window b (pos + 14) (addressLen cpti)),
      number (window b (pos + 14 + addressLen cpti + extensionLen cpti + 2) 11),
      window b (pos + 14 + addressLen cpti + extensionLen cpti + 13)
        (n - (pos + 14 + addressLen cpti + extensionLen cpti + 13))⟩,
    ⟨hdisc, ?_, hk, hknown, rfl, rfl, hsdti, rfl, hmin, by omega, rfl⟩, ?_⟩
  · exact (sdsGbits_eq_iff b _ (by decide) 15).1 (by simpa using htype)
  · refine ⟨by rw [length_window]; omega, ?_⟩
    rw [USds.proto, take_window b (by omega)]
    exact hproto

/-- What is read of the PDU in a smaller buffer that has all of it. -/
theorem USdsAt.shrink {b : ℕ → Bool} {n m pos cpti udd : ℕ} {u : USds}
    (h : USdsAt b n pos cpti udd u) (hm : udd + u.lengthInd ≤ m) :
    USdsAt b m pos cpti udd { u with received := window b udd (m - udd) } :=
  { h with inside := by have := h.min; omega, received := rfl }

/-- The SDU is all there: the user data of a U-SDS-DATA that begins with the discriminator at `pos`
end within it. -/
def CompleteSdu (b : ℕ → Bool) (len pos : ℕ) : Prop :=
  ∀ cpti udd u, USdsAt b 147 pos cpti udd u → udd + u.lengthInd ≤ len

/-- The SDU is a U-SDS-DATA of a protocol that the daemon knows. -/
def IsSds (b : ℕ → Bool) (pos : ℕ) : Prop := ∃ cpti udd u, USdsAt b 147 pos cpti udd u ∧ u.Known

/-- The services call the walker with the same, and relay the same. -/
structure Agree (d l : SdsEnv) : Prop where
  walk : (uldbodConsumed d).walk = (lsdsConsumed l).walk
  relay : (uldbodConsumed d).relay = (lsdsConsumed l).relay

namespace Presented

variable {d l : SdsEnv} {b : ℕ → Bool} {len : ℕ} {t : BitVec 4} {opt : Bool} {ssi : UInt32}
  (h : Presented d l b len t opt ssi)
include h

/-- An MM body goes to the walker. -/
theorem agree_iff_of_mm (ht : t = 0 ∨ t = 1)
    (hmm : number (window b ((if opt then 6 else 0) + llcHeaderLen t.toNat) 3) = 1) :
    Agree d l ↔ opt = true ∧ t = 1 := by
  obtain ⟨hshort, hlong⟩ := h.consumed_of_mm ht hmm
  rw [← h.walk_eq_iff ht]
  constructor
  · rintro ⟨hwalk, -⟩
    rw [hshort, hlong] at hwalk
    exact Option.some.inj hwalk
  · intro hwalk
    exact ⟨by rw [hshort, hlong, hwalk], by rw [hshort, hlong]⟩

theorem uldbod_start (ht : t = 0 ∨ t = 1) :
    sdsCmceStart (uldbodMeta d) = (if opt then 6 else 0) + llcHeaderLen t.toNat + 3 := by
  rw [sdsCmceStart, h.metaOpt, h.metaLlc]
  rcases ht with rfl | rfl <;> rfl

/-- The long service takes every LLC PDU for a BL-DATA. -/
theorem lsds_start :
    ∃ md : UInt16, (md >>> 6) &&& 0x7 = 2 ∧ sdsCmceStart md = (if opt then 6 else 0) + 5 + 3 ∧
      lsdsMsg l = decodeSdsReassembled b len md 512 400 := by
  refine ⟨_, ?_, ?_, by rw [lsdsMsg, h.longBody, h.longLen]⟩
  all_goals
    rw [h.longOpt]
    cases opt <;> rfl

/-- What `service_uldbod` makes of a U-SDS-DATA. -/
theorem uldbodConsumed_of_usds (ht : t = 0 ∨ t = 1) {cpti udd : ℕ} {u : USds}
    (hat : USdsAt b 147 ((if opt then 6 else 0) + llcHeaderLen t.toNat) cpti udd u)
    (hknown : u.Known) (hc : udd + u.lengthInd ≤ 147) :
    ∃ msg, uldbodMsg d = some msg ∧
      uldbodConsumed d = { ack := some (uldbodAck d), relay := some msg } := by
  have hdisc : (uldbodMeta d >>> 6) &&& 0x7 = 2 := UInt16.toNat_inj.1 (h.metaDisc.trans hat.disc)
  have hrec := hat.length_received
  have hoct : u.octets = u.lengthInd / 8 := by
    rw [USds.octets]
    omega
  obtain ⟨text, htext⟩ := hat.decode_eq hdisc
    (Nat.add_right_cancel (h.uldbod_start ht)) 64 48
  have hcap : u.octets ≤ 48 := by omega
  have hholds := hat.holds text hcap
  have hfrag : ¬ SdsMsg.FragStart ⟨u.dest.toUInt32, u.proto, u.lengthInd.toUInt16, text,
      (sdsOctets b 147 udd (u.lengthInd / 8)).take 48⟩ := by
    rw [SdsMsg.FragStart, hholds.li, hholds.length, hoct]
    exact lt_irrefl _
  have hmsg : uldbodMsg d = some ⟨u.dest.toUInt32, u.proto, u.lengthInd.toUInt16, text,
      (sdsOctets b 147 udd (u.lengthInd / 8)).take 48⟩ := by
    rw [uldbodMsg, h.demandBody, htext, if_pos hknown]
  refine ⟨_, hmsg, ?_⟩
  rw [uldbodConsumed, hmsg]
  exact if_neg hfrag

theorem lsdsConsumed_of_cmce (ht : t = 0 ∨ t = 1)
    (hcmce : number (window b ((if opt then 6 else 0) + llcHeaderLen t.toNat) 3) = 2) :
    lsdsConsumed l = { ack := some (lsdsAck l), relay := lsdsMsg l } := by
  have hlong : (sdsGbits (lsdsBody l) (lsdsMlePos l) 3 == 1) = false := by
    rw [beq_eq_false_iff_ne, h.longBody, h.lsdsMlePos_eq ht, Ne, sdsGbits_eq_iff b _ (by decide),
      hcmce]
    decide
  rw [lsdsConsumed, hlong, if_neg Bool.false_ne_true]

/-- A CMCE SDU is relayed by both, or neither relayed by both nor walked by both. -/
theorem agree_iff_of_cmce (ht : t = 0 ∨ t = 1)
    (hcmce : number (window b ((if opt then 6 else 0) + llcHeaderLen t.toNat) 3) = 2)
    (hc : CompleteSdu b len ((if opt then 6 else 0) + llcHeaderLen t.toNat)) :
    Agree d l ↔ t = 1 ∧ IsSds b ((if opt then 6 else 0) + llcHeaderLen t.toNat) := by
  have hlsds := h.lsdsConsumed_of_cmce ht hcmce
  obtain ⟨md, hmd, hstart, hmsg⟩ := h.lsds_start
  constructor
  · rintro ⟨hwalk, hrelay⟩
    rw [hlsds] at hwalk hrelay
    cases hdecode : uldbodMsg d with
    | none =>
        rw [uldbodConsumed, hdecode] at hwalk
        exact absurd hwalk (Option.some_ne_none _)
    | some msg =>
        have hfound := hdecode
        rw [uldbodMsg, h.demandBody] at hfound
        obtain ⟨cpti, udd, u, hat, hknown⟩ :=
          usdsAt_of_decode (h.uldbod_start ht) hcmce hfound
        refine ⟨?_, cpti, udd, u, hat, hknown⟩
        obtain ⟨_, -, hul⟩ :=
          h.uldbodConsumed_of_usds ht hat hknown ((hc cpti udd u hat).trans h.le)
        rw [hul, hmsg] at hrelay
        dsimp only at hrelay
        rcases ht with rfl | rfl
        · -- the long service begins one bit early, where no U-SDS-DATA begins
          have hnone : decodeSdsReassembled b len md 512 400 = none :=
            decode_eq_none (Nat.add_right_cancel hstart)
              (fun hp ↦ pduType_unique b _ hp hat.pduType) 512 400
          exact absurd (hrelay.trans hnone) (Option.some_ne_none _)
        · rfl
  · rintro ⟨rfl, cpti, udd, u, hat, hknown⟩
    have hend := hc cpti udd u hat
    have hle := h.le
    have hdisc : (uldbodMeta d >>> 6) &&& 0x7 = 2 :=
      UInt16.toNat_inj.1 (h.metaDisc.trans hat.disc)
    obtain ⟨msg, hdecode, hul⟩ := h.uldbodConsumed_of_usds ht hat hknown (hend.trans hle)
    have hsame : lsdsMsg l = uldbodMsg d := by
      have hcomplete : ({ u with received := window b udd (len - udd) } : USds).Complete := by
        rw [USds.Complete, length_window]
        dsimp only
        omega
      have hpos := hat.start
      rw [hmsg, uldbodMsg, h.demandBody]
      exact (hat.shrink hend).decode_congr hcomplete hle hmd hdisc hstart (h.uldbod_start ht)
        (by dsimp only; omega) (by dsimp only; omega) (by dsimp only; omega) (by dsimp only; omega)
    exact ⟨by rw [hul, hlsds], by rw [hul, hlsds]; exact (hsame.trans hdecode).symm⟩

end Presented

/-- The services agree on an SDS, and acknowledge `N(S)` to the SSI. -/
structure AgreeOnSds (d l : SdsEnv) (ssi : UInt32) (ns : Bool) : Prop extends Agree d l where
  shortAck : (uldbodConsumed d).ack = some { targetSsi := ssi, nr := if ns then 1 else 0 }
  longAck : (lsdsConsumed l).ack = some { targetSsi := ssi, nr := if ns then 1 else 0 }

/-- **On which TM-SDUs the consumers agree**: on mobility management, behind an optional field and
under a BL-DATA; on CMCE, if it is an SDS under a BL-DATA. -/
theorem consumers_agree_iff {d l : SdsEnv} {b : ℕ → Bool} {len : ℕ} {t : BitVec 4} {opt : Bool}
    {ssi : UInt32} (h : Presented d l b len t opt ssi) (ht : t = 0 ∨ t = 1) :
    (number (window b ((if opt then 6 else 0) + llcHeaderLen t.toNat) 3) = 1 →
      (Agree d l ↔ opt = true ∧ t = 1)) ∧
    (number (window b ((if opt then 6 else 0) + llcHeaderLen t.toNat) 3) = 2 →
      CompleteSdu b len ((if opt then 6 else 0) + llcHeaderLen t.toNat) →
      (AgreeOnSds d l ssi (b ((if opt then 6 else 0) + 4)) ↔
        t = 1 ∧ IsSds b ((if opt then 6 else 0) + llcHeaderLen t.toNat))) := by
  constructor
  · exact h.agree_iff_of_mm ht
  · intro hcmce hc
    rw [← h.agree_iff_of_cmce ht hcmce hc]
    refine ⟨AgreeOnSds.toAgree, fun hagree ↦ ⟨hagree, ?_, ?_⟩⟩
    · obtain ⟨rfl, cpti, udd, u, hat, hknown⟩ := (h.agree_iff_of_cmce ht hcmce hc).1 hagree
      obtain ⟨msg, -, hul⟩ :=
        h.uldbodConsumed_of_usds ht hat hknown ((hc cpti udd u hat).trans h.le)
      rw [hul, uldbodAck, h.demandSsi, h.metaNs]
    · rw [h.lsdsConsumed_of_cmce ht hcmce, lsdsAck, h.longSsi, h.longBody, h.longOpt]

/-! ### Bodies -/

/-- 147 bits in the demand mailbox, with metadata. -/
def demandMailbox (md w0 w1 w2 : UInt32) : SdsEnv where
  word i := if i = 0 then md else if i = 1 then 0x123456 else if i = 2 then w0
    else if i = 3 then w1 else if i = 4 then w2 else 0
  registered _ := true

/-- 147 bits in the long-SDS mailbox, behind an optional field or not. -/
def longMailbox (opt w0 w1 w2 : UInt32) : SdsEnv where
  word i := if i = 0 then w0 else if i = 1 then w1 else if i = 2 then w2
    else if i = lsdsIdxSsi then 0x123456 else if i = lsdsIdxLenopt then opt <<< 16 ||| 147 else 0
  registered _ := true

/-- The bodies are the same. -/
theorem body_mailboxes {md opt : UInt32} (w0 w1 w2 : UInt32)
    (hlen : lsdsNbits (longMailbox opt w0 w1 w2) = 147) :
    lsdsBody (longMailbox opt w0 w1 w2) = uldbodBody (demandMailbox md w0 w1 w2) := by
  funext p
  rw [lsdsBody, uldbodBody, hlen]
  by_cases hp : p < 147
  case neg => rw [decide_eq_false hp, Bool.false_and, Bool.false_and]
  refine congrArg (decide (p < 147) && ·) ?_
  by_cases h0 : p < 32
  · rw [if_pos h0, show p / 32 = 0 by omega, show 31 - p % 32 = 31 - p by omega]
    rfl
  · by_cases h1 : p < 64
    · rw [if_neg h0, if_pos h1, show p / 32 = 1 by omega, show 31 - p % 32 = 63 - p by omega]
      rfl
    · by_cases h2 : p < 96
      · rw [if_neg h0, if_neg h1, if_pos h2, show p / 32 = 2 by omega,
          show 31 - p % 32 = 95 - p by omega]
        rfl
      · have hword : (longMailbox opt w0 w1 w2).word (p / 32) = 0 := by
          obtain h3 | h4 : p / 32 = 3 ∨ p / 32 = 4 := by omega
          · rw [h3]
            rfl
          · rw [h4]
            rfl
        rw [if_neg h0, if_neg h1, if_neg h2, hword]
        have hzero (i : ℕ) : (0 : UInt32).toBitVec.getLsbD i = false := BitVec.getLsbD_zero
        split_ifs
        · exact (hzero _).trans (hzero _).symm
        · exact (hzero _).trans (hzero _).symm

/-- A TM-SDU in both, with the metadata that are parsed from it. -/
theorem presented_mailboxes {md opt w0 w1 w2 : UInt32} {t : BitVec 4} {o : Bool}
    (hlong : lsdsNbits (longMailbox opt w0 w1 w2) = 147 ∧ lsdsOpt (longMailbox opt w0 w1 w2) = o)
    (hllc : number (window (uldbodBody (demandMailbox md w0 w1 w2)) (if o then 6 else 0) 4) =
      t.toNat)
    (hmd : let m := uldbodMeta (demandMailbox md w0 w1 w2)
      let b := uldbodBody (demandMailbox md w0 w1 w2)
      (m >>> 2) &&& 0xF = ⟨t.setWidth 16⟩ ∧ ((m &&& 0x1) != 0) = o ∧
        ((m >>> 1) &&& 1).toUInt8 = (if b ((if o then 6 else 0) + 4) then 1 else 0) ∧
        ((m >>> 6) &&& 0x7).toNat =
          number (window b ((if o then 6 else 0) + llcHeaderLen t.toNat) 3) ∧
        ((m >>> 9) &&& 0xF).toNat =
          number (window b ((if o then 6 else 0) + llcHeaderLen t.toNat + 3) 4)) :
    Presented (demandMailbox md w0 w1 w2) (longMailbox opt w0 w1 w2)
      (uldbodBody (demandMailbox md w0 w1 w2)) 147 t o 0x123456 where
  le := le_rfl
  zero p hp := by rw [uldbodBody, decide_eq_false (Nat.not_lt.2 hp), Bool.false_and]
  llc := hllc
  demandBody := rfl
  demandSsi := show (0x123456 : UInt32) &&& 0x00FFFFFF = 0x123456 by decide
  metaLlc := hmd.1
  metaOpt := hmd.2.1
  metaNs := hmd.2.2.1
  metaDisc := hmd.2.2.2.1
  metaType := hmd.2.2.2.2
  longBody := body_mailboxes _ _ _ hlong.1
  longLen := hlong.1
  longOpt := hlong.2
  longSsi := show (0x123456 : UInt32) &&& 0xFFFFFF = 0x123456 by decide

/-- An MM body of ones behind an optional field, under a BL-DATA. -/
theorem presented_mm :
    Presented (demandMailbox 0x447 0x64bfff 0xfc000000 0) (longMailbox 1 0x64bfff 0xfc000000 0)
      (uldbodBody (demandMailbox 0x447 0x64bfff 0xfc000000 0)) 147 1 true 0x123456 :=
  presented_mailboxes (by decide) (by decide) (by decide)

/-- A U-SDS-DATA of two octets under a BL-DATA. -/
theorem presented_sds :
    Presented (demandMailbox 0xe84 0x12782505 0xf2381082 0x41000000)
      (longMailbox 0 0x12782505 0xf2381082 0x41000000)
      (uldbodBody (demandMailbox 0xe84 0x12782505 0xf2381082 0x41000000)) 147 1 false 0x123456 :=
  presented_mailboxes (by decide) (by decide) (by decide)

/-- It is all there. -/
theorem completeSdu_sds :
    CompleteSdu (uldbodBody (demandMailbox 0xe84 0x12782505 0xf2381082 0x41000000)) 147 5 := by
  intro cpti udd u hat
  obtain rfl : 1 = cpti := hat.cptiEq.symm.trans (by decide) |>.symm
  have hli : u.lengthInd = 16 := hat.lengthInd.trans (by decide)
  have hstart : udd = 56 := hat.start
  omega

theorem isSds_sds :
    IsSds (uldbodBody (demandMailbox 0xe84 0x12782505 0xf2381082 0x41000000)) 5 :=
  ⟨1, 56, ⟨2633617, 16, window (uldbodBody (demandMailbox 0xe84 0x12782505 0xf2381082 0x41000000))
    56 91⟩, ⟨by decide, by decide, by decide, by decide, by decide,
      rfl, by decide, by decide, by decide, by decide, rfl⟩, by decide⟩

/-- The consumers agree on both. -/
theorem consumers_agree :
    Agree (demandMailbox 0x447 0x64bfff 0xfc000000 0) (longMailbox 1 0x64bfff 0xfc000000 0) ∧
      AgreeOnSds (demandMailbox 0xe84 0x12782505 0xf2381082 0x41000000)
        (longMailbox 0 0x12782505 0xf2381082 0x41000000) 0x123456
        (uldbodBody (demandMailbox 0xe84 0x12782505 0xf2381082 0x41000000) 4) := by
  obtain ⟨hmm, -⟩ := consumers_agree_iff presented_mm (.inr rfl)
  obtain ⟨-, hsds⟩ := consumers_agree_iff presented_sds (.inr rfl)
  exact ⟨(hmm (by decide)).2 ⟨rfl, rfl⟩,
    (hsds (by decide) completeSdu_sds).2 ⟨rfl, isSds_sds⟩⟩

/-- Behind the optional field of a BL-ADATA the walker gets different bodies of an MM PDU, and the
long service relays nothing of a U-SDS-DATA. -/
theorem consumers_differ :
    Presented (demandMailbox 0x441 0x00125fff 0xfc000000 0) (longMailbox 1 0x00125fff 0xfc000000 0)
        (uldbodBody (demandMailbox 0x441 0x00125fff 0xfc000000 0)) 147 0 true 0x123456 ∧
      (uldbodConsumed (demandMailbox 0x441 0x00125fff 0xfc000000 0)).walk ≠
        (lsdsConsumed (longMailbox 1 0x00125fff 0xfc000000 0)).walk ∧
      Presented (demandMailbox 0xe81 0x0014f04a 0x0be47021 0x04820000)
        (longMailbox 1 0x0014f04a 0x0be47021 0x04820000)
        (uldbodBody (demandMailbox 0xe81 0x0014f04a 0x0be47021 0x04820000)) 147 0 true 0x123456 ∧
      ((uldbodConsumed (demandMailbox 0xe81 0x0014f04a 0x0be47021 0x04820000)).relay).map
        SdsMsg.udd = some [130, 65] ∧
      (lsdsConsumed (longMailbox 1 0x0014f04a 0x0be47021 0x04820000)).relay = none := by
  refine ⟨presented_mailboxes (by decide) (by decide) (by decide), fun h ↦ ?_,
    presented_mailboxes (by decide) (by decide) (by decide), by decide,
    by decide⟩
  have h := congrArg (Option.map fun w ↦ (w.start, w.body 0)) h
  exact absurd h (by decide)

end TetraPhy.Daemon
