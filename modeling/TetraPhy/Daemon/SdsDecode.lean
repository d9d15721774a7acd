import Mathlib.Data.List.TakeWhile
import TetraPhy.Daemon.SdsRelay
import TetraPhy.Sw.SdsDlReceiver

/-!
# Decoding a U-SDS-DATA

A terminal sends a U-SDS-DATA with user-defined data of type 4 and a length indicator, in bits.
`readTlSdu` takes it apart as the terminal wrote it, whether all of its user data arrived or not.
`decode_sds_reassembled` counts in octets: it takes the whole octets that are there.

* `USdsAt` — where the fields of such a PDU are in a buffer;
* **`decode_of_read`** — what the daemon makes of it: a message with the whole octets, if it knows
  the protocol and finds the PDU behind the LLC header, and nothing otherwise.
-/

namespace TetraPhy.Daemon

open Sw Lmac Codec FieldReader

/-! ## What the terminal sent -/

/-- A U-SDS-DATA with user-defined data of type 4: for whom, how long its user data are said to be,
and what was received behind the length indicator. -/
structure USds where
  dest : ℕ
  lengthInd : ℕ
  received : List Bool
deriving DecidableEq, Repr

namespace USds

variable (u : USds)

/-- All of the user data arrived. -/
def Complete : Prop := u.lengthInd ≤ u.received.length

instance : Decidable u.Complete := inferInstanceAs (Decidable (_ ≤ _))

/-- The whole octets of user data that arrived. -/
def octets : ℕ := min (u.lengthInd / 8) (u.received.length / 8)

/-- The protocol identifier, the first octet of the user data. -/
def proto : UInt8 := (number (u.received.take 8)).toUInt8

/-- The protocol identifier arrived, and the daemon takes it for one of an SDS. -/
def Known : Prop := 8 ≤ u.received.length ∧ sdsProtocols.contains u.proto = true

instance : Decidable u.Known := inferInstanceAs (Decidable (_ ∧ _))

end USds

/-- The called party is a short number or an SSI. -/
def addressLen (cpti : ℕ) : ℕ := if cpti = 0 then 8 else 24

/-- An SSI can have an extension behind it. -/
def extensionLen (cpti : ℕ) : ℕ := if cpti = 2 then 24 else 0

/-- The called party. -/
def readAddress (cpti : ℕ) (bits : List Bool) : Option (ℕ × List Bool) :=
  if cpti = 3 then none
  else do
    let (dest, bits) ← readField (addressLen cpti) bits
    let (_extension, bits) ← readField (extensionLen cpti) bits
    some (dest, bits)

/-- A CMCE PDU that is a U-SDS-DATA with user-defined data of type 4. -/
def readUSds (bits : List Bool) : Option USds := do
  let bits ← expect 5 15 bits
  let (_areaSelection, bits) ← readField 4 bits
  let (cpti, bits) ← readField 2 bits
  let (dest, bits) ← readAddress cpti bits
  let bits ← expect 2 3 bits
  let (lengthInd, bits) ← readField 11 bits
  if 8 ≤ lengthInd then some ⟨dest, lengthInd, bits⟩ else none

/-- The header of a basic-link PDU: its type, `N(R)` and `N(S)`, as far as it has them. -/
def llcHeaderLen (llc : ℕ) : ℕ := if llc % 4 = 0 then 6 else if llc % 4 = 2 then 4 else 5

/-- The TL-SDU behind the optional field and the LLC header: a CMCE PDU. -/
def readTlSdu (llc : ℕ) (opt : Bool) (bits : List Bool) : Option USds := do
  let (_header, bits) ← readField ((if opt then 6 else 0) + llcHeaderLen llc) bits
  let bits ← expect 3 2 bits
  readUSds bits

/-! ### Where its fields are -/

/-- The fields of a U-SDS-DATA in a buffer: the discriminator at `pos`, the CMCE PDU behind it, and
the user data from `udd` on. -/
structure USdsAt (b : ℕ → Bool) (nbits pos cpti udd : ℕ) (u : USds) : Prop where
  disc : number (window b pos 3) = 2
  pduType : number (window b (pos + 3) 5) = 15
  cptiEq : number (window b (pos + 12) 2) = cpti
  known : cpti ≠ 3
  dest : u.dest = number (window b (pos + 14) (addressLen cpti))
  start : udd = pos + 14 + addressLen cpti + extensionLen cpti + 13
  sdti : number (window b (pos + 14 + addressLen cpti + extensionLen cpti) 2) = 3
  lengthInd :
    u.lengthInd = number (window b (pos + 14 + addressLen cpti + extensionLen cpti + 2) 11)
  min : 8 ≤ u.lengthInd
  inside : udd ≤ nbits
  received : u.received = window b udd (nbits - udd)

theorem of_readAddress {b : ℕ → Bool} {cpti k m dest : ℕ} {rest : List Bool}
    (h : readAddress cpti (window b k m) = some (dest, rest)) :
    cpti ≠ 3 ∧ addressLen cpti + extensionLen cpti ≤ m ∧
      dest = number (window b k (addressLen cpti)) ∧
      rest = window b (k + addressLen cpti + extensionLen cpti)
        (m - addressLen cpti - extensionLen cpti) := by
  rw [readAddress] at h
  split_ifs at h with hres
  obtain ⟨⟨dest', w1⟩, h1, h⟩ := Option.bind_eq_some_iff.1 h
  obtain ⟨hn1, hdest, rfl⟩ := of_readField_window b h1
  obtain ⟨⟨_, w2⟩, h2, h⟩ := Option.bind_eq_some_iff.1 h
  obtain ⟨hn2, -, rfl⟩ := of_readField_window b h2
  obtain ⟨rfl, rfl⟩ := Prod.mk.inj (Option.some.inj h)
  exact ⟨hres, by omega, hdest.symm, rfl⟩

theorem usdsAt_of_readUSds {b : ℕ → Bool} {k m : ℕ} {u : USds}
    (h : readUSds (window b (k + 3) m) = some u) (hdisc : number (window b k 3) = 2) :
    ∃ cpti udd, USdsAt b (k + 3 + m) k cpti udd u := by
  obtain ⟨w1, h1, h⟩ := Option.bind_eq_some_iff.1 h
  obtain ⟨hn1, htype, rfl⟩ := of_expect_window b h1
  obtain ⟨⟨_, w2⟩, h2, h⟩ := Option.bind_eq_some_iff.1 h
  obtain ⟨hn2, -, rfl⟩ := of_readField_window b h2
  obtain ⟨⟨cpti, w3⟩, h3, h⟩ := Option.bind_eq_some_iff.1 h
  obtain ⟨hn3, hcpti, rfl⟩ := of_readField_window b h3
  obtain ⟨⟨dest, w4⟩, h4, h⟩ := Option.bind_eq_some_iff.1 h
  obtain ⟨hknown, hn4, hdest, rfl⟩ := of_readAddress h4
  obtain ⟨w5, h5, h⟩ := Option.bind_eq_some_iff.1 h
  obtain ⟨hn5, hsdti, rfl⟩ := of_expect_window b h5
  obtain ⟨⟨li, w6⟩, h6, h⟩ := Option.bind_eq_some_iff.1 h
  obtain ⟨hn6, hli, rfl⟩ := of_readField_window b h6
  dsimp only at h
  split_ifs at h with hmin
  obtain rfl := Option.some.inj h
  exact ⟨cpti, k + 14 + addressLen cpti + extensionLen cpti + 13, hdisc, htype, hcpti, hknown,
    hdest,
    rfl, hsdti, hli.symm, hmin, by omega, congrArg (window b _) (by omega)⟩

theorem usdsAt_of_read {b : ℕ → Bool} {nbits llc : ℕ} {opt : Bool} {u : USds}
    (h : readTlSdu llc opt (window b 0 nbits) = some u) :
    ∃ cpti udd, USdsAt b nbits ((if opt then 6 else 0) + llcHeaderLen llc) cpti udd u := by
  rw [readTlSdu] at h
  generalize (if opt then 6 else 0) + llcHeaderLen llc = pos at h ⊢
  obtain ⟨⟨_, w1⟩, h1, h⟩ := Option.bind_eq_some_iff.1 h
  obtain ⟨hn1, -, rfl⟩ := of_readField_window b h1
  obtain ⟨w2, h2, h⟩ := Option.bind_eq_some_iff.1 h
  obtain ⟨hn2, hdisc, rfl⟩ := of_expect_window b h2
  rw [Nat.zero_add] at h hdisc
  obtain ⟨cpti, udd, hat⟩ := usdsAt_of_readUSds h hdisc
  rw [show pos + 3 + (nbits - pos - 3) = nbits by omega] at hat
  exact ⟨cpti, udd, hat⟩

/-! ## What the daemon reads -/

theorem toNat_sdsGbits (b : ℕ → Bool) (pos : ℕ) {n : ℕ} (h : n ≤ 32) :
    (sdsGbits b pos n).toNat = number (window b pos n) :=
  toNat_shiftIn b rfl (fun _ ↦ rfl) h

theorem sdsGbits_eq_iff (b : ℕ → Bool) (pos : ℕ) {n : ℕ} (h : n ≤ 32) (x : UInt32) :
    sdsGbits b pos n = x ↔ number (window b pos n) = x.toNat := by
  rw [← toNat_sdsGbits b pos h]
  exact UInt32.toNat_inj.symm

theorem takeWhile_lt_range (n k : ℕ) :
    (List.range n).takeWhile (fun j ↦ decide (j < k)) = List.range (min n k) := by
  rcases Nat.le_total n k with h | h
  · rw [Nat.min_eq_left h, List.takeWhile_eq_self_iff]
    intro j hj
    exact decide_eq_true ((List.mem_range.1 hj).trans_le h)
  · obtain ⟨r, rfl⟩ := Nat.exists_eq_add_of_le h
    have hall : ∀ j ∈ List.range k, decide (j < k) = true := fun j hj ↦
      decide_eq_true (List.mem_range.1 hj)
    rw [Nat.min_eq_right h, List.range_add, List.takeWhile_append_of_pos hall]
    cases r with
    | zero => simp
    | succ r =>
        rw [List.range_succ_eq_map, List.map_cons, List.takeWhile_cons_of_neg (by simp),
          List.append_nil]

/-- The octets are as many as are there. -/
theorem sdsOctets_eq (b : ℕ → Bool) {nbits pos : ℕ} (h : pos ≤ nbits) (n : ℕ) :
    sdsOctets b nbits pos n = (List.range (min n ((nbits - pos) / 8))).map
      fun j ↦ (sdsGbits b (pos + j * 8) 8).toUInt8 := by
  have hcond : (fun j ↦ decide (pos + j * 8 + 8 ≤ nbits)) =
      fun j ↦ decide (j < (nbits - pos) / 8) := by
    funext j
    exact decide_eq_decide.2 (by omega)
  rw [sdsOctets, hcond, takeWhile_lt_range]

theorem putBits_octet (b : ℕ → Bool) (pos : ℕ) :
    putBits (sdsGbits b pos 8).toUInt8.toUInt32 8 = window b pos 8 := by
  refine number_inj (by rw [length_putBits, length_window]) ?_
  have hlt : number (window b pos 8) < 2 ^ 8 := by
    have h := number_lt (window b pos 8)
    rwa [length_window] at h
  rw [number_putBits _ (by decide), UInt8.toNat_toUInt32, UInt32.toNat_toUInt8,
    toNat_sdsGbits b pos (by decide), Nat.mod_mod, Nat.mod_eq_of_lt hlt]

/-- Written as bits again, they are the bits that they were read from. -/
theorem flatMap_sdsOctets (b : ℕ → Bool) {nbits pos : ℕ} (h : pos ≤ nbits) (n : ℕ) :
    (sdsOctets b nbits pos n).flatMap (fun o ↦ putBits o.toUInt32 8) =
      window b pos (8 * min n ((nbits - pos) / 8)) := by
  rw [sdsOctets_eq b h, List.flatMap_map]
  simp only [putBits_octet]
  rw [flatMap_window, Nat.mul_comm]

/-- `decode_sds_reassembled` from the CMCE PDU on, which is at `pos`. -/
def decodeSdsAt (body : ℕ → Bool) (nbits pos tcap rawUddCap : ℕ) : Option SdsMsg :=
  if pos + 9 > nbits then none
  else if sdsGbits body pos 5 != 15 then none
  else
    let pos := pos + (5 + 4)
    let cpti := sdsGbits body pos 2
    let pos := pos + 2
    if cpti == 3 then none
    else
      let addrLen := if cpti == 1 || cpti == 2 then 24 else 8
      let dest := sdsGbits body pos addrLen
      let pos := pos + addrLen
      let pos := if cpti == 2 then pos + 24 else pos
      decodeSdsUserData body nbits pos dest tcap rawUddCap

/-- The bit `decode_sds_reassembled` takes for the first one of the CMCE PDU. -/
def sdsCmceStart (md : UInt16) : ℕ :=
  (if md &&& 0x1 != 0 then 6 else 0) + llcHdrLen ((md >>> 2) &&& 0xF) + 3

/-- It parses from there on. -/
theorem decodeSdsReassembled_eq (body : ℕ → Bool) (nbits : ℕ) (md : UInt16) (tcap cap : ℕ) :
    decodeSdsReassembled body nbits md tcap cap =
      if (md >>> 6) &&& 0x7 != 2 then none
      else decodeSdsAt body nbits (sdsCmceStart md) tcap cap := rfl

namespace USdsAt

variable {b : ℕ → Bool} {nbits pos cpti udd : ℕ} {u : USds} (h : USdsAt b nbits pos cpti udd u)
include h

theorem length_received : u.received.length = nbits - udd := by
  rw [h.received, length_window]

theorem length_sdsOctets : (sdsOctets b nbits udd (u.lengthInd / 8)).length = u.octets := by
  rw [sdsOctets_eq b h.inside, List.length_map, List.length_range, USds.octets, h.length_received]

/-- The octets are the first ones of the user data. -/
theorem bits_sdsOctets :
    (sdsOctets b nbits udd (u.lengthInd / 8)).flatMap (fun o ↦ putBits o.toUInt32 8) =
      u.received.take (8 * u.octets) := by
  have hle : 8 * u.octets ≤ nbits - udd := by
    rw [USds.octets, h.length_received]
    omega
  rw [flatMap_sdsOctets b h.inside, h.received, take_window b hle, USds.octets, h.length_received]

theorem sdsGbits_dest : sdsGbits b (pos + 14) (addressLen cpti) = u.dest.toUInt32 := by
  have hlen : addressLen cpti ≤ 24 := by
    rw [addressLen]
    split_ifs <;> omega
  have hlt := number_lt (window b (pos + 14) (addressLen cpti))
  have hpow : 2 ^ addressLen cpti ≤ 2 ^ 24 := Nat.pow_le_pow_right Nat.zero_lt_two hlen
  rw [length_window] at hlt
  rw [sdsGbits_eq_iff b _ (by omega), ← h.dest, Nat.toUInt32, UInt32.toNat_ofNat']
  exact (Nat.mod_eq_of_lt (by rw [h.dest]; omega)).symm

theorem sdsGbits_lengthInd :
    (sdsGbits b (pos + 14 + addressLen cpti + extensionLen cpti + 2) 11).toUInt16 =
      u.lengthInd.toUInt16 := by
  refine UInt16.toNat_inj.1 ?_
  rw [UInt32.toNat_toUInt16, toNat_sdsGbits b _ (by decide), ← h.lengthInd, Nat.toUInt16,
    UInt16.toNat_ofNat']

theorem lengthInd_lt : u.lengthInd < 2048 := by
  have hlt := number_lt (window b (pos + 14 + addressLen cpti + extensionLen cpti + 2) 11)
  rw [length_window] at hlt
  rw [h.lengthInd]
  exact hlt

/-- What the daemon makes of the PDU from the data type identifier on. -/
theorem decodeSdsUserData_eq (dest : UInt32) (tcap cap : ℕ) :
    ∃ text, decodeSdsUserData b nbits (pos + 14 + addressLen cpti + extensionLen cpti) dest
        tcap cap =
      if u.Known then
        some ⟨dest, u.proto, u.lengthInd.toUInt16, text,
          (sdsOctets b nbits udd (u.lengthInd / 8)).take cap⟩
      else none := by
  have hli := h.sdsGbits_lengthInd
  have hlt := h.lengthInd_lt
  have hmin := h.min
  have hnat : u.lengthInd.toUInt16.toNat = u.lengthInd := by
    rw [Nat.toUInt16, UInt16.toNat_ofNat']
    omega
  have hsdti : sdsGbits b (pos + 14 + addressLen cpti + extensionLen cpti) 2 = 3 :=
    (sdsGbits_eq_iff b _ (by decide) 3).2 h.sdti
  have hrange :
      (decide (u.lengthInd.toUInt16 < 8) || decide (u.lengthInd.toUInt16 > 2047)) = false := by
    rw [Bool.or_eq_false_iff, decide_eq_false_iff_not, decide_eq_false_iff_not, gt_iff_lt,
      UInt16.not_lt, UInt16.not_lt, UInt16.le_iff_toNat_le, UInt16.le_iff_toNat_le, hnat]
    exact ⟨hmin, by change u.lengthInd ≤ 2047; omega⟩
  have hudd : pos + 14 + addressLen cpti + extensionLen cpti + 2 + 11 = udd := h.start.symm
  have hroom : udd + 8 ≤ nbits ↔ 8 ≤ u.received.length := by
    have := h.inside
    rw [h.length_received]
    omega
  have hproto : 8 ≤ u.received.length → (sdsGbits b udd 8).toUInt8 = u.proto := by
    intro h8
    refine UInt8.toNat_inj.1 ?_
    rw [UInt32.toNat_toUInt8, toNat_sdsGbits b _ (by decide), USds.proto, Nat.toUInt8,
      UInt8.toNat_ofNat', h.received, take_window b (by rwa [h.length_received] at h8)]
  rw [decodeSdsUserData]
  dsimp only
  rw [hsdti, if_neg (by decide), hli, hrange, if_neg Bool.false_ne_true, hudd, hnat]
  by_cases h8 : 8 ≤ u.received.length
  · rw [if_neg (by have := hroom.2 h8; omega), hproto h8]
    by_cases hk : sdsProtocols.contains u.proto = true
    · exact ⟨_, by rw [if_neg (by rw [hk]; decide), if_pos ⟨h8, hk⟩]⟩
    · refine ⟨[], ?_⟩
      rw [if_pos (by simpa using hk), if_neg (fun hknown ↦ hk hknown.2)]
  · refine ⟨[], ?_⟩
    rw [if_pos (by have := mt hroom.1 h8; omega), if_neg (fun hknown ↦ h8 hknown.1)]

/-- Where the daemon looks for the PDU at the right place, it comes to its data type identifier. -/
theorem decodeSdsAt_eq {n : ℕ} (hn : nbits ≤ n) (tcap cap : ℕ) :
    decodeSdsAt b n (pos + 3) tcap cap =
      decodeSdsUserData b n (pos + 14 + addressLen cpti + extensionLen cpti) u.dest.toUInt32
        tcap cap := by
  have hroom : ¬ pos + 3 + 9 > n := by
    have := h.inside
    have := h.start
    omega
  have htype : sdsGbits b (pos + 3) 5 = 15 := (sdsGbits_eq_iff b _ (by decide) 15).2 h.pduType
  have hlt : cpti < 4 := by
    have hlt := number_lt (window b (pos + 12) 2)
    rwa [length_window, h.cptiEq] at hlt
  have hcpti : sdsGbits b (pos + 12) 2 = cpti.toUInt32 := by
    rw [sdsGbits_eq_iff b _ (by decide), h.cptiEq, Nat.toUInt32, UInt32.toNat_ofNat']
    omega
  have hread := h.known
  obtain ⟨hres, haddr, hext⟩ : (cpti.toUInt32 == 3) = false ∧
      (if cpti.toUInt32 == 1 || cpti.toUInt32 == 2 then 24 else 8) = addressLen cpti ∧
      ∀ p, (if cpti.toUInt32 == 2 then p + 24 else p) = p + extensionLen cpti := by
    obtain rfl | rfl | rfl : cpti = 0 ∨ cpti = 1 ∨ cpti = 2 := by omega
    all_goals exact ⟨rfl, rfl, fun _ ↦ rfl⟩
  rw [decodeSdsAt]
  dsimp only
  rw [if_neg hroom, htype, if_neg (by decide),
    show pos + 3 + (5 + 4) = pos + 12 by omega, hcpti, show pos + 12 + 2 = pos + 14 by omega,
    if_neg (by rw [hres]; decide), haddr, hext, h.sdsGbits_dest]

/-- What the daemon makes of the PDU there. -/
theorem decode_eq {md : UInt16} (hdisc : (md >>> 6) &&& 0x7 = 2)
    (hpos : (if (md &&& 0x1) != 0 then 6 else 0) + llcHdrLen ((md >>> 2) &&& 0xF) = pos)
    (tcap cap : ℕ) :
    ∃ text, decodeSdsReassembled b nbits md tcap cap =
      if u.Known then
        some ⟨u.dest.toUInt32, u.proto, u.lengthInd.toUInt16, text,
          (sdsOctets b nbits udd (u.lengthInd / 8)).take cap⟩
      else none := by
  obtain ⟨text, htext⟩ := h.decodeSdsUserData_eq u.dest.toUInt32 tcap cap
  refine ⟨text, ?_⟩
  rw [decodeSdsReassembled_eq, hdisc, if_neg (by decide), sdsCmceStart, hpos,
    h.decodeSdsAt_eq (Nat.le_refl _)]
  exact htext

end USdsAt

/-! ### Looking at the wrong place -/

/-- A U-SDS-DATA does not begin at two neighbouring bits. -/
theorem pduType_unique (b : ℕ → Bool) (k : ℕ) (h : number (window b k 5) = 15) :
    number (window b (k + 1) 5) ≠ 15 := by
  have hbits : ∀ j, number (window b j 5) = 15 →
      window b j 5 = [false, true, true, true, true] := fun j hj ↦
    number_inj (length_window b j 5) hj
  intro hnext
  have hone : b (k + 1) = true := by
    have := congrArg (·[1]?) (hbits k h)
    simpa [window] using this
  have hzero : b (k + 1) = false := by
    have := congrArg (·[0]?) (hbits (k + 1) hnext)
    simpa [window] using this
  exact Bool.false_ne_true (hzero.symm.trans hone)

/-- The daemon finds no SDS where there is no U-SDS-DATA. -/
theorem decode_eq_none {b : ℕ → Bool} {nbits pos : ℕ} {md : UInt16}
    (hpos : (if (md &&& 0x1) != 0 then 6 else 0) + llcHdrLen ((md >>> 2) &&& 0xF) = pos)
    (h : number (window b (pos + 3) 5) ≠ 15) (tcap cap : ℕ) :
    decodeSdsReassembled b nbits md tcap cap = none := by
  have htype : (sdsGbits b (pos + 3) 5 != 15) = true := by
    rw [bne_iff_ne, Ne, sdsGbits_eq_iff b _ (by decide)]
    exact h
  rw [decodeSdsReassembled]
  dsimp only
  rw [hpos, htype, if_pos rfl, ite_self, ite_self]

/-- The message is the PDU as far as its whole octets arrived. -/
structure Holds (u : USds) (msg : SdsMsg) : Prop where
  dest : msg.dest = u.dest.toUInt32
  li : msg.li.toNat = u.lengthInd
  length : msg.udd.length = u.octets
  bits : msg.udd.flatMap (fun o ↦ putBits o.toUInt32 8) = u.received.take (8 * u.octets)

/-- The daemon takes the PDU for an SDS: it knows the protocol, and it takes the LLC header to be
as long as it is. -/
def USds.Taken (u : USds) (llc hdr : ℕ) : Prop := u.Known ∧ llcHeaderLen llc = hdr

instance (u : USds) (llc hdr : ℕ) : Decidable (u.Taken llc hdr) :=
  inferInstanceAs (Decidable (_ ∧ _))

theorem USdsAt.holds {b : ℕ → Bool} {nbits pos cpti udd : ℕ} {u : USds}
    (h : USdsAt b nbits pos cpti udd u) (text : List UInt8) {cap : ℕ} (hcap : u.octets ≤ cap) :
    Holds u ⟨u.dest.toUInt32, u.proto, u.lengthInd.toUInt16, text,
      (sdsOctets b nbits udd (u.lengthInd / 8)).take cap⟩ where
  dest := rfl
  li := by
    have hlt := h.lengthInd_lt
    change u.lengthInd.toUInt16.toNat = u.lengthInd
    rw [Nat.toUInt16, UInt16.toNat_ofNat']
    omega
  length := by rw [List.length_take, h.length_sdsOctets, Nat.min_eq_right hcap]
  bits := by rw [List.take_of_length_le (h.length_sdsOctets.trans_le hcap), h.bits_sdsOctets]

theorem llcHeaderLen_cases (llc : ℕ) :
    llcHeaderLen llc = 4 ∨ llcHeaderLen llc = 5 ∨ llcHeaderLen llc = 6 := by
  rw [llcHeaderLen]
  split_ifs <;> omega

/-- **What `decode_sds_reassembled` makes of a U-SDS-DATA.**  It takes the LLC header to be as long
as it is, or to have five bits. -/
theorem decode_of_read {b : ℕ → Bool} {nbits llc : ℕ} {opt : Bool} {u : USds} {md : UInt16}
    (hread : readTlSdu llc opt (window b 0 nbits) = some u) (hdisc : (md >>> 6) &&& 0x7 = 2)
    (hopt : ((md &&& 0x1) != 0) = opt)
    (hhdr : llcHdrLen ((md >>> 2) &&& 0xF) = llcHeaderLen llc ∨ llcHdrLen ((md >>> 2) &&& 0xF) = 5)
    (tcap : ℕ) {cap : ℕ} (hcap : u.octets ≤ cap) :
    ∃ msg, Holds u msg ∧ decodeSdsReassembled b nbits md tcap cap =
      if u.Taken llc (llcHdrLen ((md >>> 2) &&& 0xF)) then some msg else none := by
  obtain ⟨cpti, udd, hat⟩ := usdsAt_of_read hread
  by_cases heq : llcHeaderLen llc = llcHdrLen ((md >>> 2) &&& 0xF)
  · obtain ⟨text, htext⟩ := hat.decode_eq hdisc (by rw [hopt, heq]) tcap cap
    refine ⟨_, hat.holds text hcap, ?_⟩
    rw [htext]
    exact if_congr (by rw [USds.Taken, and_iff_left heq]) rfl rfl
  · -- The header has four bits or six, and the daemon reads one bit late or early.
    refine ⟨_, hat.holds [] hcap, ?_⟩
    have htype := hat.pduType
    have hfive := hhdr.resolve_left (fun he ↦ heq he.symm)
    rw [if_neg (fun ht : u.Taken _ _ ↦ heq ht.2)]
    refine decode_eq_none rfl ?_ tcap cap
    rw [hopt, hfive]
    obtain hl | hl : llcHeaderLen llc = 4 ∨ llcHeaderLen llc = 6 := by
      have := llcHeaderLen_cases llc
      omega
    · rw [hl] at htype
      exact pduType_unique b _ htype
    · rw [hl] at htype
      exact fun hc ↦ pduType_unique b _ hc htype

end TetraPhy.Daemon
