import TetraPhy.Lib.BitField
import TetraPhy.Lib.FieldReader
import TetraPhy.Sw.SdsDlFrag
import TetraPhy.Sw.UlRxMailbox

/-!
# The receiver of a fragmented SDS

A terminal that listens to the chain of `tetra_sds_dl_build_fragments`.  In each block it strips
the header; it cuts a MAC-END at its length indication; where, and only where, the fill-bit
indication is set it takes the fill bits off; and it joins what is left.

**`delivered_iff`**: for 1 to 120 octets it receives the TM-SDU exactly from 16 octets on.  A
TM-SDU that does not fill the first block stands there without fill bits and without their
indication, so that the zeros behind it are taken for bits of it.
-/

namespace TetraPhy.Sw

open BitField FieldReader

/-! ## Reading -/

/-- A MAC-RESOURCE header: the fill-bit indication, the length indication, the SSI, and what
follows. -/
def readMacResource (bits : List Bool) : Option (ℕ × ℕ × ℕ × List Bool) := do
  let bits ← expect 2 0 bits
  let (fill, bits) ← readField 1 bits
  let (_positionOfGrant, bits) ← readField 1 bits
  let (_encryptionMode, bits) ← readField 2 bits
  let (_randomAccess, bits) ← readField 1 bits
  let (lengthInd, bits) ← readField 6 bits
  let bits ← expect 3 1 bits
  let (ssi, bits) ← readField 24 bits
  let bits ← expect 1 0 bits
  let bits ← expect 1 0 bits
  let bits ← expect 1 0 bits
  some (fill, lengthInd, ssi, bits)

/-- The bits of a PDU without its fill bits. -/
def payloadOf (fill : ℕ) (bits : List Bool) : List Bool := if fill = 1 then unfill bits else bits

/-- A received chain: whom the BL-ACK of the first block is for and what it acknowledges, whom the
fragments are for, and what they carry. -/
structure SdsReception where
  ackSsi : ℕ
  ackNr : ℕ
  destSsi : ℕ
  tmSdu : List Bool
deriving DecidableEq, Repr

/-- The first block: a BL-ACK, and behind its length indication a fragmentation start. -/
def receiveFirst (info : List Bool) : Option SdsReception := do
  let (_, lengthInd, ackSsi, bits) ← readMacResource info
  let bits ← expect 4 3 bits
  let (nr, _) ← readField 1 bits
  let (fill, start, destSsi, payload) ← readMacResource (info.drop (8 * lengthInd))
  if start = 63 then some ⟨ackSsi, nr, destSsi, payloadOf fill payload⟩ else none

/-- A block behind the first: whether it is the MAC-END, and what it carries. -/
def receiveCont (info : List Bool) : Option (Bool × List Bool) := do
  let bits ← expect 2 1 info
  let (subtype, bits) ← readField 1 bits
  let (fill, bits) ← readField 1 bits
  if subtype = 0 then some (false, payloadOf fill bits)
  else
    let (_positionOfGrant, bits) ← readField 1 bits
    let (lengthInd, bits) ← readField 6 bits
    let (slotGranting, bits) ← readField 1 bits
    let (_slotGrant, bits) ← readField (if slotGranting = 1 then 8 else 0) bits
    let bits ← expect 1 0 bits
    some (true, payloadOf fill (bits.take (8 * lengthInd - (info.length - bits.length))))

/-- Zero or more MAC-FRAG and one MAC-END. -/
def receiveRest : List (List Bool) → Option (List Bool)
  | [] => none
  | info :: blocks => do
    let (isEnd, bits) ← receiveCont info
    if isEnd then if blocks.isEmpty then some bits else none
    else (receiveRest blocks).map (bits ++ ·)

/-- The whole chain. -/
def receiveChain : List (List Bool) → Option SdsReception
  | [] => none
  | info :: blocks => do
    let first ← receiveFirst info
    let rest ← receiveRest blocks
    some { first with tmSdu := first.tmSdu ++ rest }

/-- A D-SDS-DATA with user-defined data of type 4. -/
structure DSdsData where
  callingSsi : ℕ
  lengthInd : ℕ
  udd : List Bool
deriving DecidableEq, Repr

/-- Take a D-SDS-DATA apart; it ends with the o-bit. -/
def readDSdsData (bits : List Bool) : Option DSdsData := do
  let bits ← expect 5 15 bits
  let bits ← expect 2 1 bits
  let (callingSsi, bits) ← readField 24 bits
  let bits ← expect 2 3 bits
  let (lengthInd, bits) ← readField 11 bits
  if bits.drop lengthInd = [false] then some ⟨callingSsi, lengthInd, bits.take lengthInd⟩ else none

/-- Take a TM-SDU apart: a BL-DATA with its `N(S)`, and a D-SDS-DATA in it. -/
def readTmSdu (bits : List Bool) : Option (ℕ × DSdsData) := do
  let bits ← expect 4 1 bits
  let (ns, bits) ← readField 1 bits
  let bits ← expect 3 2 bits
  let pdu ← readDSdsData bits
  some (ns, pdu)

/-! ## Fields of the sender -/

/-- Reading on behind a field of the sender. -/
theorem readField_bind {α : Type*} (v : UInt32) {n : ℕ} (h : n ≤ 32) (rest : List Bool)
    (f : ℕ × List Bool → Option α) :
    (readField n (putBits v n ++ rest)).bind f = f (v.toNat % 2 ^ n, rest) := by
  rw [readField_append (length_putBits v n), number_putBits v h, Option.bind_some]

theorem expect_bind {α : Type*} (v : UInt32) {n x : ℕ} (h : n ≤ 32) (hx : v.toNat % 2 ^ n = x)
    (rest : List Bool) (f : List Bool → Option α) :
    (expect n x (putBits v n ++ rest)).bind f = f rest := by
  rw [expect_append (length_putBits v n) ((number_putBits v h).trans hx), Option.bind_some]

theorem toNat_ssi_mod (ssi : UInt32) :
    (ssi &&& 0x00FFFFFF).toNat % 2 ^ 24 = (ssi &&& 0x00FFFFFF).toNat := by
  rw [toNat_and_mask ssi 0x00FFFFFF (k := 24) rfl, Nat.mod_mod]

theorem toNat_flag_mod (flag : UInt8) :
    (flag &&& 1).toUInt32.toNat % 2 ^ 1 = (flag &&& 1).toNat := by
  rw [UInt8.toNat_toUInt32, UInt8.toNat_and]
  exact Nat.mod_eq_of_lt (Nat.lt_succ_of_le Nat.and_le_right)

/-! ## What each PDU reads as -/

theorem readMacResource_append (lengthInd ssi : UInt32) (rest : List Bool) :
    readMacResource (sdsMacResource lengthInd ssi ++ rest) =
      some (0, lengthInd.toNat % 64, (ssi &&& 0x00FFFFFF).toNat, rest) := by
  simp only [sdsMacResource, List.append_assoc, readMacResource]
  simp (disch := decide) only [↓Option.bind_eq_bind, ↓readField_bind, ↓expect_bind, toNat_ssi_mod]
  rfl

theorem readDSdsData_build (callingSsi : UInt32) {udd : List UInt8} (h : udd.length ≤ 120) :
    readDSdsData (buildCmceDSdsData callingSsi udd) =
      some ⟨(callingSsi &&& 0x00FFFFFF).toNat, 8 * udd.length,
        udd.flatMap fun b ↦ putBits b.toUInt32 8⟩ := by
  have hlen := length_flatMap_octets udd fun b ↦ b.toUInt32
  have hli : ((udd.length * 8).toUInt32 &&& 0x7FF).toNat % 2 ^ 11 = 8 * udd.length := by
    rw [toNat_and_mask _ _ (k := 11) rfl, Nat.mod_mod, Nat.toUInt32, UInt32.toNat_ofNat']
    omega
  simp only [buildCmceDSdsData, List.append_assoc, readDSdsData]
  simp (disch := decide) only [↓Option.bind_eq_bind, ↓readField_bind, ↓expect_bind,
    toNat_ssi_mod, hli]
  rw [← hlen, List.drop_left, List.take_left]
  rfl

theorem readTmSdu_sdsTmSdu (callingSsi : UInt32) (ns : UInt8) {udd : List UInt8}
    (h : udd.length ≤ 120) :
    readTmSdu (sdsTmSdu callingSsi ns udd) =
      some ((ns &&& 1).toNat, ⟨(callingSsi &&& 0x00FFFFFF).toNat, 8 * udd.length,
        udd.flatMap fun b ↦ putBits b.toUInt32 8⟩) := by
  simp only [sdsTmSdu, List.append_assoc, readTmSdu]
  simp (disch := decide) only [↓Option.bind_eq_bind, ↓readField_bind, ↓expect_bind,
    toNat_flag_mod, readDSdsData_build callingSsi h]
  rfl

theorem SdsFrag.info_eq {f : SdsFrag} {n : ℕ}
    (h : f.header.length + f.payload.length + f.fill.length + n = 268) :
    f.info = f.header ++ (f.payload ++ (f.fill ++ List.replicate n false)) := by
  have hroom : schfInfoBits = (f.header ++ f.payload ++ f.fill).length + n := by
    simp only [List.length_append, schfInfoBits]
    exact h.symm
  rw [info, hroom, List.take_length_add_append, List.take_replicate, Nat.min_eq_left (by omega)]
  simp only [List.append_assoc]

/-- The first block gives 177 bits, whatever the TM-SDU has left of them. -/
theorem receiveFirst_info (destSsi callingSsi : UInt32) (nr : UInt8) (tm : List Bool) :
    receiveFirst (sdsFragStart destSsi callingSsi nr tm).info =
      some ⟨(callingSsi &&& 0x00FFFFFF).toNat, (nr &&& 1).toNat, (destSsi &&& 0x00FFFFFF).toNat,
        tm.take 177 ++ List.replicate (177 - tm.length) false⟩ := by
  have hinfo : (sdsFragStart destSsi callingSsi nr tm).info =
      (sdsMacResource 6 callingSsi ++ (putBits 3 4 ++ putBits (nr &&& 1).toUInt32 1)) ++
        (sdsMacResource 63 destSsi ++
          (tm.take 177 ++ List.replicate (177 - tm.length) false)) := by
    rw [SdsFrag.info_eq (n := 177 - tm.length) (by
      simp only [sdsFragStart, List.length_append, length_sdsMacResource, length_putBits,
        List.length_take, List.length_nil]
      omega)]
    simp only [sdsFragStart, List.append_assoc, List.nil_append]
  have hdrop : (sdsFragStart destSsi callingSsi nr tm).info.drop (8 * 6) =
      sdsMacResource 63 destSsi ++ (tm.take 177 ++ List.replicate (177 - tm.length) false) := by
    rw [hinfo]
    refine List.drop_left' ?_
    simp only [List.length_append, length_sdsMacResource, length_putBits]
  have hack : readMacResource (sdsFragStart destSsi callingSsi nr tm).info = some (0, 6,
      (callingSsi &&& 0x00FFFFFF).toNat, putBits 3 4 ++ (putBits (nr &&& 1).toUInt32 1 ++
        (sdsMacResource 63 destSsi ++
          (tm.take 177 ++ List.replicate (177 - tm.length) false)))) := by
    rw [hinfo, List.append_assoc, List.append_assoc, readMacResource_append]
    rfl
  rw [receiveFirst, hack]
  simp (disch := decide) only [↓Option.bind_eq_bind, ↓Option.bind_some, ↓readField_bind,
    ↓expect_bind, toNat_flag_mod, hdrop, readMacResource_append]
  rfl

/-- A MAC-FRAG gives what it carries, with fill bits and without. -/
theorem receiveCont_mid (rest : List Bool) :
    receiveCont (sdsFragMid rest).info = some (false, rest.take 264) := by
  by_cases hfull : rest.length < 264
  · have hinfo : (sdsFragMid rest).info = putBits 1 2 ++ (putBits 0 1 ++ (putBits 1 1 ++
        (rest ++ true :: List.replicate (263 - rest.length) false))) := by
      rw [SdsFrag.info_eq (n := 263 - rest.length) (by
        simp only [sdsFragMid, if_pos hfull, List.length_append, length_putBits, List.length_take]
        omega)]
      simp only [sdsFragMid, if_pos hfull, List.append_assoc,
        List.take_of_length_le (Nat.le_of_lt hfull)]
      rfl
    rw [hinfo, receiveCont]
    simp (disch := decide) only [↓Option.bind_eq_bind, ↓readField_bind, ↓expect_bind]
    rw [List.take_of_length_le (Nat.le_of_lt hfull)]
    exact congrArg (fun p ↦ some (false, p)) (unfill_append rest _)
  · have hinfo : (sdsFragMid rest).info = putBits 1 2 ++ (putBits 0 1 ++ (putBits 0 1 ++
        rest.take 264)) := by
      rw [SdsFrag.info_eq (n := 0) (by
        simp only [sdsFragMid, if_neg hfull, List.length_append, length_putBits, List.length_take,
          List.length_nil]
        omega)]
      simp only [sdsFragMid, if_neg hfull, List.append_assoc, List.replicate_zero,
        List.append_nil]
    rw [hinfo, receiveCont]
    simp (disch := decide) only [↓Option.bind_eq_bind, ↓readField_bind, ↓expect_bind]
    rfl

/-- A MAC-END whose last octet has room for the one that starts the fill bits. -/
theorem receiveCont_end {rest : List Bool} (h : rest.length ≤ 247) (hoct : rest.length % 8 = 4) :
    receiveCont (sdsFragEnd rest).info = some (true, rest) := by
  obtain ⟨liOct, hli⟩ : ∃ liOct, liOct = (21 + rest.length + 7) / 8 := ⟨_, rfl⟩
  have hfill : 21 + rest.length < liOct * 8 := by omega
  have hmod : (liOct.toUInt32 &&& 0x3F).toNat % 2 ^ 6 = liOct := by
    rw [toNat_and_mask liOct.toUInt32 0x3F (k := 6) rfl, Nat.mod_mod, Nat.toUInt32,
      UInt32.toNat_ofNat']
    omega
  have hinfo : expect 2 1 (sdsFragEnd rest).info = some (putBits 1 1 ++ (putBits 1 1 ++
      (putBits 0 1 ++ (putBits (liOct.toUInt32 &&& 0x3F) 6 ++ (putBits 1 1 ++ (putBits 0 8 ++
        (putBits 0 1 ++ (rest ++ true :: List.replicate (246 - rest.length) false)))))))) := by
    rw [SdsFrag.info_eq (n := 246 - rest.length) (by
      simp only [sdsFragEnd, ← hli, if_pos hfill, sdsEndHeader, List.length_append, length_putBits]
      omega)]
    simp only [sdsFragEnd, ← hli, if_pos hfill, sdsEndHeader, List.append_assoc]
    exact expect_append (length_putBits 1 2) (number_putBits 1 (by decide)) _
  -- The length indication can say 34 octets, four bits more than the block has.
  have hcut : (rest ++ true :: List.replicate (246 - rest.length) false).take (8 * liOct - 21) =
      rest ++ true ::
        List.replicate (min (8 * liOct - 22 - rest.length) (246 - rest.length)) false := by
    rw [List.take_append, List.take_of_length_le (by omega),
      show 8 * liOct - 21 - rest.length = 8 * liOct - 22 - rest.length + 1 by omega,
      List.take_succ_cons, List.take_replicate]
  have hbits : 268 - (rest ++ true :: List.replicate (246 - rest.length) false).length = 21 := by
    simp only [List.length_append, List.length_cons, List.length_replicate]
    omega
  have hone : UInt32.toNat 1 % 2 ^ 1 = 1 := rfl
  rw [receiveCont, hinfo, SdsFrag.length_info]
  simp (disch := decide) only [↓Option.bind_eq_bind, ↓Option.bind_some, ↓readField_bind,
    ↓expect_bind, hmod, hone, if_neg, if_true, hbits, hcut]
  rw [payloadOf, if_pos rfl, unfill_append]

theorem receiveCont_empty :
    receiveCont (SdsFrag.info ⟨sdsEndHeader 3, [], []⟩) = some (true, []) := by
  decide +kernel

/-! ## What follows the first block -/

/-- A rest of a TM-SDU that a chain closes well: none, or one that ends in the middle of an octet
of the MAC-END. -/
def Closable (rest : List Bool) : Prop := rest = [] ∨ rest.length % 8 = 4

theorem Closable.drop {rest : List Bool} (h : Closable rest) : Closable (rest.drop 264) := by
  rcases Nat.lt_or_ge 264 rest.length with hlong | hshort
  · rcases h with rfl | h
    · exact absurd hlong (by simp)
    · refine .inr ?_
      rw [List.length_drop]
      omega
  · exact .inl (List.drop_eq_nil_of_le hshort)

theorem closable_sdsTmSdu (callingSsi : UInt32) (ns : UInt8) (udd : List UInt8) :
    Closable ((sdsTmSdu callingSsi ns udd).drop 177) := by
  have hlen := length_sdsTmSdu callingSsi ns udd
  rcases Nat.lt_or_ge 177 (sdsTmSdu callingSsi ns udd).length with hlong | hshort
  · refine .inr ?_
    rw [List.length_drop]
    omega
  · exact .inl (List.drop_eq_nil_of_le hshort)

theorem receiveRest_fragChain (room : ℕ) {rest : List Bool} {chain : List SdsFrag}
    (h : sdsFragChain room rest = some chain) (hrest : Closable rest) :
    receiveRest (chain.map SdsFrag.info) = some rest := by
  fun_induction sdsFragChain room rest generalizing chain with
  | case1 => exact absurd h (by simp)
  | case2 room =>
      obtain rfl := Option.some.inj h
      rw [List.map_cons, receiveRest, receiveCont_empty]
      rfl
  | case3 room b rest hlong ih =>
      obtain ⟨tail, htail, rfl⟩ := Option.map_eq_some_iff.1 h
      rw [List.map_cons, receiveRest, receiveCont_mid, Option.bind_eq_bind, Option.bind_some,
        ih htail hrest.drop]
      exact congrArg some (List.take_append_drop 264 (b :: rest))
  | case4 room b rest hshort =>
      obtain rfl := Option.some.inj h
      have hoct : (b :: rest).length % 8 = 4 := hrest.resolve_left (List.cons_ne_nil b rest)
      rw [List.map_cons, receiveRest, receiveCont_end (Nat.le_of_not_lt hshort) hoct]
      rfl

/-- A rest of up to 247 bits takes one block, and 264 more take one more. -/
theorem length_fragChain (room : ℕ) {rest : List Bool} {chain : List SdsFrag}
    (h : sdsFragChain room rest = some chain) : chain.length ≤ (rest.length + 16) / 264 + 1 := by
  fun_induction sdsFragChain room rest generalizing chain with
  | case1 => exact absurd h (by simp)
  | case2 room =>
      obtain rfl := Option.some.inj h
      decide
  | case3 room b rest hlong ih =>
      obtain ⟨tail, htail, rfl⟩ := Option.map_eq_some_iff.1 h
      have htail := ih htail
      rw [List.length_drop] at htail
      rw [List.length_cons]
      omega
  | case4 room b rest hshort =>
      obtain rfl := Option.some.inj h
      rw [List.length_singleton]
      omega

/-! ## The whole chain -/

/-- The chain is built, has at most five blocks, and gives the receiver the TM-SDU, which reads as
the D-SDS-DATA that was to be sent. -/
def Delivered (destSsi callingSsi : UInt32) (ns nr : UInt8) (udd : List UInt8) : Prop :=
  ∃ frags, sdsDlBuildFragments destSsi callingSsi ns nr udd = some frags ∧ frags.length ≤ 5 ∧
    receiveChain (frags.map SdsFrag.info) =
      some ⟨(callingSsi &&& 0x00FFFFFF).toNat, (nr &&& 1).toNat, (destSsi &&& 0x00FFFFFF).toNat,
        sdsTmSdu callingSsi ns udd⟩ ∧
    readTmSdu (sdsTmSdu callingSsi ns udd) =
      some ((ns &&& 1).toNat, ⟨(callingSsi &&& 0x00FFFFFF).toNat, 8 * udd.length,
        udd.flatMap fun b ↦ putBits b.toUInt32 8⟩)

/-- What the receiver of a chain holds: the TM-SDU, and zeros up to the end of the first block. -/
theorem receiveChain_buildFragments {destSsi callingSsi : UInt32} {ns nr : UInt8}
    {udd : List UInt8} {frags : List SdsFrag}
    (h : sdsDlBuildFragments destSsi callingSsi ns nr udd = some frags) :
    receiveChain (frags.map SdsFrag.info) =
      some ⟨(callingSsi &&& 0x00FFFFFF).toNat, (nr &&& 1).toNat, (destSsi &&& 0x00FFFFFF).toNat,
        sdsTmSdu callingSsi ns udd ++
          List.replicate (177 - (sdsTmSdu callingSsi ns udd).length) false⟩ := by
  rw [sdsDlBuildFragments] at h
  split_ifs at h
  obtain ⟨tail, htail, rfl⟩ := Option.map_eq_some_iff.1 h
  rw [List.map_cons, receiveChain, receiveFirst_info, Option.bind_eq_bind, Option.bind_some,
    receiveRest_fragChain _ htail (closable_sdsTmSdu callingSsi ns udd)]
  refine congrArg (fun tm ↦ some (SdsReception.mk _ _ _ tm)) ?_
  rcases Nat.lt_or_ge (sdsTmSdu callingSsi ns udd).length 177 with hshort | hfull
  · rw [List.drop_eq_nil_of_le (by omega), List.take_of_length_le (by omega), List.append_nil]
  · rw [Nat.sub_eq_zero_of_le hfull, List.replicate_zero, List.append_nil, List.append_nil]
    exact List.take_append_drop 177 _

theorem length_sdsDlBuildFragments {destSsi callingSsi : UInt32} {ns nr : UInt8}
    {udd : List UInt8} {frags : List SdsFrag}
    (h : sdsDlBuildFragments destSsi callingSsi ns nr udd = some frags) : frags.length ≤ 5 := by
  rw [sdsDlBuildFragments] at h
  split_ifs at h with hlen
  obtain ⟨tail, htail, rfl⟩ := Option.map_eq_some_iff.1 h
  have hblocks := length_fragChain _ htail
  simp only [Bool.or_eq_true, decide_eq_true_eq] at hlen
  rw [List.length_drop, length_sdsTmSdu] at hblocks
  rw [List.length_cons]
  omega

theorem not_delivered_of_short {destSsi callingSsi : UInt32} {ns nr : UInt8} {udd : List UInt8}
    (h : udd.length < 16) : ¬ Delivered destSsi callingSsi ns nr udd := by
  rintro ⟨frags, hfrags, -, hchain, -⟩
  rw [receiveChain_buildFragments hfrags] at hchain
  have hsdu := congrArg (fun r ↦ r.tmSdu.length) (Option.some.inj hchain)
  simp only [List.length_append, List.length_replicate, length_sdsTmSdu] at hsdu
  omega

theorem delivered_of_long (destSsi callingSsi : UInt32) (ns nr : UInt8) {udd : List UInt8}
    (h : 16 ≤ udd.length) (hmax : udd.length ≤ 120) : Delivered destSsi callingSsi ns nr udd := by
  obtain ⟨frags, hfrags⟩ := Option.isSome_iff_exists.1
    ((sdsDlBuildFragments_isSome destSsi callingSsi ns nr udd).2 ⟨by omega, hmax⟩)
  refine ⟨frags, hfrags, length_sdsDlBuildFragments hfrags, ?_,
    readTmSdu_sdsTmSdu callingSsi ns hmax⟩
  rw [receiveChain_buildFragments hfrags, length_sdsTmSdu,
    show 177 - (53 + 8 * udd.length) = 0 by omega, List.replicate_zero, List.append_nil]

/-- **Which messages the chain delivers**: of those of 1 to 120 octets, which are all it is built
for, the ones of 16 octets or more, which fill the first block. -/
theorem delivered_iff (destSsi callingSsi : UInt32) (ns nr : UInt8) (udd : List UInt8) :
    Delivered destSsi callingSsi ns nr udd ↔ 16 ≤ udd.length ∧ udd.length ≤ 120 := by
  constructor
  · intro h
    refine ⟨Nat.le_of_not_lt fun hshort ↦ not_delivered_of_short hshort h, ?_⟩
    obtain ⟨frags, hfrags, -⟩ := h
    exact ((sdsDlBuildFragments_isSome destSsi callingSsi ns nr udd).1 (by simp [hfrags])).2
  · rintro ⟨h, hmax⟩
    exact delivered_of_long destSsi callingSsi ns nr h hmax

/-- Of one octet the receiver takes 177 bits instead of 61. -/
theorem delivered_not_one : ¬ Delivered 0x28CE9D 0x28CE9E 1 0 [0x41] :=
  not_delivered_of_short (by decide)

end TetraPhy.Sw
