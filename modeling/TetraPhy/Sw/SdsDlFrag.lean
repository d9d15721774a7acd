import TetraPhy.Sw.BodyWriter

/-!
# Fragmenting a long SDS

`tetra_sds_dl_frag.c`: a D-SDS-DATA that is too long for one burst is wrapped into a TM-SDU
and cut into a chain of 268-bit SCH/F blocks, MAC-RESOURCE, MAC-FRAG, …, MAC-END.

| block | header bits | payload bits |
|---|---|---|
| first | a BL-ACK (48) and the fragment start (43) | 177 |
| MAC-FRAG | 4 | 264 |
| MAC-END | 21 | 247 |

A block is kept as its header, its payload and its fill marker (`SdsFrag`), so that what the
receiver joins again can be named.  `flatMap_payload_fragChain` says that nothing of the TM-SDU
is left out, `sdsDlBuildFragments_isSome` which lengths get a chain at all.
-/

namespace TetraPhy.Sw

/-- `SDS_DL_FRAG_MAX`. -/
def sdsDlFragMax : ℕ := 8

/-- `SCHF_INFO_BITS`. -/
def schfInfoBits : ℕ := 268

/-- `build_cmce_d_sds_data`. -/
def buildCmceDSdsData (callingSsi : UInt32) (udd : List UInt8) : List Bool :=
  putBits 15 5 ++ putBits 1 2 ++
  putBits (callingSsi &&& 0x00FFFFFF) 24 ++
  putBits 3 2 ++
  putBits ((udd.length * 8).toUInt32 &&& 0x7FF) 11 ++
  udd.flatMap (fun b ↦ putBits b.toUInt32 8) ++
  putBits 0 1

/-- The TM-SDU: an LLC BL-DATA with the CMCE PDU in it. -/
def sdsTmSdu (callingSsi : UInt32) (ns : UInt8) (udd : List UInt8) : List Bool :=
  putBits 1 4 ++ putBits (ns &&& 1).toUInt32 1 ++ putBits 2 3 ++ buildCmceDSdsData callingSsi udd

/-- One block of the chain. -/
structure SdsFrag where
  header : List Bool
  payload : List Bool
  fill : List Bool := []
deriving DecidableEq, Repr

/-- The 268 bits of a block; what is not written stays 0. -/
def SdsFrag.info (f : SdsFrag) : List Bool :=
  (f.header ++ f.payload ++ f.fill ++ List.replicate schfInfoBits false).take schfInfoBits

/-- A MAC-RESOURCE header up to the address and the three flags behind it. -/
def sdsMacResource (lengthInd ssi : UInt32) : List Bool :=
  putBits 0 2 ++ putBits 0 1 ++ putBits 0 1 ++ putBits 0 2 ++ putBits 0 1 ++
  putBits lengthInd 6 ++ putBits 1 3 ++ putBits (ssi &&& 0x00FFFFFF) 24 ++
  putBits 0 1 ++ putBits 0 1 ++ putBits 0 1

/-- The first block: a BL-ACK to the sender, then the fragment start to the recipient. -/
def sdsFragStart (destSsi callingSsi : UInt32) (nr : UInt8) (tm : List Bool) : SdsFrag where
  header := sdsMacResource 6 callingSsi ++ putBits 3 4 ++ putBits (nr &&& 1).toUInt32 1 ++
    sdsMacResource 63 destSsi
  payload := tm.take 177

/-- A MAC-FRAG. -/
def sdsFragMid (rest : List Bool) : SdsFrag where
  header := putBits 1 2 ++ putBits 0 1 ++ putBits (if rest.length < 264 then 1 else 0) 1
  payload := rest.take 264
  fill := if rest.length < 264 then putBits 1 1 else []

/-- The 21 header bits of a MAC-END that is `liOct` octets long. -/
def sdsEndHeader (liOct : ℕ) : List Bool :=
  putBits 1 2 ++ putBits 1 1 ++ putBits 1 1 ++ putBits 0 1 ++
  putBits (liOct.toUInt32 &&& 0x3F) 6 ++ putBits 1 1 ++ putBits 0 8 ++ putBits 0 1

/-- A MAC-END with the rest of the TM-SDU. -/
def sdsFragEnd (rest : List Bool) : SdsFrag :=
  let liOct := (21 + rest.length + 7) / 8
  { header := sdsEndHeader liOct
    payload := rest
    fill := if 21 + rest.length < liOct * 8 then putBits 1 1 else [] }

/-- The blocks behind the first, as long as there is `room` for them.  A rest that fits a
MAC-FRAG and no MAC-END is followed by an empty MAC-END. -/
def sdsFragChain : ℕ → List Bool → Option (List SdsFrag)
  | 0, _ => none
  | _ + 1, [] => some [⟨sdsEndHeader 3, [], []⟩]
  | room + 1, b :: rest =>
    if (b :: rest).length > 247 then
      (sdsFragChain room ((b :: rest).drop 264)).map (sdsFragMid (b :: rest) :: ·)
    else some [sdsFragEnd (b :: rest)]

/-- `tetra_sds_dl_build_fragments`; `none` is its 0. -/
def sdsDlBuildFragments (destSsi callingSsi : UInt32) (ns nr : UInt8) (udd : List UInt8) :
    Option (List SdsFrag) :=
  if udd.length = 0 || udd.length > 120 then none
  else
    let tm := sdsTmSdu callingSsi ns udd
    (sdsFragChain (sdsDlFragMax - 1) (tm.drop 177)).map
      (sdsFragStart destSsi callingSsi nr tm :: ·)

/-! ## Lengths -/

theorem length_sdsTmSdu (callingSsi : UInt32) (ns : UInt8) (udd : List UInt8) :
    (sdsTmSdu callingSsi ns udd).length = 53 + 8 * udd.length := by
  simp only [sdsTmSdu, buildCmceDSdsData, List.length_append, length_putBits,
    length_flatMap_octets]
  omega

/-! ## The chain carries the TM-SDU -/

/-- Header and payload are inside the 268 bits. -/
def SdsFrag.Fits (f : SdsFrag) : Prop := f.header.length + f.payload.length ≤ schfInfoBits

theorem SdsFrag.length_info (f : SdsFrag) : f.info.length = 268 := by
  rw [info, List.length_take, List.length_append, List.length_replicate]
  simp only [schfInfoBits]
  omega

theorem length_sdsMacResource (lengthInd ssi : UInt32) :
    (sdsMacResource lengthInd ssi).length = 43 := by
  simp [sdsMacResource]

theorem fits_sdsFragStart (destSsi callingSsi : UInt32) (nr : UInt8) (tm : List Bool) :
    (sdsFragStart destSsi callingSsi nr tm).Fits := by
  simp only [SdsFrag.Fits, sdsFragStart, List.length_append, length_sdsMacResource, length_putBits,
    List.length_take, schfInfoBits]
  omega

theorem fits_fragChain (room : ℕ) (rest : List Bool) {chain : List SdsFrag}
    (h : sdsFragChain room rest = some chain) : ∀ f ∈ chain, f.Fits := by
  fun_induction sdsFragChain room rest generalizing chain with
  | case1 => exact absurd h (by simp)
  | case2 room =>
      obtain rfl := Option.some.inj h
      simp [SdsFrag.Fits, sdsEndHeader, schfInfoBits]
  | case3 room b rest hlong ih =>
      obtain ⟨tail, htail, rfl⟩ := Option.map_eq_some_iff.1 h
      intro f hf
      rcases List.mem_cons.1 hf with rfl | hf
      · simp only [SdsFrag.Fits, sdsFragMid, List.length_append, length_putBits, List.length_take,
          schfInfoBits]
        omega
      · exact ih htail f hf
  | case4 room b rest hshort =>
      obtain rfl := Option.some.inj h
      intro f hf
      obtain rfl := List.mem_singleton.1 hf
      simp only [SdsFrag.Fits, sdsFragEnd, sdsEndHeader, List.length_append, length_putBits,
        schfInfoBits]
      omega

/-- **No bit of the TM-SDU is left out**, and none is sent twice. -/
theorem flatMap_payload_fragChain (room : ℕ) (rest : List Bool) {chain : List SdsFrag}
    (h : sdsFragChain room rest = some chain) : chain.flatMap SdsFrag.payload = rest := by
  fun_induction sdsFragChain room rest generalizing chain with
  | case1 => exact absurd h (by simp)
  | case2 room =>
      obtain rfl := Option.some.inj h
      rfl
  | case3 room b rest hlong ih =>
      obtain ⟨tail, htail, rfl⟩ := Option.map_eq_some_iff.1 h
      rw [List.flatMap_cons, ih htail]
      exact List.take_append_drop 264 (b :: rest)
  | case4 room b rest hshort =>
      obtain rfl := Option.some.inj h
      exact List.append_nil _

/-- A chain of `room + 1` blocks takes `264 * room` bits. -/
theorem fragChain_isSome (room : ℕ) (rest : List Bool) (h : rest.length ≤ 264 * room) :
    (sdsFragChain (room + 1) rest).isSome := by
  induction room generalizing rest with
  | zero =>
      rw [List.eq_nil_of_length_eq_zero (Nat.le_zero.1 h)]
      rfl
  | succ room ih =>
      cases rest with
      | nil => rfl
      | cons b rest =>
          rw [sdsFragChain]
          split_ifs with hlong
          · rw [Option.isSome_map]
            exact ih _ (by rw [List.length_drop]; omega)
          · rfl

theorem sdsDlBuildFragments_payload {destSsi callingSsi : UInt32} {ns nr : UInt8}
    {udd : List UInt8} {frags : List SdsFrag}
    (h : sdsDlBuildFragments destSsi callingSsi ns nr udd = some frags) :
    frags.flatMap SdsFrag.payload = sdsTmSdu callingSsi ns udd := by
  rw [sdsDlBuildFragments] at h
  split_ifs at h
  obtain ⟨tail, htail, rfl⟩ := Option.map_eq_some_iff.1 h
  rw [List.flatMap_cons, flatMap_payload_fragChain _ _ htail]
  exact List.take_append_drop 177 _

theorem sdsDlBuildFragments_head {destSsi callingSsi : UInt32} {ns nr : UInt8}
    {udd : List UInt8} {frags : List SdsFrag}
    (h : sdsDlBuildFragments destSsi callingSsi ns nr udd = some frags) :
    frags.head? = some (sdsFragStart destSsi callingSsi nr (sdsTmSdu callingSsi ns udd)) := by
  rw [sdsDlBuildFragments] at h
  split_ifs at h
  obtain ⟨tail, -, rfl⟩ := Option.map_eq_some_iff.1 h
  rfl

theorem fits_sdsDlBuildFragments {destSsi callingSsi : UInt32} {ns nr : UInt8}
    {udd : List UInt8} {frags : List SdsFrag}
    (h : sdsDlBuildFragments destSsi callingSsi ns nr udd = some frags) :
    ∀ f ∈ frags, f.Fits := by
  rw [sdsDlBuildFragments] at h
  split_ifs at h
  obtain ⟨tail, htail, rfl⟩ := Option.map_eq_some_iff.1 h
  intro f hf
  rcases List.mem_cons.1 hf with rfl | hf
  · exact fits_sdsFragStart _ _ _ _
  · exact fits_fragChain _ _ htail f hf

/-- **Which messages get a chain**: all of 1 to 120 octets. -/
theorem sdsDlBuildFragments_isSome (destSsi callingSsi : UInt32) (ns nr : UInt8)
    (udd : List UInt8) :
    (sdsDlBuildFragments destSsi callingSsi ns nr udd).isSome ↔
      0 < udd.length ∧ udd.length ≤ 120 := by
  rw [sdsDlBuildFragments]
  split_ifs with hlen
  · simp only [Bool.or_eq_true, decide_eq_true_eq] at hlen
    simp only [Option.isSome_none, Bool.false_eq_true, false_iff]
    omega
  · simp only [Bool.or_eq_true, decide_eq_true_eq] at hlen
    rw [Option.isSome_map, iff_true_right (by omega)]
    exact fragChain_isSome 6 _ (by rw [List.length_drop, length_sdsTmSdu]; omega)

end TetraPhy.Sw
