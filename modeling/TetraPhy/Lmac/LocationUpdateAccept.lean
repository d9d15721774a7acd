import TetraPhy.Lib.FieldReader
import TetraPhy.Lmac.ChannelAllocation
import TetraPhy.Lmac.MleFsm

/-!
# The location update accept on air

An accept goes from the daemon's `submit_lu` through the words of the reply mailbox and the
encoder to the downlink builder, which is given the body and its length.  `readAccept` is the
terminal: it reads a D-LOCATION UPDATE ACCEPT of EN 300 392-2 with its optional and its type 3/4
elements and says what is left of the announced bits.

| GILA | bits of the body | announced |
|---|---|---|
| present | 102 | 102 |
| absent | 28 | 36 |

**`accept_carried_iff`**: with GILA the terminal reads what was submitted and nothing is left;
without it the values are right and eight bits are left.
-/

namespace TetraPhy.Lmac

open Sw BitField FieldReader AirOrder

/-! ## The terminal -/

/-- A group in a group identity downlink element. -/
structure GroupIdentityDownlink where
  /-- Lifetime and class of usage of an attachment; `none` for a detachment. -/
  attachment : Option (ℕ × ℕ)
  addressType : ℕ
  gssi : ℕ
deriving DecidableEq, Repr

/-- Group identity location accept: the accept/reject flag and the groups. -/
structure GroupIdentityLocationAccept where
  reject : ℕ
  groups : List GroupIdentityDownlink
deriving DecidableEq, Repr

/-- D-LOCATION UPDATE ACCEPT. -/
structure LocationUpdateAccept where
  acceptType : ℕ
  ssi : Option ℕ := none
  addressExtension : Option ℕ := none
  subscriberClass : Option ℕ := none
  energySaving : Option ℕ := none
  scchInfo : Option ℕ := none
  gila : Option GroupIdentityLocationAccept := none
deriving DecidableEq, Repr

/-- A type 2 element: a p-bit, and the element if it is set. -/
def readOptional (n : ℕ) (bits : List Bool) : Option (Option ℕ × List Bool) :=
  (readField 1 bits).bind fun (p, bits) ↦
    if p = 0 then some (none, bits)
    else (readField n bits).bind fun (v, bits) ↦ some (some v, bits)

/-- The type 3/4 elements: m-bit, identifier, length and contents, up to an m-bit that is 0. -/
def readElements : ℕ → List Bool → Option (List (ℕ × List Bool) × List Bool)
  | 0, _ => none
  | fuel + 1, bits =>
    (readField 1 bits).bind fun (m, bits) ↦
      if m = 0 then some ([], bits)
      else (readField 4 bits).bind fun (ident, bits) ↦
        (readField 11 bits).bind fun (len, bits) ↦
          if len ≤ bits.length then
            (readElements fuel (bits.drop len)).bind fun (elements, rest) ↦
              some ((ident, bits.take len) :: elements, rest)
          else none

/-- Lifetime and class of usage of an attachment, or why a group is detached. -/
def readAttachment (detach : ℕ) (bits : List Bool) : Option (Option (ℕ × ℕ) × List Bool) :=
  if detach = 0 then
    (readField 2 bits).bind fun (lifetime, bits) ↦
      (readField 3 bits).bind fun (cls, bits) ↦ some (some (lifetime, cls), bits)
  else (readField 2 bits).bind fun (_detachment, bits) ↦ some (none, bits)

/-- What of an address follows its first 24 bits. -/
def furtherLen (addressType : ℕ) : ℕ :=
  if addressType = 1 then 24 else if addressType = 3 then 48 else 0

/-- One group: attached or detached, its address type and its address, a GSSI first or alone. -/
def readGroup (bits : List Bool) : Option (GroupIdentityDownlink × List Bool) :=
  (readField 1 bits).bind fun (detach, bits) ↦
    (readAttachment detach bits).bind fun (attachment, bits) ↦
      (readField 2 bits).bind fun (addressType, bits) ↦
        (readField 24 bits).bind fun (gssi, bits) ↦
          (readField (furtherLen addressType) bits).bind fun (_further, bits) ↦
            some (⟨attachment, addressType, gssi⟩, bits)

def readGroups : ℕ → List Bool → Option (List GroupIdentityDownlink × List Bool)
  | 0, bits => some ([], bits)
  | n + 1, bits => (readGroup bits).bind fun (g, bits) ↦
      (readGroups n bits).bind fun (gs, bits) ↦ some (g :: gs, bits)

/-- The groups among the elements, identifier 7; they fill their element. -/
def groupsOf : List (ℕ × List Bool) → Option (List GroupIdentityDownlink)
  | [] => some []
  | (ident, data) :: elements => (groupsOf elements).bind fun gs ↦
      if ident = 7 then (readField 6 data).bind fun (n, bits) ↦
        (readGroups n bits).bind fun (gs', rest) ↦ if rest = [] then some (gs' ++ gs) else none
      else some gs

/-- Group identity location accept; it fills its element. -/
def readGila (data : List Bool) : Option GroupIdentityLocationAccept :=
  (readField 1 data).bind fun (reject, bits) ↦ (readField 1 bits).bind fun (_reserved, bits) ↦
    (readField 1 bits).bind fun (o, bits) ↦
      if o = 0 then if bits = [] then some ⟨reject, []⟩ else none
      else (readElements (bits.length + 1) bits).bind fun (elements, rest) ↦
        if rest = [] then (groupsOf elements).map (⟨reject, ·⟩) else none

/-- The group identity location accept among the elements, identifier 5. -/
def gilaOf : List (ℕ × List Bool) → Option (Option GroupIdentityLocationAccept)
  | [] => some none
  | (ident, data) :: elements =>
      if ident = 5 then (readGila data).map some else gilaOf elements

/-- D-LOCATION UPDATE ACCEPT, and the bits that are left. -/
def readAccept (bits : List Bool) : Option (LocationUpdateAccept × List Bool) :=
  (expect 4 5 bits).bind fun bits ↦ (readField 3 bits).bind fun (acceptType, bits) ↦
    (readField 1 bits).bind fun (o, bits) ↦
      if o = 0 then some ({ acceptType := acceptType }, bits)
      else
        (readOptional 24 bits).bind fun (ssi, bits) ↦
          (readOptional 24 bits).bind fun (addressExtension, bits) ↦
            (readOptional 16 bits).bind fun (subscriberClass, bits) ↦
              (readOptional 14 bits).bind fun (energySaving, bits) ↦
                (readOptional 6 bits).bind fun (scchInfo, bits) ↦
                  (readElements (bits.length + 1) bits).bind fun (elements, rest) ↦
                    (gilaOf elements).map fun gila ↦
                      (⟨acceptType, ssi, addressExtension, subscriberClass, energySaving, scchInfo,
                        gila⟩, rest)

/-! ## The encoder -/

/-- The group that the encoder writes. -/
def groupOf (gssi : BitVec 24) (cls : BitVec 3) (lifetime : BitVec 2) : GroupIdentityDownlink :=
  ⟨some (lifetime.toNat, cls.toNat), 0, gssi.toNat⟩

section Gila

variable (gssi : BitVec 24) (cls : BitVec 3) (lifetime : BitVec 2)

/-- The slices of the element, field by field. -/
structure GilaFields (x : BitVec 58) : Prop where
  reject : x.extractLsb' 57 1 = 0#1
  reserved : x.extractLsb' 56 1 = 0#1
  oBit : x.extractLsb' 55 1 = 1#1
  mBit : x.extractLsb' 54 1 = 1#1
  ident : x.extractLsb' 50 4 = 7#4
  len : x.extractLsb' 39 11 = 38#11
  count : x.extractLsb' 33 6 = 1#6
  detach : x.extractLsb' 32 1 = 0#1
  lifetime : x.extractLsb' 30 2 = lifetime
  cls : x.extractLsb' 27 3 = cls
  addressType : x.extractLsb' 25 2 = 0b00#2
  gssi : x.extractLsb' 1 24 = gssi
  mBitEnd : x.extractLsb' 0 1 = 0#1

theorem gilaFields_gilaPayload :
    GilaFields gssi cls lifetime (gilaPayload gssi cls lifetime) := by
  have hflag : place 58 55 0b001#3 = place 58 57 0#1 ||| place 58 56 0#1 ||| place 58 55 1#1 := by
    decide
  constructor
  all_goals
    rw [gilaPayload, hflag]
    simp (disch := omega) only [BitVec.extractLsb'_or, slice_place_self, slice_place_apart,
      BitVec.or_zero, BitVec.zero_or]

variable {gssi cls lifetime} {x : BitVec 58} (h : GilaFields gssi cls lifetime x)
include h

theorem GilaFields.readGroup_eq :
    readGroup (window x.getMsbD 25 32) = some (groupOf gssi cls lifetime, []) := by
  have hattach : readAttachment 0 (window x.getMsbD 26 31) =
      some (some (lifetime.toNat, cls.toNat), window x.getMsbD 31 26) := by
    rw [readAttachment, if_pos rfl]
    simp (disch := decide) only [↓readField_word, Nat.reduceAdd, Nat.reduceSub, h.lifetime, h.cls]
  rw [readGroup]
  simp (disch := decide) only [↓readField_word, ↓Option.bind_some, Nat.reduceAdd, Nat.reduceSub,
    h.detach, hattach, h.addressType, h.gssi, BitVec.toNat_ofNat, Nat.reducePow, Nat.zero_mod]
  rfl

/-- The type 4 element with the group, and the m-bit behind it. -/
theorem GilaFields.readElements_eq :
    readElements 56 (window x.getMsbD 3 55) = some ([(7, window x.getMsbD 19 38)], []) := by
  have hend : readElements 55 (window x.getMsbD 57 1) = some ([], []) := by
    rw [readElements]
    simp (disch := decide) only [↓readField_word, Nat.reduceAdd, Nat.reduceSub, h.mBitEnd,
      BitVec.toNat_ofNat, Nat.reducePow, Nat.zero_mod]
    rfl
  rw [readElements]
  simp (disch := decide) only [↓readField_word, ↓Option.bind_some, Nat.reduceAdd, Nat.reduceSub,
    h.mBit, h.ident, h.len, BitVec.toNat_ofNat, Nat.reducePow, Nat.reduceMod, length_window,
    take_window, drop_window, hend, if_neg, if_pos]

/-- **The element carries the group.** -/
theorem GilaFields.readGila_eq :
    readGila (window x.getMsbD 0 58) = some ⟨0, [groupOf gssi cls lifetime]⟩ := by
  have hgroups : groupsOf [(7, window x.getMsbD 19 38)] = some [groupOf gssi cls lifetime] := by
    rw [groupsOf, groupsOf]
    simp (disch := decide) only [↓Option.bind_some, ↓readField_word, Nat.reduceAdd, Nat.reduceSub,
      h.count, BitVec.toNat_ofNat, Nat.reducePow, Nat.reduceMod, readGroups, h.readGroup_eq, if_pos]
    rfl
  rw [readGila]
  simp (disch := decide) only [↓readField_word, ↓Option.bind_some, Nat.reduceAdd, Nat.reduceSub,
    h.reject, h.oBit, BitVec.toNat_ofNat, Nat.reducePow, Nat.reduceMod, Nat.zero_mod, length_window,
    h.readElements_eq, if_neg, if_pos, hgroups]
  rfl

end Gila

/-! ### The body -/

/-- The slices of a body, field by field, up to the first m-bit. -/
structure BodyFields (esi : BitVec 14) (locAccType : BitVec 3) (mBit : BitVec 1) (x : BitVec 128) :
    Prop where
  pduType : x.extractLsb' 124 4 = 5#4
  locAccType : x.extractLsb' 121 3 = locAccType
  oBit : x.extractLsb' 120 1 = 1#1
  ssi : x.extractLsb' 119 1 = 0#1
  addressExtension : x.extractLsb' 118 1 = 0#1
  subscriberClass : x.extractLsb' 117 1 = 0#1
  energySaving : x.extractLsb' 116 1 = 1#1
  esi : x.extractLsb' 102 14 = esi
  scchInfo : x.extractLsb' 101 1 = 0#1
  mBit : x.extractLsb' 100 1 = mBit

section Body

variable (esi : BitVec 14) (locAccType : BitVec 3) (gssi : BitVec 24) (cls : BitVec 3)
  (lifetime : BitVec 2)

theorem bodyFields_dLocationUpdate (gila : Bool) :
    BodyFields esi locAccType (BitVec.ofBool gila)
      (dLocationUpdate false esi locAccType gssi cls lifetime gila).1 := by
  cases gila with
  | true =>
      constructor
      all_goals
        simp (disch := omega) only [dLocationUpdate, if_true, Bool.false_eq_true, if_false,
          BitVec.extractLsb'_or, slice_place_self, slice_place_apart, BitVec.or_zero,
          BitVec.zero_or]
        try rfl
  | false =>
      constructor
      all_goals
        simp (disch := omega) only [dLocationUpdate, Bool.false_eq_true, if_false,
          BitVec.extractLsb'_or, slice_place_self, slice_place_apart, BitVec.or_zero,
          BitVec.zero_or]
        try rfl

/-- The slices of the element in a body with GILA. -/
structure ElementFields (payload : BitVec 58) (x : BitVec 128) : Prop where
  ident : x.extractLsb' 96 4 = 5#4
  len : x.extractLsb' 85 11 = 58#11
  payload : x.extractLsb' 27 58 = payload
  mBitEnd : x.extractLsb' 26 1 = 0#1

theorem elementFields_dLocationUpdate :
    ElementFields (gilaPayload gssi cls lifetime)
      (dLocationUpdate false esi locAccType gssi cls lifetime true).1 := by
  constructor
  all_goals
    simp (disch := omega) only [dLocationUpdate, if_true, Bool.false_eq_true, if_false,
      BitVec.extractLsb'_or, slice_place_self, slice_place_apart, BitVec.or_zero, BitVec.zero_or]

end Body

theorem readOptional_absent {n k m : ℕ} {x : BitVec 128} (hm : 1 ≤ m) (hk : k + 1 ≤ 128)
    (h : x.extractLsb' (128 - (k + 1)) 1 = 0#1) :
    readOptional n (window x.getMsbD k m) = some (none, window x.getMsbD (k + 1) (m - 1)) := by
  rw [readOptional, readField_word x hm hk, h]
  rfl

theorem readOptional_present {n k m : ℕ} {x : BitVec 128} (hm : 1 + n ≤ m) (hk : k + 1 + n ≤ 128)
    (h : x.extractLsb' (128 - (k + 1)) 1 = 1#1) :
    readOptional n (window x.getMsbD k m) =
      some (some (x.extractLsb' (128 - (k + 1 + n)) n).toNat,
        window x.getMsbD (k + 1 + n) (m - 1 - n)) := by
  rw [readOptional, readField_word x (by omega) (by omega), h]
  dsimp only
  rw [if_neg (by decide), readField_word x (by omega) hk]

section Read

variable {esi : BitVec 14} {locAccType : BitVec 3} {x : BitVec 128}

/-- The head of a body: what is read up to the first m-bit. -/
theorem BodyFields.readAccept_eq {mBit : BitVec 1} (h : BodyFields esi locAccType mBit x) {n : ℕ}
    (hn : 28 ≤ n) :
    readAccept (window x.getMsbD 0 n) =
      (readElements (n - 27 + 1) (window x.getMsbD 27 (n - 27))).bind fun (elements, rest) ↦
        (gilaOf elements).map fun gila ↦
          (⟨locAccType.toNat, none, none, none, some esi.toNat, none, gila⟩, rest) := by
  have hopt : ∀ {w k m : ℕ}, 1 ≤ m → k + 1 ≤ 128 → x.extractLsb' (128 - (k + 1)) 1 = 0#1 →
      readOptional w (window x.getMsbD k m) = some (none, window x.getMsbD (k + 1) (m - 1)) :=
    readOptional_absent
  have htype : (x.extractLsb' (128 - (0 + 4)) 4).toNat = 5 := congrArg BitVec.toNat h.pduType
  rw [readAccept, expect_word x (by omega) (by decide) htype,
    readField_word x (by omega) (by decide)]
  dsimp only
  rw [readField_word x (by omega) (by decide)]
  dsimp only [Nat.reduceAdd, Nat.reduceSub]
  rw [h.locAccType, h.oBit, if_neg (by decide), hopt (by omega) (by decide) h.ssi, Option.bind_some]
  dsimp only
  rw [hopt (by omega) (by decide) h.addressExtension, Option.bind_some]
  dsimp only
  rw [hopt (by omega) (by decide) h.subscriberClass, Option.bind_some]
  dsimp only
  rw [readOptional_present (by omega) (by decide) h.energySaving, Option.bind_some]
  dsimp only [Nat.reduceAdd, Nat.reduceSub]
  rw [h.esi, hopt (by omega) (by decide) h.scchInfo, Option.bind_some]
  dsimp only [Nat.reduceAdd]
  rw [length_window, show n - 4 - 3 - 1 - 1 - 1 - 1 - 1 - 14 - 1 = n - 27 by omega]

theorem onAir_eq_window {n : ℕ} (y : BitVec n) : onAir y = window y.getMsbD 0 n := by
  rw [onAir, window, List.range_eq_range']

/-- **With GILA all of the body is read**, and it is the group that was put in. -/
theorem BodyFields.readAccept_with (h : BodyFields esi locAccType 1#1 x) {payload : BitVec 58}
    (he : ElementFields payload x) {gssi : BitVec 24} {cls : BitVec 3} {lifetime : BitVec 2}
    (hg : GilaFields gssi cls lifetime payload) :
    readAccept (window x.getMsbD 0 102) =
      some (⟨locAccType.toNat, none, none, none, some esi.toNat, none,
        some ⟨0, [groupOf gssi cls lifetime]⟩⟩, []) := by
  have hdata : window x.getMsbD 43 58 = window payload.getMsbD 0 58 := by
    rw [window_getMsbD x (by decide), ← onAir_eq_window]
    exact congrArg onAir he.payload
  have hend : readElements 75 (window x.getMsbD 101 1) = some ([], []) := by
    rw [readElements]
    simp (disch := decide) only [↓readField_word, Nat.reduceAdd, Nat.reduceSub, he.mBitEnd,
      BitVec.toNat_ofNat, Nat.reducePow, Nat.zero_mod]
    rfl
  have helements : readElements 76 (window x.getMsbD 27 75) =
      some ([(5, window payload.getMsbD 0 58)], []) := by
    rw [readElements]
    simp (disch := decide) only [↓readField_word, ↓Option.bind_some, Nat.reduceAdd, Nat.reduceSub,
      h.mBit, he.ident, he.len, BitVec.toNat_ofNat, Nat.reducePow, Nat.reduceMod, length_window,
      take_window, drop_window, hend, if_neg, if_pos, hdata]
  rw [h.readAccept_eq (by decide), helements, Option.bind_some]
  dsimp only
  rw [gilaOf, if_pos rfl, hg.readGila_eq]
  rfl

/-- Without GILA the body ends with the first m-bit. -/
theorem BodyFields.readAccept_without (h : BodyFields esi locAccType 0#1 x) {n : ℕ} (hn : 28 ≤ n) :
    readAccept (window x.getMsbD 0 n) =
      some (⟨locAccType.toNat, none, none, none, some esi.toNat, none, none⟩,
        window x.getMsbD 28 (n - 28)) := by
  have helements : readElements (n - 27 + 1) (window x.getMsbD 27 (n - 27)) =
      some ([], window x.getMsbD 28 (n - 28)) := by
    rw [readElements, readField_word x (by omega) (by decide)]
    dsimp only
    rw [h.mBit, if_pos (by decide), show n - 27 - 1 = n - 28 by omega]
  rw [h.readAccept_eq hn, helements, Option.bind_some]
  rfl

end Read

/-! ## The mailbox -/

/-- The words of `submit_lu` for an accept. -/
def acceptWords (m : TxPduMeta) : List UInt32 :=
  [m.targetSsi &&& 0x00FFFFFF, (m.la &&& 0x3FFF).toUInt32, 0x1,
    ((0 : UInt32) &&& (0x3 : UInt32)) ||| ((m.locAccType &&& 0x7).toUInt32 <<< 2),
    m.gilaGssi &&& 0x00FFFFFF, ((m.gilaClass &&& 0x7).toUInt32 <<< 2) ||| (m.gilaLifetime &&& 0x3).toUInt32,
    (m.gilaPresent &&& 0x1).toUInt32, (m.encryption &&& 0x3).toUInt32,
    if m.authResult == 0 then 0x1 else (m.authResult &&& 0x3).toUInt32, 0, 0, 0, 0, 0]

theorem submitLu_eq_staging (m : TxPduMeta) :
    (txSubmit true .luAccept m).1 =
      IndirectMailbox.staging regReplyIndex regReplyData 0 (acceptWords m) ++ replyGo := by
  simp only [txSubmit, submitLu, beq_self_eq_true, if_true, Bool.not_true, Bool.false_eq_true,
    if_false, IndirectMailbox.staging, acceptWords, List.append_assoc, List.nil_append]
  rfl

namespace ReplyMailbox

theorem word_submitLu (m₀ : ReplyMailbox) (m : TxPduMeta) (j : ℕ) (hj : j < 14) :
    (m₀.writes (txSubmit true .luAccept m).1).word ⟨j, by omega⟩ =
      ((acceptWords m).get ⟨j, hj⟩).toBitVec := by
  have hword : (m₀.staged regReplyIndex regReplyData 0 (acceptWords m)).word ⟨0 + j, by omega⟩ =
      ((acceptWords m).get ⟨j, hj⟩).toBitVec :=
    IndirectMailbox.word_staged (by decide) m₀ (acceptWords m) (by simp [acceptWords]) j hj
  rw [submitLu_eq_staging, writes_append, writes_replyGo, ← hword]
  congr 2
  omega

/-- An accept is in the mailbox. -/
structure HoldsAccept (m : ReplyMailbox) (req : TxPduMeta) : Prop where
  ssi : m.ssi = req.targetSsi.toBitVec.extractLsb' 0 24
  locAccType : m.locAccType = req.locAccType.toBitVec.extractLsb' 0 3
  gilaGssi : m.gilaGssi = req.gilaGssi.toBitVec.extractLsb' 0 24
  gilaClass : m.gilaClass = req.gilaClass.toBitVec.extractLsb' 0 3
  gilaLifetime : m.gilaLifetime = req.gilaLifetime.toBitVec.extractLsb' 0 2
  gilaPresent : m.gilaPresent = req.gilaPresent.toBitVec.getLsbD 0
  rawModeFlag : m.rawModeFlag = false

theorem toBitVec_low (v : UInt8) (w : ℕ) (hw : w ≤ 8) :
    (v &&& UInt8.ofNat (2 ^ w - 1)).toUInt32.toBitVec =
      place 32 0 (v.toBitVec.extractLsb' 0 w) := by
  have h := toBitVec_field v w 0 hw (by decide)
  rwa [show UInt32.ofNat 0 = 0 from rfl, UInt32.shiftLeft_zero] at h

theorem toBitVec_acceptW3 (locAccType : UInt8) :
    (((0 : UInt32) &&& (0x3 : UInt32)) ||| ((locAccType &&& 0x7).toUInt32 <<< 2)).toBitVec =
      place 32 2 (locAccType.toBitVec.extractLsb' 0 3) := by
  have hzero : ((0 : UInt32) &&& (0x3 : UInt32)).toBitVec = 0#32 := rfl
  rw [UInt32.toBitVec_or, hzero, BitVec.zero_or]
  exact toBitVec_field locAccType 3 2 (by decide) (by decide)

theorem toBitVec_acceptW5 (cls lifetime : UInt8) :
    (((cls &&& 0x7).toUInt32 <<< 2) ||| (lifetime &&& 0x3).toUInt32).toBitVec =
      place 32 2 (cls.toBitVec.extractLsb' 0 3) |||
        place 32 0 (lifetime.toBitVec.extractLsb' 0 2) := by
  have hcls := toBitVec_field cls 3 2 (by decide) (by decide)
  have hlifetime := toBitVec_low lifetime 2 (by decide)
  rw [UInt32.toBitVec_or]
  exact congrArg₂ _ hcls hlifetime

/-- The 24 bits of an SSI survive its mask. -/
theorem extractLsb'_ssi (v : UInt32) :
    (v &&& 0x00FFFFFF).toBitVec.extractLsb' 0 24 = v.toBitVec.extractLsb' 0 24 := by
  have hones : ∀ j : Fin 24, (0x00FFFFFF : UInt32).toBitVec.getLsbD j = true := by decide
  refine BitVec.eq_of_getLsbD_eq fun j hj ↦ ?_
  rw [BitVec.getLsbD_extractLsb', BitVec.getLsbD_extractLsb', UInt32.toBitVec_and,
    BitVec.getLsbD_and, Nat.zero_add, hones ⟨j, hj⟩, Bool.and_true]

theorem holdsAccept_submitLu (m₀ : ReplyMailbox) (req : TxPduMeta) :
    (m₀.writes (txSubmit true .luAccept req).1).HoldsAccept req := by
  have hword := word_submitLu m₀ req
  have h0 : (m₀.writes (txSubmit true .luAccept req).1).word 0 =
      (req.targetSsi &&& 0x00FFFFFF).toBitVec := hword 0 (by decide)
  have h3 : (m₀.writes (txSubmit true .luAccept req).1).word 3 = _ :=
    (hword 3 (by decide)).trans (toBitVec_acceptW3 req.locAccType)
  have h4 : (m₀.writes (txSubmit true .luAccept req).1).word 4 =
      (req.gilaGssi &&& 0x00FFFFFF).toBitVec := hword 4 (by decide)
  have h5 : (m₀.writes (txSubmit true .luAccept req).1).word 5 = _ :=
    (hword 5 (by decide)).trans (toBitVec_acceptW5 req.gilaClass req.gilaLifetime)
  have h6 : (m₀.writes (txSubmit true .luAccept req).1).word 6 = _ :=
    (hword 6 (by decide)).trans (toBitVec_low req.gilaPresent 1 (by decide))
  have h9 : (m₀.writes (txSubmit true .luAccept req).1).word 9 = 0#32 := hword 9 (by decide)
  constructor
  · rw [ReplyMailbox.ssi, h0, extractLsb'_ssi]
  · rw [ReplyMailbox.locAccType, h3, slice_place_self _ (by decide)]
  · rw [ReplyMailbox.gilaGssi, h4, extractLsb'_ssi]
  · rw [ReplyMailbox.gilaClass, h5]
    simp (disch := omega) only [BitVec.extractLsb'_or, slice_place_self, slice_place_apart,
      BitVec.or_zero]
  · rw [ReplyMailbox.gilaLifetime, h5]
    simp (disch := omega) only [BitVec.extractLsb'_or, slice_place_self, slice_place_apart,
      BitVec.zero_or]
  · rw [ReplyMailbox.gilaPresent, h6, getLsbD_place, BitVec.getLsbD_extractLsb']
    simp
  · rw [ReplyMailbox.rawModeFlag, h9]
    rfl

end ReplyMailbox

/-! ## From the software to the terminal -/

/-- The body as it is announced on air. -/
def BuildReq.announced (r : BuildReq) : List Bool :=
  (onAir r.mmPduBits).take r.mmPduLenBits.toNat

/-- What a terminal should read of an accept. -/
def acceptOf (req : TxPduMeta) (esi : BitVec 14) : LocationUpdateAccept where
  acceptType := req.locAccType.toNat % 8
  energySaving := some esi.toNat
  gila :=
    if req.gilaPresent.toNat % 2 = 1 then
      some ⟨0, [⟨some (req.gilaLifetime.toNat % 4, req.gilaClass.toNat % 8), 0,
        req.gilaGssi.toNat % 2 ^ 24⟩]⟩
    else none

/-- The accept is carried: it is for the terminal, the body reads as it was submitted, and it ends
where it is announced to. -/
def AcceptCarried (req : TxPduMeta) (esi : BitVec 14) (r : BuildReq) : Prop :=
  r.ssi.toNat = req.targetSsi.toNat % 2 ^ 24 ∧
    readAccept r.announced = some (acceptOf req esi, [])

theorem BuildReq.announced_eq {r : BuildReq} {n : ℕ} (hlen : r.mmPduLenBits.toNat = n)
    (hn : n ≤ 128) : r.announced = window r.mmPduBits.getMsbD 0 n := by
  rw [announced, onAir_eq_window, hlen, take_window _ hn]

section Announced

variable {esi : BitVec 14} {locAccType : BitVec 3} {gssi : BitVec 24} {cls : BitVec 3}
  {lifetime : BitVec 2} {r : BuildReq}

theorem BuildReq.readAccept_with
    (hbody : (r.mmPduBits, r.mmPduLenBits) =
      dLocationUpdate false esi locAccType gssi cls lifetime true) :
    readAccept r.announced =
      some (⟨locAccType.toNat, none, none, none, some esi.toNat, none,
        some ⟨0, [groupOf gssi cls lifetime]⟩⟩, []) := by
  have hbits : r.mmPduBits = (dLocationUpdate false esi locAccType gssi cls lifetime true).1 :=
    congrArg Prod.fst hbody
  have hlen : r.mmPduLenBits.toNat = 102 := congrArg (fun p ↦ p.2.toNat) hbody
  have hhead := bodyFields_dLocationUpdate esi locAccType gssi cls lifetime true
  have helement := elementFields_dLocationUpdate esi locAccType gssi cls lifetime
  rw [← hbits] at hhead helement
  rw [announced_eq hlen (by decide)]
  exact hhead.readAccept_with helement (gilaFields_gilaPayload gssi cls lifetime)

theorem BuildReq.readAccept_without
    (hbody : (r.mmPduBits, r.mmPduLenBits) =
      dLocationUpdate false esi locAccType gssi cls lifetime false) :
    readAccept r.announced =
      some (⟨locAccType.toNat, none, none, none, some esi.toNat, none, none⟩,
        window r.mmPduBits.getMsbD 28 8) := by
  have hbits : r.mmPduBits = (dLocationUpdate false esi locAccType gssi cls lifetime false).1 :=
    congrArg Prod.fst hbody
  have hlen : r.mmPduLenBits.toNat = 36 := congrArg (fun p ↦ p.2.toNat) hbody
  have hhead := bodyFields_dLocationUpdate esi locAccType gssi cls lifetime false
  rw [← hbits] at hhead
  rw [announced_eq hlen (by decide)]
  exact hhead.readAccept_without (by decide)

end Announced

/-- What the builder is given of an accept. -/
theorem MleFsm.acceptBuild_accept {s : MleFsm} {i₀ i₂ : MleIn} {req : TxPduMeta}
    (h : s.GoAccepted i₀) (hm : i₀.mb.HoldsAccept req) (hkept : i₂.mb = i₀.mb) (i₁ : MleIn) :
    let r := ((s.step i₀).step i₁).acceptBuild i₂
    r.ssi = req.targetSsi.toBitVec.extractLsb' 0 24 ∧
      (r.mmPduBits, r.mmPduLenBits) = dLocationUpdate false i₂.cfgEnergySavingInfo
        (req.locAccType.toBitVec.extractLsb' 0 3) (req.gilaGssi.toBitVec.extractLsb' 0 24)
        (req.gilaClass.toBitVec.extractLsb' 0 3) (req.gilaLifetime.toBitVec.extractLsb' 0 2)
        (decide (req.gilaPresent.toNat % 2 = 1)) := by
  obtain ⟨-, -, hlat⟩ := MleFsm.latched_of_goAccepted h i₁
  have hraw : ((s.step i₀).step i₁).latRawModeFlag = false := hlat.rawModeFlag.trans hm.rawModeFlag
  have hgila : req.gilaPresent.toBitVec.getLsbD 0 = decide (req.gilaPresent.toNat % 2 = 1) := by
    rw [BitVec.getLsbD, Nat.testBit_zero]
    rfl
  refine ⟨hlat.ssi.trans hm.ssi, ?_⟩
  -- the encoder reads the mailbox during the build
  rw [← hm.locAccType, ← hm.gilaGssi, ← hm.gilaClass, ← hm.gilaLifetime, ← hgila,
    ← hm.gilaPresent, ← hkept]
  simp [acceptBuild, blAckPath, hraw, dloc]

/-- **Which accepts are carried**: those with GILA.  The body of the others has 28 bits and is
announced with 36.  The software leaves the mailbox alone until the FSM is idle again, so the
encoder reads in `i₂` what the GO found. -/
theorem accept_carried_iff (req : TxPduMeta) (m₀ : ReplyMailbox) {s : MleFsm} {i₀ i₁ i₂ : MleIn}
    (hgo : s.GoAccepted i₀) (hstaged : i₀.mb = m₀.writes (txSubmit true .luAccept req).1)
    (hkept : i₂.mb = i₀.mb) :
    AcceptCarried req i₂.cfgEnergySavingInfo (((s.step i₀).step i₁).acceptBuild i₂) ↔
      req.gilaPresent.toNat % 2 = 1 := by
  have hm : i₀.mb.HoldsAccept req := hstaged ▸ ReplyMailbox.holdsAccept_submitLu m₀ req
  obtain ⟨hssi, hbody⟩ := MleFsm.acceptBuild_accept hgo hm hkept i₁
  generalize ((s.step i₀).step i₁).acceptBuild i₂ = r at hssi hbody ⊢
  by_cases h : req.gilaPresent.toNat % 2 = 1
  · -- 102 bits, all of them read
    rw [decide_eq_true h] at hbody
    refine iff_of_true ⟨?_, ?_⟩ h
    · rw [hssi, BitVec.extractLsb'_toNat, Nat.shiftRight_zero]
      rfl
    · rw [BuildReq.readAccept_with hbody, acceptOf, if_pos h]
      simp [groupOf, BitVec.extractLsb'_toNat]
  · -- 28 bits are read, 36 announced
    rw [decide_eq_false h] at hbody
    refine iff_of_false ?_ h
    rintro ⟨-, hread⟩
    rw [BuildReq.readAccept_without hbody] at hread
    have hrest := congrArg (fun p ↦ p.2.length) (Option.some.inj hread)
    rw [length_window] at hrest
    exact absurd hrest (Nat.succ_ne_zero 7)

/-- The accept of an attach with a group. -/
def gilaAccept : TxPduMeta :=
  { targetSsi := 4711, locAccType := 3, gilaGssi := 1000, gilaClass := 4, gilaLifetime := 1
    gilaPresent := 1 }

/-- The accept of a terminal that asked for no group. -/
def plainAccept : TxPduMeta := { targetSsi := 4711, locAccType := 3 }

/-- The cycle in which the GO of an accept arrives. -/
def acceptGo (req : TxPduMeta) : MleIn :=
  { mb := ReplyMailbox.writes {} (txSubmit true .luAccept req).1, goPulse := true }

theorem gilaAccept_carried :
    AcceptCarried gilaAccept 0
      (((MleFsm.init.step (acceptGo gilaAccept)).step (acceptGo gilaAccept)).acceptBuild
        (acceptGo gilaAccept)) :=
  (accept_carried_iff gilaAccept {} (by decide) rfl rfl).2 (by decide)

/-- Without GILA eight bits are left. -/
theorem plainAccept_not_carried :
    MleFsm.init.GoAccepted (acceptGo plainAccept) ∧
      ¬ AcceptCarried plainAccept 0
        (((MleFsm.init.step (acceptGo plainAccept)).step (acceptGo plainAccept)).acceptBuild
          (acceptGo plainAccept)) := by
  refine ⟨by decide, ?_⟩
  rintro ⟨-, hread⟩
  revert hread
  decide +kernel

end TetraPhy.Lmac
