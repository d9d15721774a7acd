import TetraPhy.Sw.MmDemandPdu

/-!
# A U-LOCATION-UPDATE-DEMAND is read

`At` says what lies ahead of the cursor and what the record is; each part of a walker takes its
fields off the one and puts them into the other.
-/

namespace TetraPhy.Sw.MmDemand

open BitWalk FieldReader AirOrder

variable {body : ℕ → UInt8}

/-- These bits lie ahead of the cursor, and this is the record. -/
structure At (body : ℕ → UInt8) (bits : List Bool) (out : MmDemandParsed)
    (c : Cursor MmDemandParsed) : Prop where
  ahead : Ahead (srcBit body) bodyBits bits c
  out_eq : c.out = out

variable {c : Cursor MmDemandParsed} {α : Type} {n : ℕ} {x : BitVec n} {bits rest : List Bool}
  {out : MmDemandParsed} {Q : α → Cursor MmDemandParsed → Prop}
  {E : ℤ → Cursor MmDemandParsed → Prop}

namespace At

/-- The next field. -/
theorem readBits {f : UInt32 → MmWalk α} (h : At body (onAir x ++ rest) out c) (hn : n ≤ 32)
    (hQ : ∀ c', At body rest out c' → wp (f x.toNat.toUInt32) Q E c') :
    wp (readBits body n >>= f) Q E c :=
  (wp_bind _ _).2 (h.ahead.field hn fun c' hahead hout ↦ hQ c' ⟨hahead, hout.trans h.out_eq⟩)

theorem peekBits {f : UInt32 → MmWalk α} {pos : ℕ} (h : At body bits out c) (hn : n ≤ 32)
    (hx : Written (srcBit body) pos (onAir x)) (hfits : pos + n ≤ bodyBits)
    (hQ : ∀ c', At body bits out c' → c'.pos = c.pos → wp (f x.toNat.toUInt32) Q E c') :
    wp (peekBits body pos n >>= f) Q E c := by
  have hmin : min n (bodyBits - pos) = n := by omega
  rw [wp_bind, wp, MmDemand.peekBits, Walk.peekAt]
  dsimp only
  rw [hmin, bitsAt_eq hn hx]
  exact hQ _ ⟨⟨h.ahead.written, h.ahead.fits, h.ahead.budget⟩, h.out_eq⟩ rfl

theorem store {f : Unit → MmWalk α} {g : MmDemandParsed → MmDemandParsed}
    (h : At body bits out c) (hQ : ∀ c', At body bits (g out) c' → wp (f ()) Q E c') :
    wp (Walk.write g >>= f) Q E c :=
  (wp_bind _ _).2 (hQ _ ⟨h.ahead.write g, congrArg g h.out_eq⟩)

theorem stopWhen {f : Unit → MmWalk α} {p : ℤ → Prop} [DecidablePred p] {rc : ℤ}
    (h : At body bits out c) (hp : ∀ r : ℤ, bits.length ≤ r → ¬ p r)
    (hQ : wp (f ()) Q E c) : wp (Walk.stopWhen p rc >>= f) Q E c := by
  rw [wp_bind, wp_stopWhen, if_neg (hp _ h.ahead.remain_ge)]
  exact hQ

theorem skip {f : Unit → MmWalk α} (h : At body (bits ++ rest) out c)
    (hQ : ∀ c', At body rest out c' → wp (f ()) Q E c') :
    wp (Walk.skip bits.length >>= f) Q E c :=
  (wp_bind _ _).2 (h.ahead.skip fun c' hahead hout ↦ hQ c' ⟨hahead, hout.trans h.out_eq⟩)

end At

/-! ## `walk_mm2` -/

/-- A type-2 element, and what it does to the record. -/
theorem type2_reads {w : ℕ} {store : UInt32 → MmDemandParsed → MmDemandParsed}
    {x : Option (BitVec w)} (stored : MmDemandParsed → MmDemandParsed)
    (h : At body (flagged x ++ rest) out c) (hw : w ≤ 32)
    (hout : x.elim out (fun x ↦ store x.toNat.toUInt32 out) = stored out) :
    wp (type2 body w store) (fun _ c' ↦ At body rest (stored out) c') E c := by
  rw [type2]
  cases x with
  | none =>
      refine h.stopWhen (fun r hr ↦ ?_) ?_
      · rw [flagged, List.length_append, length_onAir] at hr
        omega
      refine h.readBits (by decide) fun c₁ h₁ ↦ ?_
      rw [if_neg (by decide), wp_pure]
      exact hout ▸ h₁
  | some x =>
      rw [flagged, List.append_assoc] at h
      refine h.stopWhen (fun r hr ↦ ?_) ?_
      · rw [List.length_append, length_onAir] at hr
        omega
      refine h.readBits (by decide) fun c₁ h₁ ↦ ?_
      rw [if_pos (by decide)]
      refine h₁.stopWhen (fun r hr ↦ ?_) ?_
      · rw [List.length_append, length_onAir] at hr
        omega
      refine h₁.readBits hw fun c₂ h₂ ↦ ?_
      rw [wp_write]
      exact ⟨h₂.ahead.write _, (congrArg _ h₂.out_eq).trans hout⟩

theorem length_element (id : BitVec 4) (payload : List Bool) :
    (element id payload).length = 16 + payload.length := by
  simp only [element, List.length_append, length_onAir]
  omega

theorem length_optionals (elements : List Bool) :
    (optionals true elements).length = 2 + elements.length := by
  rw [optionals, if_pos rfl, List.length_append, List.length_append, length_onAir, length_onAir]
  omega

/-- A length of a body fits its field. -/
theorem toNat_ofNat_length {w k : ℕ} (hk : k < 2 ^ w) (hw : w ≤ 32) :
    (BitVec.ofNat w k).toNat.toUInt32.toNat = k := by
  have hpow : 2 ^ w ≤ 2 ^ 32 := Nat.pow_le_pow_right Nat.zero_lt_two hw
  rw [BitVec.toNat_ofNat, Nat.mod_eq_of_lt hk, Nat.toUInt32, UInt32.toNat_ofNat',
    Nat.mod_eq_of_lt (hk.trans_le hpow)]

theorem length_bits (a : GroupAddress) : 24 ≤ a.bits.length := by
  cases a <;> simp only [GroupAddress.bits, List.length_append, length_onAir] <;> decide

theorem length_encode (g : GroupIdentity) :
    g.encode.length = (match g with | .attach _ _ => 6 | .detach _ _ => 5) +
      g.address.bits.length := by
  cases g <;>
    simp only [GroupIdentity.encode, GroupIdentity.address, List.length_append, length_onAir] <;>
    omega

theorem length_flatMap_encode (groups : List GroupIdentity) :
    groups.length * 29 ≤ (groups.flatMap GroupIdentity.encode).length := by
  induction groups with
  | nil => exact Nat.zero_le _
  | cons g groups ih =>
      have hencode := length_encode g
      have hbits := length_bits g.address
      rw [List.flatMap_cons, List.length_append, List.length_cons]
      cases g <;> dsimp only at hencode <;> omega

/-- The group identity location demand is summarised. -/
theorem gild_reads {g : GroupLocationDemand} (h : At body (g.payload ++ rest) out c) :
    wp (gild body c.pos g.payload.length)
      (fun _ c' ↦ At body (g.payload ++ rest) (g.summary out) c') E c := by
  have hfits := h.ahead.fits
  have hw := (written_append.1 h.ahead.written).1
  rw [List.length_append] at hfits
  obtain ⟨mode, groups⟩ := g
  cases groups with
  | nil =>
      have hlen : (GroupLocationDemand.mk mode []).payload.length = 3 := by
        simp only [GroupLocationDemand.payload, optionals, List.length_append, length_onAir]
        rfl
      simp only [GroupLocationDemand.payload, optionals, List.isEmpty_nil, Bool.not_true,
        Bool.false_eq_true, if_false, written_append, length_onAir, Nat.add_assoc,
        Nat.reduceAdd] at hw
      rw [gild, hlen, if_pos (by decide)]
      refine h.peekBits (by decide) hw.2.2 (by omega) fun c₁ h₁ _ ↦ ?_
      rw [if_neg (by decide), wp_pure]
      exact h₁
  | cons first groups =>
      have hlen : (GroupLocationDemand.mk mode (first :: groups)).payload.length =
          26 + (first.encode.length + (groups.flatMap GroupIdentity.encode).length) := by
        simp only [GroupLocationDemand.payload, List.isEmpty_cons, Bool.not_false,
          length_optionals, length_element, groupList, List.flatMap_cons, List.length_append,
          length_onAir]
        omega
      simp only [GroupLocationDemand.payload, optionals, List.isEmpty_cons, Bool.not_false,
        if_true, element, groupList, List.flatMap_cons, written_append, length_onAir, Nat.add_assoc,
        Nat.reduceAdd] at hw
      obtain ⟨-, -, hobit, ⟨hm, hid, hsub, hnum, hfirst, -⟩, -⟩ := hw
      have hcount := length_flatMap_encode groups
      have hencode := length_encode first
      have hbits := length_bits first.address
      have h55 :
          55 ≤ 26 + (first.encode.length + (groups.flatMap GroupIdentity.encode).length) := by
        cases first <;> dsimp only at hencode <;> omega
      rw [gild, hlen, if_pos (by omega)]
      refine h.peekBits (by decide) hobit (by omega) fun c₁ h₁ _ ↦ ?_
      rw [if_pos ⟨by decide, by omega⟩]
      refine h₁.peekBits (by decide) hm (by omega) fun c₂ h₂ _ ↦ ?_
      refine h₂.peekBits (by decide) hid (by omega) fun c₃ h₃ _ ↦ ?_
      refine h₃.peekBits (by decide) hsub (by omega) fun c₄ h₄ _ ↦ ?_
      have hsubLen : (BitVec.ofNat 11 (onAir (BitVec.ofNat 6 (first :: groups).length) ++
          (first.encode ++ groups.flatMap GroupIdentity.encode)).length).toNat.toUInt32 ≥ 6 := by
        refine UInt32.le_iff_toNat_le.2 ?_
        rw [toNat_ofNat_length _ (by decide)]
        · simp only [List.length_append, length_onAir]
          exact Nat.le_add_right 6 _
        · simp only [List.length_append, length_onAir]
          change _ < 2048
          have hbody : bodyBits = 129 := rfl
          omega
      rw [if_pos ⟨by decide, by decide, hsubLen, by omega⟩]
      refine h₄.peekBits (by decide) hnum (by omega) fun c₅ h₅ _ ↦ ?_
      have hsome : (BitVec.ofNat 6 (first :: groups).length).toNat.toUInt32 ≥ 1 := by
        refine UInt32.le_iff_toNat_le.2 ?_
        rw [toNat_ofNat_length _ (by decide), List.length_cons]
        · exact Nat.le_add_left 1 _
        · rw [List.length_cons]
          change _ < 64
          have hbody : bodyBits = 129 := rfl
          omega
      rw [if_pos hsome]
      cases first with
      | attach cou a =>
          simp only [GroupIdentity.encode, written_append, length_onAir, Nat.add_assoc,
            Nat.reduceAdd] at hfirst
          obtain ⟨hadi, hcou, hat, haddr⟩ := hfirst
          dsimp only [GroupIdentity.address] at hencode hbits
          refine h₅.peekBits (by decide) hadi (by omega) fun c₆ h₆ _ ↦ ?_
          rw [if_pos ⟨by decide, by omega⟩]
          refine h₆.peekBits (by decide) hcou (by omega) fun c₇ h₇ _ ↦ ?_
          refine h₇.peekBits (by decide) hat (by omega) fun c₈ h₈ _ ↦ ?_
          cases a with
          | gssi x =>
              rw [if_pos (.inl rfl)]
              refine h₈.peekBits (by decide) haddr (by omega) fun c₉ h₉ _ ↦ ?_
              rw [wp_write]
              refine ⟨h₉.ahead.write _, ?_⟩
              dsimp only
              rw [h₉.out_eq, storeGild, UInt32.toUInt8_ofNat']
              rfl
          | gtsi x e =>
              rw [if_pos (.inr rfl)]
              refine h₈.peekBits (by decide) (written_append.1 haddr).1 (by omega) fun c₉ h₉ _ ↦ ?_
              rw [wp_write]
              refine ⟨h₉.ahead.write _, ?_⟩
              dsimp only
              rw [h₉.out_eq, storeGild, UInt32.toUInt8_ofNat']
              rfl
          | vgssi v =>
              have hnone : ¬ ((2#2).toNat.toUInt32 = 0 ∨ (2#2).toNat.toUInt32 = 1) := by decide
              exact (if_neg hnone).symm ▸ h₈
          | gtsiVgssi x e v =>
              have hnone : ¬ ((3#2).toNat.toUInt32 = 0 ∨ (3#2).toNat.toUInt32 = 1) := by decide
              exact (if_neg hnone).symm ▸ h₈
      | detach why a =>
          rw [GroupIdentity.encode, written_append] at hfirst
          refine h₅.peekBits (by decide) hfirst.1 (by omega) fun c₆ h₆ _ ↦ ?_
          rw [if_neg (fun hadi ↦ absurd hadi.1 (by decide)), wp_pure]
          exact h₆

/-- The walk has returned 0, with this record. -/
def Finished (out : MmDemandParsed) (rc : ℤ) (c : Cursor MmDemandParsed) : Prop :=
  rc = 0 ∧ c.out = out

theorem toUInt32_eq_three : ∀ id : BitVec 4, id.toNat.toUInt32 = 3 ↔ id = 3 := by decide

/-- A type-3 element is skipped by its length, once a group identity location demand is read. -/
theorem type3_element {id : BitVec 4} {payload : List Bool} {out' : MmDemandParsed} {fuel : ℕ}
    {Q : Unit → Cursor MmDemandParsed → Prop} (h : At body (element id payload ++ rest) out c)
    (hgild : id = 3 → 0 < payload.length ∧ ∀ c', At body (payload ++ rest) out c' →
      wp (gild body c'.pos payload.length) (fun _ c' ↦ At body (payload ++ rest) out' c') E c')
    (hother : id ≠ 3 → out = out')
    (hnext : ∀ c', At body rest out' c' → wp (type3 body fuel) Q E c') :
    wp (type3 body (fuel + 1)) Q E c := by
  have hremain := h.ahead.remain_ge
  have hfits := h.ahead.fits
  rw [List.length_append, length_element] at hremain hfits
  have hpayload : (BitVec.ofNat 11 payload.length).toNat.toUInt32.toNat = payload.length := by
    refine toNat_ofNat_length ?_ (by decide)
    change _ < 2048
    have hbody : bodyBits = 129 := rfl
    omega
  have hskip : ∀ c', At body (payload ++ rest) out' c' →
      wp (Walk.skip payload.length >>= fun _ ↦ type3 body fuel) Q E c' :=
    fun c' h' ↦ h'.skip hnext
  simp only [element, List.append_assoc] at h
  rw [type3, wp_bind, wp_cursor, if_pos (by omega)]
  refine h.readBits (by decide) fun c₁ h₁ ↦ ?_
  rw [if_neg (by decide)]
  refine h₁.stopWhen (fun r hr ↦ ?_) ?_
  · simp only [List.length_append, length_onAir] at hr
    omega
  refine h₁.readBits (by decide) fun c₂ h₂ ↦ ?_
  refine h₂.readBits (by decide) fun c₃ h₃ ↦ ?_
  rw [hpayload]
  refine h₃.stopWhen (fun r hr ↦ ?_) ?_
  · rw [List.length_append] at hr
    omega
  rw [wp_bind, wp_cursor]
  dsimp only
  by_cases h3 : id = 3
  · obtain ⟨hpos, hwalk⟩ := hgild h3
    have hsome : (BitVec.ofNat 11 payload.length).toNat.toUInt32 > 0 := by
      refine UInt32.lt_iff_toNat_lt.2 ?_
      rwa [hpayload]
    rw [if_pos ⟨(toUInt32_eq_three id).2 h3, hsome⟩]
    exact wp_seq (hwalk c₃ h₃) fun _ c₄ h₄ ↦ hskip c₄ h₄
  · rw [if_neg fun hboth ↦ h3 ((toUInt32_eq_three id).1 hboth.1)]
    exact hskip c₃ (hother h3 ▸ h₃)

theorem length_flatMap_element (others : List OtherElement) :
    others.length ≤ (others.flatMap fun e ↦ element e.id e.payload).length := by
  induction others with
  | nil => exact Nat.zero_le _
  | cons e others ih =>
      rw [List.flatMap_cons, List.length_append, length_element, List.length_cons]
      omega

theorem length_payload_pos (g : GroupLocationDemand) : 0 < g.payload.length := by
  rw [GroupLocationDemand.payload, List.length_append, length_onAir]
  omega

/-- Elements that are skipped, and the end. -/
theorem type3_others {others : List OtherElement} {fuel : ℕ}
    {Q : Unit → Cursor MmDemandParsed → Prop}
    (h : At body ((others.flatMap fun e ↦ element e.id e.payload) ++ (onAir 0#1 ++ rest)) out c)
    (hfuel : others.length < fuel) : wp (type3 body fuel) Q (Finished out) c := by
  induction fuel generalizing others c with
  | zero => exact absurd hfuel (Nat.not_lt_zero _)
  | succ fuel ih =>
      cases others with
      | nil =>
          have hremain := h.ahead.remain_ge
          rw [List.flatMap_nil, List.nil_append] at h hremain
          rw [List.length_append, length_onAir] at hremain
          rw [type3, wp_bind, wp_cursor, if_pos (by omega)]
          refine h.readBits (by decide) fun c₁ h₁ ↦ ?_
          rw [if_pos (by decide), wp_stop]
          exact ⟨rfl, h₁.out_eq⟩
      | cons e others =>
          rw [List.flatMap_cons, List.append_assoc] at h
          exact type3_element h (fun h3 ↦ absurd h3 e.other) (fun _ ↦ rfl)
            fun c' h' ↦ ih h' (Nat.lt_of_succ_lt_succ hfuel)

/-- The zero behind the location area is dropped. -/
theorem storeLaInformation_append (la : BitVec 14) (out : MmDemandParsed) :
    storeLaInformation (la ++ 0#1).toNat.toUInt32 out =
      { out with laInformation := la.toNat.toUInt16, laInformationValid := 1 } := by
  have hla := la.isLt
  have hshift : (la ++ 0#1).toNat.toUInt32 >>> 1 = la.toNat.toUInt32 := by
    refine UInt32.toNat_inj.1 ?_
    rw [UInt32.toNat_shiftRight, BitVec.toNat_append, Nat.toUInt32, UInt32.toNat_ofNat',
      UInt32.toNat_ofNat', Nat.shiftLeft_eq]
    change (la.toNat * 2 ^ 1 ||| 0) % 2 ^ 32 / 2 ^ 1 = la.toNat % 2 ^ 32
    rw [Nat.or_zero]
    omega
  rw [storeLaInformation, hshift, Nat.toUInt32, UInt32.toUInt16_ofNat']

namespace LocationUpdateDemand

variable (p : LocationUpdateDemand) (out : MmDemandParsed)

/-- The mandatory fields in the record. -/
def header (pduSsi : UInt32) : MmDemandParsed :=
  { mmPduType := 2
    pduSsi
    locationUpdateType := p.locationUpdateType.toNat.toUInt8
    requestToAppendLa := p.requestToAppendLa.toNat.toUInt8
    cipherControl := p.cipher.isSome.toNat.toUInt8 }

def addClassOfMs : MmDemandParsed :=
  { out with
    classOfMs := p.classOfMs.elim 0 (·.toNat.toUInt32)
    classOfMsValid := p.classOfMs.isSome.toNat.toUInt8 }

def addEnergySavingMode : MmDemandParsed :=
  { out with
    energySavingMode := p.energySavingMode.elim 0 (·.toNat.toUInt8)
    energySavingModeValid := p.energySavingMode.isSome.toNat.toUInt8 }

def addLaInformation : MmDemandParsed :=
  { out with
    laInformation := p.laInformation.elim 0 (·.toNat.toUInt16)
    laInformationValid := p.laInformation.isSome.toNat.toUInt8 }

def addSsiField : MmDemandParsed :=
  { out with
    ssiField := p.ssiField.elim 0 (·.toNat.toUInt32)
    ssiFieldValid := p.ssiField.isSome.toNat.toUInt8 }

def addAddressExt : MmDemandParsed :=
  { out with
    addressExt := p.addressExt.elim 0 (·.toNat.toUInt32)
    addressExtValid := p.addressExt.isSome.toNat.toUInt8 }

/-- The type-2 elements are put into the record one after another. -/
theorem fields_eq (pduSsi : UInt32) : p.fields pduSsi = p.addAddressExt (p.addSsiField
    (p.addLaInformation (p.addEnergySavingMode (p.addClassOfMs (p.header pduSsi))))) := rfl

end LocationUpdateDemand

variable {p : LocationUpdateDemand} {pduSsi : UInt32}

/-- The type-2 elements, one after another, and then the type-3 elements. -/
theorem optionalMm2_reads {Q : Unit → Cursor MmDemandParsed → Prop}
    (h : At body (p.elements ++ (onAir 0#1 ++ rest)) (p.header pduSsi) c) :
    wp (optionalMm2 body) Q
      (Finished (p.groups.elim (p.fields pduSsi) (·.summary (p.fields pduSsi)))) c := by
  simp only [LocationUpdateDemand.elements, List.append_assoc] at h
  rw [optionalMm2]
  refine wp_seq (type2_reads p.addClassOfMs h (by decide) ?_) fun _ c₁ h₁ ↦ ?_
  · rw [LocationUpdateDemand.addClassOfMs]
    cases p.classOfMs <;> rfl
  refine wp_seq (type2_reads p.addEnergySavingMode h₁ (by decide) ?_) fun _ c₂ h₂ ↦ ?_
  · rw [LocationUpdateDemand.addEnergySavingMode]
    cases p.energySavingMode with
    | none => rfl
    | some x =>
        rw [Option.elim_some, storeEnergySavingMode, Nat.toUInt32, UInt32.toUInt8_ofNat']
        rfl
  refine wp_seq (type2_reads p.addLaInformation h₂ (by decide) ?_) fun _ c₃ h₃ ↦ ?_
  · rw [LocationUpdateDemand.addLaInformation]
    cases p.laInformation with
    | none => rfl
    | some la => exact storeLaInformation_append la _
  refine wp_seq (type2_reads p.addSsiField h₃ (by decide) ?_) fun _ c₄ h₄ ↦ ?_
  · rw [LocationUpdateDemand.addSsiField]
    cases p.ssiField <;> rfl
  refine wp_seq (type2_reads p.addAddressExt h₄ (by decide) ?_) fun _ c₅ h₅ ↦ ?_
  · rw [LocationUpdateDemand.addAddressExt]
    cases p.addressExt <;> rfl
  rw [← LocationUpdateDemand.fields_eq] at h₅
  have hfuel : p.others.length < bodyBits := by
    have hfits := h₅.ahead.fits
    have hothers := length_flatMap_element p.others
    have hbody : bodyBits = 129 := rfl
    simp only [List.length_append, length_onAir] at hfits
    omega
  cases hgroups : p.groups with
  | none =>
      rw [hgroups, Option.elim_none, List.nil_append] at h₅
      exact type3_others h₅ (hfuel.trans (Nat.lt_succ_self _))
  | some g =>
      rw [hgroups, Option.elim_some] at h₅
      refine type3_element h₅ (fun _ ↦ ⟨length_payload_pos g, fun c' h' ↦ gild_reads h'⟩)
        (fun h3 ↦ absurd rfl h3) fun c' h' ↦ ?_
      exact type3_others h' hfuel

/-- The o-bit, and what is behind it. -/
theorem optionals_reads {Q : Unit → Cursor MmDemandParsed → Prop}
    (h : At body (optionals p.present p.elements ++ rest) (p.header pduSsi) c) : wp (do
      Walk.stopWhen (· = 0) 0
      let obit ← readBits body 1
      if obit = 0 then Walk.stop 0 else optionalMm2 body) Q
        (Finished (p.groups.elim (p.fields pduSsi) (·.summary (p.fields pduSsi)))) c := by
  cases hpresent : p.present with
  | true =>
      rw [hpresent, optionals, if_pos rfl, List.append_assoc, List.append_assoc] at h
      refine h.stopWhen (fun r hr ↦ ?_) ?_
      · rw [List.length_append, length_onAir] at hr
        omega
      refine h.readBits (by decide) fun c₁ h₁ ↦ ?_
      rw [if_neg (by decide)]
      exact optionalMm2_reads h₁
  | false =>
      rw [hpresent, optionals, if_neg Bool.false_ne_true] at h
      refine h.stopWhen (fun r hr ↦ ?_) ?_
      · rw [List.length_append, length_onAir] at hr
        omega
      refine h.readBits (by decide) fun c₁ h₁ ↦ ?_
      rw [if_pos (by decide), wp_stop]
      refine ⟨rfl, h₁.out_eq.trans ?_⟩
      simp only [LocationUpdateDemand.present, Bool.or_eq_false_iff, Option.isSome_eq_false_iff,
        Option.isNone_iff_eq_none] at hpresent
      obtain ⟨⟨⟨⟨⟨⟨hclass, hesm⟩, hla⟩, hssi⟩, hext⟩, hgroups⟩, -⟩ := hpresent
      rw [hgroups, Option.elim_none, LocationUpdateDemand.fields, hclass, hesm, hla, hssi, hext]
      rfl

theorem length_flagged_pos {n : ℕ} (x : Option (BitVec n)) : 0 < (flagged x).length := by
  cases x with
  | none => exact Nat.one_pos
  | some x =>
      rw [flagged, List.length_append, length_onAir]
      omega

/-- **The walker reads a U-LOCATION-UPDATE-DEMAND.** -/
theorem walkMm2_reads {Q : Unit → Cursor MmDemandParsed → Prop}
    (h : At body (p.encode ++ rest) { mmPduType := 2, pduSsi } c) :
    wp (walkMm2 body) Q
      (Finished (p.groups.elim (p.fields pduSsi) (·.summary (p.fields pduSsi)))) c := by
  rw [walkMm2]
  simp only [LocationUpdateDemand.encode, List.append_assoc] at h
  refine h.stopWhen (fun r hr ↦ ?_) ?_
  · have hflag := length_flagged_pos p.cipher
    simp only [List.length_append, length_onAir] at hr
    omega
  refine h.readBits (by decide) fun c₁ h₁ ↦ h₁.store fun c₂ h₂ ↦ ?_
  refine h₂.readBits (by decide) fun c₃ h₃ ↦ h₃.store fun c₄ h₄ ↦ ?_
  cases hcipher : p.cipher with
  | none =>
      rw [hcipher, flagged] at h₄
      refine h₄.readBits (by decide) fun c₅ h₅ ↦ h₅.store fun c₆ h₆ ↦ ?_
      dsimp only
      rw [if_neg (by decide)]
      refine optionals_reads ⟨h₆.ahead, h₆.out_eq.trans ?_⟩
      rw [LocationUpdateDemand.header, hcipher, Nat.toUInt32, UInt32.toUInt8_ofNat',
        UInt32.toUInt8_ofNat']
      rfl
  | some x =>
      rw [hcipher, flagged, List.append_assoc] at h₄
      refine h₄.readBits (by decide) fun c₅ h₅ ↦ h₅.store fun c₆ h₆ ↦ ?_
      dsimp only
      rw [if_pos (by decide)]
      refine h₆.stopWhen (fun r hr ↦ ?_) ?_
      · rw [List.length_append, length_onAir] at hr
        omega
      refine h₆.readBits (by decide) fun c₇ h₇ ↦ optionals_reads ⟨h₇.ahead, h₇.out_eq.trans ?_⟩
      rw [LocationUpdateDemand.header, hcipher, Nat.toUInt32, UInt32.toUInt8_ofNat',
        UInt32.toUInt8_ofNat']
      rfl

end TetraPhy.Sw.MmDemand
