import TetraPhy.Sw.MmDemandBounds
import TetraPhy.Sw.MmDemandWalk

/-!
# A U-ATTACH/DETACH-GROUP-IDENTITY is read

Group by group, the walker moves from `listed` to `listed`.  A group of address type 3 has three
identities, of which the walker reads none; it is 77 bits long at least, so that no group follows it
in a body.
-/

namespace TetraPhy.Sw.MmDemand

open BitWalk FieldReader AirOrder

variable {body : ℕ → UInt8} {c : Cursor MmDemandParsed} {rest : List Bool} {out : MmDemandParsed}
  {E : ℤ → Cursor MmDemandParsed → Prop} {Q : Unit → Cursor MmDemandParsed → Prop}

/-- The identity in the record: the walker reads none of address type 3. -/
def GroupAddress.walked (a : GroupAddress) : BitVec 24 :=
  if a.addressType = 3 then 0 else a.identity

/-- The record of a group. -/
def GroupIdentity.walked (g : GroupIdentity) : GidRecord := g.recordAs g.address.walked

/-- Groups in the record. -/
def listed (out : MmDemandParsed) (groups : List GroupIdentity) : MmDemandParsed :=
  { out with
    gidCount := groups.length.toUInt8
    gidRecords := fun i ↦ (groups.map GroupIdentity.walked).getD i {} }

theorem storeRecord_listed (groups : List GroupIdentity) {adi cou adrType gssi : UInt32}
    {g : GroupIdentity}
    (hg : ⟨adi.toUInt8, cou.toUInt8, adrType.toUInt8, gssi⟩ = g.walked) :
    storeRecord groups.length adi cou adrType gssi (listed out groups) =
      listed out (groups ++ [g]) := by
  have hrecords : Function.update (fun i ↦ (groups.map GroupIdentity.walked).getD i {})
      groups.length g.walked = fun i ↦ ((groups ++ [g]).map GroupIdentity.walked).getD i {} := by
    funext i
    rw [List.map_append, List.map_singleton]
    rcases lt_trichotomy i groups.length with hlt | rfl | hgt
    · rw [Function.update_of_ne (Nat.ne_of_lt hlt),
        List.getD_append _ _ _ _ (by rwa [List.length_map])]
    · rw [Function.update_self, List.getD_append_right _ _ _ _ (by rw [List.length_map]),
        List.length_map, Nat.sub_self]
      rfl
    · rw [Function.update_of_ne (Nat.ne_of_gt hgt),
        List.getD_eq_default _ _ (by rw [List.length_map]; omega),
        List.getD_eq_default _ _ (by rw [List.length_append, List.length_map]; exact hgt)]
  rw [storeRecord, hg, listed, listed, hrecords, List.length_append]
  rfl

section

variable {r : ℕ} {giuRemain : ℤ}

theorem recordHeader_attach {cou : BitVec 3} {at' : BitVec 2}
    (h : At body (onAir cou ++ (onAir at' ++ rest)) out c) (hgiu : 5 ≤ giuRemain) :
    wp (recordHeader body r 0 giuRemain) (fun v c' ↦ At body rest out c' ∧
      v = (cou.toNat.toUInt32, at'.toNat.toUInt32, giuRemain - 5)) E c := by
  rw [recordHeader, if_pos rfl, if_neg (Int.not_lt.2 hgiu)]
  refine h.readBits (by decide) fun c₁ h₁ ↦ h₁.readBits (by decide) fun c₂ h₂ ↦ ?_
  exact ⟨h₂, rfl⟩

theorem recordHeader_detach {why at' : BitVec 2}
    (h : At body (onAir why ++ (onAir at' ++ rest)) out c) (hgiu : 4 ≤ giuRemain) :
    wp (recordHeader body r 1 giuRemain) (fun v c' ↦ At body rest out c' ∧
      v = (0, at'.toNat.toUInt32, giuRemain - 4)) E c := by
  rw [recordHeader, if_neg (by decide), if_neg (Int.not_lt.2 hgiu)]
  refine h.readBits (by decide) fun c₁ h₁ ↦ h₁.readBits (by decide) fun c₂ h₂ ↦ ?_
  exact ⟨h₂, rfl⟩

/-- The address of a group is read, but for address type 3. -/
theorem recordAddress_reads {a : GroupAddress} (h : At body (a.bits ++ rest) out c)
    (hgiu : a.bits.length ≤ giuRemain) :
    wp (recordAddress body r a.addressType.toNat.toUInt32 giuRemain) (fun v c' ↦
      v.1 = a.walked.toNat.toUInt32 ∧ c'.out = out ∧
        (a.addressType ≠ 3 → At body rest out c' ∧ v.2 = giuRemain - a.bits.length)) E c := by
  rw [recordAddress]
  cases a with
  | gssi x =>
      have hroom : ¬ giuRemain < 24 := Int.not_lt.2 hgiu
      rw [GroupAddress.addressType, if_pos (.inl rfl), if_neg hroom]
      refine h.readBits (by decide) fun c₁ h₁ ↦ ?_
      rw [if_neg (by decide), wp_pure]
      exact ⟨rfl, h₁.out_eq, fun _ ↦ ⟨h₁, rfl⟩⟩
  | gtsi x e =>
      have hroom : ¬ giuRemain - 24 < 24 := by
        change (48 : ℤ) ≤ giuRemain at hgiu
        omega
      rw [GroupAddress.bits, List.append_assoc] at h
      rw [GroupAddress.addressType, if_pos (.inr (.inl rfl)), if_neg (by omega)]
      refine h.readBits (by decide) fun c₁ h₁ ↦ ?_
      rw [if_pos (by decide), if_neg hroom]
      refine h₁.readBits (by decide) fun c₂ h₂ ↦ ?_
      refine ⟨rfl, h₂.out_eq, fun _ ↦ ⟨h₂, ?_⟩⟩
      change giuRemain - 24 - 24 = giuRemain - 48
      omega
  | vgssi v =>
      have hroom : ¬ giuRemain < 24 := Int.not_lt.2 hgiu
      rw [GroupAddress.addressType, if_pos (.inr (.inr rfl)), if_neg hroom]
      refine h.readBits (by decide) fun c₁ h₁ ↦ ?_
      rw [if_neg (by decide), wp_pure]
      exact ⟨rfl, h₁.out_eq, fun _ ↦ ⟨h₁, rfl⟩⟩
  | gtsiVgssi x e v =>
      rw [GroupAddress.addressType, if_neg (by decide), wp_pure]
      exact ⟨rfl, h.out_eq, fun h3 ↦ absurd rfl h3⟩

theorem records_done {numElem rounds : ℕ} (hr : numElem ≤ r) :
    wp (records body numElem rounds r giuRemain) Q E c ↔ Q () c := by
  cases rounds with
  | zero => rw [records, wp_pure]
  | succ rounds => rw [records, if_neg (Nat.not_lt.2 hr), wp_pure]

/-- A group of address type 3 leaves no room for another. -/
theorem groups_eq_nil {g : GroupIdentity} {groups : List GroupIdentity}
    (h3 : g.address.addressType = 3)
    (hroom : g.encode.length + (groups.flatMap GroupIdentity.encode).length ≤ 103) :
    groups = [] := by
  have hlen := length_encode g
  have hcount := length_flatMap_encode groups
  have hbits : g.address.bits.length = 72 := by
    revert h3
    cases g.address with
    | gtsiVgssi x e v =>
        intro
        rw [GroupAddress.bits, List.length_append, List.length_append, length_onAir, length_onAir,
          length_onAir]
    | gssi x => exact fun h3 ↦ absurd h3 (by decide : ¬ (0#2 = 3))
    | gtsi x e => exact fun h3 ↦ absurd h3 (by decide : ¬ (1#2 = 3))
    | vgssi v => exact fun h3 ↦ absurd h3 (by decide : ¬ (2#2 = 3))
  refine List.eq_nil_of_length_eq_zero ?_
  cases g <;> dsimp only at hlen <;> omega

/-- **The groups are listed one after another.** -/
theorem records_reads {before groups : List GroupIdentity} {rounds : ℕ}
    (h : At body (groups.flatMap GroupIdentity.encode ++ rest) (listed out before) c)
    (hrounds : groups.length ≤ rounds)
    (hgiu : giuRemain = (groups.flatMap GroupIdentity.encode).length)
    (hroom : (groups.flatMap GroupIdentity.encode).length ≤ 103) :
    wp (records body (before.length + groups.length) rounds before.length giuRemain)
      (fun _ c' ↦ c'.out = listed out (before ++ groups)) E c := by
  induction groups generalizing before rounds giuRemain c with
  | nil =>
      rw [List.append_nil]
      exact (records_done (Nat.le_refl _)).2 h.out_eq
  | cons g groups ih =>
      obtain ⟨rounds, rfl⟩ := Nat.exists_eq_add_one_of_ne_zero
        (Nat.ne_of_gt (Nat.lt_of_lt_of_le (Nat.succ_pos _) hrounds))
      have hlen := length_encode g
      have hbits := length_bits g.address
      rw [List.flatMap_cons, List.append_assoc] at h
      rw [List.flatMap_cons, List.length_append] at hgiu hroom
      rw [records, if_pos (by rw [List.length_cons]; omega), if_neg (by omega)]
      have haddress : ∀ {adi cou : UInt32} {giu : ℤ} {c₂ : Cursor MmDemandParsed},
          At body (g.address.bits ++ (groups.flatMap GroupIdentity.encode ++ rest))
            (listed out before) c₂ →
          giu = g.address.bits.length + (groups.flatMap GroupIdentity.encode).length →
          (⟨adi.toUInt8, cou.toUInt8, g.address.addressType.toNat.toUInt32.toUInt8,
            g.address.walked.toNat.toUInt32⟩ : GidRecord) = g.walked →
          wp (recordAddress body before.length g.address.addressType.toNat.toUInt32 giu >>= fun v ↦
            Walk.write (storeRecord before.length adi cou g.address.addressType.toNat.toUInt32
              v.1) >>= fun _ ↦
                records body (before.length + (g :: groups).length) rounds (before.length + 1) v.2)
            (fun _ c' ↦ c'.out = listed out (before ++ g :: groups)) E c₂ := by
        intro adi cou giu c₂ h₂ hgiu₂ hg
        refine wp_seq (recordAddress_reads h₂ (by omega)) ?_
        rintro ⟨gssi, giu₃⟩ c₃ ⟨hgssi, hout, hread⟩
        dsimp only at hgssi hread
        have hstored : storeRecord before.length adi cou g.address.addressType.toNat.toUInt32 gssi
            c₃.out = listed out (before ++ [g]) := by
          rw [hout, hgssi]
          exact storeRecord_listed before hg
        rw [wp_bind, wp_write]
        by_cases h3 : g.address.addressType = 3
        · have hlast : groups = [] := groups_eq_nil h3 hroom
          rw [hlast]
          exact (records_done (Nat.le_refl _)).2 hstored
        · obtain ⟨hat, hgiu₃⟩ := hread h3
          have hat₄ : At body (groups.flatMap GroupIdentity.encode ++ rest)
              (listed out (before ++ [g])) { c₃ with
                out := storeRecord before.length adi cou g.address.addressType.toNat.toUInt32 gssi
                  c₃.out } := ⟨hat.ahead.write _, hstored⟩
          have hgiu₄ : giu₃ = (groups.flatMap GroupIdentity.encode).length := by omega
          have hnext := ih hat₄ (Nat.le_of_succ_le_succ hrounds) hgiu₄ (by omega)
          rw [List.length_append, List.length_singleton, List.append_assoc, Nat.add_assoc,
            Nat.add_comm 1] at hnext
          exact hnext
      cases g with
      | attach cou a =>
          dsimp only [GroupIdentity.address] at hlen haddress
          simp only [GroupIdentity.encode, List.append_assoc] at h
          refine h.readBits (by decide) fun c₁ h₁ ↦ ?_
          refine wp_seq (recordHeader_attach h₁ (by omega)) ?_
          rintro - c₂ ⟨h₂, rfl⟩
          refine haddress h₂ (by push_cast at hgiu; omega) ?_
          rw [Nat.toUInt32, UInt32.toUInt8_ofNat', UInt32.toUInt8_ofNat', UInt32.toUInt8_ofNat']
          rfl
      | detach why a =>
          dsimp only [GroupIdentity.address] at hlen haddress
          simp only [GroupIdentity.encode, List.append_assoc] at h
          refine h.readBits (by decide) fun c₁ h₁ ↦ ?_
          refine wp_seq (recordHeader_detach h₁ (by omega)) ?_
          rintro - c₂ ⟨h₂, rfl⟩
          refine haddress h₂ (by push_cast at hgiu; omega) ?_
          rw [Nat.toUInt32, UInt32.toUInt8_ofNat', UInt32.toUInt8_ofNat']
          rfl

end

variable {p : GroupIdentityDemand} {pduSsi : UInt32}

theorem At.peekId {f : UInt32 → MmWalk Unit} {pos : ℕ} {x : BitVec 4} {bits : List Bool}
    (h : At body bits out c) (hx : Written (srcBit body) pos (onAir x))
    (hQ : ∀ c', At body bits out c' → wp (f x.toNat.toUInt32) Q E c') :
    wp (peekId body pos >>= f) Q E c := by
  rw [wp_bind, wp, MmDemand.peekId]
  dsimp only
  rw [bitsAt_eq (by decide) hx]
  exact hQ _ ⟨⟨h.ahead.written, h.ahead.fits, h.ahead.budget⟩, h.out_eq⟩

theorem toUInt32_eq_four : ∀ id : BitVec 4, id.toNat.toUInt32 ≠ 4 ↔ id ≠ 4 := by decide

/-- **A group report response is skipped**, and another element is left alone. -/
theorem groupReport_reads {id : BitVec 4} {payload : List Bool}
    (h : At body (element id payload ++ rest) out c) :
    wp (groupReport body) (fun _ c' ↦ At body (if id = 4 then rest else element id payload ++ rest)
      out c') E c := by
  have hremain := h.ahead.remain_ge
  have hfits := h.ahead.fits
  have hw := h.ahead.written
  rw [List.length_append, length_element] at hremain hfits
  simp only [element, List.append_assoc, written_append, length_onAir] at hw
  rw [groupReport, wp_bind, wp_cursor]
  refine h.peekBits (by decide) hw.1 (by omega) fun c₁ h₁ _ ↦ ?_
  rw [if_neg (by decide), if_pos (by omega)]
  refine h₁.peekId hw.2.1 fun c₂ h₂ ↦ ?_
  by_cases h4 : id = 4
  · have hpayload : (BitVec.ofNat 11 payload.length).toNat.toUInt32.toNat = payload.length := by
      refine toNat_ofNat_length ?_ (by decide)
      change _ < 2048
      have hbody : bodyBits = 129 := rfl
      omega
    rw [if_neg (by rw [toUInt32_eq_four]; exact not_not_intro h4), if_pos (by omega), if_pos h4]
    simp only [element, List.append_assoc] at h₂
    refine h₂.skip fun c₃ h₃ ↦ ?_
    refine h₃.readBits (by decide) fun c₄ h₄ ↦ h₄.readBits (by decide) fun c₅ h₅ ↦ ?_
    rw [hpayload]
    refine h₅.stopWhen (fun r hr ↦ ?_) ?_
    · rw [List.length_append] at hr
      omega
    exact h₅.ahead.skip fun c₆ hahead hout ↦ ⟨hahead, hout.trans h₅.out_eq⟩
  · rw [if_pos ((toUInt32_eq_four id).2 h4), if_neg h4, wp_pure]
    exact h₂

/-- The groups are in the record. -/
theorem groupIdentityUplink_reads {groups : List GroupIdentity}
    (h : At body (element 8 (groupList groups) ++ rest) (listed out []) c)
    (hroom : (element 8 (groupList groups)).length ≤ 125) :
    wp (groupIdentityUplink body) (fun _ c' ↦ c'.out = listed out groups)
      (Finished (listed out groups)) c := by
  have hcount := length_flatMap_encode groups
  have hlist : (groupList groups).length =
      6 + (groups.flatMap GroupIdentity.encode).length := by
    rw [groupList, List.length_append, length_onAir]
  rw [length_element, hlist] at hroom
  have hlen : (BitVec.ofNat 11 (groupList groups).length).toNat.toUInt32.toNat =
      6 + (groups.flatMap GroupIdentity.encode).length := by
    rw [toNat_ofNat_length _ (by decide), hlist]
    rw [hlist]
    change _ < 2048
    omega
  have hnum : (BitVec.ofNat 6 groups.length).toNat.toUInt32.toNat = groups.length := by
    refine toNat_ofNat_length ?_ (by decide)
    change _ < 64
    omega
  simp only [element, List.append_assoc] at h
  rw [groupIdentityUplink]
  refine h.stopWhen (fun r hr ↦ ?_) ?_
  · rw [List.length_append, length_onAir] at hr
    omega
  refine h.readBits (by decide) fun c₁ h₁ ↦ ?_
  rw [if_neg (by decide)]
  refine h₁.stopWhen (fun r hr ↦ ?_) ?_
  · simp only [List.length_append, length_onAir] at hr
    omega
  refine h₁.readBits (by decide) fun c₂ h₂ ↦ h₂.readBits (by decide) fun c₃ h₃ ↦ ?_
  have hremain := h₃.ahead.remain_ge
  rw [List.length_append, hlist] at hremain
  have hlong : ¬ (BitVec.ofNat 11 (groupList groups).length).toNat.toUInt32 < 6 := by
    refine UInt32.not_lt.2 (UInt32.le_iff_toNat_le.2 ?_)
    rw [hlen]
    exact Nat.le_add_right _ _
  rw [wp_bind, wp_cursor, if_neg (by rw [hlen]; rintro (h8 | hlt); exact h8 rfl; omega),
    if_neg hlong]
  rw [groupList, List.append_assoc] at h₃
  refine h₃.readBits (by decide) fun c₄ h₄ ↦ ?_
  by_cases hnone : (BitVec.ofNat 6 groups.length).toNat.toUInt32 = 0
  · have hnil : groups = [] := by
      rw [hnone] at hnum
      exact List.eq_nil_of_length_eq_zero hnum.symm
    rw [if_pos hnone, hnil]
    exact ⟨rfl, h₄.out_eq⟩
  · have hrecords := records_reads (E := Finished (listed out groups)) h₄
      (by omega : groups.length ≤ 3) rfl (by omega)
    rw [List.length_nil, Nat.zero_add, List.nil_append] at hrecords
    have hgiu : ((6 + (groups.flatMap GroupIdentity.encode).length : ℕ) : ℤ) - 6 =
        (groups.flatMap GroupIdentity.encode).length := by omega
    rw [if_neg hnone, hnum, hlen, hgiu]
    exact hrecords

/-- There are no groups. -/
theorem groupIdentityUplink_end (h : At body (onAir 0#1 ++ rest) out c) :
    wp (groupIdentityUplink body) Q (Finished out) c := by
  rw [groupIdentityUplink]
  refine h.stopWhen (fun r hr ↦ ?_) ?_
  · rw [List.length_append, length_onAir] at hr
    omega
  refine h.readBits (by decide) fun c₁ h₁ ↦ ?_
  rw [if_pos (by decide), wp_stop]
  exact ⟨rfl, h₁.out_eq⟩

theorem length_optionals_pos (present : Bool) (elements : List Bool) :
    0 < (optionals present elements).length := by
  cases present with
  | false => exact Nat.one_pos
  | true =>
      rw [length_optionals]
      omega

/-- The mandatory fields in the record. -/
def GroupIdentityDemand.header (p : GroupIdentityDemand) (pduSsi : UInt32) : MmDemandParsed :=
  { mmPduType := 7
    pduSsi
    gidGroupIdentityReport := p.report.toNat.toUInt8
    gidAttachDetachMode := p.mode.toNat.toUInt8 }

/-- The group identity uplink, if there is one, and what is behind it. -/
theorem uplink_reads (hp : p.proprietary.isSome → p.uplink.isSome)
    (h : At body ((p.uplink.elim [] fun gs ↦ element 8 (groupList gs)) ++
      (p.proprietary.elim [] (element 15) ++ (onAir 0#1 ++ rest))) (listed out []) c)
    (helements : p.elements.length ≤ 125) :
    wp (groupIdentityUplink body) (fun _ c' ↦ c'.out = listed out p.groups)
      (Finished (listed out p.groups)) c := by
  cases huplink : p.uplink with
  | none =>
      have hnone : p.proprietary = none := by
        rw [huplink] at hp
        exact Option.not_isSome_iff_eq_none.1 fun h ↦ Bool.false_ne_true (hp h)
      have hnil : p.groups = [] := by
        rw [GroupIdentityDemand.groups, huplink]
        rfl
      rw [huplink, hnone, Option.elim_none, Option.elim_none] at h
      rw [hnil]
      exact groupIdentityUplink_end h
  | some gs =>
      have hgs : p.groups = gs := by
        rw [GroupIdentityDemand.groups, huplink]
        rfl
      rw [huplink, Option.elim_some] at h
      rw [GroupIdentityDemand.elements, huplink, Option.elim_some, List.length_append,
        List.length_append] at helements
      rw [hgs]
      exact groupIdentityUplink_reads h (by omega)

/-- The elements: the walker looks at the first one, and skips it if it is a group report
response. -/
theorem elements_read (hp : p.proprietary.isSome → p.uplink.isSome)
    (hpresent : p.present = true)
    (h : At body (p.elements ++ (onAir 0#1 ++ rest)) (listed out []) c)
    (helements : p.elements.length ≤ 125) :
    wp (groupReport body >>= fun _ ↦ groupIdentityUplink body)
      (fun _ c' ↦ c'.out = listed out p.groups) (Finished (listed out p.groups)) c := by
  simp only [GroupIdentityDemand.elements, List.append_assoc] at h
  cases hreport : p.reportResponse with
  | some payload =>
      rw [hreport, Option.elim_some] at h
      refine wp_seq (groupReport_reads h) fun _ c₁ h₁ ↦ ?_
      exact uplink_reads hp h₁ helements
  | none =>
      cases huplink : p.uplink with
      | some gs =>
          rw [hreport, huplink, Option.elim_none, Option.elim_some, List.nil_append] at h
          refine wp_seq (groupReport_reads h) fun _ c₁ h₁ ↦ ?_
          rw [if_neg (by decide)] at h₁
          have hlist : At body ((p.uplink.elim [] fun gs ↦ element 8 (groupList gs)) ++
              (p.proprietary.elim [] (element 15) ++ (onAir 0#1 ++ rest))) (listed out []) c₁ := by
            rw [huplink]
            exact h₁
          exact uplink_reads hp hlist helements
      | none =>
          rw [GroupIdentityDemand.present, hreport, huplink] at hpresent
          rw [huplink] at hp
          exact absurd (hp hpresent) Bool.false_ne_true

/-- **The walker reads a U-ATTACH/DETACH-GROUP-IDENTITY.** -/
theorem walkMm7_reads (hp : p.proprietary.isSome → p.uplink.isSome)
    (h : At body (p.encode ++ rest) { mmPduType := 7, pduSsi } c)
    (hlen : p.encode.length ≤ bodyBits) :
    wp (walkMm7 body) (fun _ c' ↦ c'.out = listed (p.header pduSsi) p.groups)
      (Finished (listed (p.header pduSsi) p.groups)) c := by
  rw [walkMm7]
  simp only [GroupIdentityDemand.encode, List.append_assoc] at h hlen
  refine h.stopWhen (fun r hr ↦ ?_) ?_
  · simp only [List.length_append, length_onAir] at hr
    omega
  refine h.readBits (by decide) fun c₁ h₁ ↦ h₁.store fun c₂ h₂ ↦ ?_
  refine h₂.readBits (by decide) fun c₃ h₃ ↦ h₃.store fun c₄ h₄ ↦ ?_
  have hheader : At body (optionals p.present p.elements ++ rest) (listed (p.header pduSsi) [])
      c₄ := by
    refine ⟨h₄.ahead, h₄.out_eq.trans ?_⟩
    rw [Nat.toUInt32, UInt32.toUInt8_ofNat', UInt32.toUInt8_ofNat']
    rfl
  refine hheader.stopWhen (fun r hr ↦ ?_) ?_
  · have hpos := length_optionals_pos p.present p.elements
    rw [List.length_append] at hr
    omega
  cases hpresent : p.present with
  | false =>
      have hnone := hpresent
      simp only [GroupIdentityDemand.present, Bool.or_eq_false_iff, Option.isSome_eq_false_iff,
        Option.isNone_iff_eq_none] at hnone
      rw [hpresent, optionals, if_neg Bool.false_ne_true] at hheader
      refine hheader.readBits (by decide) fun c₅ h₅ ↦ ?_
      rw [if_pos (by decide), wp_stop, GroupIdentityDemand.groups, hnone.1.2]
      exact ⟨rfl, h₅.out_eq⟩
  | true =>
      have helements : p.elements.length ≤ 125 := by
        rw [hpresent, List.length_append, List.length_append, length_optionals, length_onAir,
          length_onAir] at hlen
        have hbody : bodyBits = 129 := rfl
        omega
      rw [hpresent, optionals, if_pos rfl, List.append_assoc, List.append_assoc] at hheader
      refine hheader.readBits (by decide) fun c₅ h₅ ↦ ?_
      rw [if_neg (by decide)]
      refine h₅.stopWhen (fun r hr ↦ ?_) ?_
      · simp only [List.length_append, length_onAir] at hr
        omega
      exact elements_read hp hpresent h₅ helements

/-! ## The parser -/

/-- What a walk that is done comes to. -/
theorem run_reads {walk : MmWalk Unit} {out out' : MmDemandParsed}
    (h : wp walk (fun _ c' ↦ c'.out = out') (Finished out')
      { pos := 0, remain := bodyBits, out }) :
    (run walk out).1 = 0 ∧ (run walk out).2.out = out' := by
  rw [wp] at h
  rw [run]
  revert h
  cases walk { pos := 0, remain := bodyBits, out } with
  | go a c => exact fun h ↦ ⟨rfl, h⟩
  | stop rc c => exact fun h ↦ h

/-- A body that was sent is ahead of the cursor at the start. -/
theorem at_start {bits : List Bool} (h : Written (srcBit body) 0 bits)
    (hlen : bits.length ≤ bodyBits) (out : MmDemandParsed) :
    At body (bits ++ []) out { pos := 0, remain := bodyBits, out } := by
  rw [List.append_nil]
  exact ⟨⟨h, by rwa [Nat.zero_add], (Int.sub_zero _).symm⟩, rfl⟩

theorem parse_locationUpdate {p : LocationUpdateDemand} (h : Written (srcBit body) 0 p.encode)
    (hlen : p.encode.length ≤ bodyBits) (pduSsi : UInt32) :
    (parse body 2 pduSsi).1 = 0 ∧ (parse body 2 pduSsi).2.1 = p.record pduSsi := by
  obtain ⟨hrc, hout⟩ := run_reads (walkMm2_reads (Q := fun _ c' ↦ c'.out = _) (at_start h hlen
    { mmPduType := 2, pduSsi }))
  rw [parse]
  dsimp only
  rw [if_pos (.inl rfl), if_pos rfl]
  refine ⟨hrc, ?_⟩
  dsimp only
  rw [if_pos hrc, hout]
  rfl

theorem parse_groupIdentity (hp : p.proprietary.isSome → p.uplink.isSome)
    (h : Written (srcBit body) 0 p.encode) (hlen : p.encode.length ≤ bodyBits) (pduSsi : UInt32) :
    (parse body 7 pduSsi).1 = 0 ∧
      (parse body 7 pduSsi).2.1 = p.recordAs GroupAddress.walked pduSsi := by
  obtain ⟨hrc, hout⟩ := run_reads (walkMm7_reads hp (at_start h hlen
    { mmPduType := 7, pduSsi }) hlen)
  rw [parse]
  dsimp only
  rw [if_pos (.inr rfl), if_neg (by decide)]
  refine ⟨hrc, ?_⟩
  dsimp only
  rw [if_pos hrc, hout]
  rfl

/-- **What the parser gets back of the two demands, and that no body whatever leads it astray.** -/
theorem demand_parsed (body : ℕ → UInt8) (pduSsi : UInt32) :
    (∀ p : LocationUpdateDemand, Written (srcBit body) 0 p.encode → p.encode.length ≤ bodyBits →
      (parse body 2 pduSsi).1 = 0 ∧ (parse body 2 pduSsi).2.1 = p.record pduSsi) ∧
    (∀ p : GroupIdentityDemand, (p.proprietary.isSome → p.uplink.isSome) →
      Written (srcBit body) 0 p.encode → p.encode.length ≤ bodyBits →
      (parse body 7 pduSsi).1 = 0 ∧
        (parse body 7 pduSsi).2.1 = p.recordAs GroupAddress.walked pduSsi) ∧
    ∀ mmPduType, ((parse body mmPduType pduSsi).1 = 0 ∨ (parse body mmPduType pduSsi).1 = -1) ∧
      FitsArray (parse body mmPduType pduSsi).2.1 ∧
        ∀ r ∈ (parse body mmPduType pduSsi).2.2, r.1 + r.2 ≤ bodyBits :=
  ⟨fun _ h hlen ↦ parse_locationUpdate h hlen pduSsi,
    fun _ hp h hlen ↦ parse_groupIdentity hp h hlen pduSsi, fun mmPduType ↦
      parse_fine mmPduType pduSsi⟩

/-! ### Demands -/

/-- The octets of a body. -/
def packed (bits : List Bool) (i : ℕ) : UInt8 :=
  (number ((List.range 8).map fun j ↦ bits.getD (8 * i + j) false)).toUInt8

/-- A location update with an SSI, which attaches to a group. -/
def locationAndGroup : LocationUpdateDemand :=
  { locationUpdateType := 3
    requestToAppendLa := 0
    cipher := none
    classOfMs := none
    energySavingMode := some 0
    laInformation := none
    ssiField := some 2633617
    addressExt := none
    groups := some ⟨1, [.attach 4 (.gssi 0x2F4D61)]⟩
    others := [] }

/-- A detachment from one group and the attachment to another. -/
def switchGroups : GroupIdentityDemand :=
  { report := 0
    mode := 0
    reportResponse := none
    uplink := some [.detach 1 (.gssi 0x2F4D61), .attach 4 (.gtsi 0x2F4D63 0x41A001)]
    proprietary := none }

/-- An attachment under three identities. -/
def attachGtsiVgssi : GroupIdentityDemand :=
  { report := 0
    mode := 0
    reportResponse := none
    uplink := some [.attach 4 (.gtsiVgssi 0x2F4D61 0x41A001 0x2F4D63)]
    proprietary := none }

theorem demand_parsed_groups :
    (parse (packed locationAndGroup.encode) 2 2633617).2.1.gildGssi = 0x2F4D61 ∧
      ((parse (packed switchGroups.encode) 7 2633617).2.1.gidRecords 1).gssi = 0x2F4D63 := by
  have hmm2 := ((demand_parsed (packed locationAndGroup.encode) 2633617).1 locationAndGroup
    (by decide +kernel) (by decide)).2
  have hmm7 := ((demand_parsed (packed switchGroups.encode) 2633617).2.1 switchGroups (by decide)
    (by decide +kernel) (by decide)).2
  rw [hmm2, hmm7]
  exact ⟨rfl, rfl⟩

/-- The record has no identity of a group with three. -/
theorem not_parsed_gtsiVgssi :
    Written (srcBit (packed attachGtsiVgssi.encode)) 0 attachGtsiVgssi.encode ∧
      attachGtsiVgssi.encode.length ≤ bodyBits ∧
      (parse (packed attachGtsiVgssi.encode) 7 2633617).2.1 ≠ attachGtsiVgssi.record 2633617 := by
  have hsent : Written (srcBit (packed attachGtsiVgssi.encode)) 0 attachGtsiVgssi.encode := by
    decide +kernel
  have hlen : attachGtsiVgssi.encode.length ≤ bodyBits := by decide
  refine ⟨hsent, hlen, fun h ↦ ?_⟩
  rw [(parse_groupIdentity (by decide) hsent hlen 2633617).2] at h
  have hgssi : (0 : UInt32) = 0x2F4D61 := congrArg (fun out ↦ (out.gidRecords 0).gssi) h
  exact absurd hgssi (by decide)

end TetraPhy.Sw.MmDemand
