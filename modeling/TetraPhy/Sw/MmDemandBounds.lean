import TetraPhy.Sw.MmDemandParser

/-!
# No walk leaves its body

Whatever the 129 bits are, a walker of MM demands returns, every range of bits it asks for lies
within them, and it writes no more than three records.

Each part of a walker keeps `Fine`, and returns with it (`Returned`).
-/

namespace TetraPhy.Sw.MmDemand

open BitWalk

variable {body : ℕ → UInt8}

/-- The records that were written fit the array. -/
structure FitsArray (out : MmDemandParsed) : Prop where
  count : out.gidCount ≤ 3
  outside : ∀ r, 3 ≤ r → out.gidRecords r = {}

/-- No read has gone past the body, and no record past the array. -/
def Fine (c : Cursor MmDemandParsed) : Prop := Safe bodyBits c ∧ FitsArray c.out

/-- The walk has returned one of its two codes. -/
def Returned (rc : ℤ) (c : Cursor MmDemandParsed) : Prop := (rc = 0 ∨ rc = -1) ∧ Fine c

variable {c : Cursor MmDemandParsed} {α : Type} {n : ℕ}
  {E : ℤ → Cursor MmDemandParsed → Prop}

namespace Fine

variable {Q : α → Cursor MmDemandParsed → Prop}

theorem readBits {f : UInt32 → MmWalk α} (h : Fine c) (hn : (n : ℤ) ≤ c.remain)
    (hQ : ∀ v c', Fine c' → c'.remain = c.remain - n → wp (f v) Q E c') :
    wp (readBits body n >>= f) Q E c :=
  (wp_bind _ _).2 (h.1.field hn fun v c' hsafe hremain hout ↦
    hQ v c' ⟨hsafe, hout ▸ h.2⟩ hremain)

theorem peekBits {f : UInt32 → MmWalk α} {pos : ℕ} (h : Fine c) (hn : pos + n ≤ bodyBits)
    (hQ : ∀ v c', Fine c' → c'.remain = c.remain → c'.pos = c.pos → wp (f v) Q E c') :
    wp (peekBits body pos n >>= f) Q E c :=
  (wp_bind _ _).2 (h.1.peekAt hn fun v c' hsafe hremain hpos hout ↦
    hQ v c' ⟨hsafe, hout ▸ h.2⟩ hremain hpos)

theorem peekId {f : UInt32 → MmWalk α} {pos : ℕ} (h : Fine c) (hn : pos + 4 ≤ bodyBits)
    (hQ : ∀ v c', Fine c' → c'.remain = c.remain → wp (f v) Q E c') :
    wp (peekId body pos >>= f) Q E c :=
  (wp_bind _ _).2
    (hQ _ _ ⟨⟨h.1.budget, h.1.nonneg, List.forall_mem_cons.2 ⟨hn, h.1.inside⟩⟩, h.2⟩ rfl)

theorem skip {Q : Unit → Cursor MmDemandParsed → Prop} (h : Fine c) (hn : (n : ℤ) ≤ c.remain)
    (hQ : ∀ c', Fine c' → c'.remain = c.remain - n → Q () c') : wp (Walk.skip n) Q E c :=
  h.1.skip hn fun c' hsafe hremain hout ↦ hQ c' ⟨hsafe, hout ▸ h.2⟩ hremain

/-- What is written leaves the records alone. -/
theorem write {g : MmDemandParsed → MmDemandParsed} (h : Fine c)
    (hcount : (g c.out).gidCount = c.out.gidCount)
    (hrecords : (g c.out).gidRecords = c.out.gidRecords) : Fine { c with out := g c.out } :=
  ⟨h.1.write g, ⟨hcount ▸ h.2.count, hrecords ▸ h.2.outside⟩⟩

/-- A field outside the records is stored. -/
theorem store {f : Unit → MmWalk α} {g : MmDemandParsed → MmDemandParsed} (h : Fine c)
    (hg : ∀ out, (g out).gidCount = out.gidCount ∧ (g out).gidRecords = out.gidRecords)
    (hQ : ∀ c', Fine c' → c'.remain = c.remain → wp (f ()) Q E c') :
    wp (Walk.write g >>= f) Q E c :=
  (wp_bind _ _).2 (hQ _ (h.write (hg c.out).1 (hg c.out).2) rfl)

/-- A return that depends on the count. -/
theorem stopWhen {f : Unit → MmWalk α} {p : ℤ → Prop} [DecidablePred p] {rc : ℤ} (h : Fine c)
    (hrc : rc = 0 ∨ rc = -1) (hQ : ¬ p c.remain → wp (f ()) Q Returned c) :
    wp (Walk.stopWhen p rc >>= f) Q Returned c := by
  rw [wp_bind, wp_stopWhen]
  split_ifs with hp
  · exact ⟨hrc, h⟩
  · exact hQ hp

end Fine

/-! ## `walk_mm2` -/

theorem type2_fine {w : ℕ} {store : UInt32 → MmDemandParsed → MmDemandParsed} (h : Fine c)
    (hstore : ∀ x out, (store x out).gidCount = out.gidCount ∧
      (store x out).gidRecords = out.gidRecords) :
    wp (type2 body w store) (fun _ c' ↦ Fine c') Returned c := by
  have hnonneg := h.1.nonneg
  rw [type2]
  refine h.stopWhen (.inr rfl) fun hsome ↦ ?_
  refine h.readBits (by omega) fun p c₁ h₁ hr₁ ↦ ?_
  split_ifs
  · refine h₁.stopWhen (.inr rfl) fun hroom ↦ ?_
    refine h₁.readBits (by omega) fun x c₂ h₂ hr₂ ↦ ?_
    rw [wp_write]
    exact h₂.write (hstore x c₂.out).1 (hstore x c₂.out).2
  · exact h₁

/-- The payload of a group identity location demand is within the body. -/
theorem gild_fine {gp g : ℕ} (h : Fine c) (hg : gp + g ≤ bodyBits) :
    wp (gild body gp g) (fun _ c' ↦ Fine c' ∧ c'.remain = c.remain) Returned c := by
  rw [gild]
  split_ifs with h3
  · refine h.peekBits (by omega) fun obit c₁ h₁ hr₁ hp₁ ↦ ?_
    split_ifs with hobit
    · refine h₁.peekBits (by omega) fun mb c₂ h₂ hr₂ hp₂ ↦ ?_
      refine h₂.peekBits (by omega) fun subId c₃ h₃ hr₃ hp₃ ↦ ?_
      refine h₃.peekBits (by omega) fun subLen c₄ h₄ hr₄ hp₄ ↦ ?_
      split_ifs with hsub
      · refine h₄.peekBits (by omega) fun numElem c₅ h₅ hr₅ hp₅ ↦ ?_
        split_ifs with hnum
        · refine h₅.peekBits (by omega) fun adi c₆ h₆ hr₆ hp₆ ↦ ?_
          split_ifs with hadi
          · refine h₆.peekBits (by omega) fun cou c₇ h₇ hr₇ hp₇ ↦ ?_
            refine h₇.peekBits (by omega) fun adrType c₈ h₈ hr₈ hp₈ ↦ ?_
            split_ifs with hat
            · refine h₈.peekBits (by omega) fun gssi c₉ h₉ hr₉ hp₉ ↦ ?_
              rw [wp_write]
              refine ⟨h₉.write rfl rfl, ?_⟩
              change c₉.remain = c.remain
              omega
            · exact ⟨h₈, by omega⟩
          · exact ⟨h₆, by omega⟩
        · exact ⟨h₅, by omega⟩
      · exact ⟨h₄, by omega⟩
    · exact ⟨h₁, hr₁⟩
  · exact ⟨h, rfl⟩

/-- **The loop over the type-3 elements returns**, since each round reads a bit. -/
theorem type3_fine {fuel : ℕ} (h : Fine c) (hfuel : c.remain < fuel) :
    wp (type3 body fuel) (fun _ c' ↦ Fine c') Returned c := by
  induction fuel generalizing c with
  | zero => exact absurd h.1.nonneg (by omega)
  | succ fuel ih =>
      rw [type3, wp_bind, wp_cursor]
      split_ifs with hsome
      · refine h.readBits (by omega) fun mbit c₁ h₁ hr₁ ↦ ?_
        split_ifs with hmbit
        · exact ⟨.inl rfl, h₁⟩
        · refine h₁.stopWhen (.inr rfl) fun hroom ↦ ?_
          refine h₁.readBits (by omega) fun elemId c₂ h₂ hr₂ ↦ ?_
          refine h₂.readBits (by omega) fun elemLen c₃ h₃ hr₃ ↦ ?_
          refine h₃.stopWhen (.inr rfl) fun hlen ↦ ?_
          have hrest : ∀ c₄, Fine c₄ → c₄.remain = c₃.remain →
              wp (Walk.skip elemLen.toNat >>= fun _ ↦ type3 body fuel)
                (fun _ c' ↦ Fine c') Returned c₄ := by
            intro c₄ h₄ hr₄
            rw [wp_bind]
            exact h₄.skip (by omega) fun c₅ h₅ hr₅ ↦ ih h₅ (by omega)
          rw [wp_bind, wp_cursor]
          dsimp only
          split_ifs
          · have hwithin : c₃.pos + elemLen.toNat ≤ bodyBits := by
              have hbudget := h₃.1.budget
              omega
            refine wp_seq (gild_fine h₃ hwithin) ?_
            rintro - c₄ ⟨h₄, hr₄⟩
            exact hrest c₄ h₄ hr₄
          · exact hrest c₃ h₃ rfl
      · exact h

theorem optionalMm2_fine (h : Fine c) :
    wp (optionalMm2 body) (fun _ c' ↦ Fine c') Returned c := by
  rw [optionalMm2]
  refine wp_seq (type2_fine h fun _ _ ↦ ⟨rfl, rfl⟩) fun _ c₁ h₁ ↦ ?_
  refine wp_seq (type2_fine h₁ fun _ _ ↦ ⟨rfl, rfl⟩) fun _ c₂ h₂ ↦ ?_
  refine wp_seq (type2_fine h₂ fun _ _ ↦ ⟨rfl, rfl⟩) fun _ c₃ h₃ ↦ ?_
  refine wp_seq (type2_fine h₃ fun _ _ ↦ ⟨rfl, rfl⟩) fun _ c₄ h₄ ↦ ?_
  refine wp_seq (type2_fine h₄ fun _ _ ↦ ⟨rfl, rfl⟩) fun _ c₅ h₅ ↦ ?_
  refine type3_fine h₅ ?_
  have hbudget := h₅.1.budget
  push_cast
  omega

theorem walkMm2_fine (h : Fine c) : wp (walkMm2 body) (fun _ c' ↦ Fine c') Returned c := by
  have hnonneg := h.1.nonneg
  rw [walkMm2]
  refine h.stopWhen (.inr rfl) fun hroom ↦ ?_
  refine h.readBits (by omega) fun lut c₁ h₁ hr₁ ↦ ?_
  refine h₁.store (fun _ ↦ ⟨rfl, rfl⟩) fun c₁' h₁' hr₁' ↦ ?_
  refine h₁'.readBits (by omega) fun ra c₂ h₂ hr₂ ↦ ?_
  refine h₂.store (fun _ ↦ ⟨rfl, rfl⟩) fun c₂' h₂' hr₂' ↦ ?_
  refine h₂'.readBits (by omega) fun cc c₃ h₃ hr₃ ↦ ?_
  refine h₃.store (fun _ ↦ ⟨rfl, rfl⟩) fun c₃' h₃' hr₃' ↦ ?_
  have hrest : ∀ c', Fine c' → wp (do
      Walk.stopWhen (· = 0) 0
      let obit ← readBits body 1
      if obit = 0 then Walk.stop 0 else optionalMm2 body) (fun _ c' ↦ Fine c') Returned c' := by
    intro c₄ h₄
    have hnonneg := h₄.1.nonneg
    refine h₄.stopWhen (.inl rfl) fun hsome ↦ ?_
    refine h₄.readBits (by omega) fun obit c₅ h₅ hr₅ ↦ ?_
    split_ifs
    · exact ⟨.inl rfl, h₅⟩
    · exact optionalMm2_fine h₅
  dsimp only
  split_ifs
  · refine h₃'.stopWhen (.inr rfl) fun hroom ↦ ?_
    exact h₃'.readBits (by omega) fun _ c₄ h₄ hr₄ ↦ hrest c₄ h₄
  · exact hrest _ h₃'

/-! ## `walk_mm7` -/

theorem groupReport_fine (h : Fine c) (hsome : 1 ≤ c.remain) :
    wp (groupReport body) (fun _ c' ↦ Fine c') Returned c := by
  have hbudget := h.1.budget
  rw [groupReport, wp_bind, wp_cursor]
  refine h.peekBits (by omega) fun mRep c₁ h₁ hr₁ hp₁ ↦ ?_
  by_cases hmRep : mRep = 0
  · rw [if_pos hmRep]
    exact h₁.skip (by omega) fun c₂ h₂ _ ↦ h₂
  rw [if_neg hmRep]
  by_cases hfive : c.remain ≥ 5
  · rw [if_pos hfive]
    refine h₁.peekId (by omega) fun id c₂ h₂ hr₂ ↦ ?_
    split_ifs with hother hroom
    · exact h₂
    · rw [wp_bind]
      refine h₂.skip (by omega) fun c₃ h₃ hr₃ ↦ ?_
      refine h₃.readBits (by omega) fun _ c₄ h₄ hr₄ ↦ ?_
      refine h₄.readBits (by omega) fun skipLen c₅ h₅ hr₅ ↦ ?_
      refine h₅.stopWhen (.inr rfl) fun hlen ↦ ?_
      exact h₅.skip (by omega) fun c₆ h₆ _ ↦ h₆
    · exact ⟨.inr rfl, h₂⟩
  · rw [if_neg hfive]
    exact ⟨.inr rfl, h₁⟩

theorem toUInt8_le_three {r : ℕ} (hr : r ≤ 3) : r.toUInt8 ≤ 3 :=
  UInt8.le_iff_toNat_le.2 ((Nat.mod_le _ _).trans hr)

/-- A walk that gives up has no more records than the array. -/
theorem giveUp_fine {Q : α → Cursor MmDemandParsed → Prop} {r : ℕ} (h : Fine c) (hr : r ≤ 3) :
    wp (giveUp r) Q Returned c := by
  rw [giveUp, wp_bind, wp_write, wp_stop]
  refine ⟨?_, h.1.write fun out ↦ { out with gidCount := r.toUInt8 }, ?_, h.2.outside⟩
  · split_ifs
    · exact .inr rfl
    · exact .inl rfl
  · exact toUInt8_le_three hr

theorem recordHeader_fine {r : ℕ} {adi : UInt32} {giuRemain : ℤ} (h : Fine c) (hr : r ≤ 3)
    (hgiu : giuRemain ≤ c.remain) :
    wp (recordHeader body r adi giuRemain) (fun v c' ↦ Fine c' ∧ v.2.2 ≤ c'.remain) Returned c := by
  rw [recordHeader]
  split_ifs
  · exact giveUp_fine h hr
  · refine h.readBits (by omega) fun cou c₁ h₁ hr₁ ↦ ?_
    refine h₁.readBits (by omega) fun adrType c₂ h₂ hr₂ ↦ ?_
    rw [wp_pure]
    exact ⟨h₂, by dsimp only; omega⟩
  · exact giveUp_fine h hr
  · refine h.readBits (by omega) fun _ c₁ h₁ hr₁ ↦ ?_
    refine h₁.readBits (by omega) fun adrType c₂ h₂ hr₂ ↦ ?_
    rw [wp_pure]
    exact ⟨h₂, by dsimp only; omega⟩

theorem recordAddress_fine {r : ℕ} {adrType : UInt32} {giuRemain : ℤ} (h : Fine c) (hr : r ≤ 3)
    (hgiu : giuRemain ≤ c.remain) :
    wp (recordAddress body r adrType giuRemain) (fun v c' ↦ Fine c' ∧ v.2 ≤ c'.remain)
      Returned c := by
  rw [recordAddress]
  by_cases hgssi : adrType = 0 ∨ adrType = 1 ∨ adrType = 2
  · rw [if_pos hgssi]
    by_cases hroom : giuRemain < 24
    · rw [if_pos hroom]
      exact giveUp_fine h hr
    rw [if_neg hroom]
    refine h.readBits (by omega) fun gssi c₁ h₁ hr₁ ↦ ?_
    split_ifs
    · exact giveUp_fine h₁ hr
    · refine h₁.readBits (by omega) fun _ c₂ h₂ hr₂ ↦ ?_
      rw [wp_pure]
      exact ⟨h₂, by dsimp only; omega⟩
    · rw [wp_pure]
      exact ⟨h₁, by dsimp only; omega⟩
  · rw [if_neg hgssi, wp_pure]
    exact ⟨h, hgiu⟩

theorem FitsArray.storeRecord {out : MmDemandParsed} {r : ℕ} (h : FitsArray out) (hr : r < 3)
    (adi cou adrType gssi : UInt32) : FitsArray (storeRecord r adi cou adrType gssi out) := by
  constructor
  · exact toUInt8_le_three hr
  · intro r' hr'
    change Function.update out.gidRecords r _ r' = {}
    rw [Function.update_of_ne (by omega)]
    exact h.outside r' hr'

/-- The records take no more bits than the element has. -/
theorem records_fine {numElem rounds r : ℕ} {giuRemain : ℤ} (h : Fine c) (hr : r + rounds = 3)
    (hgiu : giuRemain ≤ c.remain) :
    wp (records body numElem rounds r giuRemain) (fun _ c' ↦ Fine c') Returned c := by
  induction rounds generalizing c r giuRemain with
  | zero => exact h
  | succ rounds ih =>
      rw [records]
      split_ifs with hmore hnone
      · exact giveUp_fine h (by omega)
      · refine h.readBits (by omega) fun adi c₁ h₁ hr₁ ↦ ?_
        refine wp_seq (recordHeader_fine h₁ (by omega) (by omega)) ?_
        rintro ⟨cou, adrType, giu₂⟩ c₂ ⟨h₂, hgiu₂⟩
        refine wp_seq (recordAddress_fine h₂ (by omega) hgiu₂) ?_
        rintro ⟨gssi, giu₃⟩ c₃ ⟨h₃, hgiu₃⟩
        rw [wp_bind, wp_write]
        exact ih ⟨h₃.1.write _, h₃.2.storeRecord (by omega) _ _ _ _⟩ (by omega) hgiu₃
      · exact h

theorem groupIdentityUplink_fine (h : Fine c) :
    wp (groupIdentityUplink body) (fun _ c' ↦ Fine c') Returned c := by
  have hnonneg := h.1.nonneg
  rw [groupIdentityUplink]
  refine h.stopWhen (.inl rfl) fun hsome ↦ ?_
  refine h.readBits (by omega) fun mGiu c₁ h₁ hr₁ ↦ ?_
  split_ifs
  · exact ⟨.inl rfl, h₁⟩
  · refine h₁.stopWhen (.inr rfl) fun hroom ↦ ?_
    refine h₁.readBits (by omega) fun giuId c₂ h₂ hr₂ ↦ ?_
    refine h₂.readBits (by omega) fun giuLen c₃ h₃ hr₃ ↦ ?_
    rw [wp_bind, wp_cursor]
    split_ifs with hgiu hshort
    · exact ⟨.inr rfl, h₃⟩
    · exact ⟨.inr rfl, h₃⟩
    · have hlen : 6 ≤ giuLen.toNat := UInt32.le_iff_toNat_le.1 (UInt32.not_lt.1 hshort)
      refine h₃.readBits (by omega) fun numElem c₄ h₄ hr₄ ↦ ?_
      split_ifs
      · exact ⟨.inl rfl, h₄⟩
      · exact records_fine h₄ rfl (by omega)

theorem walkMm7_fine (h : Fine c) : wp (walkMm7 body) (fun _ c' ↦ Fine c') Returned c := by
  have hnonneg := h.1.nonneg
  rw [walkMm7]
  refine h.stopWhen (.inr rfl) fun hroom ↦ ?_
  refine h.readBits (by omega) fun gir c₁ h₁ hr₁ ↦ ?_
  refine h₁.store (fun _ ↦ ⟨rfl, rfl⟩) fun c₁' h₁' hr₁' ↦ ?_
  refine h₁'.readBits (by omega) fun mode c₂ h₂ hr₂ ↦ ?_
  refine h₂.store (fun _ ↦ ⟨rfl, rfl⟩) fun c₂' h₂' hr₂' ↦ ?_
  have hnonneg₂ := h₂'.1.nonneg
  refine h₂'.stopWhen (.inl rfl) fun hsome ↦ ?_
  refine h₂'.readBits (by omega) fun obit c₃ h₃ hr₃ ↦ ?_
  have hnonneg₃ := h₃.1.nonneg
  split_ifs
  · exact ⟨.inl rfl, h₃⟩
  · refine h₃.stopWhen (.inr rfl) fun hmore ↦ ?_
    refine wp_seq (groupReport_fine h₃ (by omega)) fun _ c₄ h₄ ↦ ?_
    exact groupIdentityUplink_fine h₄

/-! ## The parser -/

theorem run_fine {walk : MmWalk Unit} {out : MmDemandParsed}
    (hwalk : ∀ c, Fine c → wp walk (fun _ c' ↦ Fine c') Returned c) (hout : FitsArray out) :
    Returned (run walk out).1 (run walk out).2 := by
  have h := hwalk { pos := 0, remain := bodyBits, out } ⟨⟨by simp, by simp, by simp⟩, hout⟩
  rw [wp] at h
  rw [run]
  revert h
  cases walk { pos := 0, remain := bodyBits, out } with
  | go a c => exact fun h ↦ ⟨.inl rfl, h⟩
  | stop rc c => exact fun h ↦ h

/-- **The parser returns 0 or −1, asks only for bits of the body, and fills in no more than three
records**, whatever the body. -/
theorem parse_fine (mmPduType : UInt8) (pduSsi : UInt32) :
    ((parse body mmPduType pduSsi).1 = 0 ∨ (parse body mmPduType pduSsi).1 = -1) ∧
      FitsArray (parse body mmPduType pduSsi).2.1 ∧
        ∀ r ∈ (parse body mmPduType pduSsi).2.2, r.1 + r.2 ≤ bodyBits := by
  have hempty : FitsArray { mmPduType, pduSsi } :=
    ⟨UInt8.le_iff_toNat_le.2 (Nat.zero_le 3), fun _ _ ↦ rfl⟩
  have hwalk : ∀ c, Fine c →
      wp (if mmPduType = 2 then walkMm2 body else walkMm7 body) (fun _ c' ↦ Fine c') Returned
        c := by
    intro c h
    split_ifs
    · exact walkMm2_fine h
    · exact walkMm7_fine h
  have hrun := run_fine hwalk hempty
  rw [parse]
  dsimp only
  by_cases htype : mmPduType = 2 ∨ mmPduType = 7
  · rw [if_pos htype]
    revert hrun
    generalize run (if mmPduType = 2 then walkMm2 body else walkMm7 body) _ = result
    rintro ⟨hrc, hfine⟩
    refine ⟨hrc, ?_, hfine.1.inside⟩
    dsimp only
    split_ifs
    · exact ⟨hfine.2.count, hfine.2.outside⟩
    · exact hfine.2
  · rw [if_neg htype]
    exact ⟨.inr rfl, hempty, List.forall_mem_nil _⟩

/-! ## What the records hold -/

/-- The fields of a record have the widths they have on the air. -/
structure InRange (r : GidRecord) : Prop where
  attachDetach : r.attachDetach.toNat < 2 ^ 1
  classOfUsage : r.classOfUsage.toNat < 2 ^ 3
  addressType : r.addressType.toNat < 2 ^ 2
  gssi : r.gssi.toNat < 2 ^ 24

theorem inRange_default : InRange {} := ⟨by decide, by decide, by decide, by decide⟩

/-- So have those of all records. -/
def RecordsInRange (out : MmDemandParsed) : Prop := ∀ r, InRange (out.gidRecords r)

theorem RecordsInRange.storeRecord {out : MmDemandParsed} (h : RecordsInRange out) (r : ℕ)
    {adi cou adrType gssi : UInt32} (hadi : adi.toNat < 2 ^ 1) (hcou : cou.toNat < 2 ^ 3)
    (hat : adrType.toNat < 2 ^ 2) (hgssi : gssi.toNat < 2 ^ 24) :
    RecordsInRange (storeRecord r adi cou adrType gssi out) := by
  intro r'
  change InRange (Function.update out.gidRecords r _ r')
  by_cases hr : r' = r
  · subst hr
    rw [Function.update_self]
    exact ⟨(Nat.mod_le _ _).trans_lt hadi, (Nat.mod_le _ _).trans_lt hcou,
      (Nat.mod_le _ _).trans_lt hat, hgssi⟩
  · rw [Function.update_of_ne hr]
    exact h r'

theorem giveUp_keeps {P : α → Prop} (r : ℕ) : Keeps RecordsInRange (giveUp r) P :=
  .bind (.write fun _ h ↦ h) fun _ _ ↦ .stop _

theorem recordHeader_keeps (r : ℕ) (adi : UInt32) (giuRemain : ℤ) :
    Keeps RecordsInRange (recordHeader body r adi giuRemain)
      fun v ↦ v.1.toNat < 2 ^ 3 ∧ v.2.1.toNat < 2 ^ 2 := by
  refine .ite (fun _ ↦ ?_) fun _ ↦ ?_
  · refine .ite (fun _ ↦ giveUp_keeps r) fun _ ↦ ?_
    refine .bind (.field _ _ (by decide)) fun cou hcou ↦ ?_
    exact .bind (.field _ _ (by decide)) fun adrType hat ↦ .pure ⟨hcou, hat⟩
  · refine .ite (fun _ ↦ giveUp_keeps r) fun _ ↦ ?_
    refine .bind (.field _ _ (by decide)) fun _ _ ↦ ?_
    exact .bind (.field _ _ (by decide)) fun adrType hat ↦ .pure ⟨Nat.two_pow_pos 3, hat⟩

theorem recordAddress_keeps (r : ℕ) (adrType : UInt32) (giuRemain : ℤ) :
    Keeps RecordsInRange (recordAddress body r adrType giuRemain) fun v ↦ v.1.toNat < 2 ^ 24 := by
  refine .ite (fun _ ↦ ?_) fun _ ↦ .pure (Nat.two_pow_pos 24)
  refine .ite (fun _ ↦ giveUp_keeps r) fun _ ↦ ?_
  refine .bind (.field _ _ (by decide)) fun gssi hgssi ↦ ?_
  refine .ite (fun _ ↦ ?_) fun _ ↦ .pure hgssi
  refine .ite (fun _ ↦ giveUp_keeps r) fun _ ↦ ?_
  exact .bind (.field _ _ (by decide)) fun _ _ ↦ .pure hgssi

theorem records_keeps (numElem rounds r : ℕ) (giuRemain : ℤ) :
    Keeps RecordsInRange (records body numElem rounds r giuRemain) fun _ ↦ True := by
  induction rounds generalizing r giuRemain with
  | zero => exact .pure trivial
  | succ rounds ih =>
      refine .ite (fun _ ↦ ?_) fun _ ↦ .pure trivial
      refine .ite (fun _ ↦ giveUp_keeps r) fun _ ↦ ?_
      refine .bind (.field _ _ (by decide)) fun adi hadi ↦ ?_
      refine .bind (recordHeader_keeps r adi _) fun ⟨cou, adrType, giu⟩ hhead ↦ ?_
      refine .bind (recordAddress_keeps r adrType giu) fun ⟨gssi, giu'⟩ hgssi ↦ ?_
      refine .bind (.write fun out h ↦ ?_) fun _ _ ↦ ih (r + 1) giu'
      exact h.storeRecord r hadi hhead.1 hhead.2 hgssi

theorem groupReport_keeps : Keeps RecordsInRange (groupReport body) fun _ ↦ True := by
  refine .bind .cursor fun c _ ↦ .bind (.peekAt _ _ _ _) fun mRep _ ↦ ?_
  refine .ite (fun _ ↦ .skip 1) fun _ ↦ .ite (fun _ ↦ ?_) fun _ ↦ .stop _
  refine .bind (R := fun _ ↦ True) (fun _ h ↦ ⟨trivial, h⟩) fun id _ ↦ ?_
  refine .ite (fun _ ↦ .pure trivial) fun _ ↦ .ite (fun _ ↦ ?_) fun _ ↦ .stop _
  refine .bind (.skip 1) fun _ _ ↦ .bind (.field _ _ (by decide)) fun _ _ ↦ ?_
  refine .bind (.field _ _ (by decide)) fun skipLen _ ↦ ?_
  exact .bind .stopWhen fun _ _ ↦ .skip _

theorem groupIdentityUplink_keeps :
    Keeps RecordsInRange (groupIdentityUplink body) fun _ ↦ True := by
  refine .bind .stopWhen fun _ _ ↦ .bind (.field _ _ (by decide)) fun mGiu _ ↦ ?_
  refine .ite (fun _ ↦ .stop _) fun _ ↦ .bind .stopWhen fun _ _ ↦ ?_
  refine .bind (.field _ _ (by decide)) fun giuId _ ↦ ?_
  refine .bind (.field _ _ (by decide)) fun giuLen _ ↦ .bind .cursor fun c _ ↦ ?_
  refine .ite (fun _ ↦ .stop _) fun _ ↦ .ite (fun _ ↦ .stop _) fun _ ↦ ?_
  refine .bind (.field _ _ (by decide)) fun numElem _ ↦ ?_
  exact .ite (fun _ ↦ .stop _) fun _ ↦ records_keeps _ _ _ _

theorem walkMm7_keeps : Keeps RecordsInRange (walkMm7 body) fun _ ↦ True := by
  refine .bind .stopWhen fun _ _ ↦ .bind (.field _ _ (by decide)) fun gir _ ↦ ?_
  refine .bind (.write fun _ h ↦ h) fun _ _ ↦ .bind (.field _ _ (by decide)) fun mode _ ↦ ?_
  refine .bind (.write fun _ h ↦ h) fun _ _ ↦ .bind .stopWhen fun _ _ ↦ ?_
  refine .bind (.field _ _ (by decide)) fun obit _ ↦ .ite (fun _ ↦ .stop _) fun _ ↦ ?_
  exact .bind .stopWhen fun _ _ ↦ .bind groupReport_keeps fun _ _ ↦ groupIdentityUplink_keeps

/-- **The records of a U-ATTACH/DETACH-GROUP-IDENTITY are in range**, whatever the body. -/
theorem parse_inRange (body : ℕ → UInt8) (pduSsi : UInt32) :
    RecordsInRange (parse body 7 pduSsi).2.1 := by
  have hnone : RecordsInRange { mmPduType := 7, pduSsi } := fun _ ↦ inRange_default
  have hkeeps : Keeps RecordsInRange (walkMm7 body) fun _ ↦ True := walkMm7_keeps
  have hwalk := hkeeps { pos := 0, remain := bodyBits, out := { mmPduType := 7, pduSsi } } hnone
  have hrun : RecordsInRange (run (walkMm7 body) { mmPduType := 7, pduSsi }).2.out := by
    rw [wp] at hwalk
    rw [run]
    revert hwalk
    cases walkMm7 body { pos := 0, remain := bodyBits, out := { mmPduType := 7, pduSsi } } with
    | go a c => exact fun h ↦ h.2
    | stop rc c => exact fun h ↦ h
  rw [parse]
  dsimp only
  rw [if_pos (.inr rfl), if_neg (by decide)]
  dsimp only
  split_ifs
  · exact hrun
  · exact hrun

end TetraPhy.Sw.MmDemand
