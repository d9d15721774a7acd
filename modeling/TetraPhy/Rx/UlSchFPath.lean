import TetraPhy.Lmac.SchFEncoder
import TetraPhy.Rx.UlSchFBlocks

/-!
# From the capture of a burst to its word

`tetra_ul_nub_to_schf.v` takes the 432 soft values of a captured burst at once and gives them to
`tetra_ul_sch_f_decoder.v`, two a cycle.  The captured values stand in the reverse of the order of
transmission and are positive for a one; the decoder wants the order of transmission and positive
for a zero.

A burst is followed by as many cycles as the two take for it, in which no other comes (`Presents`).
Each burst has one result, whatever the bursts before it were; and for what the encoder of the
other direction sends, at full strength, the result is the word that was encoded.
-/

namespace TetraPhy.Rx

open AirOrder Codec Run

/-! ## The adapter -/

/-- The inputs of a cycle. -/
structure NubPort where
  codedValid : Bool
  codedSofts : BitVec (432 * 4)
  scrambInit : BitVec 32

/-- `tetra_ul_nub_to_schf`. -/
structure NubToSchF where
  softsLat : BitVec (432 * 4) := 0
  k : ℕ := 0
  streaming : Bool := false
  softBit0 : BitVec 8 := 0
  softBit1 : BitVec 8 := 0
  softValid : Bool := false
  softFirst : Bool := false
  softLast : Bool := false
  busy : Bool := false

/-- A value of a burst. -/
def rawSoft (softs : BitVec (432 * 4)) (i : ℕ) : BitVec 4 := softs.extractLsb' (i * 4) 4

/-- `conv`. -/
def convSoft (raw : BitVec 4) : BitVec 8 := -raw.signExtend 8

namespace NubToSchF

/-- A clock edge. -/
def step (a : NubToSchF) (p : NubPort) : NubToSchF :=
  if a.streaming then
    { a with
      softBit1 := convSoft (rawSoft a.softsLat (431 - 2 * a.k))
      softBit0 := convSoft (rawSoft a.softsLat (431 - (2 * a.k + 1)))
      softValid := true
      softFirst := a.k == 0
      softLast := a.k == 215
      streaming := a.k != 215
      k := if a.k = 215 then a.k else a.k + 1 }
  else
    { a with
      softValid := false
      softFirst := false
      softLast := false
      busy := p.codedValid
      softsLat := if p.codedValid then p.codedSofts else a.softsLat
      k := if p.codedValid then 0 else a.k
      streaming := p.codedValid }

end NubToSchF

/-! ## The path -/

/-- The adapter and the decoder. -/
structure UlSchFPath where
  nub : NubToSchF := {}
  dec : UlSchFDecoder := {}

namespace UlSchFPath

/-- What the decoder sees. -/
def dibit (nub : NubToSchF) (p : NubPort) : SoftDibit :=
  ⟨nub.softBit0, nub.softBit1, nub.softValid, p.scrambInit⟩

/-- A clock edge. -/
def step (s : UlSchFPath) (p : NubPort) : UlSchFPath where
  nub := s.nub.step p
  dec := s.dec.step (dibit s.nub p)

/-- The output port. -/
def result (s : UlSchFPath) : Option (List Bool × Bool) := s.dec.result

/-- What the decoder sees in a run. -/
def dibits : NubToSchF → List NubPort → List SoftDibit
  | _, [] => []
  | nub, p :: ps => dibit nub p :: dibits (nub.step p) ps

theorem length_dibits (nub : NubToSchF) (ps : List NubPort) :
    (dibits nub ps).length = ps.length := by
  induction ps generalizing nub with
  | nil => rfl
  | cons p ps ih => rw [dibits, List.length_cons, ih, List.length_cons]

theorem dibits_append (nub : NubToSchF) (ps qs : List NubPort) :
    dibits nub (ps ++ qs) = dibits nub ps ++ dibits (exec NubToSchF.step nub ps) qs := by
  induction ps generalizing nub with
  | nil => rfl
  | cons p ps ih => rw [List.cons_append, dibits, ih, dibits, exec_cons, List.cons_append]

/-- The path is the decoder behind the adapter. -/
theorem exec_eq (s : UlSchFPath) (ps : List NubPort) : exec step s ps =
    ⟨exec NubToSchF.step s.nub ps, exec UlSchFDecoder.step s.dec (dibits s.nub ps)⟩ := by
  induction ps generalizing s with
  | nil => rfl
  | cons p ps ih => rw [exec_cons, ih]; rfl

theorem emitted_eq (s : UlSchFPath) (ps : List NubPort) : emitted step result s ps =
    emitted UlSchFDecoder.step UlSchFDecoder.result s.dec (dibits s.nub ps) := by
  induction ps generalizing s with
  | nil => rfl
  | cons p ps ih => rw [emitted, ih]; rfl

end UlSchFPath

/-! ## A burst in the adapter -/

/-- The values of a burst in the order of transmission, as the decoder wants them. -/
def onAirSoft (softs : BitVec (432 * 4)) (j : ℕ) : BitVec 8 := convSoft (rawSoft softs (431 - j))

namespace NubToSchF

open UlSchFPath

variable {a : NubToSchF} {p : NubPort} {softs : BitVec (432 * 4)} {k : ℕ}

/-- Between bursts. -/
structure AtRest (a : NubToSchF) : Prop where
  streaming : a.streaming = false
  softValid : a.softValid = false

/-- Word `k` is at the port. -/
structure Showing (softs : BitVec (432 * 4)) (k : ℕ) (a : NubToSchF) : Prop where
  streaming : a.streaming = decide (k ≠ 215)
  next : k < 215 → a.k = k + 1 ∧ a.softsLat = softs
  softBit1 : a.softBit1 = onAirSoft softs (2 * k)
  softBit0 : a.softBit0 = onAirSoft softs (2 * k + 1)
  softValid : a.softValid = true

theorem AtRest.step_wait (h : a.AtRest) (hp : p.codedValid = false) : (a.step p).AtRest := by
  rw [step, h.streaming, if_neg Bool.false_ne_true]
  exact ⟨hp, rfl⟩

/-- **A burst comes in**, -/
theorem AtRest.step_valid (h : a.AtRest) (hp : p.codedValid = true) (q : NubPort) :
    (a.step p).softValid = false ∧ Showing p.codedSofts 0 ((a.step p).step q) := by
  have hone : a.step p = { a with
      softValid := false
      softFirst := false
      softLast := false
      busy := true
      softsLat := p.codedSofts
      k := 0
      streaming := true } := by
    rw [step, h.streaming, if_neg Bool.false_ne_true, hp]
    rfl
  rw [hone]
  exact ⟨rfl, rfl, fun _ ↦ ⟨rfl, rfl⟩, rfl, rfl, rfl⟩

/-- goes on, -/
theorem Showing.step_next (h : Showing softs k a) (hk : k < 215) :
    Showing softs (k + 1) (a.step p) := by
  obtain ⟨hnext, hlat⟩ := h.next hk
  have hs : a.streaming = true := by rw [h.streaming]; exact decide_eq_true hk.ne
  rw [step, if_pos hs, hnext, hlat]
  refine ⟨?_, fun hlt ↦ ⟨if_neg hlt.ne, rfl⟩, rfl, rfl, rfl⟩
  change (k + 1 != 215) = decide (k + 1 ≠ 215)
  rw [bne, beq_eq_decide, decide_not]

/-- and is over. -/
theorem Showing.step_last (h : Showing softs 215 a) (hp : p.codedValid = false) :
    (a.step p).AtRest := by
  rw [step, h.streaming, if_neg (by decide)]
  exact ⟨hp, rfl⟩

theorem Showing.brings (h : Showing softs k a) (p : NubPort) :
    UlSchFDecoder.Brings (onAirSoft softs) k (dibit a p) where
  valid := h.softValid
  bit1 := h.softBit1
  bit0 := h.softBit0

/-- **The decoder sees the words of the burst in turn.** -/
theorem Showing.dibits {n : ℕ} {ps : List NubPort} (h : Showing softs k a) (hlen : ps.length = n + 1)
    (hk : k + n = 215) (hp : ∀ p ∈ ps, p.codedValid = false) :
    List.Forall₂ (UlSchFDecoder.Brings (onAirSoft softs)) (List.range' k (n + 1)) (dibits a ps) ∧
      (exec step a ps).AtRest := by
  induction n generalizing k a ps with
  | zero =>
      obtain ⟨p, rfl⟩ := List.length_eq_one_iff.1 hlen
      obtain rfl : k = 215 := hk
      exact ⟨List.Forall₂.cons (h.brings p) List.Forall₂.nil,
        h.step_last (hp p (List.mem_singleton_self p))⟩
  | succ n ih =>
      obtain ⟨p, ps, rfl⟩ := List.exists_cons_of_length_eq_add_one hlen
      rw [List.forall_mem_cons] at hp
      obtain ⟨hrest, hend⟩ := ih (h.step_next (p := p) (by omega)) (Nat.succ.inj hlen) (by omega) hp.2
      exact ⟨List.Forall₂.cons (h.brings p) hrest, hend⟩

theorem AtRest.exec_wait {ps : List NubPort} (h : a.AtRest) (hp : ∀ p ∈ ps, p.codedValid = false) :
    (exec step a ps).AtRest := by
  induction ps generalizing a with
  | nil => exact h
  | cons p ps ih =>
      rw [List.forall_mem_cons] at hp
      exact ih (h.step_wait hp.1) hp.2

end NubToSchF

/-! ## A burst through the path -/

/-- A captured burst, and the seed it is descrambled with. -/
structure NubBurst where
  softs : BitVec (432 * 4)
  scrambInit : BitVec 32

/-- What it comes to. -/
def NubBurst.result (b : NubBurst) : List Bool × Bool :=
  UlSchFDecoder.resultOf b.scrambInit (onAirSoft b.softs)

namespace UlSchFPath

variable {s : UlSchFPath} {p : NubPort}

/-- Between bursts. -/
structure AtRest (s : UlSchFPath) : Prop where
  nub : s.nub.AtRest
  dec : s.dec.AtRest

/-- The cycles that the path takes for a burst: the adapter's first one, one for each word, and
those of the decoder. -/
def busy : ℕ := 1 + 216 + UlSchFDecoder.busy

/-- The cycles in which a sequence of bursts comes in.  The seed is held while one is under way. -/
inductive Presents : List NubBurst → List NubPort → Prop
  | nil : Presents [] []
  | wait {p : NubPort} {bursts : List NubBurst} {ps : List NubPort} (hp : p.codedValid = false)
      (rest : Presents bursts ps) : Presents bursts (p :: ps)
  | burst {b : NubBurst} {p : NubPort} {hold : List NubPort} {bursts : List NubBurst}
      {ps : List NubPort} (hp : p.codedValid = true) (hsofts : p.codedSofts = b.softs)
      (hlen : hold.length = busy)
      (hhold : ∀ q ∈ hold, q.codedValid = false ∧ q.scrambInit = b.scrambInit)
      (rest : Presents bursts ps) : Presents (b :: bursts) (p :: hold ++ ps)

/-- A cycle without a burst. -/
theorem AtRest.step_wait (h : s.AtRest) (hp : p.codedValid = false) :
    (s.step p).AtRest ∧ (s.step p).result = none := by
  obtain ⟨hdec, hout⟩ := h.dec.step_wait (i := dibit s.nub p) h.nub.softValid
  exact ⟨⟨h.nub.step_wait hp, hdec⟩, hout⟩

/-- **A burst.** -/
theorem AtRest.exec_burst (h : s.AtRest) {b : NubBurst} {hold : List NubPort}
    (hp : p.codedValid = true) (hsofts : p.codedSofts = b.softs) (hlen : hold.length = busy)
    (hhold : ∀ q ∈ hold, q.codedValid = false ∧ q.scrambInit = b.scrambInit) :
    (exec step s (p :: hold)).AtRest ∧ emitted step result s (p :: hold) = [b.result] := by
  obtain ⟨q, hold, rfl⟩ := List.exists_cons_of_length_eq_add_one (n := 4321) hlen
  obtain ⟨m, hold, rfl⟩ := List.exists_cons_of_length_eq_add_one (n := 4320) (Nat.succ.inj hlen)
  rw [List.forall_mem_cons, List.forall_mem_cons] at hhold
  obtain ⟨hq, hm, hhold⟩ := hhold
  have hlen : hold.length = 4320 := Nat.succ.inj (Nat.succ.inj hlen)
  -- one cycle for the adapter to start, 216 with a word each, and the decoder's
  have hsplit : m :: hold = m :: hold.take 215 ++ hold.drop 215 := by
    rw [List.cons_append, List.take_append_drop]
  have hquiet : ∀ q ∈ m :: hold, q.codedValid = false :=
    List.forall_mem_cons.2 ⟨hm.1, fun q hq ↦ (hhold q hq).1⟩
  rw [hsplit, List.forall_mem_append] at hquiet
  have hwords : (m :: hold.take 215).length = 215 + 1 := by
    rw [List.length_cons, List.length_take, hlen]
    rfl
  have hbusy : (dibits (exec NubToSchF.step ((s.nub.step p).step q) (m :: hold.take 215))
      (hold.drop 215)).length = UlSchFDecoder.busy := by
    rw [length_dibits, List.length_drop, hlen]
    rfl
  obtain ⟨hvalid, hshow⟩ := h.nub.step_valid hp q
  rw [hsofts] at hshow
  obtain ⟨hbrings, hnub⟩ := hshow.dibits hwords rfl hquiet.1
  rw [dibits, ← List.range_eq_range'] at hbrings
  obtain ⟨hfirst, hnone⟩ := h.dec.step_wait (i := dibit s.nub p) h.nub.softValid
  obtain ⟨hsecond, hnone'⟩ := hfirst.step_wait (i := dibit (s.nub.step p) q) hvalid
  obtain ⟨hdec, hout⟩ := UlSchFDecoder.exec_block hsecond hbrings hbusy
  have hseen : dibits s.nub (p :: q :: m :: hold) =
      dibit s.nub p :: dibit (s.nub.step p) q ::
        (dibits ((s.nub.step p).step q) (m :: hold.take 215) ++
          dibits (exec NubToSchF.step ((s.nub.step p).step q) (m :: hold.take 215))
            (hold.drop 215)) := by
    rw [dibits, dibits, hsplit, dibits_append]
  rw [exec_eq, emitted_eq, hseen, emitted_cons_of_none hnone, emitted_cons_of_none hnone', dibits,
    hout, exec_cons, exec_cons, hsplit, exec_append]
  refine ⟨⟨hnub.exec_wait hquiet.2, hdec⟩, ?_⟩
  rw [NubBurst.result, ← hm.2]
  rfl

/-- **A sequence of bursts.** -/
theorem AtRest.exec_presents (h : s.AtRest) {bursts : List NubBurst} {ps : List NubPort}
    (hps : Presents bursts ps) :
    (exec step s ps).AtRest ∧ emitted step result s ps = bursts.map NubBurst.result := by
  induction hps generalizing s with
  | nil => exact ⟨h, rfl⟩
  | wait hp _ ih =>
      obtain ⟨hrest, hout⟩ := h.step_wait hp
      rw [emitted_cons_of_none hout]
      exact ih hrest
  | burst hp hsofts hlen hhold _ ih =>
      obtain ⟨hrest, hout⟩ := h.exec_burst hp hsofts hlen hhold
      obtain ⟨hend, hemit⟩ := ih hrest
      rw [exec_append, emitted_append, hout, hemit]
      exact ⟨hend, rfl⟩

/-! ## The round trip -/

/-- A captured value of full strength, positive for a one. -/
def FullNub (e : Bool) (raw : BitVec 4) : Prop := if e then raw = 7 else raw = -7 ∨ raw = -8

theorem FullNub.full {e : Bool} {raw : BitVec 4} (h : FullNub e raw) : Full e (convSoft raw) := by
  cases e
  · obtain rfl | rfl := h
    · exact Or.inl rfl
    · exact Or.inr rfl
  · obtain rfl := h
    exact Or.inl rfl

/-- The burst has the bits of a block at full strength, each at its index. -/
def CarriesBlock (b : NubBurst) (codedBits : BitVec 432) : Prop :=
  ∀ i < 432, FullNub (codedBits.getLsbD i) (rawSoft b.softs i)

/-- In the order of transmission. -/
theorem CarriesBlock.full {b : NubBurst} {codedBits : BitVec 432} (h : CarriesBlock b codedBits) :
    List.Forall₂ Full (onAir codedBits) ((List.range 432).map (onAirSoft b.softs)) := by
  rw [onAir, List.forall₂_map_left_iff, List.forall₂_map_right_iff, List.forall₂_same]
  intro j hj
  have hlt := List.mem_range.1 hj
  rw [BitVec.getMsbD_eq_getLsbD, decide_eq_true hlt, Bool.true_and]
  exact (h (431 - j) (by omega)).full

/-- **What was encoded comes out.** -/
theorem result_of_carriesBlock {b : NubBurst} {info : BitVec 268} {codedBits : BitVec 432}
    (hcoded : onAir codedBits = schf.encodeFrom (onAir info) (UInt32.ofBitVec b.scrambInit))
    (hseed : b.scrambInit ≠ 0) (h : CarriesBlock b codedBits) :
    b.result = (onAir info, true) := by
  have hfull := h.full
  rw [hcoded] at hfull
  have hword : ulDecode schf b.scrambInit ((List.range 432).map (onAirSoft b.softs)) =
      crc16 (onAir info) := ulDecode_full (by decide) (length_onAir info) hseed hfull
  have htake : (crc16 (onAir info)).take 268 = onAir info := by
    rw [crc16]
    exact List.take_left' (length_onAir info)
  rw [NubBurst.result, UlSchFDecoder.resultOf, hword, htake, ulCrcOk_crc16]

end UlSchFPath

end TetraPhy.Rx
