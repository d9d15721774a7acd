import TetraPhy.Rx.UlSchFDecoder

/-!
# Behind the Viterbi decoder

The block decoders of the uplink do the same with what their Viterbi decoder sends.  They keep the
bits, go on to the CRC when the last one comes, feed it the bits one a cycle, and wait for its
verdict.  `UlTail` is the registers of this by themselves, for words of `len` bits.

The phases speak of the registers and of what the Viterbi decoder shows in the same cycle: bits
are kept a cycle behind it (`Capturing`), the CRC is fed (`FeedingCrc`), and the verdict is there
(`Judged`).
-/

namespace TetraPhy.Rx

/-- The registers between the Viterbi decoder and the output port. -/
structure UlTail where
  vitOutBuf : ℕ → Bool
  vitOutCnt : ℕ
  crc : TetraCrc16
  crcPort : CrcPort
  crcFedCnt : ℕ

namespace UlTail

variable (len : ℕ) (t : UlTail) (v : UlViterbiR14)

/-- What every cycle does. -/
def clock : UlTail :=
  { t with
    crc := t.crc.step t.crcPort
    crcPort := { t.crcPort with init := false, dataValid := false, doneIn := false } }

/-- There is nothing more to keep. -/
def Ends : Prop := v.blockDone = true ∨ len ≤ t.vitOutCnt ∧ v.decodedValid = false

instance : Decidable (t.Ends len v) := inferInstanceAs (Decidable (_ ∨ _))

/-- A bit is kept. -/
def keep : UlTail :=
  if v.decodedValid = true ∧ t.vitOutCnt < len then
    { t.clock with
      vitOutBuf := store len t.vitOutBuf t.vitOutCnt v.decodedBit
      vitOutCnt := t.vitOutCnt + 1 }
  else t.clock

/-- A cycle of draining. -/
def drain : UlTail :=
  if t.Ends len v then
    { t.keep len v with
      crcPort := { (t.keep len v).crcPort with init := true }
      crcFedCnt := 0 }
  else t.keep len v

/-- A cycle of feeding the CRC. -/
def feedCrc : UlTail :=
  if t.crcFedCnt < len then
    { t.clock with
      crcPort :=
        { init := false
          doneIn := t.crcFedCnt == len - 1
          dataIn := t.vitOutBuf t.crcFedCnt
          dataValid := true }
      crcFedCnt := t.crcFedCnt + 1 }
  else t.clock

/-! ## The bits -/

/-- The bits `xs` are still to be sent; the one before them is at the port. -/
structure Capturing (bits xs : List Bool) (t : UlTail) (v : UlViterbiR14) : Prop where
  buf : (List.range t.vitOutCnt).map t.vitOutBuf ++ v.sent.toList ++ xs = bits
  blockDone : v.blockDone = decide (xs = [])

/-- `k` bits have been fed, the last of them in the next cycle. -/
structure FeedingCrc (bits : List Bool) (k : ℕ) (t : UlTail) : Prop where
  crcFedCnt : t.crcFedCnt = k
  buf : (List.range bits.length).map t.vitOutBuf = bits
  crcOut : (t.crc.step t.crcPort).crcOut = (bits.take k).foldl Lmac.crcNext 0xFFFF
  init : 0 < k → t.crcPort.init = false
  doneIn : t.crcPort.doneIn = decide (k = bits.length)
  crcValid : 0 < k → t.crc.crcValid = false

/-- The verdict is there. -/
structure Judged (bits : List Bool) (t : UlTail) : Prop where
  crcFedCnt : t.crcFedCnt = bits.length
  buf : (List.range bits.length).map t.vitOutBuf = bits
  crcValid : t.crc.crcValid = true
  crcOk : t.crc.crcOk = ulCrcOk bits

variable {t v} {bits xs : List Bool}

/-- All bits fit in the buffer. -/
theorem Capturing.vitOutCnt_add (h : Capturing bits xs t v) :
    t.vitOutCnt + v.sent.toList.length + xs.length = bits.length := by
  have hlen := congrArg List.length h.buf
  rwa [List.length_append, List.length_append, List.length_map, List.length_range] at hlen

/-- What the Viterbi decoder shows is kept. -/
theorem Capturing.map_keep (h : Capturing bits xs t v) :
    (List.range (t.keep bits.length v).vitOutCnt).map (t.keep bits.length v).vitOutBuf =
      (List.range t.vitOutCnt).map t.vitOutBuf ++ v.sent.toList := by
  have hcount := h.vitOutCnt_add
  rw [UlViterbiR14.sent] at hcount ⊢
  by_cases hv : v.decodedValid = true
  · rw [if_pos hv] at hcount ⊢
    change t.vitOutCnt + 1 + xs.length = bits.length at hcount
    have hlt : t.vitOutCnt < bits.length := by omega
    rw [keep, if_pos ⟨hv, hlt⟩]
    exact map_range_store hlt _ _
  · rw [if_neg hv, keep, if_neg fun hq ↦ hv hq.1]
    exact (List.append_nil _).symm

theorem vitOutBuf_drain : (t.drain len v).vitOutBuf = (t.keep len v).vitOutBuf := by
  rw [drain]
  split <;> rfl

theorem vitOutCnt_drain : (t.drain len v).vitOutCnt = (t.keep len v).vitOutCnt := by
  rw [drain]
  split <;> rfl

/-- There are bits to come. -/
theorem Capturing.not_ends {x : Bool} (h : Capturing bits (x :: xs) t v) :
    ¬ t.Ends bits.length v := by
  have hcount := h.vitOutCnt_add
  have hdone : v.blockDone = false := h.blockDone
  rw [List.length_cons] at hcount
  rintro (hend | ⟨hfull, -⟩)
  · rw [hdone] at hend
    exact Bool.false_ne_true hend
  · omega

/-- **A bit is sent, and the one before it kept.** -/
theorem Capturing.step {x : Bool} (h : Capturing bits (x :: xs) t v) {v' : UlViterbiR14}
    (hsent : v'.sent = some x) (hdone : v'.blockDone = decide (xs = [])) :
    Capturing bits xs (t.drain bits.length v) v' where
  buf := by
    rw [vitOutBuf_drain, vitOutCnt_drain, h.map_keep, hsent]
    exact (List.append_assoc _ _ _).trans h.buf
  blockDone := hdone

/-! ## The CRC -/

/-- **The last bit is kept.** -/
theorem Capturing.feedingCrc (h : Capturing bits [] t v) (hne : bits ≠ []) :
    t.Ends bits.length v ∧ FeedingCrc bits 0 (t.drain bits.length v) := by
  have hends : t.Ends bits.length v := Or.inl h.blockDone
  have hnot : ¬ 0 < 0 := Nat.lt_irrefl 0
  have hall : (List.range (t.keep bits.length v).vitOutCnt).map
      (t.keep bits.length v).vitOutBuf = bits := by
    rw [h.map_keep, ← List.append_nil (_ ++ _)]
    exact h.buf
  have hcnt : (t.keep bits.length v).vitOutCnt = bits.length := by
    have hcount := congrArg List.length hall
    rwa [List.length_map, List.length_range] at hcount
  have hdoneIn : (t.keep bits.length v).crcPort.doneIn = false := by
    rw [keep]
    split <;> rfl
  rw [hcnt] at hall
  rw [drain, if_pos hends]
  refine ⟨hends, rfl, hall, rfl, fun hpos ↦ absurd hpos hnot, ?_, fun hpos ↦ absurd hpos hnot⟩
  exact hdoneIn.trans (decide_eq_false fun hlen ↦ hne (List.eq_nil_of_length_eq_zero hlen.symm)).symm

/-- **A bit is fed.** -/
theorem FeedingCrc.step {k : ℕ} (h : FeedingCrc bits k t) (hk : k < bits.length) :
    FeedingCrc bits (k + 1) (t.feedCrc bits.length) := by
  have hlt : t.crcFedCnt < bits.length := by rw [h.crcFedCnt]; exact hk
  have hbit : t.vitOutBuf k = bits[k] := eq_getElem_of_map_range h.buf hk
  rw [feedCrc, if_pos hlt, h.crcFedCnt, hbit]
  refine ⟨rfl, h.buf, ?_, fun _ ↦ rfl, ?_, fun _ ↦ ?_⟩
  · change Lmac.crcNext (t.crc.step t.crcPort).crcOut bits[k] = _
    rw [h.crcOut, List.take_add_one, List.getElem?_eq_getElem hk, List.foldl_append]
    rfl
  · exact (beq_eq_decide _ _).trans (decide_eq_decide.2 (by omega))
  · change t.crcPort.doneIn = false
    rw [h.doneIn]
    exact decide_eq_false hk.ne

/-- The verdict is about the register after the last bit. -/
theorem crcOk_step {c : TetraCrc16} {p : CrcPort} (hinit : p.init = false)
    (hdone : p.doneIn = true) : (c.step p).crcOk = ((c.step p).crcOut == crcResidue) := by
  rw [TetraCrc16.step, hinit, hdone]
  rfl

/-- **The verdict comes.** -/
theorem FeedingCrc.judged (h : FeedingCrc bits bits.length t) (hne : bits ≠ []) :
    t.crc.crcValid = false ∧ Judged bits (t.feedCrc bits.length) := by
  have hpos : 0 < bits.length := List.length_pos_iff.2 hne
  have hlt : ¬ t.crcFedCnt < bits.length := by rw [h.crcFedCnt]; exact Nat.lt_irrefl _
  have hin : t.crcPort.doneIn = true := h.doneIn.trans (decide_eq_true rfl)
  rw [feedCrc, if_neg hlt]
  refine ⟨h.crcValid hpos, h.crcFedCnt, h.buf, hin, ?_⟩
  change (t.crc.step t.crcPort).crcOk = ulCrcOk bits
  rw [crcOk_step (h.init hpos) hin, h.crcOut, List.take_length, ulCrcOk]

/-- The bits that are shown. -/
theorem Judged.ofFn_eq (h : Judged bits t) {info : ℕ} (hinfo : info ≤ bits.length) :
    (List.ofFn fun j : Fin info ↦ t.vitOutBuf j) = bits.take info := by
  rw [← h.buf, ← List.map_take, List.take_range, Nat.min_eq_left (by simpa using hinfo),
    List.ofFn_eq_map, ← List.map_coe_finRange_eq_range, List.map_map]
  rfl

end UlTail

end TetraPhy.Rx
