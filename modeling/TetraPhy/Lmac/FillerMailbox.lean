import TetraPhy.Lmac.IndirectMailbox
import TetraPhy.Sw.VoiceFiller

/-!
# The voice filler mailbox

`tetra_voice_filler_mailbox.v`: the software stages a coded burst in words 0 .. 13 and
commits it, by word 14 and a GO, to the bank of one timeslot.  A commit without the valid
flag invalidates the bank and leaves its contents.

`FillerMailbox.writes_voiceFillerWriteTs` and its neighbours are what the operations of
`tetra_voice_filler.c` do to the banks.
-/

namespace TetraPhy.Lmac

open Sw

theorem neZeroBank : NeZero 4 := ⟨by decide⟩

attribute [scoped instance] neZeroBank

/-! ## Packing -/

/-- Bit `k` of a sequence of words. -/
def wordBit (words : ℕ → UInt32) (k : ℕ) : Bool := (words (k / 32)).toBitVec.getLsbD (k % 32)

def setWordBit (words : ℕ → UInt32) (dst : ℕ) : ℕ → UInt32 :=
  Function.update words (dst / 32) (words (dst / 32) ||| ((1 : UInt32) <<< (dst % 32).toUInt32))

theorem wordBit_setWordBit (words : ℕ → UInt32) (dst k : ℕ) :
    wordBit (setWordBit words dst) k = (wordBit words k || decide (k = dst)) := by
  have hone : ∀ b c : Fin 32,
      ((1 : UInt32) <<< (c : ℕ).toUInt32).toBitVec.getLsbD b = decide (b = c) := by decide
  have hb := hone ⟨k % 32, Nat.mod_lt _ (by decide)⟩ ⟨dst % 32, Nat.mod_lt _ (by decide)⟩
  rw [wordBit, setWordBit]
  by_cases hw : k / 32 = dst / 32
  · have hiff : (⟨k % 32, Nat.mod_lt _ (by decide)⟩ : Fin 32) =
        ⟨dst % 32, Nat.mod_lt _ (by decide)⟩ ↔ k = dst := by
      rw [Fin.mk.injEq]
      omega
    rw [hw, Function.update_self, UInt32.toBitVec_or, BitVec.getLsbD_or, hb, wordBit, hw]
    simp only [hiff]
  · have hne : k ≠ dst := fun h ↦ hw (h ▸ rfl)
    rw [Function.update_of_ne hw, wordBit, decide_eq_false hne, Bool.or_false]

/-- Setting bits one after another sets those and no others. -/
theorem wordBit_foldl {α : Type*} (p : α → Bool) (f : α → ℕ) (l : List α) (words : ℕ → UInt32)
    (k : ℕ) : wordBit (l.foldl (fun w i ↦ if p i then setWordBit w (f i) else w) words) k =
      (wordBit words k || l.any fun i ↦ p i && decide (k = f i)) := by
  induction l generalizing words with
  | nil => simp
  | cons i l ih =>
      rw [List.foldl_cons, ih, List.any_cons]
      cases hp : p i with
      | true => simp [wordBit_setWordBit, Bool.or_assoc]
      | false => simp

theorem packBitsMailbox_eq (type5 : ℕ → Bool) : packBitsMailbox type5 =
    (List.range 216).foldl (fun w i ↦ if type5 (216 + i) then setWordBit w (431 - i) else w)
      ((List.range 216).foldl (fun w i ↦ if type5 i then setWordBit w (215 - i) else w)
        fun _ ↦ 0) := rfl

/-- A half that is stored from bit `top` downwards. -/
theorem any_half (p : ℕ → Bool) {top b : ℕ} (ht : 215 ≤ top) :
    ((List.range 216).any fun j ↦ p j && decide (b = top - j)) =
      (decide (top - 215 ≤ b ∧ b ≤ top) && p (top - b)) := by
  rw [Bool.eq_iff_iff, List.any_eq_true, Bool.and_eq_true, decide_eq_true_eq]
  constructor
  · rintro ⟨j, hj, h⟩
    rw [Bool.and_eq_true, decide_eq_true_eq] at h
    rw [List.mem_range] at hj
    have hji : top - b = j := by omega
    exact ⟨by omega, hji ▸ h.1⟩
  · rintro ⟨hb, hp⟩
    refine ⟨top - b, List.mem_range.2 (by omega), ?_⟩
    rw [hp, Bool.true_and, decide_eq_true_eq]
    omega

/-- Both halves of a packed burst have their first bit at the top. -/
theorem wordBit_packBitsMailbox (type5 : ℕ → Bool) {i : ℕ} (hi : i < 216) :
    wordBit (packBitsMailbox type5) (215 - i) = type5 i ∧
      wordBit (packBitsMailbox type5) (431 - i) = type5 (216 + i) := by
  have hzero : ∀ k, wordBit (fun _ ↦ 0) k = false := fun k ↦ BitVec.getLsbD_zero
  have hlow : 215 - (215 - i) = i := by omega
  have hhigh : 431 - (431 - i) = i := by omega
  rw [packBitsMailbox_eq, wordBit_foldl, wordBit_foldl, wordBit_foldl, wordBit_foldl, hzero, hzero,
    any_half _ (by decide), any_half _ (by decide), any_half _ (by decide), any_half _ (by decide),
    hlow, hhigh]
  constructor
  · have hin : 215 - i ≤ 215 := by omega
    have hout : ¬ 216 ≤ 215 - i := by omega
    simp [hin, hout]
  · have hin : 431 - 215 ≤ 431 - i := by omega
    have hout : ¬ 431 - i ≤ 215 := by omega
    simp [hin, hout]

/-! ## The mailbox -/

/-- The staging words and the four banks, bank 0 that of TS1.  Bits 0 .. 215 of a bank are
`blk1`, bits 216 .. 431 `blk2`. -/
structure FillerMailbox where
  box : IndirectMailbox := {}
  bank : Fin 4 → ℕ → Bool := fun _ _ ↦ false
  valid : Fin 4 → Bool := fun _ ↦ false

namespace FillerMailbox

variable (m : FillerMailbox)

/-- A bit of `words_flat_w`. -/
def stageBit (k : ℕ) : Bool := (m.box.word (Fin.ofNat 16 (k / 32))).getLsbD (k % 32)

def commitValid : Bool := (m.box.word 14).getLsbD 0

def commitTargetTs : BitVec 3 := (m.box.word 14).extractLsb' 1 3

/-- `commit_bank_w`: no target stands for TS2. -/
def commitBank : Fin 4 :=
  if m.commitTargetTs = 1 then 0
  else if m.commitTargetTs = 2 then 1
  else if m.commitTargetTs = 3 then 2
  else if m.commitTargetTs = 4 then 3
  else 1

/-- The GO pulse. -/
def commit : FillerMailbox :=
  if m.commitValid then
    { m with
      bank := Function.update m.bank m.commitBank m.stageBit
      valid := Function.update m.valid m.commitBank true }
  else { m with valid := Function.update m.valid m.commitBank false }

/-- A register write as the mailbox sees it. -/
def write (w : RegWrite) : FillerMailbox :=
  if w.offset = regVoiceFillerGo then m.commit
  else { m with box := m.box.write regVoiceFillerIndex regVoiceFillerData w }

/-- The mailbox after a sequence of register writes. -/
def writes (ws : List RegWrite) : FillerMailbox := ws.foldl write m

theorem writes_append (ws vs : List RegWrite) : m.writes (ws ++ vs) = (m.writes ws).writes vs :=
  List.foldl_append

/-- The bank holds a burst and offers it. -/
def Holds (b : Fin 4) (type5 : ℕ → Bool) : Prop :=
  m.valid b = true ∧
    ∀ i < 216, m.bank b (215 - i) = type5 i ∧ m.bank b (431 - i) = type5 (216 + i)

/-- What the dispatcher sees of a bank. -/
def SameBank (m m' : FillerMailbox) (b : Fin 4) : Prop :=
  m'.bank b = m.bank b ∧ m'.valid b = m.valid b

theorem SameBank.trans {m m' m'' : FillerMailbox} {b : Fin 4} (h : m.SameBank m' b)
    (h' : m'.SameBank m'' b) : m.SameBank m'' b := ⟨h'.1.trans h.1, h'.2.trans h.2⟩

theorem SameBank.holds_iff {m m' : FillerMailbox} {b : Fin 4} (h : m.SameBank m' b)
    (type5 : ℕ → Bool) : m'.Holds b type5 ↔ m.Holds b type5 := by
  rw [Holds, Holds, h.1, h.2]

/-! ## What the software's operations do -/

/-- Writes to other registers are not seen. -/
theorem writes_of_writesOnly {R : List UInt32} {ws : List RegWrite} (h : WritesOnly R ws)
    (hR : ∀ r ∈ fillerRegs, r ∉ R) : m.writes ws = m := by
  induction ws generalizing m with
  | nil => rfl
  | cons w ws ih =>
      have hw : ∀ r ∈ fillerRegs, w.offset ≠ r :=
        fun r hr he ↦ hR r hr (he ▸ h w List.mem_cons_self)
      have hgo : w.offset ≠ regVoiceFillerGo := hw _ (by simp [fillerRegs])
      have hbox : m.write w = m := by
        rw [write, if_neg hgo, IndirectMailbox.write_of_ne _ (hw _ (by simp [fillerRegs]))
          (hw _ (by simp [fillerRegs]))]
      exact (congrArg (fun m ↦ writes m ws) hbox).trans
        (ih m fun v hv ↦ h v (List.mem_cons_of_mem _ hv))

/-- Staging changes the words and nothing else. -/
theorem writes_staging {k : ℕ} (ds : List UInt32) :
    m.writes (IndirectMailbox.staging regVoiceFillerIndex regVoiceFillerData k ds) =
      { m with box := m.box.staged regVoiceFillerIndex regVoiceFillerData k ds } := by
  have hidx : regVoiceFillerIndex ≠ regVoiceFillerGo := by decide
  have hdata : regVoiceFillerData ≠ regVoiceFillerGo := by decide
  induction ds generalizing m k with
  | nil => rfl
  | cons d ds ih =>
      rw [IndirectMailbox.staging, writes_append]
      have hone : m.writes (IndirectMailbox.indexed regVoiceFillerIndex regVoiceFillerData
          (UInt32.ofNat k) d) = { m with
            box := (IndirectMailbox.indexed regVoiceFillerIndex regVoiceFillerData
              (UInt32.ofNat k) d).foldl
                (IndirectMailbox.write regVoiceFillerIndex regVoiceFillerData) m.box } := by
        simp only [writes, IndirectMailbox.indexed, List.foldl_cons, List.foldl_nil, write,
          if_neg hidx, if_neg hdata]
      rw [hone, ih, IndirectMailbox.staged, IndirectMailbox.staged, IndirectMailbox.staging,
        List.foldl_append]

/-- The bank of a timeslot. -/
def tsBank (ts : UInt8) : Fin 4 := Fin.ofNat 4 (ts.toNat - 1)

/-- Word 14 of a commit. -/
theorem commit_fields {ts : UInt8} (h : 1 ≤ ts) (h' : ts ≤ 4) (m : FillerMailbox) (v : Bool)
    (hw : m.box.word 14 =
      ((if v then (0x1 : UInt32) else 0) ||| ((ts &&& 0x7).toUInt32 <<< 1)).toBitVec) :
    m.commitValid = v ∧ m.commitBank = tsBank ts := by
  have hts : ts = 1 ∨ ts = 2 ∨ ts = 3 ∨ ts = 4 := by grind
  rw [commitValid, commitBank, commitTargetTs, hw]
  rcases hts with rfl | rfl | rfl | rfl <;> cases v <;> decide

/-- What a commit does, by the fields of word 14. -/
theorem commit_of_fields {m : FillerMailbox} {v : Bool} {b : Fin 4}
    (h : m.commitValid = v ∧ m.commitBank = b) :
    m.commit.valid = Function.update m.valid b v ∧
      m.commit.bank = if v then Function.update m.bank b m.stageBit else m.bank := by
  obtain ⟨rfl, rfl⟩ := h
  rw [commit]
  split_ifs with hv
  · exact ⟨by rw [hv], rfl⟩
  · exact ⟨by rw [eq_false_of_ne_true hv], rfl⟩

/-- Word 14 and the GO behind it. -/
theorem writes_commit (data : UInt32) :
    m.writes (fillerWrite 14 data ++ [⟨regVoiceFillerGo, 0x1⟩]) =
      ({ m with box := m.box.afterWord 14 data } : FillerMailbox).commit := by
  have hone := writes_staging m (k := 14) [data]
  rw [IndirectMailbox.staged_cons (by decide) _ (by decide)] at hone
  rw [writes_append]
  exact congrArg commit hone

/-- Invalidating a bank clears its valid flag. -/
theorem writes_fillerInvalidate {ts : UInt8} (h : 1 ≤ ts) (h' : ts ≤ 4) :
    (m.writes (fillerInvalidate ts)).bank = m.bank ∧
      (m.writes (fillerInvalidate ts)).valid = Function.update m.valid (tsBank ts) false := by
  rw [fillerInvalidate, writes_commit]
  exact (commit_of_fields (commit_fields h h' _ false
    (by simp [IndirectMailbox.afterWord]))).symm

/-- **Clearing all banks.** -/
theorem writes_voiceFillerClear (b : Fin 4) : (m.writes voiceFillerClear).valid b = false := by
  have hsplit : voiceFillerClear =
      fillerInvalidate 1 ++ (fillerInvalidate 2 ++ (fillerInvalidate 3 ++ fillerInvalidate 4)) := by
    simp [voiceFillerClear]
  have hclear : ∀ (m : FillerMailbox) (ts : UInt8), 1 ≤ ts → ts ≤ 4 →
      (m.writes (fillerInvalidate ts)).valid b = if b = tsBank ts then false else m.valid b := by
    intro m ts h h'
    rw [(m.writes_fillerInvalidate h h').2, Function.update_apply]
  rw [hsplit, writes_append, writes_append, writes_append, hclear _ 4 (by decide) (by decide),
    hclear _ 3 (by decide) (by decide), hclear _ 2 (by decide) (by decide),
    hclear _ 1 (by decide) (by decide)]
  have hbank : ∀ b : Fin 4, b = tsBank 4 ∨ b = tsBank 3 ∨ b = tsBank 2 ∨ b = tsBank 1 := by decide
  rcases hbank b with h | h | h | h <;> simp [h]

/-- **Writing a burst fills the bank of its timeslot and no other.** -/
theorem writes_voiceFillerWriteTs (type5 : ℕ → Bool) {ts : UInt8} (h : 1 ≤ ts) (h' : ts ≤ 4) :
    (m.writes (voiceFillerWriteTs type5 ts)).Holds (tsBank ts) type5 ∧
      ∀ b ≠ tsBank ts, m.SameBank (m.writes (voiceFillerWriteTs type5 ts)) b := by
  have hin : ¬ (ts < 1 || ts > 4) = true := by simp; grind
  have hsplit : voiceFillerWriteTs type5 ts =
      IndirectMailbox.staging regVoiceFillerIndex regVoiceFillerData 0
          ((List.range 14).map (packBitsMailbox type5)) ++
        (fillerWrite 14 ((0x1 : UInt32) ||| ((ts &&& 0x7).toUInt32 <<< 1)) ++
          [⟨regVoiceFillerGo, 0x1⟩]) := by
    rw [voiceFillerWriteTs, if_neg hin, List.append_assoc]
    rfl
  rw [hsplit, writes_append, writes_staging, writes_commit]
  generalize hbox : m.box.staged regVoiceFillerIndex regVoiceFillerData 0
    ((List.range 14).map (packBitsMailbox type5)) = box
  obtain ⟨hvalid, hbank⟩ := commit_of_fields (commit_fields h h'
    { m with box := box.afterWord 14 ((0x1 : UInt32) ||| ((ts &&& 0x7).toUInt32 <<< 1)) } true
    (by simp [IndirectMailbox.afterWord]))
  have hstage : ∀ k < 448, FillerMailbox.stageBit
      { m with box := box.afterWord 14 ((0x1 : UInt32) ||| ((ts &&& 0x7).toUInt32 <<< 1)) } k =
        wordBit (packBitsMailbox type5) k := by
    intro k hk
    have hq : k / 32 < 14 := by omega
    have hword : (m.box.staged regVoiceFillerIndex regVoiceFillerData 0
        ((List.range 14).map (packBitsMailbox type5))).word ⟨0 + k / 32, by omega⟩ = _ :=
      IndirectMailbox.word_staged (by decide) m.box _ (by simp) (k / 32) (by simpa using hq)
    have hidx : Fin.ofNat 16 (k / 32) = ⟨0 + k / 32, by omega⟩ := by
      refine Fin.ext ?_
      simp
      omega
    have hne : (⟨0 + k / 32, by omega⟩ : Fin 16) ≠ 14 := by
      intro he
      have := congrArg Fin.val he
      simp at this
      omega
    rw [stageBit, hidx]
    refine (congrArg (fun w ↦ w.getLsbD (k % 32))
      ((box.word_afterWord_of_ne hne _).trans (hbox ▸ hword))).trans ?_
    simp [wordBit]
  rw [if_pos rfl] at hbank
  refine ⟨⟨?_, fun i hi ↦ ?_⟩, fun b hb ↦ ⟨?_, ?_⟩⟩
  · rw [hvalid, Function.update_self]
  · obtain ⟨hlow, hhigh⟩ := wordBit_packBitsMailbox type5 hi
    rw [hbank, Function.update_self, hstage _ (by omega), hstage _ (by omega)]
    exact ⟨hlow, hhigh⟩
  · rw [hbank, Function.update_of_ne hb]
  · rw [hvalid, Function.update_of_ne hb]

end FillerMailbox

end TetraPhy.Lmac
