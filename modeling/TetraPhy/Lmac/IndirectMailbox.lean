import Mathlib.Algebra.Ring.Nat
import TetraPhy.Sw.Regs

/-!
# Indirect mailboxes

`tetra_indirect_mailbox_wr.v`: sixteen words behind a pair of registers, one that selects
a word and one that writes it.  The reply mailbox and the voice filler mailbox are two
of these, at different registers.  The crossing from the register clock to the system
clock keeps the order of the writes, so a mailbox is a function of the register writes so
far.
-/

namespace TetraPhy.Lmac

open Sw

theorem neZeroWord : NeZero 16 := ⟨by decide⟩

attribute [scoped instance] neZeroWord

/-- The index register and the words. -/
structure IndirectMailbox where
  index : BitVec 4 := 0
  word : Fin 16 → BitVec 32 := fun _ ↦ 0

namespace IndirectMailbox

/-- A register write as a mailbox at the registers `idxReg` and `dataReg` sees it. -/
def write (idxReg dataReg : UInt32) (m : IndirectMailbox) (w : RegWrite) : IndirectMailbox :=
  if w.offset = idxReg then { m with index := w.value.toBitVec.extractLsb' 0 4 }
  else if w.offset = dataReg then
    { m with word := Function.update m.word m.index.toFin w.value.toBitVec }
  else m

/-- The mailbox with one more word stored. -/
def afterWord (m : IndirectMailbox) (i : Fin 16) (data : UInt32) : IndirectMailbox :=
  { index := BitVec.ofFin i, word := Function.update m.word i data.toBitVec }

theorem word_afterWord_of_ne (m : IndirectMailbox) {i j : Fin 16} (h : j ≠ i) (data : UInt32) :
    (m.afterWord i data).word j = m.word j := Function.update_of_ne h _ _

/-- The register writes that store one word. -/
def indexed (idxReg dataReg idx data : UInt32) : List RegWrite := [⟨idxReg, idx⟩, ⟨dataReg, data⟩]

/-- The register writes that store `ds` in the words from `k` on. -/
def staging (idxReg dataReg : UInt32) (k : ℕ) : List UInt32 → List RegWrite
  | [] => []
  | d :: ds => indexed idxReg dataReg (UInt32.ofNat k) d ++ staging idxReg dataReg (k + 1) ds

variable {idxReg dataReg : UInt32}

theorem write_of_ne (m : IndirectMailbox) {w : RegWrite} (hi : w.offset ≠ idxReg)
    (hd : w.offset ≠ dataReg) : m.write idxReg dataReg w = m := by
  rw [write, if_neg hi, if_neg hd]

/-- One word is stored, whatever the index register held. -/
theorem foldl_indexed (hne : dataReg ≠ idxReg) (m : IndirectMailbox) (i : Fin 16) (data : UInt32) :
    (indexed idxReg dataReg (UInt32.ofNat i) data).foldl (write idxReg dataReg) m =
      m.afterWord i data := by
  have hidx : ∀ j : Fin 16, (UInt32.ofNat j).toBitVec.extractLsb' 0 4 = BitVec.ofFin j := by decide
  simp only [indexed, List.foldl_cons, List.foldl_nil, write, if_true, hne, if_false, hidx,
    afterWord]

/-- The mailbox after staging. -/
def staged (m : IndirectMailbox) (idxReg dataReg : UInt32) (k : ℕ) (ds : List UInt32) :
    IndirectMailbox := (staging idxReg dataReg k ds).foldl (write idxReg dataReg) m

theorem staged_cons (hne : dataReg ≠ idxReg) (m : IndirectMailbox) {k : ℕ} (hk : k < 16)
    (d : UInt32) (ds : List UInt32) : m.staged idxReg dataReg k (d :: ds) =
      (m.afterWord ⟨k, hk⟩ d).staged idxReg dataReg (k + 1) ds := by
  have hw := foldl_indexed hne m ⟨k, hk⟩ d
  rw [staged, staging, List.foldl_append, hw, staged]

/-- Words before `k` are left alone by what is staged from `k` on. -/
theorem word_staged_lt (hne : dataReg ≠ idxReg) (m : IndirectMailbox) {k : ℕ} (ds : List UInt32)
    (hk : k + ds.length ≤ 16) (i : Fin 16) (hi : i.val < k) :
    (m.staged idxReg dataReg k ds).word i = m.word i := by
  induction ds generalizing m k with
  | nil => rfl
  | cons d ds ih =>
      rw [List.length_cons] at hk
      rw [staged_cons hne m (by omega), ih _ (by omega) (by omega)]
      exact word_afterWord_of_ne m (Fin.ne_of_lt hi) d

/-- **What is staged is what the mailbox shows.** -/
theorem word_staged (hne : dataReg ≠ idxReg) (m : IndirectMailbox) {k : ℕ} (ds : List UInt32)
    (hk : k + ds.length ≤ 16) (j : ℕ) (hj : j < ds.length) :
    (m.staged idxReg dataReg k ds).word ⟨k + j, by omega⟩ = ds[j].toBitVec := by
  induction ds generalizing m k j with
  | nil => simp at hj
  | cons d ds ih =>
      rw [List.length_cons] at hk hj
      rw [staged_cons hne m (by omega)]
      cases j with
      | zero =>
          rw [word_staged_lt hne _ _ (by omega) _ (by simp)]
          exact Function.update_self _ _ _
      | succ j =>
          have hrec := ih (m.afterWord ⟨k, by omega⟩ d) (k := k + 1) (by omega) j (by omega)
          simpa [Nat.add_assoc, Nat.add_comm 1 j] using hrec

end IndirectMailbox

end TetraPhy.Lmac

/-!
# The reply mailbox

`tetra_reply_mailbox.v` over the indirect mailbox: the fields sliced out of its words for
the MLE registration FSM.

| Word       | Fields                                                          |
|------------|-----------------------------------------------------------------|
| W0         | `ssi`                                                           |
| W1         | `la`                                                            |
| W2         | `chan_alloc_ts_bitmap` 12:9, `usage_marker` 8:3, `addr_type` 2:0 |
| W3         | `loc_acc_type` 4:2, `result` 1:0                                |
| W4, W5, W6 | `gila_gssi`, `gila_class`/`gila_lifetime`, `gila_present`       |
| W7, W8     | `encryption`, `auth_result`                                     |
| W9         | `raw_mode_flag` 31, `raw_slotgrant` 14, `raw_llc_bl_ack` 13, `raw_mle_pd` 12:10, `raw_nr` 9, `raw_ns` 8, `raw_mm_len` 7:0 |
| W10 .. W13 | `raw_mm_bits`, low word first                                   |
-/

namespace TetraPhy.Lmac

open Sw

/-- The reply mailbox. -/
abbrev ReplyMailbox := IndirectMailbox

namespace ReplyMailbox

/-- A register write as the mailbox sees it. -/
def write (m : ReplyMailbox) (w : RegWrite) : ReplyMailbox :=
  IndirectMailbox.write regReplyIndex regReplyData m w

/-- The mailbox after a sequence of register writes. -/
def writes (m : ReplyMailbox) (ws : List RegWrite) : ReplyMailbox := ws.foldl write m

@[simp] theorem writes_nil (m : ReplyMailbox) : m.writes [] = m := rfl

theorem writes_append (m : ReplyMailbox) (ws vs : List RegWrite) :
    m.writes (ws ++ vs) = (m.writes ws).writes vs := List.foldl_append

/-! ## Fields -/

section Fields

variable (m : ReplyMailbox)

def ssi : BitVec 24 := (m.word 0).extractLsb' 0 24

def addrType : BitVec 3 := (m.word 2).extractLsb' 0 3

def usageMarker : BitVec 6 := (m.word 2).extractLsb' 3 6

def chanAllocTsBitmap : BitVec 4 := (m.word 2).extractLsb' 9 4

def result : BitVec 2 := (m.word 3).extractLsb' 0 2

def locAccType : BitVec 3 := (m.word 3).extractLsb' 2 3

def gilaGssi : BitVec 24 := (m.word 4).extractLsb' 0 24

def gilaClass : BitVec 3 := (m.word 5).extractLsb' 2 3

def gilaLifetime : BitVec 2 := (m.word 5).extractLsb' 0 2

def gilaPresent : Bool := (m.word 6).getLsbD 0

def rawModeFlag : Bool := (m.word 9).getLsbD 31

def rawSlotgrant : Bool := (m.word 9).getLsbD 14

def rawLlcBlAck : Bool := (m.word 9).getLsbD 13

def rawMlePd : BitVec 3 := (m.word 9).extractLsb' 10 3

def rawNr : Bool := (m.word 9).getLsbD 9

def rawNs : Bool := (m.word 9).getLsbD 8

def rawMmLen : BitVec 8 := (m.word 9).extractLsb' 0 8

def rawMmBits : BitVec 128 := m.word 13 ++ m.word 12 ++ m.word 11 ++ m.word 10

end Fields

end ReplyMailbox

end TetraPhy.Lmac
