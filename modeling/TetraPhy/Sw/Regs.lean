import Mathlib.Logic.Function.Basic
import Mathlib.Data.List.Basic

/-!
# The register file seen by the software

The daemon talks to the FPGA through `tetra_reg_write (hal, offset, value)` of
`tetra_hal.h`.  A function that writes registers is modelled by the list of the
writes it issues, oldest first; what a register holds afterwards is the value
last written to it.  Register *reads* are inputs of the function that makes them.

Only the registers the modelled functions write are named here.
-/

namespace TetraPhy.Sw

/-- One `tetra_reg_write`. -/
structure RegWrite where
  offset : UInt32
  value : UInt32
deriving DecidableEq, Repr

/-! ## Register offsets (`REG_*` of `tetra_hal.h`) -/

def regVoiceActiveMask : UInt32 := 0x1EC
def regReplyIndex : UInt32 := 0x220
def regReplyData : UInt32 := 0x224
def regReplyGo : UInt32 := 0x228
def regVoiceFillerIndex : UInt32 := 0x270
def regVoiceFillerData : UInt32 := 0x274
def regVoiceFillerGo : UInt32 := 0x278
def regVoiceNubReadIndex : UInt32 := 0x280
def regVoiceNubReadAck : UInt32 := 0x28C
def regSlotAachTs1 : UInt32 := 0x2A0
def regSlotAachTs2 : UInt32 := 0x2A4
def regSlotAachTs3 : UInt32 := 0x2A8
def regSlotAachTs4 : UInt32 := 0x2AC

/-- `AACH_IDLE`: header 11, unallocated in both directions. -/
def aachIdle : UInt32 := 0x3000

/-- `AACH_VOICE_UMT(n)`: header 11, usage marker `n` in both directions. -/
def aachVoiceUmt (n : UInt8) : UInt32 :=
  (0x3000 : UInt32) ||| ((n.toUInt32 &&& 0x3F) <<< 6) ||| (n.toUInt32 &&& 0x3F)

/-! ## What a register holds -/

/-- The value last written to a register, if any. -/
def lastWritten (reg : UInt32) (ws : List RegWrite) : Option UInt32 :=
  ws.foldl (fun v w ↦ if w.offset = reg then some w.value else v) none

@[simp] theorem lastWritten_concat (reg : UInt32) (ws : List RegWrite) (w : RegWrite) :
    lastWritten reg (ws ++ [w]) = if w.offset = reg then some w.value else lastWritten reg ws := by
  simp [lastWritten]

/-- Writes to other registers leave the register alone. -/
theorem lastWritten_append_of_forall_ne {reg : UInt32} (ws : List RegWrite) {vs : List RegWrite}
    (h : ∀ w ∈ vs, w.offset ≠ reg) : lastWritten reg (ws ++ vs) = lastWritten reg ws := by
  induction vs generalizing ws with
  | nil => rw [List.append_nil]
  | cons v vs ih =>
      rw [List.append_cons, ih _ fun w hw ↦ h w (List.mem_cons_of_mem _ hw), lastWritten_concat,
        if_neg (h v List.mem_cons_self)]

/-- All writes of a list go to registers in `R`. -/
def WritesOnly (R : List UInt32) (ws : List RegWrite) : Prop := ∀ w ∈ ws, w.offset ∈ R

theorem writesOnly_nil (R : List UInt32) : WritesOnly R [] := fun _ h ↦ absurd h List.not_mem_nil

theorem WritesOnly.mono {R R' : List UInt32} {ws : List RegWrite} (h : WritesOnly R ws)
    (hR : R ⊆ R') : WritesOnly R' ws := fun w hw ↦ hR (h w hw)

theorem WritesOnly.append {R : List UInt32} {ws vs : List RegWrite} (h : WritesOnly R ws)
    (h' : WritesOnly R vs) : WritesOnly R (ws ++ vs) :=
  fun w hw ↦ (List.mem_append.mp hw).elim (h w) (h' w)

theorem WritesOnly.flatMap {α : Type*} {R : List UInt32} {l : List α} {f : α → List RegWrite}
    (h : ∀ a, WritesOnly R (f a)) : WritesOnly R (l.flatMap f) := by
  intro w hw
  obtain ⟨a, -, ha⟩ := List.mem_flatMap.mp hw
  exact h a w ha

theorem WritesOnly.lastWritten_append {R : List UInt32} {reg : UInt32} {vs : List RegWrite}
    (h : WritesOnly R vs) (hreg : reg ∉ R) (ws : List RegWrite) :
    lastWritten reg (ws ++ vs) = lastWritten reg ws :=
  lastWritten_append_of_forall_ne ws fun w hw he ↦ hreg (he ▸ h w hw)

end TetraPhy.Sw
