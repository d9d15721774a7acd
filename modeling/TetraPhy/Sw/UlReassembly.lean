import Mathlib.Logic.Function.Basic
import TetraPhy.Lib.Counter
import TetraPhy.Lib.Pool

/-!
# Uplink reassembly in software

`tetra_ul_reassembly.c`: the two stores a fragmented uplink PDU is put together in.

| Store     | Chain                                             | Keyed by | Capacity      |
|-----------|---------------------------------------------------|----------|---------------|
| `UlReass` | MAC-ACCESS start, MAC-END-HU                      | SSI      | two slots     |
| `UlLsds`  | MAC-ACCESS start, any number of MAC-FRAG, MAC-END | nothing  | one chain     |

A decoded block is the list of its information bits, first on air first.
-/

namespace TetraPhy.Sw

open Deadline Pool

/-- The bits `lo, …, lo + n - 1` of a block. -/
def slice (info : List Bool) (lo n : ℕ) : List Bool := (info.drop lo).take n

/-! ## Demand reassembly -/

/-- `UL_REASS_T0_MS_DEFAULT`. -/
def ulReassT0MsDefault : UInt32 := 113

/-- `ul_reass_slot_t`. -/
structure UlReassSlot where
  occupied : Bool := false
  ssi : UInt32 := 0
  frag1 : List Bool := List.replicate 62 false
  meta13 : UInt16 := 0
  t0DeadlineMs : UInt32 := 0
deriving DecidableEq, Repr

/-- `ul_reass_t`. -/
structure UlReass where
  slot : Fin 2 → UlReassSlot := fun _ ↦ {}
  reassCnt : UInt32 := 0
  dropCnt : UInt32 := 0
  t0Ms : UInt32 := 0

namespace UlReassSlot

/-- The slot holds a fragment of `ssi`. -/
def holds (s : UlReassSlot) (ssi : UInt32) : Bool := s.occupied && s.ssi == ssi

/-- The slot holds a fragment whose time is up. -/
def expired (s : UlReassSlot) (nowMs : UInt32) : Bool :=
  s.occupied && passed nowMs s.t0DeadlineMs

end UlReassSlot

namespace UlReass

/-- `ul_reass_init`. -/
def init (t0Ms : UInt32) : UlReass :=
  { t0Ms := if t0Ms ≠ 0 then t0Ms else ulReassT0MsDefault }

/-- The loop body of `ul_reass_tick`. -/
def tickSlot (nowMs : UInt32) (r : UlReass) (i : Fin 2) : UlReass :=
  if (r.slot i).expired nowMs then
    { r with
      slot := Function.update r.slot i { r.slot i with occupied := false }
      dropCnt := r.dropCnt + 1 }
  else r

/-- `ul_reass_tick`. -/
def tick (r : UlReass) (nowMs : UInt32) : UlReass := [0, 1].foldl (tickSlot nowMs) r

/-- Each slot is judged by itself. -/
theorem tick_slot (r : UlReass) (nowMs : UInt32) (i : Fin 2) :
    (r.tick nowMs).slot i =
      if (r.slot i).expired nowMs then { r.slot i with occupied := false } else r.slot i := by
  revert i
  refine Fin.forall_fin_two.2 ⟨?_, ?_⟩ <;>
    cases h0 : (r.slot 0).expired nowMs <;> cases h1 : (r.slot 1).expired nowMs <;>
      simp [tick, tickSlot, h0, h1]

theorem tick_dropCnt (r : UlReass) (nowMs : UInt32) :
    (r.tick nowMs).dropCnt = r.dropCnt + (if (r.slot 0).expired nowMs then 1 else 0) +
      (if (r.slot 1).expired nowMs then 1 else 0) := by
  cases h0 : (r.slot 0).expired nowMs <;> cases h1 : (r.slot 1).expired nowMs <;>
    simp [tick, tickSlot, h0, h1]

@[simp] theorem tick_t0Ms (r : UlReass) (nowMs : UInt32) : (r.tick nowMs).t0Ms = r.t0Ms := by
  cases h0 : (r.slot 0).expired nowMs <;> cases h1 : (r.slot 1).expired nowMs <;>
    simp [tick, tickSlot, h0, h1]

/-- The slot `ul_reass_frag1` stores a start of `ssi` in: that of an earlier start of the
same `ssi`, else the first free one. -/
def target (r : UlReass) (ssi : UInt32) : Option (Fin 2) :=
  if (r.slot 0).holds ssi then some 0
  else if (r.slot 1).holds ssi then some 1
  else if !(r.slot 0).occupied then some 0
  else if !(r.slot 1).occupied then some 1
  else none

/-- `ul_reass_frag1`, and the index it returns. -/
def frag1 (r : UlReass) (ssi : UInt32) (info92 : List Bool) (meta13 : UInt16) (nowMs : UInt32) :
    UlReass × Int :=
  match r.target ssi with
  | none => ({ r with dropCnt := r.dropCnt + 1 }, -1)
  | some i =>
      ({ r with
          slot := Function.update r.slot i
            { occupied := true
              ssi := ssi &&& 0xFFFFFF
              frag1 := slice info92 30 62
              meta13 := meta13 &&& 0x1FFF
              t0DeadlineMs := nowMs + r.t0Ms } }, (i : ℕ))

/-- A finished demand: `out_body147`, `out_meta` and `out_ssi`. -/
structure Demand where
  body : List Bool
  meta13 : UInt16
  ssi : UInt32
deriving DecidableEq, Repr

/-- The slot `ul_reass_end` takes a fragment of `ssi` from. -/
def matching (r : UlReass) (ssi : UInt32) : Option (Fin 2) :=
  if (r.slot 0).holds (ssi &&& 0xFFFFFF) then some 0
  else if (r.slot 1).holds (ssi &&& 0xFFFFFF) then some 1
  else none

/-- Only an occupied slot is taken from. -/
theorem occupied_of_matching {r : UlReass} {ssi : UInt32} {i : Fin 2}
    (h : r.matching ssi = some i) :
    (r.slot i).occupied = true ∧ (r.slot i).ssi = ssi &&& 0xFFFFFF := by
  have hholds (j : Fin 2) (hj : (r.slot j).holds (ssi &&& 0xFFFFFF) = true) :
      (r.slot j).occupied = true ∧ (r.slot j).ssi = ssi &&& 0xFFFFFF := by
    obtain ⟨hocc, hssi⟩ := Bool.and_eq_true_iff.1 hj
    exact ⟨hocc, eq_of_beq hssi⟩
  unfold matching at h
  split at h
  · next h0 =>
    cases h
    exact hholds 0 h0
  split at h
  · next h1 =>
    cases h
    exact hholds 1 h1
  · cases h

/-- `ul_reass_end`; `none` is the return value 0, an END nobody started. -/
def reassEnd (r : UlReass) (ssi : UInt32) (info92 : List Bool) : UlReass × Option Demand :=
  match r.matching ssi with
  | none => (r, none)
  | some i =>
      ({ r with
          slot := Function.update r.slot i { r.slot i with occupied := false }
          reassCnt := r.reassCnt + 1 },
        some ⟨(r.slot i).frag1 ++ slice info92 7 85, (r.slot i).meta13, (r.slot i).ssi⟩)

end UlReass

/-! ## Long-SDS reassembly -/

/-- `UL_LSDS_MAX_BITS`. -/
def ulLsdsMaxBits : ℕ := 8192

/-- `UL_LSDS_T0_MS_DEFAULT`. -/
def ulLsdsT0MsDefault : UInt32 := 227

/-- `ul_lsds_t`; `body` is the filled part of the buffer, its length is `len`. -/
structure UlLsds where
  active : Bool := false
  ssi : UInt32 := 0
  opt : Bool := false
  body : List Bool := []
  t0DeadlineMs : UInt32 := 0
  t0Ms : UInt32 := 0
  reassCnt : UInt32 := 0
  dropCnt : UInt32 := 0
deriving DecidableEq, Repr

/-- A finished long SDS: `out_body`, `out_ssi` and `out_opt`. -/
structure LongSds where
  body : List Bool
  ssi : UInt32
  opt : Bool
deriving DecidableEq, Repr

namespace UlLsds

/-- `ul_lsds_init`. -/
def init (t0Ms : UInt32) : UlLsds :=
  { t0Ms := if t0Ms ≠ 0 then t0Ms else ulLsdsT0MsDefault }

/-- `ul_lsds_start`. -/
def start (r : UlLsds) (ssi : UInt32) (info92 : List Bool) (opt : Bool) (nowMs : UInt32) :
    UlLsds :=
  { r with
    active := true
    ssi := ssi &&& 0xFFFFFF
    opt := opt
    body := slice info92 30 62
    t0DeadlineMs := nowMs + r.t0Ms }

/-- The bits a MAC-END (`isEnd`) or a MAC-FRAG contributes. -/
def payload (isEnd : Bool) (info268 : List Bool) : List Bool :=
  if isEnd then slice info268 10 258 else slice info268 4 264

/-- `ul_lsds_frag`: the payload is appended as far as the buffer goes. -/
def frag (r : UlLsds) (info268 : List Bool) (isEnd : Bool) (nowMs : UInt32) :
    UlLsds × Option LongSds :=
  if !r.active then (r, none)
  else
    let body := r.body ++ (payload isEnd info268).take (ulLsdsMaxBits - r.body.length)
    if isEnd then
      ({ r with body := body, active := false, reassCnt := r.reassCnt + 1 },
        some ⟨body, r.ssi, r.opt⟩)
    else ({ r with body := body, t0DeadlineMs := nowMs + r.t0Ms }, none)

/-- What fits is appended to what is there. -/
theorem take_append_take (xs ys : List Bool) (n : ℕ) :
    xs.take n ++ ys.take (n - (xs.take n).length) = (xs ++ ys).take n := by
  rw [List.take_append, List.length_take]
  rcases Nat.le_total n xs.length with h | h
  · rw [Nat.min_eq_left h, Nat.sub_self, Nat.sub_eq_zero_of_le h]
  · rw [Nat.min_eq_right h]

/-- `ul_lsds_tick`. -/
def tick (r : UlLsds) (nowMs : UInt32) : UlLsds :=
  if r.active && passed nowMs r.t0DeadlineMs then
    { r with active := false, dropCnt := r.dropCnt + 1 }
  else r

end UlLsds

end TetraPhy.Sw
