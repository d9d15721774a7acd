import Mathlib.Algebra.Ring.Nat
import TetraPhy.Lib.AirOrder
import TetraPhy.Lib.Ledger
import TetraPhy.Lib.Run
import TetraPhy.Sw.UlRxService

/-!
# The history of the uplink service

The service keeps bits, not where they came from.  A `History` runs it and books what an observer
knows: who sent a block and in which timeslot, which start each store holds, and which starts
have been delivered.

| Field                    | Records                                                            |
|--------------------------|--------------------------------------------------------------------|
| `count`                  | the starts so far, each known by its number                        |
| `held`, `book`           | the starts in the demand slots; what leaves one (delivered, expired, replaced) is `taken` |
| `chain`, `parts`         | the start of the long-SDS chain, and what was appended             |
| `usedDemand`, `usedLong` | the starts delivered in a demand, in a long SDS                    |

The service is unaware of all of it (`step_ctx`).  `Inv` is what the book says of the store in
every run: the slots hold the bits of the starts booked for them, and none of these has left.
-/

namespace TetraPhy.Rx

open Ledger Pool Sw

/-- A fragmented start: its number, its timeslot and its block. -/
structure Start where
  id : ℕ
  slot : Fin 4
  info : List Bool
deriving DecidableEq, Repr

namespace Start

/-- The terminal that sent it. -/
def issi (st : Start) : UInt32 := (ulMacAccessParse st.info).issi

/-- Its share of the TM-SDU. -/
def bits (st : Start) : List Bool := slice st.info 30 62

/-- The metadata kept of it. -/
def meta13 (st : Start) : UInt16 := (ulMacAccessParse st.info).meta13 &&& 0x1FFF

end Start

/-- A continuation on SCH/F. -/
structure Part where
  sender : UInt32
  slot : Fin 4
  bits : List Bool
deriving DecidableEq, Repr

/-- The service and its observer. -/
structure History where
  ctx : UlRxCtx
  count : ℕ := 0
  held : Fin 2 → Option Start := fun _ ↦ none
  book : Book (Fin 2) Start := Book.init
  chain : Start := ⟨0, 0, []⟩
  parts : List Part := []
  usedDemand : List ℕ := []
  usedLong : List ℕ := []

/-- A received burst and who sent it, or the timer of the main loop. -/
inductive UplinkEvent
  | burst (words : ℕ → UInt32) (stack : ℕ → ℤ) (sender nowMs : UInt32)
  | tick (nowMs : UInt32)

namespace History

/-- Nothing received yet. -/
def init (cc scrSlot : UInt8) (mcc mnc : UInt16) : History :=
  { ctx := UlRxCtx.init cc scrSlot mcc mnc }

/-- The start of slot `i` leaves the store. -/
def leave (s : History) (i : Fin 2) : History :=
  { s with held := Function.update s.held i none, book := s.book.take i }

/-- A start is stored in slot `i`, which another may have to leave. -/
def enter (s : History) (i : Fin 2) (st : Start) : History :=
  let s' := if (s.held i).isSome then s.leave i else s
  { s' with held := Function.update s'.held i (some st), book := s'.book.put i st }

/-- A start is stored where the store has room for it, if it has. -/
def accept (s : History) (st : Start) : History :=
  match s.ctx.demand.target st.issi with
  | some i => s.enter i st
  | none => s

/-- The slot an END in timeslot `slot` empties. -/
def source (s : History) (slot : Fin 4) : Option (Fin 2) :=
  s.ctx.demand.matching (s.ctx.slotSsi slot)

/-- Book a block, the store still as it was before. -/
def note (s : History) (sender : UInt32) : UlBlock → History
  | .start slot info =>
      let st : Start := ⟨s.count, slot, info⟩
      { s.accept st with count := s.count + 1, chain := st, parts := [] }
  | .endHu slot _ =>
      match s.source slot with
      | some i =>
          { s.leave i with
            usedDemand := ((s.held i).map Start.id).toList ++ s.usedDemand }
      | none => s
  | .frag slot isEnd info =>
      if s.ctx.lsds.active then
        { s with
          parts := s.parts ++ [⟨sender, slot, UlLsds.payload isEnd info⟩]
          usedLong := if isEnd then s.chain.id :: s.usedLong else s.usedLong }
      else s
  | .invalid | .ignored | .single _ | .schf _ => s

/-- Book the start of slot `i` if it expires. -/
def noteExpiry (nowMs : UInt32) (s : History) (i : Fin 2) : History :=
  if (s.ctx.demand.slot i).expired nowMs then s.leave i else s

/-- A block handled. -/
def handle (s : History) (sender nowMs : UInt32) (b : UlBlock) : History :=
  { s.note sender b with ctx := (s.ctx.handle nowMs b).1 }

def step (s : History) : UplinkEvent → History
  | .burst words stack sender nowMs => s.handle sender nowMs (s.ctx.ulBlockOf words stack)
  | .tick nowMs => { [0, 1].foldl (noteExpiry nowMs) s with ctx := s.ctx.tick nowMs }

/-- The service runs as it would without the observer. -/
theorem step_ctx (s : History) (words : ℕ → UInt32) (stack : ℕ → ℤ) (sender nowMs : UInt32) :
    (s.step (.burst words stack sender nowMs)).ctx = (s.ctx.service words stack nowMs).1 :=
  (s.ctx.service_eq words stack nowMs).1.symm

/-! ## What holds of every run -/

/-- A slot and the start booked for it. -/
structure Mirrors (held : Option Start) (c : UlReassSlot) : Prop where
  occupied : c.occupied = held.isSome
  entry : ∀ st ∈ held, c.ssi = st.issi ∧ c.frag1 = st.bits ∧ c.meta13 = st.meta13

theorem Mirrors.empty {c : UlReassSlot} (h : c.occupied = false) : Mirrors none c :=
  ⟨h, by simp⟩

/-- The book is right about a family of slots. -/
structure Booked (held : Fin 2 → Option Start) (book : Book (Fin 2) Start)
    (slot : Fin 2 → UlReassSlot) : Prop where
  mirrors : ∀ i, Mirrors (held i) (slot i)
  sound : Sound held book

namespace Booked

variable {held : Fin 2 → Option Start} {book : Book (Fin 2) Start} {slot : Fin 2 → UlReassSlot}
  {i : Fin 2}

theorem isSome (h : Booked held book slot) (hi : (slot i).occupied = true) : (held i).isSome :=
  (h.mirrors i).occupied.symm.trans hi

theorem leave (h : Booked held book slot) (hi : (slot i).occupied = true) :
    Booked (Function.update held i none) (book.take i)
      (Function.update slot i { slot i with occupied := false }) := by
  refine ⟨fun j ↦ ?_, h.sound.take (h.isSome hi)⟩
  by_cases hji : j = i
  · subst hji
    rw [Function.update_self, Function.update_self]
    exact Mirrors.empty rfl
  · rw [Function.update_of_ne hji, Function.update_of_ne hji]
    exact h.mirrors j

theorem put (h : Booked held book slot) (hi : held i = none) {st : Start} {c : UlReassSlot}
    (hc : Mirrors (some st) c) :
    Booked (Function.update held i (some st)) (book.put i st) (Function.update slot i c) := by
  refine ⟨fun j ↦ ?_, h.sound.put hi st⟩
  by_cases hji : j = i
  · subst hji
    rw [Function.update_self, Function.update_self]
    exact hc
  · rw [Function.update_of_ne hji, Function.update_of_ne hji]
    exact h.mirrors j

theorem enter {s : History} (h : Booked s.held s.book slot) {st : Start} {c : UlReassSlot}
    (hc : Mirrors (some st) c) :
    Booked (s.enter i st).held (s.enter i st).book (Function.update slot i c) := by
  by_cases hi : (s.held i).isSome = true
  · have hleft := (h.leave ((h.mirrors i).occupied.trans hi)).put (i := i) (by simp) hc
    simpa only [History.enter, if_pos hi, History.leave, Function.update_idem] using hleft
  · have hput := h.put (by simpa using hi) hc
    simpa only [History.enter, if_neg hi] using hput

/-- One round of the timer loop, here and in the store. -/
theorem tickSlot {s : History} {r : UlReass} (h : Booked s.held s.book r.slot) (nowMs : UInt32)
    (hi : r.slot i = s.ctx.demand.slot i) :
    Booked (noteExpiry nowMs s i).held (noteExpiry nowMs s i).book
      (UlReass.tickSlot nowMs r i).slot := by
  rw [noteExpiry, UlReass.tickSlot, hi]
  cases he : (s.ctx.demand.slot i).expired nowMs with
  | false => exact h
  | true =>
      have hocc : (r.slot i).occupied = true := by
        rw [hi]
        exact (Bool.and_eq_true_iff.1 he).1
      have hleft := h.leave hocc
      rw [hi] at hleft
      exact hleft

end Booked

/-- What the observer knows in every state. -/
structure Inv (s : History) : Prop where
  booked : Booked s.held s.book s.ctx.demand.slot
  fresh : s.ctx.lsds.active = true → s.chain.id ∉ s.usedLong
  issued : ∀ id ∈ s.usedLong, id < s.count
  chained : s.ctx.lsds.active = true → s.chain.id < s.count

theorem inv_init (cc scrSlot : UInt8) (mcc mnc : UInt16) : Inv (init cc scrSlot mcc mnc) :=
  ⟨⟨fun _ ↦ Mirrors.empty rfl, sound_init⟩, fun h ↦ absurd h Bool.false_ne_true, by simp [init],
    fun h ↦ absurd h Bool.false_ne_true⟩

/-- A tick of the main loop changes the demand slots' book and the service only. -/
theorem step_tick (s : History) (nowMs : UInt32) : ∃ held book,
    s.step (.tick nowMs) = { s with ctx := s.ctx.tick nowMs, held := held, book := book } := by
  have hexpiry (t : History) (i : Fin 2) : ∃ held book,
      noteExpiry nowMs t i = { t with held := held, book := book } := by
    rw [noteExpiry]
    split
    · exact ⟨_, _, rfl⟩
    · exact ⟨_, _, rfl⟩
  obtain ⟨held0, book0, h0⟩ := hexpiry s 0
  obtain ⟨held1, book1, h1⟩ := hexpiry { s with held := held0, book := book0 } 1
  refine ⟨held1, book1, ?_⟩
  rw [step, List.foldl_cons, List.foldl_cons, List.foldl_nil, h0, h1]

/-- A tick starts no chain. -/
theorem active_of_tick {r : UlLsds} {nowMs : UInt32} (h : (r.tick nowMs).active = true) :
    r.active = true := by
  rw [UlLsds.tick] at h
  split at h
  · exact absurd h Bool.false_ne_true
  · exact h

theorem Inv.tick {s : History} (h : Inv s) (nowMs : UInt32) : Inv (s.step (.tick nowMs)) := by
  have hslot1 : (UlReass.tickSlot nowMs s.ctx.demand 0).slot 1 =
      (noteExpiry nowMs s 0).ctx.demand.slot 1 := by
    rw [noteExpiry, UlReass.tickSlot]
    split
    · exact Function.update_of_ne Fin.zero_ne_one.symm { s.ctx.demand.slot 0 with occupied := false } _
    · rfl
  have hbooked : Booked (s.step (.tick nowMs)).held (s.step (.tick nowMs)).book
      (s.ctx.demand.tick nowMs).slot :=
    (h.booked.tickSlot nowMs rfl).tickSlot nowMs hslot1
  obtain ⟨held, book, hstep⟩ := step_tick s nowMs
  rw [hstep] at hbooked ⊢
  exact ⟨hbooked, fun ha ↦ h.fresh (active_of_tick ha), h.issued,
    fun ha ↦ h.chained (active_of_tick ha)⟩

section Handle

variable {s : History} {sender nowMs : UInt32} {slot : Fin 4} {info : List Bool}

theorem accept_usedLong (st : Start) : (s.accept st).usedLong = s.usedLong := by
  unfold accept enter
  split
  · split <;> rfl
  · rfl

theorem Booked.accept (h : Booked s.held s.book s.ctx.demand.slot) (st : Start) (nowMs : UInt32) :
    Booked (s.accept st).held (s.accept st).book
      (s.ctx.demand.frag1 st.issi st.info (ulMacAccessParse st.info).meta13 nowMs).1.slot := by
  unfold UlReass.frag1 History.accept
  cases s.ctx.demand.target st.issi with
  | none => exact h
  | some i =>
      refine h.enter ⟨rfl, fun st' hst ↦ ?_⟩
      obtain rfl := Option.some.inj hst
      exact ⟨issi_and st.info, rfl, rfl⟩

theorem Inv.start (h : Inv s) : Inv (s.handle sender nowMs (.start slot info)) := by
  refine ⟨h.booked.accept ⟨s.count, slot, info⟩ nowMs, fun _ hmem ↦ ?_, fun id hmem ↦ ?_, fun _ ↦
    Nat.lt_succ_self _⟩
  · change s.count ∈ (s.accept _).usedLong at hmem
    rw [accept_usedLong] at hmem
    exact Nat.lt_irrefl _ (h.issued _ hmem)
  · change id ∈ (s.accept _).usedLong at hmem
    rw [accept_usedLong] at hmem
    exact Nat.lt_succ_of_lt (h.issued id hmem)

theorem Inv.endHu (h : Inv s) : Inv (s.handle sender nowMs (.endHu slot info)) := by
  simp only [handle, note, UlRxCtx.handle, UlRxCtx.endDemand, UlReass.reassEnd, source]
  cases hm : s.ctx.demand.matching (s.ctx.slotSsi slot) with
  | none => exact h
  | some i =>
      exact ⟨h.booked.leave (UlReass.occupied_of_matching hm).1, h.fresh, h.issued, h.chained⟩

theorem Inv.frag (h : Inv s) (isEnd : Bool) :
    Inv (s.handle sender nowMs (.frag slot isEnd info)) := by
  simp only [handle, note, UlRxCtx.handle, UlRxCtx.contLongSds, UlLsds.frag]
  cases ha : s.ctx.lsds.active with
  | false => exact h
  | true =>
      cases isEnd with
      | false => exact ⟨h.booked, fun _ ↦ h.fresh ha, h.issued, fun _ ↦ h.chained ha⟩
      | true =>
          refine ⟨h.booked, fun h' ↦ absurd h' Bool.false_ne_true, fun id hmem ↦ ?_,
            fun h' ↦ absurd h' Bool.false_ne_true⟩
          rcases List.mem_cons.1 hmem with rfl | hmem
          · exact h.chained ha
          · exact h.issued id hmem

/-- Every block keeps what the observer knows. -/
theorem Inv.handle (h : Inv s) (b : UlBlock) : Inv (s.handle sender nowMs b) := by
  cases b with
  | invalid => exact h
  | ignored => exact h
  | endHu slot info => exact h.endHu
  | start slot info => exact h.start
  | single info => exact h
  | frag slot isEnd info => exact h.frag isEnd
  | schf info => exact h

theorem Inv.step (h : Inv s) (e : UplinkEvent) : Inv (s.step e) := by
  cases e with
  | burst words stack sender nowMs => exact h.handle _
  | tick nowMs => exact h.tick nowMs

end Handle

/-! ## Sent blocks -/

/-- The cell a history takes place in. -/
def cell (s : History) : UInt8 × UInt8 × UInt16 × UInt16 :=
  (s.ctx.cc, s.ctx.scrSlot, s.ctx.mcc, s.ctx.mnc)

/-- A block sent on SCH/HU, and the terminal that sends it. -/
def sentSchhu (cc scrSlot : UInt8) (mcc mnc : UInt16) (slot : Fin 4) (info : List Bool)
    (sender : UInt32) : UplinkEvent :=
  .burst (schhuWords cc scrSlot mcc mnc slot info) (fun _ ↦ 0) sender 0

/-- A block sent on SCH/F, and the terminal that sends it. -/
def sentSchf (cc scrSlot : UInt8) (mcc mnc : UInt16) (slot : Fin 4) (info : List Bool)
    (sender : UInt32) : UplinkEvent :=
  .burst (schfWords cc scrSlot mcc mnc slot info) (fun _ ↦ 0) sender 0

section Sent

variable {s : History} {cc scrSlot : UInt8} {mcc mnc : UInt16}

theorem step_sentSchhu (hc : s.cell = (cc, scrSlot, mcc, mnc)) (slot : Fin 4) {info : List Bool}
    (h : info.length = 92) (sender : UInt32) :
    s.step (sentSchhu cc scrSlot mcc mnc slot info sender) =
      s.handle sender 0 (schhuBlock slot info) := by
  cases hc
  exact congrArg (s.handle sender 0) (ulBlockOf_schhuWords s.ctx slot h _)

end Sent

end History

/-- The block of a fragmented start: a MAC-ACCESS with its optional field, fragmented. -/
def startInfo (issi : BitVec 24) (bits : List Bool) : List Bool :=
  List.replicate 5 false ++ AirOrder.onAir issi ++ [true, true, true] ++ bits

/-- The block of a MAC-END-HU. -/
def endHuInfo (bits : List Bool) : List Bool := List.replicate 7 true ++ bits

/-- The block of an SCH/F MAC-END. -/
def endSchfInfo (bits : List Bool) : List Bool :=
  [false, true, true] ++ List.replicate 7 false ++ bits

/-- The start of a terminal. -/
def firstStart : List Bool := startInfo 0x111111#24 (List.replicate 60 true)

/-- The start of another one. -/
def secondStart : List Bool := startInfo 0x222222#24 (List.replicate 60 false)

end TetraPhy.Rx
