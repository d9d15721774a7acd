import TetraPhy.Lib.Run
import TetraPhy.Lmac.MacRoundTrip

/-!
# The builder's states

`tetra_mac_resource_dl_builder.v` takes its inputs in `S_IDLE` and puts the block out five states
later.  The lengths, which it freezes in `S_ASSEMBLE_INNER`, are here functions of the latched
inputs: nothing is latched before the block is out.

**`MacResDlBuilder.decode_emitted`**: what it puts out for supported inputs is read back by a
terminal, whatever its inputs do meanwhile.
-/

namespace TetraPhy.Lmac

open AirOrder

/-- The registers, for blocks of `n` bits and an LLC buffer of `m` bits. -/
structure MacResDlBuilder (n m : ℕ) where
  state : MacResState := .idle
  lat : MacResIn := {}
  llcBuf : BitVec m := 0
  completePduBits : BitVec n := 0
  pduBits : BitVec n := 0
  valid : Bool := false

namespace MacResDlBuilder

variable {n m : ℕ}

/-- One edge of `clk`, with `start` and the inputs. -/
def clock (r : MacResDlBuilder n m) : Bool × MacResIn → MacResDlBuilder n m
  | (start, i) =>
    let r := { r with valid := false }
    match r.state with
    | .idle =>
      if start then { r with lat := { i with mlePd := i.latMlePd }, state := .assembleInner } else r
    | .assembleInner => { r with state := .llcHead }
    | .llcHead => { r with llcBuf := r.lat.llcBuf m, state := .macHead }
    | .macHead =>
      { r with
        completePduBits := r.lat.header n |||
          shlSub (shrSub (r.llcBuf.setWidth n) m r.lat.llcCovLen) n
            (r.lat.macHdrBits + r.lat.llcCovLen)
        state := .pad }
    | .pad => { r with completePduBits := r.completePduBits ||| r.lat.pad n, state := .done }
    | .done => { r with pduBits := r.completePduBits, valid := true, state := .idle }

/-- The discriminator is latched as it is sent. -/
theorem pdu_latched (i : MacResIn) : { i with mlePd := i.latMlePd }.pdu n m = i.pdu n m := by
  have hlat : { i with mlePd := i.latMlePd }.latMlePd = i.latMlePd := by
    change (if i.latMlePd == 0b000 then 0b001 else i.latMlePd) = i.latMlePd
    rw [MacResIn.latMlePd]
    cases h : i.mlePd == 0b000 with
    | true => rfl
    | false => rw [if_neg Bool.false_ne_true, h, if_neg Bool.false_ne_true]
  have hbuf : { i with mlePd := i.latMlePd }.llcBuf m = i.llcBuf m := by
    rw [MacResIn.llcBuf, hlat]
    rfl
  rw [MacResIn.pdu, MacResIn.tmSdu, hbuf]
  rfl

/-- **Six edges after a start the block is out**, whatever the inputs are meanwhile. -/
theorem exec_start {r : MacResDlBuilder n m} (hs : r.state = .idle) (i : MacResIn)
    {es : List (Bool × MacResIn)} (hes : es.length = 5) :
    (Run.exec clock r ((true, i) :: es)).pduBits = i.pdu n m ∧
      (Run.exec clock r ((true, i) :: es)).valid = true ∧
      (Run.exec clock r ((true, i) :: es)).state = .idle := by
  have hfirst : clock r (true, i) =
      { r with valid := false, lat := { i with mlePd := i.latMlePd }, state := .assembleInner } := by
    rw [clock, hs]
    rfl
  obtain ⟨a, es, rfl⟩ := List.exists_cons_of_length_eq_add_one hes
  obtain ⟨b, c, d, e, rfl⟩ := List.length_eq_four.1 (Nat.succ.inj hes)
  rw [Run.exec_cons, hfirst]
  exact ⟨pdu_latched i, rfl, rfl⟩

/-- What the registers hold while a block is laid out. -/
def Working (r : MacResDlBuilder n m) (i : MacResIn) : Prop :=
  match r.state with
  | .idle => r.valid = true ∧ r.pduBits = i.pdu n m
  | .assembleInner => r.valid = false ∧ r.lat = i
  | .llcHead => r.valid = false ∧ r.lat = i
  | .macHead => r.valid = false ∧ r.lat = i ∧ r.llcBuf = i.llcBuf m
  | .pad => r.valid = false ∧ r.lat = i ∧ r.completePduBits = i.header n ||| i.tmSdu n m
  | .done => r.valid = false ∧ r.completePduBits = i.pdu n m

/-- The cycles until it is out. -/
def left (r : MacResDlBuilder n m) : ℕ :=
  match r.state with
  | .idle => 0
  | .assembleInner => 5
  | .llcHead => 4
  | .macHead => 3
  | .pad => 2
  | .done => 1

theorem left_eq_zero {r : MacResDlBuilder n m} : r.left = 0 ↔ r.state = .idle := by
  cases hs : r.state <;> simp [left, hs]

theorem Working.valid_iff {r : MacResDlBuilder n m} {i : MacResIn} (h : r.Working i) :
    r.valid = true ↔ r.state = .idle := by
  cases hs : r.state <;> simp only [Working, hs] at h <;> simp [h.1]

theorem Working.pduBits_eq {r : MacResDlBuilder n m} {i : MacResIn} (h : r.Working i)
    (hs : r.state = .idle) : r.pduBits = i.pdu n m := by
  simp only [Working, hs] at h
  exact h.2

/-- The inputs as they are latched. -/
def latched (i : MacResIn) : MacResIn := { i with mlePd := i.latMlePd }

/-- A start on an idle builder. -/
theorem working_start {r : MacResDlBuilder n m} (hs : r.state = .idle) (i : MacResIn) :
    (r.clock (true, i)).Working (latched i) ∧ (r.clock (true, i)).left = 5 := by
  have hclock : r.clock (true, i) =
      { r with valid := false, lat := { i with mlePd := i.latMlePd }, state := .assembleInner } := by
    rw [clock, hs]
    rfl
  rw [hclock]
  exact ⟨⟨rfl, rfl⟩, rfl⟩

/-- **Every edge lays out one part.** -/
theorem Working.clock {r : MacResDlBuilder n m} {i : MacResIn} (h : r.Working i)
    (hs : r.state ≠ .idle) (e : Bool × MacResIn) :
    (r.clock e).Working i ∧ (r.clock e).left + 1 = r.left := by
  obtain ⟨state, lat, llcBuf, completePduBits, pduBits, valid⟩ := r
  cases state with
  | idle => exact absurd rfl hs
  | assembleInner => exact ⟨⟨rfl, h.2⟩, rfl⟩
  | llcHead =>
      obtain ⟨-, rfl⟩ := h
      exact ⟨⟨rfl, rfl, rfl⟩, rfl⟩
  | macHead =>
      obtain ⟨-, (rfl : lat = i), (rfl : llcBuf = lat.llcBuf m)⟩ := h
      exact ⟨⟨rfl, rfl, rfl⟩, rfl⟩
  | pad =>
      obtain ⟨-, (rfl : lat = i), (rfl : completePduBits = lat.header n ||| lat.tmSdu n m)⟩ := h
      exact ⟨⟨rfl, rfl⟩, rfl⟩
  | done =>
      obtain ⟨-, rfl⟩ := h
      exact ⟨⟨rfl, rfl⟩, rfl⟩

/-- **What is put out is read back**: every field, and exactly the bits of the TM-SDU.  The length
indication is the length of header and TM-SDU in octets, rounded up, and the block has that many
octets. -/
theorem decode_emitted {r : MacResDlBuilder n m} (hs : r.state = .idle) {i : MacResIn}
    {ca : Option ChanAlloc} (h : i.Supported n m ca) {es : List (Bool × MacResIn)}
    (hes : es.length = 5) :
    let r' := Run.exec clock r ((true, i) :: es)
    r'.valid = true ∧ decodeMacResource (onAir r'.pduBits) = some (i.fields ca) ∧
      i.macTotalBits ≤ 8 * i.lengthInd.toNat ∧ 8 * i.lengthInd.toNat < i.macTotalBits + 8 ∧
      8 * i.lengthInd.toNat ≤ n := by
  obtain ⟨hpdu, hvalid, -⟩ := exec_start hs i hes
  intro r'
  rw [show r'.pduBits = _ from hpdu]
  exact ⟨hvalid, MacResIn.decode_pdu h⟩

/-- A D-CONNECT: address with usage marker, channel allocation for timeslot 2, unacknowledged. -/
def connectIn : MacResIn where
  ssi := 0x2F5A01
  addrType := 6
  usageMarker := 11
  llcPduType := 2
  chanAllocFlag := true
  chanAllocElement := 0x00272FD3
  chanAllocElementLen := 25
  mmPduBits := 0x11A5A0000000000000000000000000FF
  mmPduLenBits := 20
  mlePd := 2

/-- Its channel allocation. -/
def connectAlloc : ChanAlloc where
  allocationType := 0
  timeslotAssigned := 4
  uplinkDownlinkAssigned := 3
  clchPermission := true
  cellChangeFlag := false
  carrierNumber := 0x5FA
  monitoringPattern := 3

theorem decode_emitted_connect :
    decodeMacResource (onAir (Run.exec clock ({} : MacResDlBuilder 268 144)
      ((true, connectIn) :: List.replicate 5 (false, {}))).pduBits) =
        some (connectIn.fields (some connectAlloc)) := by
  have hsupported : connectIn.Supported 268 144 (some connectAlloc) := by
    refine ⟨.inr (.inr rfl), .full (.inr (.inr (.inl rfl))), by decide, rfl, ?_, ?_, ?_, by decide⟩
    · intro x hx
      rw [← Option.mem_some_iff.1 hx]
      rfl
    · intro x hx
      rw [← Option.mem_some_iff.1 hx]
      rfl
    · intro x hx
      rw [← Option.mem_some_iff.1 hx]
      rfl
  exact (decode_emitted rfl hsupported List.length_replicate).2.1

end MacResDlBuilder

end TetraPhy.Lmac
