import TetraPhy.Lib.Buffer
import TetraPhy.Lmac.RxChain

/-!
# Interleaver and deinterleaver

`tetra_interleaver.v`, and `tetra_deinterleaver.v` fed with what it sends.  The deinterleaver is a
block buffer, from reset on (`Deinterleaver.sim_step`).  The interleaver is one for the first block
only, and with another permutation: `wr_addr` is 0 at reset and not `a_param`, so that each bit goes
where the one before it belongs.  As `drain_cnt` is left at the block size, every later block takes
512 bits.

**`inverse_iff`** — so the two are inverse on no block, or on one block of bits that are all equal.
-/

namespace TetraPhy.Lmac

open Codec Permute

/-- The sizes of the blocks. -/
def IsBlockSize (n : BitVec 9) : Prop := n = 120 ∨ n = 216 ∨ n = 432

/-! ## The interleaver -/

/-- The registers, with `buf_data` of `MAX_BLOCK_SIZE` bits. -/
structure Interleaver where
  state : DeintState := .fill
  wrAddr : BitVec 9 := 0
  rdAddr : BitVec 9 := 0
  drainCnt : BitVec 9 := 0
  buf : Vector Bool 432 := Vector.replicate 432 false
  dataOut : Bool := false
  dataOutValid : Bool := false
  blockDone : Bool := false

namespace Interleaver

/-- `a_param`. -/
def aParam (blockSize : BitVec 9) : BitVec 9 := Deinterleaver.aParam blockSize

section

variable (d : Interleaver) (blockSize : BitVec 9) (data : Option Bool)

/-- `wr_next`. -/
def wrNext : BitVec 9 :=
  let wide := d.wrAddr.setWidth 10 + (aParam blockSize).setWidth 10
  if blockSize.setWidth 10 ≤ wide then wide.setWidth 9 - blockSize else wide.setWidth 9

/-- `fill_done`. -/
def fillDone : Bool := d.state == .fill && data.isSome && d.drainCnt == blockSize - 1

/-- `drain_done`. -/
def drainDone : Bool := d.state == .drain && d.drainCnt == blockSize - 1

/-- A clock edge; `data` is `data_in`, if valid. -/
def step : Interleaver where
  state :=
    match d.state with
    | .fill => if d.fillDone blockSize data then .drain else .fill
    | .drain => if d.drainDone blockSize then .fill else .drain
  wrAddr :=
    match d.state with
    | .fill => if data.isSome then d.wrNext blockSize else d.wrAddr
    | .drain => aParam blockSize
  rdAddr :=
    match d.state with
    | .fill => 0
    | .drain => d.rdAddr + 1
  drainCnt :=
    match d.state with
    | .fill =>
      if data.isSome then if d.fillDone blockSize data then 0 else d.drainCnt + 1 else d.drainCnt
    | .drain => d.drainCnt + 1
  buf :=
    match d.state, data with
    | .fill, some b => d.buf.setIfInBounds d.wrAddr.toNat b
    | _, _ => d.buf
  dataOut := if d.state = .drain then d.buf.getD d.rdAddr.toNat false else d.dataOut
  dataOutValid := d.state == .drain
  blockDone := d.drainDone blockSize

/-- The output port. -/
def sent : Option Bool := if d.dataOutValid then some d.dataOut else none

end

end Interleaver

/-! ## Places -/

/-- The factor of a block size. -/
def factor (n : BitVec 9) : ℕ := (Deinterleaver.aParam n).toNat

section Places

variable {n : BitVec 9}

theorem IsBlockSize.facts (hn : IsBlockSize n) :
    n.toNat ≤ 432 ∧ 2 ≤ n.toNat ∧ factor n < n.toNat ∧ Nat.Coprime n.toNat (factor n) := by
  obtain rfl | rfl | rfl := hn <;> decide

/-- The next address, as both write it. -/
theorem toNat_wrap {x a : BitVec 9} (hx : x.toNat < n.toNat) (ha : a.toNat < n.toNat) :
    (let wide := x.setWidth 10 + a.setWidth 10
      if n.setWidth 10 ≤ wide then wide.setWidth 9 - n else wide.setWidth 9 : BitVec 9).toNat =
      (x.toNat + a.toNat) % n.toNat := by
  have hn := n.isLt
  have hwide : (x.setWidth 10 + a.setWidth 10).toNat = x.toNat + a.toNat := by
    rw [BitVec.toNat_add, BitVec.toNat_setWidth, BitVec.toNat_setWidth]
    omega
  have hle : n.setWidth 10 ≤ x.setWidth 10 + a.setWidth 10 ↔ n.toNat ≤ x.toNat + a.toNat := by
    rw [BitVec.le_def, hwide, BitVec.toNat_setWidth, Nat.mod_eq_of_lt (by omega)]
  dsimp only
  by_cases h : n.toNat ≤ x.toNat + a.toNat
  · rw [if_pos (hle.2 h), BitVec.toNat_sub, BitVec.toNat_setWidth, hwide, Nat.mod_eq_sub_mod h,
      Nat.mod_eq_of_lt (by omega : x.toNat + a.toNat - n.toNat < n.toNat)]
    omega
  · rw [if_neg (mt hle.1 h), BitVec.toNat_setWidth, hwide, Nat.mod_eq_of_lt (by omega),
      Nat.mod_eq_of_lt (by omega)]

theorem permIndex_succ (k a c : ℕ) : permIndex k a (c + 1) = (permIndex k a c + a) % k := by
  rw [permIndex_eq, permIndex_eq, Nat.mod_add_mod, Nat.mul_succ]

theorem getD_setIfInBounds (v : Vector Bool 432) {i : ℕ} (hi : i < 432) (b : Bool) (j : ℕ) :
    (v.setIfInBounds i b).getD j false = if i = j then b else v.getD j false := by
  rw [Vector.getD, Vector.toArray_setIfInBounds, Array.getD_eq_getD_getElem?,
    Array.getElem?_setIfInBounds, Vector.getD, Array.getD_eq_getD_getElem?]
  have hsize : i < v.toArray.size := by rwa [Vector.size_toArray]
  by_cases hij : i = j
  · rw [if_pos hij, if_pos hij, if_pos (hij ▸ hsize)]
    rfl
  · rw [if_neg hij, if_neg hij]

/-- A counter below the size. -/
theorem eq_sub_one_iff (hn : 2 ≤ n.toNat) (c : BitVec 9) :
    c = n - 1 ↔ c.toNat + 1 = n.toNat := by
  have hlast : (n - 1).toNat + 1 = n.toNat :=
    Deinterleaver.toNat_sub_one fun h ↦ by rw [h] at hn; exact absurd hn (by decide)
  rw [← BitVec.toNat_inj]
  omega

theorem getD_concat (xs : List Bool) (x : Bool) (k : ℕ) (hk : k < (xs ++ [x]).length) :
    (xs ++ [x]).getD k false = if xs.length = k then x else xs.getD k false := by
  rw [List.length_append, List.length_singleton] at hk
  by_cases h : xs.length = k
  · rw [if_pos h, ← h, List.getD_append_right _ _ _ _ (Nat.le_refl _), Nat.sub_self]
    rfl
  · rw [if_neg h, List.getD_append _ _ _ _ (by omega)]

theorem toNat_add_one {c : BitVec 9} (hc : c.toNat < 432) : (c + 1).toNat = c.toNat + 1 := by
  rw [BitVec.toNat_add]
  show (c.toNat + 1) % 512 = _
  omega

end Places

/-! ## The deinterleaver is a block buffer -/

namespace Deinterleaver

variable {n : BitVec 9} {d : Deinterleaver} {b : BlockBuffer Bool}

/-- The permutation. -/
def unpermute (n : BitVec 9) (xs : List Bool) : List Bool := deinterleavePerm xs n.toNat (factor n)

/-- The registers of a block buffer. -/
def Sim (n : BitVec 9) (d : Deinterleaver) : BlockBuffer Bool → Prop
  | .filling xs => d.state = .fill ∧ xs.length < n.toNat ∧ d.wrAddr.toNat = xs.length ∧
      ∀ k < xs.length, d.buf.getD k false = xs.getD k false
  | .draining ys => d.state = .drain ∧ ∃ xs : List Bool, xs.length = n.toNat ∧
      d.drainCnt.toNat < n.toNat ∧ ys = (unpermute n xs).drop d.drainCnt.toNat ∧
      d.rdAddr.toNat = permIndex n.toNat (factor n) d.drainCnt.toNat ∧
      ∀ k < n.toNat, d.buf.getD k false = xs.getD k false

theorem sim_init (hn : IsBlockSize n) : Sim n {} (.filling []) :=
  ⟨rfl, Nat.lt_of_lt_of_le (by decide) hn.facts.2.1, rfl, fun _ h ↦ absurd h (Nat.not_lt_zero _)⟩

theorem step_buf (hst : d.state = .fill) (x : Bool) :
    (d.step n none).buf = d.buf ∧
      (d.step n (some x)).buf = d.buf.setIfInBounds d.wrAddr.toNat x := by
  simp [step, hst]

theorem sim_fill (hn : IsBlockSize n) {xs : List Bool} (h : Sim n d (.filling xs))
    (x : Option Bool) :
    Sim n (d.step n x) ((BlockBuffer.filling xs).step n.toNat (unpermute n) x) := by
  obtain ⟨hmax, htwo, hfactor, -⟩ := hn.facts
  obtain ⟨hst, hlt, hwr, hbuf⟩ := h
  cases x with
  | none =>
      obtain ⟨hst', hwr'⟩ := step_fill_none (n := n) hst
      refine ⟨hst', hlt, hwr' ▸ hwr, ?_⟩
      rw [(step_buf hst false).1]
      exact hbuf
  | some x =>
      have hcells : ∀ k < (xs ++ [x]).length,
          (d.step n (some x)).buf.getD k false = (xs ++ [x]).getD k false := by
        intro k hk
        rw [(step_buf hst x).2, getD_setIfInBounds _ (by omega), hwr, getD_concat _ _ _ hk]
        rw [List.length_append, List.length_singleton] at hk
        split_ifs with heq
        · rfl
        · exact hbuf k (by omega)
      have hlen : (xs ++ [x]).length = xs.length + 1 := List.length_append
      rw [BlockBuffer.step]
      by_cases hlast : xs.length + 1 = n.toNat
      · have hd : d.wrAddr = n - 1 := (eq_sub_one_iff htwo _).2 (hwr ▸ hlast)
        obtain ⟨hst', hcnt⟩ := step_fill_last (b := x) hst hd
        have hrd : (d.step n (some x)).rdAddr = aParam n := by simp [step, hst]
        rw [if_pos hlast]
        refine ⟨hst', xs ++ [x], hlen.trans hlast, ?_, ?_, ?_, fun k hk ↦ hcells k (by omega)⟩
        · rw [hcnt]
          exact Nat.lt_of_lt_of_le (by decide) htwo
        · rw [hcnt]
          rfl
        · rw [hcnt, hrd, permIndex_eq]
          show factor n = factor n * 1 % n.toNat
          rw [Nat.mul_one, Nat.mod_eq_of_lt hfactor]
      · have hd : d.wrAddr ≠ n - 1 := fun h ↦ hlast (hwr ▸ (eq_sub_one_iff htwo _).1 h)
        obtain ⟨hst', hwr'⟩ := step_fill_some (b := x) hst hd
        rw [if_neg hlast]
        refine ⟨hst', by omega, ?_, hcells⟩
        rw [hwr', toNat_add_one (by omega), hwr, hlen]

theorem sim_drain (hn : IsBlockSize n) {ys : List Bool} (h : Sim n d (.draining ys))
    (x : Option Bool) :
    Sim n (d.step n x) ((BlockBuffer.draining ys).step n.toNat (unpermute n) x) ∧
      (d.step n x).sent = ys.head? := by
  obtain ⟨hmax, htwo, hfactor, -⟩ := hn.facts
  obtain ⟨hst, xs, hlen, hcnt, rfl, hrd, hbuf⟩ := h
  have hout : (unpermute n xs).length = n.toNat := length_gather ..
  have hperm : permIndex n.toNat (factor n) d.drainCnt.toNat < n.toNat := permIndex_lt hcnt
  have hhead : ((unpermute n xs).drop d.drainCnt.toNat).head? =
      some (d.buf.getD d.rdAddr.toNat false) := by
    have hget := getD_gather false (permIndex n.toNat (factor n)) xs hcnt
    have hlt : d.drainCnt.toNat < (unpermute n xs).length := hcnt.trans_eq hout.symm
    rw [List.head?_drop, hrd, hbuf _ hperm, ← hget, List.getElem?_eq_getElem hlt]
    exact congrArg some (List.getD_eq_getElem _ false hlt).symm
  have hsent : (d.step n x).sent = some (d.buf.getD d.rdAddr.toNat false) := by
    simp [step, sent, hst]
  have hkeep : (d.step n x).buf = d.buf := by simp [step, hst]
  refine ⟨?_, hsent.trans hhead.symm⟩
  rw [BlockBuffer.step, List.tail_drop]
  by_cases hlast : d.drainCnt.toNat + 1 = n.toNat
  · have hd : d.drainCnt = n - 1 := (eq_sub_one_iff htwo _).2 hlast
    obtain ⟨hst', hwr'⟩ := step_drain_last x hst hd
    rw [List.drop_eq_nil_of_le (by omega)]
    refine ⟨hst', Nat.lt_of_lt_of_le (by decide) htwo, ?_, fun k hk ↦ absurd hk (Nat.not_lt_zero k)⟩
    rw [hwr']
    rfl
  · have hd : d.drainCnt ≠ n - 1 := fun h ↦ hlast ((eq_sub_one_iff htwo _).1 h)
    obtain ⟨hst', hcnt'⟩ := step_drain x hst hd
    have hnext : (d.step n x).drainCnt.toNat = d.drainCnt.toNat + 1 := by
      rw [hcnt', toNat_add_one (by omega)]
    have hrd' : (d.step n x).rdAddr = d.rdNext n := by simp [step, hst]
    rw [BlockBuffer.sent_of_ne_nil (List.ne_nil_of_length_pos (by rw [List.length_drop]; omega))]
    refine ⟨hst', xs, hlen, by omega, by rw [hnext], ?_, by rwa [hkeep]⟩
    rw [hnext, permIndex_succ, hrd', rdNext, toNat_wrap (by omega) hfactor, hrd]
    rfl

/-- **One clock edge.** -/
theorem sim_step (hn : IsBlockSize n) (h : Sim n d b) (x : Option Bool) :
    Sim n (d.step n x) (b.step n.toNat (unpermute n) x) ∧ (d.step n x).sent = b.out := by
  cases b with
  | filling xs =>
      refine ⟨sim_fill hn h x, ?_⟩
      obtain ⟨hst, -⟩ := h
      simp [step, sent, hst, BlockBuffer.out]
  | draining ys => exact sim_drain hn h x

/-- **What it sends, in every run.** -/
theorem emitted_eq (hn : IsBlockSize n) (h : Sim n d b) (es : List (Option Bool)) :
    Run.emitted (step · n) sent d es = b.sends n.toNat (unpermute n) es := by
  induction es generalizing d b with
  | nil => rfl
  | cons e es ih =>
      obtain ⟨hsim, hout⟩ := sim_step hn h e
      rw [Run.emitted, hout, ih hsim, BlockBuffer.sends]

end Deinterleaver

/-! ## The first block of the interleaver -/

namespace Interleaver

variable {n : BitVec 9} {d : Interleaver} {b : BlockBuffer Bool} {room : ℕ}

/-- The permutation. -/
def permute (n : BitVec 9) (xs : List Bool) : List Bool := interleavePerm xs n.toNat (factor n)

/-- Where bit `k` of the first block goes. -/
def firstIndex (n : BitVec 9) (k : ℕ) : ℕ := factor n * k % n.toNat

/-- What becomes of the first block. -/
def firstPermute (n : BitVec 9) (xs : List Bool) : List Bool :=
  scatter false n.toNat (firstIndex n) xs

theorem firstIndex_lt (hn : IsBlockSize n) (k : ℕ) : firstIndex n k < n.toNat :=
  Nat.mod_lt _ (Nat.lt_of_lt_of_le (by decide) hn.facts.2.1)

theorem firstIndex_inj (hn : IsBlockSize n) :
    ∀ j < n.toNat, ∀ k < n.toNat, firstIndex n j = firstIndex n k → j = k := by
  intro j hj k hk he
  have hmod : j ≡ k [MOD n.toNat] := Nat.ModEq.cancel_left_of_coprime hn.facts.2.2.2 he
  exact hmod.eq_of_lt_of_lt hj hk

/-- The registers of a block buffer that takes `room` bits more.  When its block is sent, it takes
none. -/
def Sim (n : BitVec 9) (room : ℕ) (d : Interleaver) : BlockBuffer Bool → Prop
  | .filling xs => d.state = .fill ∧
      (xs = [] ∧ room = 0 ∨ 0 < room ∧ xs.length + room = n.toNat ∧
        d.drainCnt.toNat = xs.length ∧ d.wrAddr.toNat = firstIndex n xs.length ∧
        ∀ k < xs.length, d.buf.getD (firstIndex n k) false = xs.getD k false)
  | .draining ys => d.state = .drain ∧ room = 0 ∧ ∃ xs : List Bool,
      d.drainCnt.toNat < n.toNat ∧ ys = (firstPermute n xs).drop d.drainCnt.toNat ∧
      d.rdAddr = d.drainCnt ∧
      ∀ p < n.toNat, d.buf.getD p false = (firstPermute n xs).getD p false

theorem sim_init (hn : IsBlockSize n) : Sim n n.toNat {} (.filling []) :=
  ⟨rfl, .inr ⟨Nat.lt_of_lt_of_le (by decide) hn.facts.2.1, Nat.zero_add _, rfl,
    (Nat.zero_mod _).symm, fun _ h ↦ absurd h (Nat.not_lt_zero _)⟩⟩

theorem step_fill_none (hst : d.state = .fill) : (d.step n none).state = .fill ∧
    (d.step n none).drainCnt = d.drainCnt ∧ (d.step n none).wrAddr = d.wrAddr ∧
    (d.step n none).buf = d.buf := by
  simp [step, fillDone, hst]

theorem step_fill_some (hst : d.state = .fill) (hd : d.drainCnt ≠ n - 1) (x : Bool) :
    (d.step n (some x)).state = .fill ∧ (d.step n (some x)).drainCnt = d.drainCnt + 1 ∧
    (d.step n (some x)).wrAddr = d.wrNext n ∧
    (d.step n (some x)).buf = d.buf.setIfInBounds d.wrAddr.toNat x := by
  have hfull : d.fillDone n (some x) = false := by
    rw [fillDone, beq_false_of_ne hd, Bool.and_false]
  simp [step, hst, hfull]

theorem step_fill_last (hst : d.state = .fill) (hd : d.drainCnt = n - 1) (x : Bool) :
    (d.step n (some x)).state = .drain ∧ (d.step n (some x)).drainCnt = 0 ∧
    (d.step n (some x)).rdAddr = 0 ∧
    (d.step n (some x)).buf = d.buf.setIfInBounds d.wrAddr.toNat x := by
  simp [step, fillDone, hst, hd]

theorem step_drain (hst : d.state = .drain) (x : Option Bool) :
    (d.step n x).state = (if d.drainCnt = n - 1 then .fill else .drain) ∧
    (d.step n x).drainCnt = d.drainCnt + 1 ∧ (d.step n x).rdAddr = d.rdAddr + 1 ∧
    (d.step n x).buf = d.buf ∧ (d.step n x).sent = some (d.buf.getD d.rdAddr.toNat false) := by
  simp [step, drainDone, sent, hst]

theorem step_fill_sent (hst : d.state = .fill) (x : Option Bool) : (d.step n x).sent = none := by
  simp [step, sent, hst]

theorem sim_fill_some (hn : IsBlockSize n) {xs : List Bool} (h : Sim n (room + 1) d (.filling xs))
    (x : Bool) :
    Sim n room (d.step n (some x))
      ((BlockBuffer.filling xs).step n.toNat (firstPermute n) (some x)) := by
  obtain ⟨hmax, htwo, hfactor, -⟩ := hn.facts
  obtain ⟨hst, ⟨-, habs⟩ | ⟨-, hroom, hcnt, hwr, hbuf⟩⟩ := h
  · exact absurd habs (Nat.succ_ne_zero room)
  have hlen : (xs ++ [x]).length = xs.length + 1 := List.length_append
  have hcells : ∀ k < (xs ++ [x]).length,
      (d.buf.setIfInBounds d.wrAddr.toNat x).getD (firstIndex n k) false =
        (xs ++ [x]).getD k false := by
    intro k hk
    have hplace := firstIndex_lt hn xs.length
    have hiff : firstIndex n xs.length = firstIndex n k ↔ xs.length = k :=
      ⟨firstIndex_inj hn _ (by omega) _ (by omega), congrArg _⟩
    rw [getD_setIfInBounds _ (by omega), hwr, getD_concat _ _ _ hk]
    by_cases heq : xs.length = k
    · rw [if_pos (hiff.2 heq), if_pos heq]
    · rw [if_neg (mt hiff.1 heq), if_neg heq]
      exact hbuf k (by omega)
  rw [BlockBuffer.step]
  by_cases hlast : xs.length + 1 = n.toNat
  · have hd : d.drainCnt = n - 1 := (eq_sub_one_iff htwo _).2 (hcnt ▸ hlast)
    obtain ⟨hst', hcnt', hrd', hbuf'⟩ := step_fill_last hst hd x
    rw [if_pos hlast]
    refine ⟨hst', by omega, xs ++ [x], ?_, ?_, hrd'.trans hcnt'.symm, fun p hp ↦ ?_⟩
    · rw [hcnt']
      exact Nat.lt_of_lt_of_le (by decide) htwo
    · rw [hcnt']
      rfl
    · obtain ⟨k, hk, rfl⟩ :=
        exists_of_inj (fun k _ ↦ firstIndex_lt hn k) (firstIndex_inj hn) hp
      rw [hbuf', hcells k (by omega), firstPermute,
        getD_scatter false (fun k _ ↦ firstIndex_lt hn k) (firstIndex_inj hn) _ hk]
  · have hd : d.drainCnt ≠ n - 1 := fun h ↦ hlast (hcnt ▸ (eq_sub_one_iff htwo _).1 h)
    obtain ⟨hst', hcnt', hwr', hbuf'⟩ := step_fill_some hst hd x
    rw [if_neg hlast]
    refine ⟨hst', .inr ⟨by omega, by omega, ?_, ?_, by rwa [hbuf']⟩⟩
    · rw [hcnt', toNat_add_one (by omega), hcnt, hlen]
    · have hnext : (d.wrNext n).toNat = (d.wrAddr.toNat + factor n) % n.toNat :=
        toNat_wrap (hwr ▸ firstIndex_lt hn _) hfactor
      rw [hwr', hnext, hwr, hlen]
      exact (Nat.mod_add_mod _ _ _).trans (congrArg (· % n.toNat) (Nat.mul_succ _ _).symm)

theorem sim_drain (hn : IsBlockSize n) {ys : List Bool} (h : Sim n room d (.draining ys))
    (x : Option Bool) :
    Sim n room (d.step n x) ((BlockBuffer.draining ys).step n.toNat (firstPermute n) x) ∧
      (d.step n x).sent = ys.head? := by
  obtain ⟨hmax, htwo, hfactor, -⟩ := hn.facts
  obtain ⟨hst, rfl, xs, hcnt, rfl, hrd, hbuf⟩ := h
  obtain ⟨hst', hcnt', hrd', hbuf', hsent⟩ := step_drain (n := n) hst x
  have hout : (firstPermute n xs).length = n.toNat := length_scatter ..
  have hlt : d.drainCnt.toNat < (firstPermute n xs).length := hcnt.trans_eq hout.symm
  have hhead : ((firstPermute n xs).drop d.drainCnt.toNat).head? =
      some (d.buf.getD d.rdAddr.toNat false) := by
    rw [List.head?_drop, hrd, hbuf _ hcnt, List.getElem?_eq_getElem hlt]
    exact congrArg some (List.getD_eq_getElem _ false hlt).symm
  refine ⟨?_, hsent.trans hhead.symm⟩
  rw [BlockBuffer.step, List.tail_drop]
  by_cases hlast : d.drainCnt.toNat + 1 = n.toNat
  · rw [if_pos ((eq_sub_one_iff htwo _).2 hlast)] at hst'
    rw [List.drop_eq_nil_of_le (by omega)]
    exact ⟨hst', .inl ⟨rfl, rfl⟩⟩
  · rw [if_neg (mt (eq_sub_one_iff htwo _).1 hlast)] at hst'
    have hnext : (d.step n x).drainCnt.toNat = d.drainCnt.toNat + 1 := by
      rw [hcnt', toNat_add_one (by omega)]
    rw [BlockBuffer.sent_of_ne_nil (List.ne_nil_of_length_pos (by rw [List.length_drop]; omega))]
    exact ⟨hst', rfl, xs, by omega, by rw [hnext], by rw [hrd', hcnt', hrd], by rwa [hbuf']⟩

/-- **One clock edge.** -/
theorem sim_step (hn : IsBlockSize n) (x : Option Bool) (h : Sim n (x.toList.length + room) d b) :
    Sim n room (d.step n x) (b.step n.toNat (firstPermute n) x) ∧ (d.step n x).sent = b.out := by
  cases b with
  | draining ys =>
      have hx : x.toList.length + room = room := by
        have hzero := h.2.1
        omega
      rw [hx] at h
      exact sim_drain hn h x
  | filling xs =>
      refine ⟨?_, step_fill_sent h.1 x⟩
      cases x with
      | none =>
          obtain ⟨hst', hcnt', hwr', hbuf'⟩ := step_fill_none (n := n) h.1
          have hroom : (none : Option Bool).toList.length + room = room := Nat.zero_add room
          rw [hroom] at h
          refine ⟨hst', ?_⟩
          rw [hcnt', hwr', hbuf']
          exact h.2
      | some x => exact sim_fill_some hn (Nat.add_comm 1 room ▸ h) x

/-- **A run of at most a block** is one of a block buffer. -/
theorem emitted_eq (hn : IsBlockSize n) (h : Sim n room d b) {es : List (Option Bool)}
    (hroom : es.reduceOption.length ≤ room) :
    Run.emitted (step · n) sent d es = b.sends n.toNat (firstPermute n) es ∧
      Sim n (room - es.reduceOption.length) (Run.exec (step · n) d es)
        (b.after n.toNat (firstPermute n) es) := by
  induction es generalizing d b room with
  | nil => exact ⟨rfl, h⟩
  | cons e es ih =>
      have hcons : (e :: es).reduceOption.length = e.toList.length + es.reduceOption.length := by
        cases e with
        | none => exact (Nat.zero_add _).symm
        | some x => exact Nat.add_comm _ 1
      rw [hcons] at hroom ⊢
      obtain ⟨room, rfl⟩ := Nat.exists_eq_add_of_le (Nat.le_of_add_right_le hroom)
      obtain ⟨hsim, hout⟩ := sim_step hn e h
      obtain ⟨hrest, hend⟩ := ih hsim (Nat.le_of_add_le_add_left hroom)
      rw [Run.emitted, hout, hrest, Nat.add_sub_add_left]
      exact ⟨rfl, hend⟩

/-- The first block is right if its bits are all equal. -/
theorem firstPermute_eq_iff (hn : IsBlockSize n) {xs : List Bool} (hlen : xs.length = n.toNat) :
    firstPermute n xs = permute n xs ↔ ∃ c, xs = List.replicate n.toNat c := by
  obtain ⟨-, htwo, -, hcoprime⟩ := hn.facts
  constructor
  · intro heq
    have hnext : ∀ k, k + 1 < n.toNat → xs.getD (k + 1) false = xs.getD k false := by
      intro k hk
      have hplace : permIndex n.toNat (factor n) k = firstIndex n (k + 1) := permIndex_eq _ _ _
      have hsnd := getD_interleavePerm hcoprime xs (Nat.lt_of_succ_lt hk)
      have hfst := getD_scatter false (fun k _ ↦ firstIndex_lt hn k) (firstIndex_inj hn) xs hk
      have hsame := congrArg (fun ys ↦ ys.getD (permIndex n.toNat (factor n) k) false) heq
      rw [← hplace] at hfst
      exact hfst.symm.trans (hsame.trans hsnd)
    have hall : ∀ k < n.toNat, xs.getD k false = xs.getD 0 false := by
      intro k
      induction k with
      | zero => exact fun _ ↦ rfl
      | succ k ih => exact fun hk ↦ (hnext k hk).trans (ih (Nat.lt_of_succ_lt hk))
    refine ⟨xs.getD 0 false, List.eq_replicate_iff.2 ⟨hlen, fun x hx ↦ ?_⟩⟩
    obtain ⟨k, hk, rfl⟩ := List.getElem_of_mem hx
    rw [← List.getD_eq_getElem _ false hk]
    exact hall k (hlen ▸ hk)
  · rintro ⟨c, rfl⟩
    exact (scatter_replicate false (fun k _ ↦ firstIndex_lt hn k) (firstIndex_inj hn) c).trans
      (scatter_replicate false (fun k hk ↦ permIndex_lt hk) (permIndex_inj hcoprime) c).symm

/-! ## Later blocks -/

/-- What a bit pays for: of 512 bits, a block is sent. -/
def store (n : BitVec 9) (d : Interleaver) : ℕ :=
  match d.state with
  | .fill => n.toNat * ((d.drainCnt.toNat + (512 - n.toNat)) % 512)
  | .drain => 512 * (n.toNat - d.drainCnt.toNat)

/-- The counter is within the block. -/
def Counting (n : BitVec 9) (d : Interleaver) : Prop :=
  d.state = .drain → d.drainCnt.toNat < n.toNat

theorem store_fill (hst : d.state = .fill) :
    d.store n = n.toNat * ((d.drainCnt.toNat + (512 - n.toNat)) % 512) := by simp only [store, hst]

theorem store_drain (hst : d.state = .drain) :
    d.store n = 512 * (n.toNat - d.drainCnt.toNat) := by simp only [store, hst]

theorem counting_of_fill (hst : d.state = .fill) : d.Counting n :=
  fun h ↦ absurd (hst.symm.trans h) (by decide)

theorem step_store (hn : IsBlockSize n) (x : Option Bool) (h : d.Counting n) :
    (d.step n x).Counting n ∧ 512 * (d.step n x).sent.toList.length + (d.step n x).store n ≤
      d.store n + n.toNat * x.toList.length := by
  obtain ⟨hmax, htwo, -, -⟩ := hn.facts
  cases hst : d.state with
  | fill =>
      rw [step_fill_sent hst, store_fill hst]
      cases x with
      | none =>
          obtain ⟨hst', hcnt', -, -⟩ := step_fill_none (n := n) hst
          rw [store_fill hst', hcnt']
          exact ⟨counting_of_fill hst', Nat.le_of_eq (Nat.zero_add _)⟩
      | some x =>
          by_cases hd : d.drainCnt = n - 1
          · obtain ⟨hst', hcnt', -, -⟩ := step_fill_last hst hd x
            have hlast := (eq_sub_one_iff htwo _).1 hd
            have hfull : (d.drainCnt.toNat + (512 - n.toNat)) % 512 = 511 := by omega
            rw [store_drain hst', hcnt', hfull]
            refine ⟨fun _ ↦ by rw [hcnt']; exact Nat.lt_of_lt_of_le (by decide) htwo, ?_⟩
            show 0 + 512 * n.toNat ≤ n.toNat * 511 + n.toNat * 1
            omega
          · obtain ⟨hst', hcnt', -, -⟩ := step_fill_some hst hd x
            have hlast := mt (eq_sub_one_iff htwo _).2 hd
            have hnext : ((d.drainCnt + 1).toNat + (512 - n.toNat)) % 512 =
                (d.drainCnt.toNat + (512 - n.toNat)) % 512 + 1 := by
              have hlt := d.drainCnt.isLt
              rw [BitVec.toNat_add]
              show ((d.drainCnt.toNat + 1) % 512 + _) % 512 = _
              omega
            rw [store_fill hst', hcnt', hnext]
            refine ⟨counting_of_fill hst', ?_⟩
            show 0 + n.toNat * (_ + 1) ≤ _ + n.toNat * 1
            rw [Nat.zero_add, Nat.mul_add]
  | drain =>
      have hcnt := h hst
      obtain ⟨hst', hcnt', -, -, hsent⟩ := step_drain (n := n) hst x
      have hnext : (d.step n x).drainCnt.toNat = d.drainCnt.toNat + 1 := by
        rw [hcnt', toNat_add_one (by omega)]
      rw [hsent, store_drain hst]
      by_cases hlast : d.drainCnt.toNat + 1 = n.toNat
      · rw [if_pos ((eq_sub_one_iff htwo _).2 hlast)] at hst'
        have hzero : (n.toNat + (512 - n.toNat)) % 512 = 0 := by omega
        rw [store_fill hst', hnext, hlast, hzero]
        refine ⟨counting_of_fill hst', ?_⟩
        show 512 * 1 + n.toNat * 0 ≤ _
        omega
      · rw [if_neg (mt (eq_sub_one_iff htwo _).1 hlast)] at hst'
        rw [store_drain hst', hnext]
        refine ⟨fun _ ↦ by omega, ?_⟩
        show 512 * 1 + _ ≤ _
        omega

theorem length_reduceOption (k : ℕ) (es : List (Option Bool)) :
    (es.map fun e ↦ k * e.toList.length).sum = k * es.reduceOption.length := by
  induction es with
  | nil => rfl
  | cons e es ih =>
      rw [List.map_cons, List.sum_cons, ih, ← Nat.mul_add]
      cases e with
      | none => exact congrArg (k * ·) (Nat.zero_add _)
      | some x => exact congrArg (k * ·) (Nat.add_comm 1 _)

/-- **In every run**, 512 bits are taken for each block behind the first. -/
theorem length_emitted_le (hn : IsBlockSize n) (es : List (Option Bool)) :
    512 * (Run.emitted (step · n) sent {} es).length ≤
      n.toNat * (512 - n.toNat) + n.toNat * es.reduceOption.length := by
  obtain ⟨hmax, htwo, -, -⟩ := hn.facts
  have h := Run.length_emitted_le (step · n) sent (fun d x (hd : Counting n d) ↦ step_store hn x hd)
    (counting_of_fill rfl) (s := {}) es
  have hzero : store n {} = n.toNat * (512 - n.toNat) := by
    show n.toNat * ((0 + (512 - n.toNat)) % 512) = _
    rw [Nat.zero_add, Nat.mod_eq_of_lt (by omega)]
  rw [length_reduceOption, hzero] at h
  exact Nat.le_of_add_right_le h

end Interleaver

/-! ## Both -/

section Both

variable {n : BitVec 9}

/-- What the deinterleaver gets in each cycle. -/
def fed (n : BitVec 9) : Interleaver → List (Option Bool) → List (Option Bool)
  | _, [] => []
  | d, e :: es => d.sent :: fed n (d.step n e) es

theorem fed_append (d : Interleaver) (es fs : List (Option Bool)) :
    fed n d (es ++ fs) = fed n d es ++ fed n (Run.exec (Interleaver.step · n) d es) fs := by
  induction es generalizing d with
  | nil => rfl
  | cons e es ih => exact congrArg (d.sent :: ·) (ih (d.step n e))

/-- What was sent is fed one cycle later. -/
theorem reduceOption_fed (d : Interleaver) (es : List (Option Bool)) :
    (fed n d es ++ [(Run.exec (Interleaver.step · n) d es).sent]).reduceOption =
      d.sent.toList ++ Run.emitted (Interleaver.step · n) Interleaver.sent d es := by
  induction es generalizing d with
  | nil =>
      cases hd : d.sent <;> simp [fed, hd]
  | cons e es ih =>
      rw [fed, List.cons_append, Run.exec_cons, Run.emitted, ← ih]
      cases hd : d.sent <;> rfl

/-- Afterwards nothing comes. -/
theorem fed_rest {d : Interleaver} (hst : d.state = .fill) (m : ℕ) :
    fed n d (List.replicate (m + 1) none) = d.sent :: List.replicate m none := by
  induction m generalizing d with
  | zero => rfl
  | succ m ih =>
      have hnext := ih (Interleaver.step_fill_none (n := n) hst).1
      rw [Interleaver.step_fill_sent hst] at hnext
      rw [List.replicate_succ, fed, hnext]
      rfl

/-- **The deinterleaver restores any number of blocks**, whatever the pauses between their bits, if
there is time behind each to send it. -/
theorem restores (hn : IsBlockSize n) {runs : List (List Bool × List (Option Bool))}
    (h : ∀ r ∈ runs, r.1.length = n.toNat ∧ r.2.reduceOption = Interleaver.permute n r.1) :
    Run.emitted (Deinterleaver.step · n) Deinterleaver.sent {}
        (runs.flatMap fun r ↦ r.2 ++ List.replicate n.toNat none) =
      runs.flatMap Prod.fst := by
  have hpos : 0 < n.toNat := Nat.lt_of_lt_of_le (by decide) hn.facts.2.1
  have hlen : ∀ es ∈ runs.map Prod.snd, es.reduceOption.length = n.toNat := by
    intro es hes
    obtain ⟨r, hr, rfl⟩ := List.mem_map.1 hes
    rw [(h r hr).2]
    exact length_scatter ..
  have hsends := BlockBuffer.sends_blocks (π := Deinterleaver.unpermute n)
    (fun _ _ ↦ length_gather ..) hpos hlen
  rw [List.flatMap_map, List.flatMap_map] at hsends
  rw [Deinterleaver.emitted_eq hn (Deinterleaver.sim_init hn), hsends]
  refine List.flatMap_congr fun r hr ↦ ?_
  rw [(h r hr).2]
  exact deinterleavePerm_interleavePerm hn.facts.2.2.2 (h r hr).1

theorem reduceOption_rest (es : List (Option Bool)) (m : ℕ) :
    (es ++ List.replicate m none).reduceOption = es.reduceOption := by
  rw [List.reduceOption_append, List.reduceOption_replicate_none, List.append_nil]

/-- **The first block** is sent, with the permutation that it gets. -/
theorem emitted_first (hn : IsBlockSize n) {es : List (Option Bool)}
    (hes : es.reduceOption.length = n.toNat) {m : ℕ} (hm : n.toNat ≤ m) :
    let cycles := es ++ List.replicate m none
    Run.emitted (Interleaver.step · n) Interleaver.sent {} cycles =
        Interleaver.firstPermute n es.reduceOption ∧
      (Run.exec (Interleaver.step · n) {} cycles).state = .fill := by
  have hpos : 0 < n.toNat := Nat.lt_of_lt_of_le (by decide) hn.facts.2.1
  have hle : (es ++ List.replicate m none).reduceOption.length ≤ n.toNat := by
    rw [reduceOption_rest, hes]
  obtain ⟨hemitted, hsim⟩ := Interleaver.emitted_eq hn (Interleaver.sim_init hn) hle
  have hnil : ([] : List Bool).length < n.toNat := hpos
  obtain ⟨hsends, hafter⟩ := BlockBuffer.sends_block (n := n.toNat)
    (π := Interleaver.firstPermute n) (fun _ _ ↦ length_scatter ..) hnil
    ((Nat.zero_add _).trans hes) hm
  rw [hafter] at hsim
  exact ⟨hemitted.trans hsends, hsim.1⟩

/-- **What the deinterleaver makes of it.** -/
theorem emitted_fed_first (hn : IsBlockSize n) {es : List (Option Bool)}
    (hes : es.reduceOption.length = n.toNat) {m : ℕ} (hm : 2 * n.toNat + 1 ≤ m) :
    Run.emitted (Deinterleaver.step · n) Deinterleaver.sent {}
        (fed n {} (es ++ List.replicate m none)) =
      Deinterleaver.unpermute n (Interleaver.firstPermute n es.reduceOption) := by
  have hpos : 0 < n.toNat := Nat.lt_of_lt_of_le (by decide) hn.facts.2.1
  obtain ⟨r, rfl⟩ : ∃ r, m = n.toNat + (r + 1) := ⟨m - n.toNat - 1, by omega⟩
  obtain ⟨hemitted, hst⟩ := emitted_first hn hes (Nat.le_refl n.toNat)
  have hbits := reduceOption_fed (n := n) {} (es ++ List.replicate n.toNat none)
  rw [hemitted] at hbits
  have hlen : (Interleaver.firstPermute n es.reduceOption).length = n.toNat := length_scatter ..
  rw [List.replicate_add, ← List.append_assoc, fed_append, fed_rest hst, List.append_cons,
    Deinterleaver.emitted_eq hn (Deinterleaver.sim_init hn)]
  have hnil : ([] : List Bool).length < n.toNat := hpos
  have hsends := (BlockBuffer.sends_block (n := n.toNat) (π := Deinterleaver.unpermute n)
    (fun _ _ ↦ length_gather ..) hnil
    ((Nat.zero_add _).trans ((congrArg List.length hbits).trans hlen)) (m := r) (by omega)).1
  rw [hbits] at hsends
  exact hsends

/-- The two are inverse on the blocks that come in the cycles `es`, as soon as enough cycles without
a bit have passed. -/
def Inverse (n : BitVec 9) (blocks : List (List Bool)) (es : List (Option Bool)) : Prop :=
  ∃ m₀, ∀ m, m₀ ≤ m →
    let cycles := es ++ List.replicate m none
    Run.emitted (Interleaver.step · n) Interleaver.sent {} cycles =
        blocks.flatMap (Interleaver.permute n) ∧
      Run.emitted (Deinterleaver.step · n) Deinterleaver.sent {} (fed n {} cycles) = blocks.flatten

/-- No block. -/
theorem inverse_nil (hn : IsBlockSize n) {es : List (Option Bool)} (hes : es.reduceOption = []) :
    Inverse n [] es := by
  refine ⟨0, fun m _ ↦ ?_⟩
  have hnone : (es ++ List.replicate m none).reduceOption = [] := (reduceOption_rest es m).trans hes
  have hemitted := (Interleaver.emitted_eq hn (Interleaver.sim_init hn)
    (hnone ▸ Nat.zero_le _)).1.trans (BlockBuffer.sends_none hnone).1
  have hbits := reduceOption_fed (n := n) {} (es ++ List.replicate m none)
  rw [hemitted, List.reduceOption_append] at hbits
  have hfed : (fed n {} (es ++ List.replicate m none)).reduceOption = [] :=
    (List.append_eq_nil_iff.1 hbits).1
  exact ⟨hemitted, (Deinterleaver.emitted_eq hn (Deinterleaver.sim_init hn) _).trans
    (BlockBuffer.sends_none hfed).1⟩

/-- One block is sent as it should be if its bits are all equal. -/
theorem inverse_singleton_iff (hn : IsBlockSize n) {xs : List Bool} (hlen : xs.length = n.toNat)
    {es : List (Option Bool)} (hes : es.reduceOption = xs) :
    Inverse n [xs] es ↔ ∃ c, xs = List.replicate n.toNat c := by
  subst hes
  rw [← Interleaver.firstPermute_eq_iff hn hlen]
  constructor
  · rintro ⟨m₀, h⟩
    have hfst := (h (max m₀ n.toNat) (Nat.le_max_left _ _)).1
    have hfirst := (emitted_first hn hlen (Nat.le_max_right m₀ n.toNat)).1
    exact hfirst.symm.trans (hfst.trans (List.append_nil _))
  · intro heq
    refine ⟨2 * n.toNat + 1, fun m hm ↦ ⟨?_, ?_⟩⟩
    · exact (emitted_first hn hlen (by omega)).1.trans (heq.trans (List.append_nil _).symm)
    · rw [emitted_fed_first hn hlen hm, heq]
      exact (deinterleavePerm_interleavePerm hn.facts.2.2.2 hlen).trans (List.append_nil _).symm

theorem length_flatten_blocks {k : ℕ} {blocks : List (List Bool)}
    (h : ∀ xs ∈ blocks, xs.length = k) : blocks.flatten.length = k * blocks.length := by
  induction blocks with
  | nil => rfl
  | cons xs blocks ih =>
      rw [List.forall_mem_cons] at h
      rw [List.flatten_cons, List.length_append, h.1, ih h.2, List.length_cons, Nat.mul_succ,
        Nat.add_comm]

/-- Of two blocks and more, there are too few bits. -/
theorem length_le_one (hn : IsBlockSize n) {blocks : List (List Bool)}
    (hblocks : ∀ xs ∈ blocks, xs.length = n.toNat) {es : List (Option Bool)}
    (hes : es.reduceOption = blocks.flatten) (h : Inverse n blocks es) : blocks.length ≤ 1 := by
  obtain ⟨hmax, htwo, -, -⟩ := hn.facts
  obtain ⟨m₀, h⟩ := h
  have hsent : ∀ ys ∈ blocks.map (Interleaver.permute n), ys.length = n.toNat := by
    intro ys hys
    obtain ⟨xs, -, rfl⟩ := List.mem_map.1 hys
    exact length_scatter ..
  have hle := Interleaver.length_emitted_le hn (es ++ List.replicate m₀ none)
  rw [(h m₀ (Nat.le_refl _)).1, reduceOption_rest, hes, List.flatMap_def,
    length_flatten_blocks hsent, length_flatten_blocks hblocks, List.length_map,
    Nat.mul_left_comm, ← Nat.mul_add] at hle
  have hblock := Nat.le_of_mul_le_mul_left hle (by omega)
  obtain ⟨r, hr⟩ : ∃ r, 512 = n.toNat + r := ⟨512 - n.toNat, by omega⟩
  rw [hr, Nat.add_sub_cancel_left, Nat.add_mul, Nat.add_comm r] at hblock
  exact Nat.le_of_mul_le_mul_left
    ((Nat.le_of_add_le_add_left hblock).trans_eq (Nat.mul_one r).symm) (by omega)

/-- **When the two are inverse.** -/
theorem inverse_iff (hn : IsBlockSize n) {blocks : List (List Bool)}
    (hblocks : ∀ xs ∈ blocks, xs.length = n.toNat) {es : List (Option Bool)}
    (hes : es.reduceOption = blocks.flatten) :
    Inverse n blocks es ↔ blocks = [] ∨ ∃ c, blocks = [List.replicate n.toNat c] := by
  match blocks with
  | [] => exact iff_of_true (inverse_nil hn hes) (.inl rfl)
  | [xs] =>
      rw [inverse_singleton_iff hn (hblocks xs List.mem_cons_self)
        (hes.trans (List.append_nil xs))]
      simp
  | xs :: ys :: blocks =>
      refine iff_of_false (fun h ↦ ?_) (by simp)
      exact absurd (length_le_one hn hblocks hes h) (by simp)

/-- A block of ones. -/
theorem inverse_ones :
    Inverse 120 [List.replicate 120 true] ((List.replicate 120 true).map some) :=
  (inverse_iff (.inl rfl) (by decide) rfl).2 (.inr ⟨true, rfl⟩)

/-- A block of a one and zeros. -/
theorem not_inverse_one :
    ¬ Inverse 120 [true :: List.replicate 119 false]
      (some true :: (List.replicate 119 false).map some) := by
  have hlen : (true :: List.replicate 119 false).length = (120 : BitVec 9).toNat := rfl
  have hbits : (some true :: (List.replicate 119 false).map some).reduceOption =
      true :: List.replicate 119 false := rfl
  rw [inverse_singleton_iff (.inl rfl) hlen hbits]
  decide

end Both

end TetraPhy.Lmac
