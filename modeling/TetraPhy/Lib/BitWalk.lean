import TetraPhy.Lib.FieldReader

/-!
# Walks over a bounded bit string

A hand-written parser walks over a string of `limit` bits with a cursor, keeps count of the bits
that remain, fills in a record as it goes, and returns early with a code (`stop`).  A `Walk` is such
a parser; it also notes which ranges of bits it asked for.

Its rules are those of weakest preconditions, with one postcondition for a walk that goes on and
one for a walk that has returned.  Two invariants are carried through them:

* `Safe` — the count is right, and no range that was asked for goes past the limit;
* `Ahead` — given bits lie ahead of the cursor, to be read field by field.

`Keeps` is for an invariant of the record alone, which the reads do not touch.
-/

namespace TetraPhy.BitWalk

open AirOrder FieldReader

/-- Where a walk is: the position, the bits that remain, the record so far, and the ranges of bits
that were asked for, as position and length. -/
structure Cursor (σ : Type) where
  pos : ℕ
  remain : ℤ
  out : σ
  reads : List (ℕ × ℕ) := []

/-- A walk goes on with a value, or it has returned a code. -/
inductive Outcome (σ α : Type)
  | go (a : α) (c : Cursor σ)
  | stop (rc : ℤ) (c : Cursor σ)

/-- A walk. -/
def Walk (σ α : Type) := Cursor σ → Outcome σ α

section

variable {σ α β : Type}

namespace Walk

def pure (a : α) : Walk σ α := fun c ↦ .go a c

def bind (m : Walk σ α) (f : α → Walk σ β) : Walk σ β := fun c ↦
  match m c with
  | .go a c' => f a c'
  | .stop rc c' => .stop rc c'

instance : Monad (Walk σ) where
  pure := Walk.pure
  bind := Walk.bind

/-- Return. -/
def stop (rc : ℤ) : Walk σ α := fun c ↦ .stop rc c

/-- Return if the bits that remain are such. -/
def stopWhen (p : ℤ → Prop) [DecidablePred p] (rc : ℤ) : Walk σ Unit := fun c ↦
  if p c.remain then .stop rc c else .go () c

/-- The cursor. -/
def cursor : Walk σ (Cursor σ) := fun c ↦ .go c c

/-- Write to the record. -/
def write (f : σ → σ) : Walk σ Unit := fun c ↦ .go () { c with out := f c.out }

/-- Move on without reading. -/
def skip (n : ℕ) : Walk σ Unit := fun c ↦
  .go () { c with pos := c.pos + n, remain := c.remain - n }

end Walk

/-- Bits shifted into a word, one after another. -/
def bitsAt (b : ℕ → Bool) (pos : ℕ) : ℕ → UInt32
  | 0 => 0
  | n + 1 => (bitsAt b pos n <<< 1) ||| (b (pos + n)).toNat.toUInt32

variable (b : ℕ → Bool) (limit : ℕ)

namespace Walk

/-- Look at `n` bits from a position; none past the limit are shifted in. -/
def peekAt (pos n : ℕ) : Walk σ UInt32 := fun c ↦
  .go (bitsAt b pos (min n (limit - pos))) { c with reads := (pos, n) :: c.reads }

/-- Read the next `n` bits; where they are not all within the limit, the cursor stays. -/
def field (n : ℕ) : Walk σ UInt32 := fun c ↦
  .go (bitsAt b c.pos (min n (limit - c.pos)))
    { c with pos := if c.pos + n ≤ limit then c.pos + n else c.pos, remain := c.remain - n
             reads := (c.pos, n) :: c.reads }

end Walk

/-! ## Weakest preconditions -/

/-- A walk that goes on comes to `Q`, and one that returns to `E`. -/
def wp (m : Walk σ α) (Q : α → Cursor σ → Prop) (E : ℤ → Cursor σ → Prop) (c : Cursor σ) : Prop :=
  match m c with
  | .go a c' => Q a c'
  | .stop rc c' => E rc c'

variable {Q : α → Cursor σ → Prop} {E : ℤ → Cursor σ → Prop} {c : Cursor σ}

@[simp] theorem wp_pure (a : α) : wp (Pure.pure a : Walk σ α) Q E c ↔ Q a c := Iff.rfl

@[simp] theorem wp_bind (m : Walk σ β) (f : β → Walk σ α) :
    wp (m >>= f) Q E c ↔ wp m (fun a c' ↦ wp (f a) Q E c') E c := by
  change (match Walk.bind m f c with | .go a c' => Q a c' | .stop rc c' => E rc c') ↔
    (match m c with
      | .go a c' => match f a c' with | .go a c' => Q a c' | .stop rc c' => E rc c'
      | .stop rc c' => E rc c')
  rw [Walk.bind]
  cases m c <;> exact Iff.rfl

@[simp] theorem wp_stop (rc : ℤ) : wp (Walk.stop rc : Walk σ α) Q E c ↔ E rc c := Iff.rfl

@[simp] theorem wp_cursor {Q : Cursor σ → Cursor σ → Prop} :
    wp Walk.cursor Q E c ↔ Q c c := Iff.rfl

@[simp] theorem wp_write {Q : Unit → Cursor σ → Prop} (f : σ → σ) :
    wp (Walk.write f) Q E c ↔ Q () { c with out := f c.out } := Iff.rfl

theorem wp_stopWhen {Q : Unit → Cursor σ → Prop} {p : ℤ → Prop} [DecidablePred p] {rc : ℤ} :
    wp (Walk.stopWhen p rc) Q E c ↔ if p c.remain then E rc c else Q () c := by
  rw [wp, Walk.stopWhen]
  split_ifs <;> rfl

theorem wp_mono {m : Walk σ α} {Q' : α → Cursor σ → Prop} {E' : ℤ → Cursor σ → Prop}
    (h : wp m Q E c) (hQ : ∀ a c', Q a c' → Q' a c') (hE : ∀ rc c', E rc c' → E' rc c') :
    wp m Q' E' c := by
  revert h
  rw [wp, wp]
  cases m c with
  | go a c' => exact hQ a c'
  | stop rc c' => exact hE rc c'

/-- One walk after another. -/
theorem wp_seq {m : Walk σ β} {f : β → Walk σ α} {P : β → Cursor σ → Prop} (h : wp m P E c)
    (hf : ∀ a c', P a c' → wp (f a) Q E c') : wp (m >>= f) Q E c :=
  (wp_bind m f).2 (wp_mono h hf fun _ _ hE ↦ hE)

/-! ## No read goes past the limit -/

/-- The count is right, and no range that was asked for goes past the limit. -/
structure Safe (limit : ℕ) (c : Cursor σ) : Prop where
  budget : (c.pos : ℤ) + c.remain = limit
  nonneg : 0 ≤ c.remain
  inside : ∀ r ∈ c.reads, r.1 + r.2 ≤ limit

namespace Safe

variable {b limit} {n : ℕ}

theorem field {Q : UInt32 → Cursor σ → Prop} (h : Safe limit c) (hn : (n : ℤ) ≤ c.remain)
    (hQ : ∀ v c', Safe limit c' → c'.remain = c.remain - n → c'.out = c.out → Q v c') :
    wp (Walk.field b limit n) Q E c := by
  have hbudget := h.budget
  have hle : c.pos + n ≤ limit := by omega
  refine hQ _ _ ⟨?_, ?_, ?_⟩ rfl rfl
  · dsimp only
    rw [if_pos hle]
    omega
  · dsimp only
    omega
  · exact List.forall_mem_cons.2 ⟨hle, h.inside⟩

theorem peekAt {Q : UInt32 → Cursor σ → Prop} {pos : ℕ} (h : Safe limit c) (hn : pos + n ≤ limit)
    (hQ : ∀ v c', Safe limit c' → c'.remain = c.remain → c'.pos = c.pos → c'.out = c.out →
      Q v c') : wp (Walk.peekAt b limit pos n) Q E c :=
  hQ _ _ ⟨h.budget, h.nonneg, List.forall_mem_cons.2 ⟨hn, h.inside⟩⟩ rfl rfl rfl

theorem skip {Q : Unit → Cursor σ → Prop} (h : Safe limit c) (hn : (n : ℤ) ≤ c.remain)
    (hQ : ∀ c', Safe limit c' → c'.remain = c.remain - n → c'.out = c.out → Q () c') :
    wp (Walk.skip n) Q E c := by
  have hbudget := h.budget
  refine hQ _ ⟨?_, ?_, h.inside⟩ rfl rfl
  · dsimp only
    omega
  · dsimp only
    omega

theorem write (h : Safe limit c) (f : σ → σ) : Safe limit { c with out := f c.out } :=
  ⟨h.budget, h.nonneg, h.inside⟩

end Safe

/-! ## Reading what is ahead -/

/-- These bits lie ahead of the cursor, all within the limit, and the count is right. -/
structure Ahead (b : ℕ → Bool) (limit : ℕ) (bits : List Bool) (c : Cursor σ) : Prop where
  written : Written b c.pos bits
  fits : c.pos + bits.length ≤ limit
  budget : c.remain = limit - c.pos

theorem bitsAt_eq {b : ℕ → Bool} {pos n : ℕ} {x : BitVec n} (hn : n ≤ 32)
    (h : Written b pos (onAir x)) : bitsAt b pos n = x.toNat.toUInt32 := by
  have hpow : 2 ^ n ≤ 2 ^ 32 := Nat.pow_le_pow_right Nat.zero_lt_two hn
  rw [Written, length_onAir] at h
  refine UInt32.toNat_inj.1 ?_
  rw [toNat_shiftIn b (k := pos) rfl (fun _ ↦ rfl) hn, h, number_onAir, Nat.toUInt32,
    UInt32.toNat_ofNat', Nat.mod_eq_of_lt (x.isLt.trans_le hpow)]

namespace Ahead

variable {b limit} {n : ℕ} {x : BitVec n} {bits rest : List Bool}

theorem remain_ge (h : Ahead b limit bits c) : (bits.length : ℤ) ≤ c.remain := by
  have hfits := h.fits
  rw [h.budget]
  omega

/-- **The next field is read**, and the rest is ahead. -/
theorem field {Q : UInt32 → Cursor σ → Prop} (h : Ahead b limit (onAir x ++ rest) c) (hn : n ≤ 32)
    (hQ : ∀ c', Ahead b limit rest c' → c'.out = c.out → Q x.toNat.toUInt32 c') :
    wp (Walk.field b limit n) Q E c := by
  obtain ⟨hx, hrest⟩ := written_append.1 h.written
  have hfits := h.fits
  rw [List.length_append, length_onAir] at hfits
  rw [length_onAir] at hrest
  have hmin : min n (limit - c.pos) = n := by omega
  rw [wp, Walk.field]
  dsimp only
  rw [hmin, if_pos (by omega), bitsAt_eq hn hx]
  refine hQ _ ⟨hrest, ?_, ?_⟩ rfl
  · dsimp only
    omega
  · dsimp only
    rw [h.budget]
    omega

/-- Bits are skipped. -/
theorem skip {Q : Unit → Cursor σ → Prop} (h : Ahead b limit (bits ++ rest) c)
    (hQ : ∀ c', Ahead b limit rest c' → c'.out = c.out → Q () c') :
    wp (Walk.skip bits.length) Q E c := by
  have hfits := h.fits
  rw [List.length_append] at hfits
  refine hQ _ ⟨(written_append.1 h.written).2, ?_, ?_⟩ rfl
  · dsimp only
    omega
  · dsimp only
    rw [h.budget]
    omega

theorem write (h : Ahead b limit bits c) (f : σ → σ) :
    Ahead b limit bits { c with out := f c.out } := ⟨h.written, h.fits, h.budget⟩

/-- A field that is looked at, some bits ahead. -/
theorem peekAt {Q : UInt32 → Cursor σ → Prop} {pre : List Bool}
    (h : Ahead b limit (pre ++ (onAir x ++ rest)) c) (hn : n ≤ 32)
    (hQ : ∀ c', Ahead b limit (pre ++ (onAir x ++ rest)) c' → c'.out = c.out → c'.pos = c.pos →
      Q x.toNat.toUInt32 c') : wp (Walk.peekAt b limit (c.pos + pre.length) n) Q E c := by
  have hx := (written_append.1 (written_append.1 h.written).2).1
  have hfits := h.fits
  rw [List.length_append, List.length_append, length_onAir] at hfits
  have hmin : min n (limit - (c.pos + pre.length)) = n := by omega
  rw [wp, Walk.peekAt]
  dsimp only
  rw [hmin, bitsAt_eq hn hx]
  exact hQ _ ⟨h.written, h.fits, h.budget⟩ rfl rfl

end Ahead

/-! ## Invariants of the record -/

theorem bitsAt_lt (b : ℕ → Bool) (pos : ℕ) {n : ℕ} (hn : n ≤ 32) :
    (bitsAt b pos n).toNat < 2 ^ n := by
  rw [toNat_shiftIn b (k := pos) rfl (fun _ ↦ rfl) hn]
  exact (number_lt _).trans_eq (by rw [length_window])

/-- The walk keeps an invariant of the record, also where it returns, and it goes on with values of
a kind. -/
def Keeps (I : σ → Prop) (m : Walk σ α) (P : α → Prop) : Prop :=
  ∀ c, I c.out → wp m (fun a c' ↦ P a ∧ I c'.out) (fun _ c' ↦ I c'.out) c

namespace Keeps

variable {I : σ → Prop} {P : α → Prop} {m m' : Walk σ α}

theorem pure {a : α} (h : P a) : Keeps I (Pure.pure a : Walk σ α) P := fun _ hc ↦ ⟨h, hc⟩

theorem stop (rc : ℤ) : Keeps I (Walk.stop rc : Walk σ α) P := fun _ hc ↦ hc

theorem cursor : Keeps I Walk.cursor fun _ ↦ True := fun _ hc ↦ ⟨trivial, hc⟩

theorem skip (n : ℕ) : Keeps I (Walk.skip n) fun _ ↦ True := fun _ hc ↦ ⟨trivial, hc⟩

theorem write {f : σ → σ} (h : ∀ out, I out → I (f out)) : Keeps I (Walk.write f) fun _ ↦ True :=
  fun c hc ↦ ⟨trivial, h c.out hc⟩

theorem stopWhen {p : ℤ → Prop} [DecidablePred p] {rc : ℤ} :
    Keeps I (Walk.stopWhen p rc) fun _ ↦ True := by
  intro c hc
  rw [wp_stopWhen]
  split_ifs
  · exact hc
  · exact ⟨trivial, hc⟩

theorem bind {β : Type} {n : Walk σ β} {f : β → Walk σ α} {R : β → Prop} (hn : Keeps I n R)
    (hf : ∀ a, R a → Keeps I (f a) P) : Keeps I (n >>= f) P :=
  fun c hc ↦ wp_seq (hn c hc) fun a c' h ↦ hf a h.1 c' h.2

theorem ite {p : Prop} [Decidable p] (h : p → Keeps I m P) (h' : ¬ p → Keeps I m' P) :
    Keeps I (if p then m else m') P := by
  split_ifs with hp
  · exact h hp
  · exact h' hp

/-- A field is a number of its width. -/
theorem field {n : ℕ} (hn : n ≤ 32) : Keeps I (Walk.field b limit n) fun v ↦ v.toNat < 2 ^ n := by
  intro c hc
  refine ⟨?_, hc⟩
  have hmin : min n (limit - c.pos) ≤ n := Nat.min_le_left _ _
  exact (bitsAt_lt b c.pos (hmin.trans hn)).trans_le (Nat.pow_le_pow_right Nat.zero_lt_two hmin)

theorem peekAt (pos n : ℕ) : Keeps I (Walk.peekAt b limit pos n) fun _ ↦ True :=
  fun _ hc ↦ ⟨trivial, hc⟩

end Keeps

end

end TetraPhy.BitWalk
