import TetraPhy.Lib.FieldReader

/-!
# Optional parts of a PDU

A layer 3 PDU begins with its mandatory fields.  The bit behind them, the o-bit, says whether there
is more.  If there is, the type-2 elements come first, which have their places in the PDU and a
p-bit each; then come the type-3 and type-4 elements, each with an m-bit, an identifier, a length,
and as many bits.  An m-bit 0 closes the PDU.

A type-4 element is a number of parts, and the parts (`readParts`).
-/

namespace TetraPhy.OptionalParts

open AirOrder FieldReader

variable {α : Type}

/-! ## Type-3 and type-4 elements -/

/-- An element with an identifier and a length. -/
structure Element where
  id : BitVec 4
  content : List Bool
deriving DecidableEq, Repr

/-- An element behind its m-bit. -/
def readElement (bits : List Bool) : Option (Element × List Bool) := do
  let (id, bits) ← readWord 4 bits
  let (n, bits) ← readField 11 bits
  if n ≤ bits.length then some (⟨id, bits.take n⟩, bits.drop n) else none

/-- The elements up to the m-bit 0, of which there are fewer than `fuel`. -/
def readElements : ℕ → List Bool → Option (List Element × List Bool)
  | 0, _ => none
  | fuel + 1, bits => do
    let (m, bits) ← readFlag bits
    if m then
      let (e, bits) ← readElement bits
      let (es, bits) ← readElements fuel bits
      some (e :: es, bits)
    else some ([], bits)

theorem readElement_append (id : BitVec 4) {n : BitVec 11} {content : List Bool}
    (h : content.length = n.toNat) (rest : List Bool) :
    readElement (onAir id ++ (onAir n ++ (content ++ rest))) = some (⟨id, content⟩, rest) := by
  have hfit : n.toNat ≤ (content ++ rest).length := by
    rw [List.length_append, h]
    exact Nat.le_add_right _ _
  simp only [readElement, readWord_append, readField_append (length_onAir n), number_onAir,
    Option.bind_eq_bind, Option.bind_some]
  rw [if_pos hfit, List.take_left' h, List.drop_left' h]

/-- An m-bit 0 closes the elements. -/
theorem readElements_false (fuel : ℕ) (rest : List Bool) :
    readElements (fuel + 1) (false :: rest) = some ([], rest) := rfl

theorem readElements_true {fuel : ℕ} {bits bits' rest : List Bool} {e : Element}
    {es : List Element} (he : readElement bits = some (e, bits'))
    (hes : readElements fuel bits' = some (es, rest)) :
    readElements (fuel + 1) (true :: bits) = some (e :: es, rest) := by
  rw [readElements, readFlag_cons, Option.bind_eq_bind, Option.bind_some]
  dsimp only
  rw [if_pos rfl, he, Option.bind_eq_bind, Option.bind_some]
  dsimp only
  rw [hes]
  rfl

/-! ## Behind the o-bit -/

/-- What is behind the o-bit: type-2 elements, which are `absent` where the o-bit is 0, and the
elements behind them. -/
def readOptionals (absent : α) (type2 : List Bool → Option (α × List Bool)) (bits : List Bool) :
    Option ((α × List Element) × List Bool) := do
  let (o, bits) ← readFlag bits
  if o then
    let (x, bits) ← type2 bits
    let (es, bits) ← readElements (bits.length + 1) bits
    some ((x, es), bits)
  else some ((absent, []), bits)

section

variable {absent : α} {type2 : List Bool → Option (α × List Bool)}

/-- An o-bit 0 closes the PDU. -/
theorem readOptionals_false (rest : List Bool) :
    readOptionals absent type2 (false :: rest) = some ((absent, []), rest) := rfl

theorem readOptionals_true {bits bits' rest : List Bool} {x : α} {es : List Element}
    (hx : type2 bits = some (x, bits'))
    (hes : readElements (bits'.length + 1) bits' = some (es, rest)) :
    readOptionals absent type2 (true :: bits) = some ((x, es), rest) := by
  rw [readOptionals, readFlag_cons, Option.bind_eq_bind, Option.bind_some]
  dsimp only
  rw [if_pos rfl, hx, Option.bind_eq_bind, Option.bind_some]
  dsimp only
  rw [hes]
  rfl

end

/-! ## The parts of a type-4 element -/

/-- Parts that follow one another. -/
def readParts (read : List Bool → Option (α × List Bool)) :
    ℕ → List Bool → Option (List α × List Bool)
  | 0, bits => some ([], bits)
  | n + 1, bits => do
    let (x, bits) ← read bits
    let (xs, bits) ← readParts read n bits
    some (x :: xs, bits)

variable {read : List Bool → Option (α × List Bool)}

theorem readParts_succ {n : ℕ} {bits bits' : List Bool} {x : α}
    (h : read bits = some (x, bits')) :
    readParts read (n + 1) bits = (readParts read n bits').map (Prod.map (x :: ·) id) := by
  rw [readParts, h, Option.bind_eq_bind, Option.bind_some]
  dsimp only
  cases readParts read n bits' with
  | none => rfl
  | some r => rfl

/-- Parts that were written are read. -/
theorem readParts_flatMap {β : Type} {write : β → List Bool} {value : β → α}
    (items : List β)
    (h : ∀ y ∈ items, ∀ rest, read (write y ++ rest) = some (value y, rest)) (rest : List Bool) :
    readParts read items.length (items.flatMap write ++ rest) = some (items.map value, rest) := by
  induction items with
  | nil => rfl
  | cons y ys ih =>
      rw [List.flatMap_cons, List.append_assoc, List.length_cons,
        readParts_succ (h y List.mem_cons_self _),
        ih fun y' hy' ↦ h y' (List.mem_cons_of_mem y hy')]
      rfl

/-- The first of the parts that were read. -/
theorem of_readParts_succ {n : ℕ} {bits rest : List Bool} {xs : List α}
    (h : readParts read (n + 1) bits = some (xs, rest)) :
    ∃ x xs' bits', read bits = some (x, bits') ∧ readParts read n bits' = some (xs', rest) ∧
      xs = x :: xs' := by
  rw [readParts] at h
  obtain ⟨⟨x, bits'⟩, hx, h⟩ := Option.bind_eq_some_iff.1 h
  obtain ⟨⟨xs', rest'⟩, hxs, h⟩ := Option.bind_eq_some_iff.1 h
  cases h
  exact ⟨x, xs', bits', hx, hxs, rfl⟩

end TetraPhy.OptionalParts
