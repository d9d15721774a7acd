import Mathlib.Data.Finset.Card
import Mathlib.Data.Fintype.Basic
import Mathlib.Logic.Function.Basic

/-!
# Ledgers of a slot store

A slot store is a family `occ : ι → Option α` of slots, each empty or holding one
entry.  Entries are put into empty slots and taken out of occupied ones; the store
itself keeps no history.  A *ledger* is the book an observer of such a
store keeps:

| Field      | Records                                                    |
|------------|------------------------------------------------------------|
| `accepted` | every entry put so far, in order                           |
| `taken`    | the tickets of the entries taken so far, in order          |
| `ticket`   | for each slot, the ticket of the entry put there last      |

The *ticket* of an entry is its position in `accepted`.  `Sound` says that ledger and
store agree: nothing was taken twice, and what was not taken is in exactly one slot,
unchanged.  `InOrder` says that entries of one class sit in the slots in the order
they were put, which is what makes a store that takes by slot take them in that
order (`OrderKept`).
-/

namespace TetraPhy.Ledger

universe u v w

variable {ι : Type u} {α : Type v} {κ : Type w}

/-- What an observer of a slot store has written down. -/
structure Book (ι : Type u) (α : Type v) where
  accepted : List α
  taken : List ℕ
  ticket : ι → ℕ

/-- The ledger of a store nothing has happened to. -/
def Book.init : Book ι α := { accepted := [], taken := [], ticket := fun _ ↦ 0 }

/-- An entry is put into slot `i`: it gets the next ticket. -/
def Book.put [DecidableEq ι] (L : Book ι α) (i : ι) (a : α) : Book ι α :=
  { L with accepted := L.accepted ++ [a]
           ticket := Function.update L.ticket i L.accepted.length }

/-- The entry of slot `i` is taken out. -/
def Book.take (L : Book ι α) (i : ι) : Book ι α := { L with taken := L.taken ++ [L.ticket i] }

/-- A ticket was handed out and its entry is still in the store. -/
def Book.Waiting (L : Book ι α) (t : ℕ) : Prop := t < L.accepted.length ∧ t ∉ L.taken

/-! ## Agreement of a ledger with the store -/

/-- The ledger tells the truth about the store. -/
structure Sound (occ : ι → Option α) (L : Book ι α) : Prop where
  /-- An occupied slot holds the entry its ticket stands for. -/
  held : ∀ i a, occ i = some a → L.accepted[L.ticket i]? = some a
  /-- No two occupied slots hold the same ticket. -/
  apart : ∀ i j, (occ i).isSome → (occ j).isSome → L.ticket i = L.ticket j → i = j
  /-- An occupied slot holds a ticket that was not taken. -/
  untaken : ∀ i, (occ i).isSome → L.ticket i ∉ L.taken
  /-- What waits is in some slot. -/
  kept : ∀ t, L.Waiting t → ∃ i, (occ i).isSome ∧ L.ticket i = t
  /-- Only tickets that were handed out are taken. -/
  issued : ∀ t ∈ L.taken, t < L.accepted.length
  /-- Nothing is taken twice. -/
  once : L.taken.Nodup

theorem sound_init : Sound (fun _ : ι ↦ (none : Option α)) Book.init where
  held := by simp
  apart := by simp
  untaken := by simp
  kept := by
    rintro t ⟨ht, -⟩
    simp [Book.init] at ht
  issued := by simp [Book.init]
  once := List.nodup_nil

section Operations

variable {occ : ι → Option α} {L : Book ι α}

theorem Sound.ticket_lt (h : Sound occ L) {i : ι} (hi : (occ i).isSome) :
    L.ticket i < L.accepted.length := by
  obtain ⟨a, ha⟩ := Option.isSome_iff_exists.1 hi
  exact (List.getElem?_eq_some_iff.1 (h.held i a ha)).1

/-- **What waits is in exactly one slot, as it was put.** -/
theorem Sound.existsUnique (h : Sound occ L) {t : ℕ} {a : α} (ht : L.accepted[t]? = some a)
    (hw : t ∉ L.taken) : ∃! i, L.ticket i = t ∧ occ i = some a := by
  obtain ⟨i, hi, rfl⟩ := h.kept t ⟨(List.getElem?_eq_some_iff.1 ht).1, hw⟩
  obtain ⟨b, hb⟩ := Option.isSome_iff_exists.1 hi
  have hab : some b = some a := (h.held i b hb).symm.trans ht
  refine ⟨i, ⟨rfl, hb.trans hab⟩, ?_⟩
  rintro j ⟨hj, hja⟩
  exact h.apart j i (by simp [hja]) hi hj

variable [DecidableEq ι]

theorem Sound.put (h : Sound occ L) {i : ι} (hi : occ i = none) (a : α) :
    Sound (Function.update occ i (some a)) (L.put i a) := by
  have hfresh : ∀ j, (occ j).isSome → L.ticket j ≠ L.accepted.length :=
    fun j hj ↦ (h.ticket_lt hj).ne
  refine ⟨?_, ?_, ?_, ?_, ?_, h.once⟩
  · intro j b hj
    rcases eq_or_ne j i with rfl | hji
    · simp only [Function.update_self] at hj
      simp [Book.put, ← hj]
    · rw [Function.update_of_ne hji] at hj
      simp only [Book.put, Function.update_of_ne hji]
      rw [List.getElem?_append_left (h.ticket_lt (by simp [hj]))]
      exact h.held j b hj
  · intro j k hj hk he
    rcases eq_or_ne j i with rfl | hji <;> rcases eq_or_ne k j with rfl | hkj
    · rfl
    · simp only [Book.put, Function.update_self, Function.update_of_ne hkj] at he hk
      exact absurd he.symm (hfresh k hk)
    · rfl
    · rcases eq_or_ne k i with rfl | hki
      · simp only [Book.put, Function.update_self, Function.update_of_ne hji] at he hj
        exact absurd he (hfresh j hj)
      · simp only [Book.put, Function.update_of_ne hji, Function.update_of_ne hki] at he hj hk
        exact h.apart j k hj hk he
  · intro j hj
    rcases eq_or_ne j i with rfl | hji
    · simp only [Book.put, Function.update_self]
      exact fun hm ↦ (h.issued _ hm).false
    · rw [Function.update_of_ne hji] at hj
      simp only [Book.put, Function.update_of_ne hji]
      exact h.untaken j hj
  · rintro t ⟨ht, hw⟩
    simp only [Book.put, List.length_append, List.length_singleton] at ht hw
    rcases Nat.lt_succ_iff_lt_or_eq.1 ht with ht | rfl
    · obtain ⟨j, hj, rfl⟩ := h.kept t ⟨ht, hw⟩
      have hji : j ≠ i := by
        rintro rfl
        simp [hi] at hj
      exact ⟨j, by rwa [Function.update_of_ne hji], Function.update_of_ne hji _ _⟩
    · exact ⟨i, by simp, by simp [Book.put]⟩
  · intro t ht
    exact (h.issued t ht).trans (by simp [Book.put])

theorem Sound.take (h : Sound occ L) {i : ι} (hi : (occ i).isSome) :
    Sound (Function.update occ i none) (L.take i) := by
  have hocc : ∀ j, ((Function.update occ i none) j).isSome → j ≠ i ∧ (occ j).isSome := by
    intro j hj
    rcases eq_or_ne j i with rfl | hji
    · simp at hj
    · exact ⟨hji, by rwa [Function.update_of_ne hji] at hj⟩
  refine ⟨?_, ?_, ?_, ?_, ?_, ?_⟩
  · intro j b hj
    have hji := (hocc j (by simp [hj])).1
    rw [Function.update_of_ne hji] at hj
    exact h.held j b hj
  · intro j k hj hk he
    exact h.apart j k (hocc j hj).2 (hocc k hk).2 he
  · intro j hj hm
    obtain ⟨hji, hj⟩ := hocc j hj
    rcases List.mem_append.1 hm with hm | hm
    · exact h.untaken j hj hm
    · exact hji (h.apart j i hj hi (List.mem_singleton.1 hm))
  · rintro t ⟨ht, hw⟩
    simp only [Book.take, List.mem_append, List.mem_singleton, not_or] at ht hw
    obtain ⟨j, hj, rfl⟩ := h.kept t ⟨ht, hw.1⟩
    have hji : j ≠ i := fun hc ↦ hw.2 (congrArg L.ticket hc)
    exact ⟨j, by rwa [Function.update_of_ne hji], rfl⟩
  · intro t ht
    rcases List.mem_append.1 ht with ht | ht
    · exact h.issued t ht
    · obtain rfl := List.mem_singleton.1 ht
      exact h.ticket_lt hi
  · refine List.Nodup.append h.once (List.nodup_singleton _) ?_
    exact List.disjoint_singleton.2 (h.untaken i hi)

end Operations

/-! ## Counting -/

/-- The number of occupied slots. -/
def occupied [Fintype ι] (occ : ι → Option α) : ℕ :=
  (Finset.univ.filter fun i ↦ (occ i).isSome).card

/-- What is in the store and what was taken is what was put. -/
def Balanced [Fintype ι] (occ : ι → Option α) (L : Book ι α) : Prop :=
  occupied occ + L.taken.length = L.accepted.length

section Counting

variable [Fintype ι] [DecidableEq ι] {occ : ι → Option α} {L : Book ι α}

theorem occupied_put {i : ι} (hi : occ i = none) (a : α) :
    occupied (Function.update occ i (some a)) = occupied occ + 1 := by
  have hins : (Finset.univ.filter fun j ↦ ((Function.update occ i (some a)) j).isSome) =
      insert i (Finset.univ.filter fun j ↦ (occ j).isSome) := by
    ext j
    rcases eq_or_ne j i with rfl | hji
    · simp
    · simp [hji]
  rw [occupied, hins, Finset.card_insert_of_notMem (by simp [hi]), occupied]

theorem occupied_take {i : ι} (hi : (occ i).isSome) :
    occupied (Function.update occ i none) + 1 = occupied occ := by
  obtain ⟨a, ha⟩ := Option.isSome_iff_exists.1 hi
  have hfree : Function.update occ i none i = none := by simp
  rw [← occupied_put hfree a, Function.update_idem, ← ha, Function.update_eq_self]

omit [DecidableEq ι] in
theorem balanced_init : Balanced (fun _ : ι ↦ (none : Option α)) Book.init := by
  simp [Balanced, occupied, Book.init]

theorem Balanced.put (h : Balanced occ L) {i : ι} (hi : occ i = none) (a : α) :
    Balanced (Function.update occ i (some a)) (L.put i a) := by
  have hput := occupied_put hi a
  simp only [Balanced, Book.put, List.length_append, List.length_singleton] at h ⊢
  omega

theorem Balanced.take (h : Balanced occ L) {i : ι} (hi : (occ i).isSome) :
    Balanced (Function.update occ i none) (L.take i) := by
  have htake := occupied_take hi
  simp only [Balanced, Book.take, List.length_append, List.length_singleton] at h ⊢
  omega

end Counting

/-! ## Order

`cls` sorts the entries into classes within which the order of the entries matters. -/

section Order

variable [LinearOrder ι] (cls : α → κ)

/-- Entries of one class sit in the slots in the order in which they were put. -/
def InOrder (occ : ι → Option α) (L : Book ι α) : Prop :=
  ∀ i j a b, occ i = some a → occ j = some b → cls a = cls b →
    L.ticket i < L.ticket j → i < j

/-- Entries of one class were taken in the order in which they were put: whatever was
taken, all earlier entries of its class had been taken before it. -/
def OrderKept (L : Book ι α) : Prop :=
  ∀ t u a b, t < u → L.accepted[t]? = some a → L.accepted[u]? = some b → cls a = cls b →
    u ∈ L.taken → L.taken.idxOf t < L.taken.idxOf u

/-- Slots in order, and everything taken in order. -/
structure Ordered (occ : ι → Option α) (L : Book ι α) : Prop where
  slots : InOrder cls occ L
  kept : OrderKept cls L

variable {cls} {occ : ι → Option α} {L : Book ι α}

theorem inOrder_init : InOrder cls (fun _ : ι ↦ (none : Option α)) Book.init := by
  intro i j a b hi
  simp at hi

omit [LinearOrder ι] in
theorem orderKept_init : OrderKept cls (Book.init : Book ι α) := by
  intro t u a b _ ha
  simp [Book.init] at ha

/-- **Putting keeps the slots in order exactly when nothing of the entry's class sits
above its slot.** -/
theorem inOrder_put_iff (hs : Sound occ L) (h : InOrder cls occ L) {i : ι} (hi : occ i = none)
    (a : α) : InOrder cls (Function.update occ i (some a)) (L.put i a) ↔
      ∀ j b, occ j = some b → cls b = cls a → j < i := by
  have hne : ∀ {j b}, occ j = some b → j ≠ i := by
    rintro j b hj rfl
    simp [hi] at hj
  constructor
  · intro h' j b hj hc
    refine h' j i b a ?_ ?_ hc ?_
    · rwa [Function.update_of_ne (hne hj)]
    · rw [Function.update_self]
    · simp only [Book.put, Function.update_self, Function.update_of_ne (hne hj)]
      exact hs.ticket_lt (by simp [hj])
  · intro hbelow j k b c hj hk hc hlt
    rcases eq_or_ne j i with hji | hji <;> rcases eq_or_ne k i with hki | hki
    · subst hji hki
      exact absurd hlt (lt_irrefl _)
    · subst hji
      rw [Function.update_of_ne hki] at hk
      simp only [Book.put, Function.update_self, Function.update_of_ne hki] at hlt
      exact absurd hlt (hs.ticket_lt (by simp [hk])).not_gt
    · subst hki
      rw [Function.update_of_ne hji] at hj
      rw [Function.update_self, Option.some.injEq] at hk
      exact hbelow j b hj (hc.trans (congrArg cls hk.symm))
    · rw [Function.update_of_ne hji] at hj
      rw [Function.update_of_ne hki] at hk
      simp only [Book.put, Function.update_of_ne hji, Function.update_of_ne hki] at hlt
      exact h j k b c hj hk hc hlt

theorem InOrder.take (h : InOrder cls occ L) (i : ι) :
    InOrder cls (Function.update occ i none) (L.take i) := by
  have hof : ∀ {j b}, (Function.update occ i none) j = some b → occ j = some b := by
    intro j b hj
    rcases eq_or_ne j i with rfl | hji
    · simp at hj
    · rwa [Function.update_of_ne hji] at hj
  intro j k b c hj hk hc hlt
  exact h j k b c (hof hj) (hof hk) hc hlt

theorem OrderKept.put (hs : Sound occ L) (h : OrderKept cls L) (i : ι) (a : α) :
    OrderKept cls (L.put i a) := by
  intro t u b c htu hb hc hcls hu
  have hul : u < L.accepted.length := hs.issued u hu
  simp only [Book.put] at hb hc hu ⊢
  rw [List.getElem?_append_left (htu.trans hul)] at hb
  rw [List.getElem?_append_left hul] at hc
  exact h t u b c htu hb hc hcls hu

/-- **Taking the lowest slot of a class whose slots are in order takes its oldest
entry.** -/
theorem OrderKept.take (hs : Sound occ L) (ho : InOrder cls occ L) (h : OrderKept cls L) {i : ι}
    {a : α} (hi : occ i = some a) (hlow : ∀ j b, occ j = some b → cls b = cls a → i ≤ j) :
    OrderKept cls (L.take i) := by
  intro t u b c htu hb hc hcls hu
  simp only [Book.take] at hb hc hu ⊢
  have hnew : L.ticket i ∉ L.taken := hs.untaken i (by simp [hi])
  by_cases hul : u ∈ L.taken
  · have hlt := h t u b c htu hb hc hcls hul
    have htl : t ∈ L.taken := List.idxOf_lt_length_iff.1
      (hlt.trans (List.idxOf_lt_length_iff.2 hul))
    rwa [List.idxOf_append_of_mem htl, List.idxOf_append_of_mem hul]
  · -- `u` is the entry taken just now
    have hui : u = L.ticket i := by simpa [hul] using hu
    subst hui
    have hca : c = a := Option.some.inj (hc.symm.trans (hs.held i a hi))
    subst hca
    have htl : t ∈ L.taken := by
      by_contra hw
      obtain ⟨j, ⟨rfl, hj⟩, -⟩ := hs.existsUnique hb hw
      have hji : j < i := ho j i b c hj hi hcls htu
      exact absurd (hlow j b hj hcls) (not_le.2 hji)
    rw [List.idxOf_append_of_mem htl, List.idxOf_append_of_notMem hnew]
    have := List.idxOf_lt_length_iff.2 htl
    omega

end Order

/-! ## Clocked stores

A clocked store can take one entry and put another in the same cycle.  It takes first:
the slot it puts into was empty before. -/

section Cycle

variable [DecidableEq ι]

/-- The slots after a cycle that takes from slot `out` and puts `into`. -/
def cycle (occ : ι → Option α) (out : Option ι) (into : Option (ι × α)) : ι → Option α :=
  let occ' := match out with
    | some i => Function.update occ i none
    | none => occ
  match into with
  | some (j, a) => Function.update occ' j (some a)
  | none => occ'

/-- The book after such a cycle. -/
def Book.cycle (L : Book ι α) (out : Option ι) (into : Option (ι × α)) : Book ι α :=
  let L' := match out with
    | some i => L.take i
    | none => L
  match into with
  | some (j, a) => L'.put j a
  | none => L'

/-- What is left after the taking half. -/
theorem taken_eq_some_iff {occ : ι → Option α} {i j : ι} {a : α} :
    (Function.update occ i none) j = some a ↔ occ j = some a ∧ i ≠ j := by
  rcases eq_or_ne i j with rfl | hij
  · simp
  · simp [Function.update_of_ne hij.symm, hij]

section Rules

variable {occ : ι → Option α} {L : Book ι α} {out : Option ι} {into : Option (ι × α)}

/-- A cycle takes from an occupied slot and puts into one that was empty. -/
structure Fits (occ : ι → Option α) (out : Option ι) (into : Option (ι × α)) : Prop where
  out : ∀ i, out = some i → (occ i).isSome
  into : ∀ j a, into = some (j, a) → occ j = none

theorem Fits.taken {i : ι} (h : Fits occ (some i) into) :
    Fits (Function.update occ i none) none into := by
  refine ⟨by simp, fun j a hj ↦ ?_⟩
  rcases eq_or_ne j i with rfl | hji
  · exact Function.update_self ..
  · rw [Function.update_of_ne hji]
    exact h.into j a hj

/-- **A cycle keeps ledger and store in agreement.** -/
theorem Sound.cycle (h : Sound occ L) (hf : Fits occ out into) :
    Sound (cycle occ out into) (L.cycle out into) := by
  have hput : ∀ {occ' : ι → Option α} {L' : Book ι α}, Sound occ' L' → Fits occ' none into →
      Sound (Ledger.cycle occ' none into) (L'.cycle none into) := by
    intro occ' L' h' hf'
    cases into with
    | none => exact h'
    | some ja => exact h'.put (hf'.into _ _ rfl) _
  cases out with
  | none => exact hput h hf
  | some i => exact hput (h.take (hf.out i rfl)) hf.taken

theorem Balanced.cycle [Fintype ι] (h : Balanced occ L) (hf : Fits occ out into) :
    Balanced (cycle occ out into) (L.cycle out into) := by
  have hput : ∀ {occ' : ι → Option α} {L' : Book ι α}, Balanced occ' L' → Fits occ' none into →
      Balanced (Ledger.cycle occ' none into) (L'.cycle none into) := by
    intro occ' L' h' hf'
    cases into with
    | none => exact h'
    | some ja => exact h'.put (hf'.into _ _ rfl) _
  cases out with
  | none => exact hput h hf
  | some i => exact hput (h.take (hf.out i rfl)) hf.taken

end Rules

end Cycle

section OrderedCycle

variable [LinearOrder ι] {cls : α → κ} {occ : ι → Option α} {L : Book ι α} {out : Option ι}
  {into : Option (ι × α)}

/-- **A cycle that takes the lowest slot of a class keeps the order exactly when what it
puts goes above everything of its class that stays.** -/
theorem Ordered.cycle_iff (hs : Sound occ L) (h : Ordered cls occ L) (hf : Fits occ out into)
    (hlow : ∀ i a, out = some i → occ i = some a →
      ∀ j b, occ j = some b → cls b = cls a → i ≤ j) :
    Ordered cls (cycle occ out into) (L.cycle out into) ↔
      ∀ j a, into = some (j, a) → ∀ i b, occ i = some b → out ≠ some i → cls b = cls a →
        i < j := by
  have hput : ∀ {occ' : ι → Option α} {L' : Book ι α}, Sound occ' L' → Ordered cls occ' L' →
      Fits occ' none into → (Ordered cls (cycle occ' none into) (L'.cycle none into) ↔
        ∀ j a, into = some (j, a) → ∀ i b, occ' i = some b → cls b = cls a → i < j) := by
    intro occ' L' hs' h' hf'
    cases into with
    | none => simpa [cycle, Book.cycle] using h'
    | some ja =>
        have hiff := @inOrder_put_iff _ _ _ _ cls _ _ hs' h'.slots _ (hf'.into _ _ rfl) ja.2
        constructor
        · rintro ⟨ho, -⟩ j a ⟨⟩
          exact hiff.1 ho
        · intro hb
          exact ⟨hiff.2 (hb _ _ rfl), h'.kept.put hs' _ _⟩
  cases out with
  | none => simpa using hput hs h hf
  | some i =>
      obtain ⟨a, ha⟩ := Option.isSome_iff_exists.1 (hf.out i rfl)
      have h' : Ordered cls (Function.update occ i none) (L.take i) :=
        ⟨h.slots.take i, h.kept.take hs h.slots ha (hlow i a rfl ha)⟩
      refine (hput (hs.take (hf.out i rfl)) h' hf.taken).trans ?_
      simp only [taken_eq_some_iff, ne_eq, Option.some.injEq, and_imp]

end OrderedCycle

end TetraPhy.Ledger

/-!
# Keyed slot stores

A slot store whose entries carry a key.  Two slots are *twins* if their entries have the same key,
and a store is `Distinct` if no slot has a twin.  Whoever looks a key up before an entry is put adds
no twins, whatever the store held.
-/

namespace TetraPhy.Keyed

universe u v w

variable {ι : Type u} {α : Type v} {κ : Type w} (key : α → κ)

/-- Two slots hold entries of one key. -/
def Twins (occ : ι → Option α) (i j : ι) : Prop :=
  i ≠ j ∧ ∃ a b, occ i = some a ∧ occ j = some b ∧ key a = key b

/-- No key is in two slots. -/
def Distinct (occ : ι → Option α) : Prop := ∀ i j, ¬Twins key occ i j

variable {key} {occ : ι → Option α} [DecidableEq ι]

/-- **Putting an entry of a key that no slot holds makes no twins.** -/
theorem Twins.of_put {i : ι} {a : α} (hfresh : ∀ j b, occ j = some b → key b ≠ key a) {j k : ι}
    (h : Twins key (Function.update occ i (some a)) j k) : Twins key occ j k := by
  obtain ⟨hjk, b, c, hb, hc, hkey⟩ := h
  rcases eq_or_ne j i with rfl | hj <;> rcases eq_or_ne k j with rfl | hk
  · exact absurd rfl hjk
  · rw [Function.update_self, Option.some.injEq] at hb
    rw [Function.update_of_ne hk] at hc
    exact absurd (hkey.symm.trans (congrArg key hb.symm)) (hfresh k c hc)
  · exact absurd rfl hjk
  · rw [Function.update_of_ne hj] at hb
    rcases eq_or_ne k i with rfl | hki
    · rw [Function.update_self, Option.some.injEq] at hc
      exact absurd (hkey.trans (congrArg key hc.symm)) (hfresh j b hb)
    · rw [Function.update_of_ne hki] at hc
      exact ⟨hjk, b, c, hb, hc, hkey⟩

theorem Distinct.put {i : ι} {a : α} (h : Distinct key occ)
    (hfresh : ∀ j b, occ j = some b → key b ≠ key a) :
    Distinct key (Function.update occ i (some a)) :=
  fun j k ht ↦ h j k (ht.of_put hfresh)

end TetraPhy.Keyed
