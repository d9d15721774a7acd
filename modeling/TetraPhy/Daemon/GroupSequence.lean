import Mathlib.Algebra.Ring.Nat
import TetraPhy.Lib.Probing

/-!
# Sequence numbers of group acknowledgements

`grp_nsnr_step` of `tetra_attach_daemon.c` keeps the N(S) and N(R) of the next acknowledgement of
each terminal in a table of 64 words with open addressing, from which nothing is ever removed.

| the search ends at | what the call returns | what it leaves      |
|--------------------|-----------------------|---------------------|
| a free word        | NS = 0, NR = 1        | NS = 0, NR = 1      |
| the word of an SSI | NS and NR of the word | the word, flipped   |
| no word            | NS = 1, NR = 0        | nothing             |

The first acknowledgement leaves in the table what it has sent, not what comes next, so that the
second one repeats it.
-/

namespace TetraPhy.Daemon

open Probing

/-- An SSI has 24 bits. -/
@[ext] structure Ssi where
  val : UInt32
  lt : val < 0x1000000
deriving DecidableEq

/-- `grp_nsnr_table`. -/
abbrev NsnrTable := Fin 64 → UInt32

/-- `grp_nsnr_hash`. -/
def grpNsnrHash (ssi : UInt32) : UInt32 := ((ssi * 0x9E3779B1) >>> 24) &&& 63

/-- The slot of a probe. -/
def nsnrSlot (h : UInt32) (probe : ℕ) : Fin 64 := Fin.ofNat 64 ((h + probe.toUInt32) &&& 63).toNat

/-- The loop over the probes: the table, N(S) and N(R). -/
def grpNsnrProbe (table : NsnrTable) (ssi h : UInt32) : ℕ → ℕ → NsnrTable × UInt32 × UInt32
  | 0, _ => (table, 1, 0)
  | rounds + 1, probe =>
    let slot := nsnrSlot h probe
    let v := table slot
    if v = 0 then (Function.update table slot ((ssi <<< 8) ||| 1), 0, 1)
    else if v >>> 8 = ssi then
      let ns := (v >>> 1) &&& 1
      let nr := (v >>> 0) &&& 1
      (Function.update table slot
        ((ssi <<< 8) ||| (((~~~ns) &&& 1) <<< 1) ||| (((~~~nr) &&& 1) <<< 0)), ns, nr)
    else grpNsnrProbe table ssi h rounds (probe + 1)

/-- `grp_nsnr_step`. -/
def grpNsnrStep (table : NsnrTable) (ssi : UInt32) : NsnrTable × UInt32 × UInt32 :=
  grpNsnrProbe table ssi (grpNsnrHash ssi) 64 0

/-- The table after calls. -/
def nsnrRun (calls : List Ssi) : NsnrTable :=
  calls.foldl (fun table ssi ↦ (grpNsnrStep table ssi.val).1) fun _ ↦ 0

/-- The N(S) of a call after others. -/
def nsAfter (calls : List Ssi) (ssi : Ssi) : UInt32 := (grpNsnrStep (nsnrRun calls) ssi.val).2.1

/-- **The N(S) of each terminal are 0, 1, 0, 1, …** -/
def NsAlternates (calls : List Ssi) : Prop :=
  ∀ before ssi after, calls = before ++ ssi :: after →
    nsAfter before ssi = (before.count ssi % 2).toUInt32

/-! ## Words -/

/-- The word of a slot. -/
def nsnrWord (ssi : Ssi) (ns : Bool) : UInt32 := (ssi.val <<< 8) ||| (if ns then 2 else 1)

theorem shiftRight_lt (v : UInt32) : v >>> 8 < 0x1000000 := by
  have hv := v.toNat_lt
  rw [UInt32.lt_iff_toNat_lt, UInt32.toNat_shiftRight]
  change v.toNat >>> 8 < 2 ^ 24
  rw [Nat.shiftRight_eq_div_pow]
  omega

/-- Whose a word is. -/
def wordSsi (v : UInt32) : Option Ssi :=
  if v = 0 then none else some ⟨v >>> 8, shiftRight_lt v⟩

theorem toNat_nsnrWord (ssi : Ssi) (ns : Bool) :
    (nsnrWord ssi ns).toNat = ssi.val.toNat * 2 ^ 8 + (if ns then 2 else 1) := by
  have hssi : ssi.val.toNat < 2 ^ 24 := UInt32.lt_iff_toNat_lt.1 ssi.lt
  have hshift : (ssi.val <<< 8).toNat = 2 ^ 8 * ssi.val.toNat := by
    rw [UInt32.toNat_shiftLeft, Nat.shiftLeft_eq]
    change ssi.val.toNat * 2 ^ 8 % 2 ^ 32 = _
    omega
  rw [nsnrWord, UInt32.toNat_or, hshift]
  cases ns with
  | true =>
      rw [if_pos rfl, if_pos rfl]
      change 2 ^ 8 * ssi.val.toNat ||| 2 = _
      rw [← Nat.two_pow_add_eq_or_of_lt (by decide)]
      omega
  | false =>
      rw [if_neg Bool.false_ne_true, if_neg Bool.false_ne_true]
      change 2 ^ 8 * ssi.val.toNat ||| 1 = _
      rw [← Nat.two_pow_add_eq_or_of_lt (by decide)]
      omega

theorem nsnrWord_ne_zero (ssi : Ssi) (ns : Bool) : nsnrWord ssi ns ≠ 0 := by
  intro h
  have hword := toNat_nsnrWord ssi ns
  rw [h] at hword
  cases ns with
  | true => exact absurd hword (by rw [if_pos rfl]; exact (Nat.succ_ne_zero _).symm)
  | false =>
      exact absurd hword (by rw [if_neg Bool.false_ne_true]; exact (Nat.succ_ne_zero _).symm)

theorem nsnrWord_shiftRight (ssi : Ssi) (ns : Bool) : nsnrWord ssi ns >>> 8 = ssi.val := by
  refine UInt32.toNat_inj.1 ?_
  rw [UInt32.toNat_shiftRight, toNat_nsnrWord]
  change (ssi.val.toNat * 2 ^ 8 + _) >>> 8 = _
  rw [Nat.shiftRight_eq_div_pow]
  cases ns <;> simp only [Bool.false_eq_true, if_true, if_false] <;> omega

theorem nsnrWord_ns (ssi : Ssi) (ns : Bool) :
    (nsnrWord ssi ns >>> 1) &&& 1 = if ns then 1 else 0 := by
  refine UInt32.toNat_inj.1 ?_
  rw [UInt32.toNat_and, UInt32.toNat_shiftRight, toNat_nsnrWord]
  change (ssi.val.toNat * 2 ^ 8 + _) >>> 1 &&& 1 = _
  rw [Nat.shiftRight_eq_div_pow, Nat.and_one_is_mod]
  cases ns with
  | true =>
      rw [if_pos rfl, if_pos rfl]
      change _ = 1
      omega
  | false =>
      rw [if_neg Bool.false_ne_true, if_neg Bool.false_ne_true]
      change _ = 0
      omega

theorem nsnrWord_nr (ssi : Ssi) (ns : Bool) :
    (nsnrWord ssi ns >>> 0) &&& 1 = if ns then 0 else 1 := by
  refine UInt32.toNat_inj.1 ?_
  rw [UInt32.toNat_and, UInt32.toNat_shiftRight, toNat_nsnrWord]
  change (ssi.val.toNat * 2 ^ 8 + _) >>> 0 &&& 1 = _
  rw [Nat.shiftRight_zero, Nat.and_one_is_mod]
  cases ns with
  | true =>
      rw [if_pos rfl, if_pos rfl]
      change _ = 0
      omega
  | false =>
      rw [if_neg Bool.false_ne_true, if_neg Bool.false_ne_true]
      change _ = 1
      omega

theorem wordSsi_nsnrWord (ssi : Ssi) (ns : Bool) : wordSsi (nsnrWord ssi ns) = some ssi := by
  rw [wordSsi, if_neg (nsnrWord_ne_zero ssi ns)]
  exact congrArg some (Ssi.ext (nsnrWord_shiftRight ssi ns))

theorem wordSsi_eq_none {v : UInt32} : wordSsi v = none ↔ v = 0 := by
  rw [wordSsi]
  split_ifs with hv <;> simp [hv]

theorem wordSsi_eq_some {v : UInt32} {ssi : Ssi} :
    wordSsi v = some ssi ↔ v ≠ 0 ∧ v >>> 8 = ssi.val := by
  rw [wordSsi]
  split_ifs with hv
  · simp [hv]
  · simp [hv, Ssi.ext_iff]

/-! ## One call -/

/-- The slots of an SSI, in the order they are tried. -/
def nsnrProbe (ssi : Ssi) (d : ℕ) : Fin 64 := nsnrSlot (grpNsnrHash ssi.val) d

variable {table : NsnrTable} {ssi : Ssi} {slot : Fin 64}

/-- The loop goes on to where the search ends. -/
theorem grpNsnrProbe_eq (table : NsnrTable) (ssi : Ssi) (rounds d : ℕ) :
    grpNsnrProbe table ssi.val (grpNsnrHash ssi.val) rounds d =
      match seek wordSsi nsnrProbe table ssi rounds d with
      | none => (table, 1, 0)
      | some slot =>
        if table slot = 0 then (Function.update table slot (nsnrWord ssi false), 0, 1)
        else
          let ns := (table slot >>> 1) &&& 1
          let nr := (table slot >>> 0) &&& 1
          (Function.update table slot
            ((ssi.val <<< 8) ||| (((~~~ns) &&& 1) <<< 1) ||| (((~~~nr) &&& 1) <<< 0)), ns, nr) := by
  induction rounds generalizing d with
  | zero => rfl
  | succ rounds ih =>
      rw [grpNsnrProbe, seek]
      dsimp only
      by_cases hfree : table (nsnrSlot (grpNsnrHash ssi.val) d) = 0
      · rw [if_pos hfree, if_pos (.inl (wordSsi_eq_none.2 hfree))]
        exact (if_pos hfree).symm
      · rw [if_neg hfree]
        by_cases hown : table (nsnrSlot (grpNsnrHash ssi.val) d) >>> 8 = ssi.val
        · rw [if_pos hown, if_pos (.inr (wordSsi_eq_some.2 ⟨hfree, hown⟩))]
          exact (if_neg hfree).symm
        · rw [if_neg hown, if_neg]
          · exact ih (d + 1)
          · rintro (hnone | hsome)
            · exact hfree (wordSsi_eq_none.1 hnone)
            · exact hown (wordSsi_eq_some.1 hsome).2

theorem grpNsnrStep_full (h : seek wordSsi nsnrProbe table ssi 64 0 = none) :
    grpNsnrStep table ssi.val = (table, 1, 0) := by
  rw [grpNsnrStep, grpNsnrProbe_eq, h]

theorem grpNsnrStep_fresh (h : seek wordSsi nsnrProbe table ssi 64 0 = some slot)
    (hslot : table slot = 0) :
    grpNsnrStep table ssi.val = (Function.update table slot (nsnrWord ssi false), 0, 1) := by
  rw [grpNsnrStep, grpNsnrProbe_eq, h]
  exact if_pos hslot

theorem grpNsnrStep_held (h : seek wordSsi nsnrProbe table ssi 64 0 = some slot) {ns : Bool}
    (hslot : table slot = nsnrWord ssi ns) :
    grpNsnrStep table ssi.val = (Function.update table slot (nsnrWord ssi !ns),
      if ns then 1 else 0, if ns then 0 else 1) := by
  have hne : table slot ≠ 0 := by
    rw [hslot]
    exact nsnrWord_ne_zero ssi ns
  rw [grpNsnrStep, grpNsnrProbe_eq, h]
  dsimp only
  rw [if_neg hne, hslot, nsnrWord_ns, nsnrWord_nr]
  cases ns with
  | true =>
      have hns : ((~~~(1 : UInt32)) &&& 1) <<< 1 = 0 := by decide
      have hnr : ((~~~(0 : UInt32)) &&& 1) <<< 0 = 1 := by decide
      rw [if_pos rfl, if_pos rfl, hns, hnr, UInt32.or_zero]
      rfl
  | false =>
      have hns : ((~~~(0 : UInt32)) &&& 1) <<< 1 = 2 := by decide
      have hnr : ((~~~(1 : UInt32)) &&& 1) <<< 0 = 0 := by decide
      rw [if_neg Bool.false_ne_true, if_neg Bool.false_ne_true, hns, hnr, UInt32.or_zero]
      rfl

/-- The probes of an SSI come to every slot. -/
theorem nsnrProbe_covers (ssi : Ssi) (slot : Fin 64) : ∃ d < 64, nsnrProbe ssi d = slot := by
  have hslot := slot.isLt
  refine ⟨(slot.val + (64 - (grpNsnrHash ssi.val).toNat % 64)) % 64, Nat.mod_lt _ (by decide), ?_⟩
  refine Fin.ext ?_
  have hand : ∀ x : UInt32, (x &&& 63).toNat = x.toNat % 64 := fun x ↦ by
    rw [UInt32.toNat_and]
    exact Nat.and_two_pow_sub_one_eq_mod _ 6
  rw [nsnrProbe, nsnrSlot, Fin.val_ofNat, hand, UInt32.toNat_add, Nat.toUInt32,
    UInt32.toNat_ofNat']
  omega

/-! ## Runs -/

/-- The SSIs that have a slot: the first 64. -/
def admitted (calls : List Ssi) : Finset Ssi :=
  calls.foldl (fun K ssi ↦ if K.card < 64 then insert ssi K else K) ∅

theorem admitted_concat (calls : List Ssi) (ssi : Ssi) : admitted (calls ++ [ssi]) =
    if (admitted calls).card < 64 then insert ssi (admitted calls) else admitted calls := by
  rw [admitted, List.foldl_append]
  rfl

theorem nsnrRun_concat (calls : List Ssi) (ssi : Ssi) :
    nsnrRun (calls ++ [ssi]) = (grpNsnrStep (nsnrRun calls) ssi.val).1 := by
  rw [nsnrRun, List.foldl_append]
  rfl

theorem mem_of_admitted {calls : List Ssi} {ssi : Ssi} (h : ssi ∈ admitted calls) :
    ssi ∈ calls := by
  induction calls using List.reverseRecOn with
  | nil => exact absurd h (Finset.notMem_empty _)
  | append_singleton calls last ih =>
      rw [admitted_concat] at h
      rw [List.mem_append, List.mem_singleton]
      split_ifs at h
      · rcases Finset.mem_insert.1 h with rfl | h
        · exact .inr rfl
        · exact .inl (ih h)
      · exact .inl (ih h)

/-- The next N(S) of an SSI that has been called `n` times. -/
def nextNs (n : ℕ) : Bool := (n - 1) % 2 = 1

/-- **What the table is after calls.** -/
structure NsnrInv (calls : List Ssi) (table : NsnrTable) : Prop where
  probed : Probed wordSsi nsnrProbe 64 table
  held : ∀ ssi, Held wordSsi table ssi ↔ ssi ∈ admitted calls
  word : ∀ slot ssi, wordSsi (table slot) = some ssi →
    table slot = nsnrWord ssi (nextNs (calls.count ssi))

theorem nsnrInv_nil : NsnrInv [] (nsnrRun []) := by
  have hfree : ∀ slot, wordSsi (nsnrRun [] slot) = none := fun _ ↦ rfl
  refine ⟨probed_of_free hfree, fun ssi ↦ ⟨?_, fun h ↦ absurd h (Finset.notMem_empty _)⟩, ?_⟩
  · rintro ⟨slot, hslot⟩
    cases (hfree slot).symm.trans hslot
  · intro slot ssi hslot
    cases (hfree slot).symm.trans hslot

variable {calls : List Ssi}

/-- The table has a free slot as long as fewer than 64 SSIs are admitted. -/
theorem NsnrInv.exists_free (h : NsnrInv calls table) :
    (∃ slot, table slot = 0) ↔ (admitted calls).card < 64 := by
  have hfree := exists_free_iff h.probed h.held
  simp only [wordSsi_eq_none, Fintype.card_fin] at hfree
  exact hfree

/-- As long as there is room, all SSIs are admitted. -/
theorem admitted_of_mem (hroom : (admitted calls).card < 64) {ssi : Ssi} (h : ssi ∈ calls) :
    ssi ∈ admitted calls := by
  induction calls using List.reverseRecOn with
  | nil => exact absurd h List.not_mem_nil
  | append_singleton calls last ih =>
      rw [admitted_concat] at hroom ⊢
      rw [List.mem_append, List.mem_singleton] at h
      split_ifs at hroom ⊢ with hbefore
      · rcases h with h | rfl
        · exact Finset.mem_insert_of_mem (ih hbefore h)
        · exact Finset.mem_insert_self _ _
      · exact absurd hroom hbefore

theorem nextNs_succ {n : ℕ} (hn : 0 < n) : (!nextNs n) = nextNs (n + 1) := by
  rw [nextNs, nextNs, ← decide_not]
  exact decide_eq_decide.2 (by omega)

/-- The word of an SSI is written where the search for it ended. -/
theorem NsnrInv.put (h : NsnrInv calls table)
    (hseek : seek wordSsi nsnrProbe table ssi 64 0 = some slot)
    (hadmitted : admitted (calls ++ [ssi]) = insert ssi (admitted calls)) :
    NsnrInv (calls ++ [ssi])
      (Function.update table slot (nsnrWord ssi (nextNs (calls.count ssi + 1)))) := by
  refine ⟨h.probed.put hseek (wordSsi_nsnrWord _ _), fun ssi' ↦ ?_, fun slot' ssi' hslot ↦ ?_⟩
  · rw [held_put (seek_eq_some hseek).1 (wordSsi_nsnrWord _ _), h.held, hadmitted,
      Finset.mem_insert]
  · rcases eq_or_ne slot' slot with rfl | hne
    · rw [Function.update_self, wordSsi_nsnrWord] at hslot
      obtain rfl := Option.some.inj hslot
      rw [Function.update_self, List.count_append, List.count_singleton_self]
    · rw [Function.update_of_ne hne] at hslot ⊢
      have hother : ssi ≠ ssi' := by
        rintro rfl
        exact hne (Option.some.inj ((seek_held h.probed hslot).symm.trans hseek))
      rw [h.word slot' ssi' hslot, List.count_append, List.count_singleton,
        if_neg (by simpa using hother), Nat.add_zero]

/-- **A call keeps it so**, and its N(S) is known. -/
theorem NsnrInv.step (h : NsnrInv calls table) (ssi : Ssi) :
    NsnrInv (calls ++ [ssi]) (grpNsnrStep table ssi.val).1 ∧
      (grpNsnrStep table ssi.val).2.1 =
        if ssi ∈ admitted calls then (if nextNs (calls.count ssi) then 1 else 0)
        else if (admitted calls).card < 64 then 0 else 1 := by
  by_cases hmem : ssi ∈ admitted calls
  · obtain ⟨slot, hslot⟩ := (h.held ssi).2 hmem
    have hseek := seek_held h.probed hslot
    have hcount := List.count_pos_iff.2 (mem_of_admitted hmem)
    rw [grpNsnrStep_held hseek (h.word slot ssi hslot), if_pos hmem, nextNs_succ hcount]
    refine ⟨h.put hseek ?_, rfl⟩
    rw [admitted_concat, Finset.insert_eq_of_mem hmem, ite_self]
  · have hheld : ¬ Held wordSsi table ssi := fun hheld ↦ hmem ((h.held ssi).1 hheld)
    rw [if_neg hmem]
    by_cases hroom : (admitted calls).card < 64
    · obtain ⟨free, hfree⟩ := h.exists_free.2 hroom
      obtain ⟨slot, hseek, hslot⟩ :=
        seek_fresh nsnrProbe_covers hheld (wordSsi_eq_none.2 hfree)
      have hnone : calls.count ssi = 0 :=
        List.count_eq_zero_of_not_mem fun hcalled ↦ hmem (admitted_of_mem hroom hcalled)
      have hput := h.put hseek (by rw [admitted_concat, if_pos hroom])
      rw [hnone] at hput
      rw [grpNsnrStep_fresh hseek (wordSsi_eq_none.1 hslot), if_pos hroom]
      exact ⟨hput, rfl⟩
    · have hfull : ∀ slot, wordSsi (table slot) ≠ none := fun slot hslot ↦
        hroom (h.exists_free.1 ⟨slot, wordSsi_eq_none.1 hslot⟩)
      have hadmitted : admitted (calls ++ [ssi]) = admitted calls := by
        rw [admitted_concat, if_neg hroom]
      rw [grpNsnrStep_full (seek_full hheld hfull), if_neg hroom]
      refine ⟨⟨h.probed, fun ssi' ↦ ?_, fun slot ssi' hslot ↦ ?_⟩, rfl⟩
      · rw [h.held, hadmitted]
      · have hother : ssi ≠ ssi' := by
          rintro rfl
          exact hheld ⟨slot, hslot⟩
        dsimp only at hslot ⊢
        rw [h.word slot ssi' hslot, List.count_append, List.count_singleton,
          if_neg (by simpa using hother), Nat.add_zero]

theorem nsnrInv_run (calls : List Ssi) : NsnrInv calls (nsnrRun calls) := by
  induction calls using List.reverseRecOn with
  | nil => exact nsnrInv_nil
  | append_singleton calls ssi ih =>
      rw [nsnrRun_concat]
      exact (ih.step ssi).1

/-- **The N(S) of every call**: an SSI that has a slot has 0, 0, 1, 0, 1, …, any other has 1. -/
theorem nsAfter_eq (calls : List Ssi) (ssi : Ssi) : nsAfter calls ssi =
    if ssi ∈ admitted calls then (if nextNs (calls.count ssi) then 1 else 0)
    else if (admitted calls).card < 64 then 0 else 1 :=
  ((nsnrInv_run calls).step ssi).2

theorem card_admitted_le (calls : List Ssi) : (admitted calls).card ≤ calls.length := by
  induction calls using List.reverseRecOn with
  | nil => exact Nat.le_refl 0
  | append_singleton calls ssi ih =>
      rw [admitted_concat, List.length_append, List.length_singleton]
      split_ifs
      · exact (Finset.card_insert_le _ _).trans (Nat.succ_le_succ ih)
      · exact ih.trans (Nat.le_succ _)

/-- As many as there are slots are all admitted. -/
theorem admitted_of_nodup (hnodup : calls.Nodup) (hlen : calls.length ≤ 64) :
    admitted calls = calls.toFinset := by
  induction calls using List.reverseRecOn with
  | nil => rfl
  | append_singleton calls ssi ih =>
      rw [List.length_append, List.length_singleton] at hlen
      have hroom := card_admitted_le calls
      rw [admitted_concat, if_pos (by omega), ih hnodup.of_append_left (by omega),
        List.toFinset_append, Finset.union_comm]
      rfl

/-- A prefix of calls whose N(S) alternate has no SSI twice, and is no longer than the table. -/
theorem nodup_of_alternates {before after : List Ssi} (h : NsAlternates (before ++ after)) :
    before.Nodup ∧ before.length ≤ 64 := by
  induction before using List.reverseRecOn generalizing after with
  | nil => exact ⟨List.nodup_nil, Nat.zero_le _⟩
  | append_singleton before ssi ih =>
      rw [List.append_assoc] at h
      obtain ⟨hnodup, hlen⟩ := ih h
      have hadmitted := admitted_of_nodup hnodup hlen
      have hns := h before ssi after rfl
      rw [nsAfter_eq, hadmitted] at hns
      by_cases hmem : ssi ∈ before
      · -- the second call of an SSI
        rw [if_pos (List.mem_toFinset.2 hmem), List.count_eq_one_of_mem hnodup hmem] at hns
        exact absurd hns (by decide)
      · -- an SSI of which there was none before
        rw [if_neg fun h ↦ hmem (List.mem_toFinset.1 h), List.toFinset_card_of_nodup hnodup,
          List.count_eq_zero_of_not_mem hmem] at hns
        refine ⟨List.nodup_append.2 ⟨hnodup, List.nodup_singleton ssi, ?_⟩, ?_⟩
        · rintro a ha b hb rfl
          exact hmem (List.mem_singleton.1 hb ▸ ha)
        · rw [List.length_append, List.length_singleton]
          by_contra hlong
          rw [if_neg (by omega)] at hns
          exact absurd hns (by decide)

/-- **The N(S) alternate exactly as long as no terminal is answered twice, and no more than 64 are
answered at all.** -/
theorem nsAlternates_iff (calls : List Ssi) :
    NsAlternates calls ↔ calls.Nodup ∧ calls.length ≤ 64 := by
  constructor
  · intro h
    rw [← List.append_nil calls] at h
    exact nodup_of_alternates h
  · rintro ⟨hnodup, hlen⟩ before ssi after rfl
    have hfresh : ssi ∉ before := fun hmem ↦
      (List.nodup_append.1 hnodup).2.2 ssi hmem ssi List.mem_cons_self rfl
    rw [List.length_append, List.length_cons] at hlen
    have hroom := card_admitted_le before
    rw [nsAfter_eq, if_neg fun h ↦ hfresh (mem_of_admitted h), if_pos (by omega),
      List.count_eq_zero_of_not_mem hfresh]
    rfl

/-- The second acknowledgement of a terminal repeats the N(S) of the first. -/
theorem not_nsAlternates_twice : ¬ NsAlternates [⟨2633617, by decide⟩, ⟨2633617, by decide⟩] := by
  intro h
  have hns := h [⟨2633617, by decide⟩] ⟨2633617, by decide⟩ [] rfl
  exact absurd hns (by decide)

end TetraPhy.Daemon
