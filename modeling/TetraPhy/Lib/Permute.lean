import Mathlib.Algebra.BigOperators.Group.List.Basic
import Mathlib.Data.List.Basic
import Mathlib.Data.Fintype.EquivFin
import Mathlib.Data.List.GetD
import Mathlib.Data.Nat.ModEq

/-!
# Scattering and gathering

A permutation of an array is written in two ways: by scattering, where element `k` is
stored at position `σ k`, and by gathering, where element `k` is read from it.  With the
same `σ`, injective into the positions there are, gathering undoes scattering.
-/

namespace TetraPhy.Permute

universe u

variable {α : Type u}

/-- Store element `k` of `xs` at position `σ k`, for each `k < n`. -/
def scatter (d : α) (n : ℕ) (σ : ℕ → ℕ) (xs : List α) : List α :=
  (List.range n).foldl (fun out k ↦ out.set (σ k) (xs.getD k d)) (List.replicate n d)

/-- Read element `k` from position `σ k` of `xs`, for each `k < n`. -/
def gather (d : α) (n : ℕ) (σ : ℕ → ℕ) (xs : List α) : List α :=
  (List.range n).map fun k ↦ xs.getD (σ k) d

@[simp] theorem length_gather (d : α) (n : ℕ) (σ : ℕ → ℕ) (xs : List α) :
    (gather d n σ xs).length = n := by
  simp [gather]

theorem getD_gather (d : α) {n : ℕ} (σ : ℕ → ℕ) (xs : List α) {k : ℕ} (hk : k < n) :
    (gather d n σ xs).getD k d = xs.getD (σ k) d := by
  rw [gather, List.getD_eq_getElem _ _ (by simpa using hk), List.getElem_map, List.getElem_range]

theorem length_foldl_set (f : ℕ → α) (σ : ℕ → ℕ) (l : List ℕ) (out : List α) :
    (l.foldl (fun out k ↦ out.set (σ k) (f k)) out).length = out.length := by
  induction l generalizing out with
  | nil => rfl
  | cons k l ih => rw [List.foldl_cons, ih, List.length_set]

@[simp] theorem length_scatter (d : α) (n : ℕ) (σ : ℕ → ℕ) (xs : List α) :
    (scatter d n σ xs).length = n := by
  rw [scatter, length_foldl_set, List.length_replicate]

/-- What holds of the elements and of the default holds of what is read. -/
theorem getD_of_forall {d : α} {p : α → Prop} (hd : p d) {xs : List α} (h : ∀ x ∈ xs, p x) (k : ℕ) :
    p (xs.getD k d) := by
  rw [List.getD_eq_getElem?_getD]
  cases hget : xs[k]? with
  | none => exact hd
  | some x => exact h x (List.mem_of_getElem? hget)

/-- What holds of the elements stays true while more of them are stored. -/
theorem forall_mem_foldl {β : Type*} {p : α → Prop} {step : List α → β → List α}
    (hstep : ∀ out b, (∀ x ∈ out, p x) → ∀ x ∈ step out b, p x) (l : List β) {out : List α}
    (h : ∀ x ∈ out, p x) : ∀ x ∈ l.foldl step out, p x := by
  induction l generalizing out with
  | nil => exact h
  | cons b l ih => exact ih (hstep out b h)

theorem forall_mem_set {p : α → Prop} {xs : List α} (h : ∀ x ∈ xs, p x) (k : ℕ) {a : α} (ha : p a) :
    ∀ x ∈ xs.set k a, p x := fun x hx ↦
  (List.mem_or_eq_of_mem_set hx).elim (h x) fun he ↦ he ▸ ha

theorem forall_mem_scatter {d : α} {p : α → Prop} (hd : p d) {xs : List α} (h : ∀ x ∈ xs, p x)
    (n : ℕ) (σ : ℕ → ℕ) : ∀ x ∈ scatter d n σ xs, p x :=
  forall_mem_foldl (fun _ k hout ↦ forall_mem_set hout (σ k) (getD_of_forall hd h k)) _
    fun _ hx ↦ List.eq_of_mem_replicate hx ▸ hd

/-- What holds of the elements and of the default holds of what was gathered. -/
theorem forall_mem_gather {d : α} {p : α → Prop} (hd : p d) {xs : List α} (h : ∀ x ∈ xs, p x)
    (n : ℕ) (σ : ℕ → ℕ) : ∀ x ∈ gather d n σ xs, p x := by
  rw [gather, List.forall_mem_map]
  exact fun k _ ↦ getD_of_forall hd h (σ k)

/-- Stores at other positions do not matter. -/
theorem getD_foldl_set_of_forall_ne (d : α) (f : ℕ → α) (σ : ℕ → ℕ) {l : List ℕ} {p : ℕ}
    (h : ∀ k ∈ l, σ k ≠ p) (out : List α) :
    (l.foldl (fun out k ↦ out.set (σ k) (f k)) out).getD p d = out.getD p d := by
  induction l generalizing out with
  | nil => rfl
  | cons k l ih =>
      rw [List.foldl_cons, ih fun j hj ↦ h j (List.mem_cons_of_mem k hj)]
      rw [List.getD_eq_getElem?_getD, List.getElem?_set_ne (h k List.mem_cons_self),
        ← List.getD_eq_getElem?_getD]

/-- What is stored once at a position stays there. -/
theorem getD_foldl_set (d : α) (f : ℕ → α) (σ : ℕ → ℕ) {l : List ℕ} {k : ℕ} (hk : k ∈ l)
    (hinj : ∀ j ∈ l, σ j = σ k → j = k) {out : List α} (hσ : σ k < out.length) :
    (l.foldl (fun out k ↦ out.set (σ k) (f k)) out).getD (σ k) d = f k := by
  induction l generalizing out with
  | nil => exact absurd hk List.not_mem_nil
  | cons j l ih =>
      rw [List.foldl_cons]
      by_cases hkl : k ∈ l
      · exact ih hkl (fun i hi ↦ hinj i (List.mem_cons_of_mem j hi)) (by rwa [List.length_set])
      · obtain rfl : k = j := (List.mem_cons.mp hk).resolve_right hkl
        rw [getD_foldl_set_of_forall_ne d f σ fun i hi he ↦ hkl
            (hinj i (List.mem_cons_of_mem k hi) he ▸ hi),
          List.getD_eq_getElem?_getD, List.getElem?_set_self hσ]
        rfl

/-- **What is stored adds up**, if it is stored at different positions that held nothing. -/
theorem sum_map_foldl_set {β : Type*} [AddCommGroup β] (d : α) (f : ℕ → α) (σ : ℕ → ℕ) {g : α → β}
    {l : List ℕ} (hl : l.Nodup) (hinj : ∀ j ∈ l, ∀ k ∈ l, σ j = σ k → j = k) {out : List α}
    (hσ : ∀ k ∈ l, σ k < out.length) (hout : ∀ k ∈ l, g (out.getD (σ k) d) = 0) :
    ((l.foldl (fun out k ↦ out.set (σ k) (f k)) out).map g).sum =
      (out.map g).sum + (l.map fun k ↦ g (f k)).sum := by
  induction l generalizing out with
  | nil => exact (add_zero _).symm
  | cons k l ih =>
      obtain ⟨hk, hl⟩ := List.nodup_cons.1 hl
      rw [List.forall_mem_cons] at hσ hout
      have hother : ∀ j ∈ l, σ k ≠ σ j := fun j hj h ↦
        hk (hinj k List.mem_cons_self j (List.mem_cons_of_mem k hj) h ▸ hj)
      have hset : ((out.set (σ k) (f k)).map g).sum = (out.map g).sum + g (f k) := by
        have hold : g out[σ k] = 0 := by
          rw [← List.getD_eq_getElem _ d hσ.1]
          exact hout.1
        rw [List.map_set, List.sum_set', dif_pos (by rw [List.length_map]; exact hσ.1),
          List.getElem_map, hold, neg_zero, zero_add]
      rw [List.foldl_cons, ih hl (fun i hi j hj ↦ hinj i (List.mem_cons_of_mem k hi) j
          (List.mem_cons_of_mem k hj)) (by rw [List.length_set]; exact hσ.2), hset, List.map_cons,
        List.sum_cons, add_assoc]
      intro j hj
      rw [List.getD_eq_getElem?_getD, List.getElem?_set_ne (hother j hj),
        ← List.getD_eq_getElem?_getD]
      exact hout.2 j hj

/-- Element `k` is where it was stored. -/
theorem getD_scatter (d : α) {n : ℕ} {σ : ℕ → ℕ} (hσ : ∀ k < n, σ k < n)
    (hinj : ∀ j < n, ∀ k < n, σ j = σ k → j = k) (xs : List α) {k : ℕ} (hk : k < n) :
    (scatter d n σ xs).getD (σ k) d = xs.getD k d := by
  rw [scatter, getD_foldl_set d (fun k ↦ xs.getD k d) σ (List.mem_range.mpr hk)
    (fun j hj ↦ hinj j (List.mem_range.mp hj) k hk) (by simpa using hσ k hk)]

/-- **Gathering undoes scattering.** -/
theorem gather_scatter (d : α) {n : ℕ} {σ : ℕ → ℕ} (hσ : ∀ k < n, σ k < n)
    (hinj : ∀ j < n, ∀ k < n, σ j = σ k → j = k) {xs : List α} (hxs : xs.length = n) :
    gather d n σ (scatter d n σ xs) = xs := by
  refine List.ext_getElem (by simp [hxs]) fun k hk hk' ↦ ?_
  have hkn : k < n := hxs ▸ hk'
  simp only [gather, List.getElem_map, List.getElem_range]
  rw [getD_scatter d hσ hinj xs hkn]
  exact List.getD_eq_getElem xs d hk'

/-- An injective map of the positions into themselves reaches every position. -/
theorem exists_of_inj {n : ℕ} {σ : ℕ → ℕ} (hσ : ∀ k < n, σ k < n)
    (hinj : ∀ j < n, ∀ k < n, σ j = σ k → j = k) {p : ℕ} (hp : p < n) : ∃ k < n, σ k = p := by
  let f : Fin n → Fin n := fun k ↦ ⟨σ k, hσ k k.isLt⟩
  have hf : Function.Injective f := fun j k h ↦
    Fin.ext (hinj j j.isLt k k.isLt (congrArg Fin.val h))
  obtain ⟨k, hk⟩ := Finite.surjective_of_injective hf ⟨p, hp⟩
  exact ⟨k, k.isLt, congrArg Fin.val hk⟩

/-- **Scattering undoes gathering.** -/
theorem scatter_gather (d : α) {n : ℕ} {σ : ℕ → ℕ} (hσ : ∀ k < n, σ k < n)
    (hinj : ∀ j < n, ∀ k < n, σ j = σ k → j = k) {xs : List α} (hxs : xs.length = n) :
    scatter d n σ (gather d n σ xs) = xs := by
  refine List.ext_getElem (by simp [hxs]) fun p hp hp' ↦ ?_
  obtain ⟨k, hk, rfl⟩ := exists_of_inj hσ hinj (hxs ▸ hp')
  have hget := getD_scatter d hσ hinj (gather d n σ xs) hk
  rw [getD_gather d σ xs hk, List.getD_eq_getElem _ _ hp, List.getD_eq_getElem _ _ hp'] at hget
  exact hget

/-- Copies of one element stay copies of it. -/
theorem scatter_replicate (d : α) {n : ℕ} {σ : ℕ → ℕ} (hσ : ∀ k < n, σ k < n)
    (hinj : ∀ j < n, ∀ k < n, σ j = σ k → j = k) (a : α) :
    scatter d n σ (List.replicate n a) = List.replicate n a := by
  have hgather : gather d n σ (List.replicate n a) = List.replicate n a := by
    refine List.ext_getElem (by simp) fun k hk hk' ↦ ?_
    have hkn : k < n := by simpa using hk'
    simp only [gather, List.getElem_map, List.getElem_range]
    rw [List.getD_replicate _ (hσ k hkn), List.getElem_replicate]
  have hback := scatter_gather d hσ hinj (List.length_replicate (n := n) (a := a))
  rwa [hgather] at hback

/-- Gathering commutes with maps. -/
theorem gather_map {β : Type*} (d : α) (e : β) (f : α → β) {n : ℕ} {σ : ℕ → ℕ} {xs : List α}
    (hσ : ∀ k < n, σ k < xs.length) :
    gather e n σ (xs.map f) = (gather d n σ xs).map f := by
  simp only [gather, List.map_map]
  refine List.map_congr_left fun k hk ↦ ?_
  have hlt := hσ k (List.mem_range.mp hk)
  rw [Function.comp_apply, List.getD_eq_getElem _ _ (by simpa using hlt), List.getElem_map,
    List.getD_eq_getElem _ _ hlt]

/-- **A table of positions can be undone**, if it has each position once, whatever stands behind
what was read by it. -/
theorem scatter_positions (d : α) {ps : List ℕ} (hnodup : ps.Nodup) (hlt : ∀ p ∈ ps, p < ps.length)
    {xs : List α} (hxs : xs.length = ps.length) (ys : List α) :
    scatter d ps.length (fun k ↦ ps.getD k 0) ((ps.map fun p ↦ xs.getD p d) ++ ys) = xs := by
  have hgather : (ps.map fun p ↦ xs.getD p d) = gather d ps.length (fun k ↦ ps.getD k 0) xs := by
    refine List.ext_getElem (by simp) fun k hk _ ↦ ?_
    rw [List.length_map] at hk
    simp only [gather, List.getElem_map, List.getElem_range]
    rw [List.getD_eq_getElem ps 0 hk]
  have happend : scatter d ps.length (fun k ↦ ps.getD k 0) ((ps.map fun p ↦ xs.getD p d) ++ ys) =
      scatter d ps.length (fun k ↦ ps.getD k 0) (ps.map fun p ↦ xs.getD p d) := by
    refine List.foldl_ext _ _ _ fun out k hk ↦ ?_
    rw [List.getD_append _ _ _ _ (by rw [List.length_map]; exact List.mem_range.1 hk)]
  rw [happend, hgather]
  refine scatter_gather d (fun k hk ↦ ?_) (fun j hj k hk hjk ↦ ?_) hxs
  · rw [List.getD_eq_getElem _ _ hk]
    exact hlt _ (List.getElem_mem hk)
  · rw [List.getD_eq_getElem _ _ hj, List.getD_eq_getElem _ _ hk] at hjk
    exact hnodup.getElem_inj_iff.1 hjk

/-- The multiplicative permutations `k ↦ a (k + 1) mod n`. -/
theorem mul_mod_inj {a n : ℕ} (h : Nat.Coprime n a) :
    ∀ j < n, ∀ k < n, a * (j + 1) % n = a * (k + 1) % n → j = k := by
  intro j hj k hk he
  have hmod : j + 1 ≡ k + 1 [MOD n] := Nat.ModEq.cancel_left_of_coprime h he
  exact (Nat.ModEq.add_right_cancel' 1 hmod).eq_of_lt_of_lt hj hk

end TetraPhy.Permute
