import Mathlib.Algebra.Ring.Nat
import Mathlib.Data.Nat.Count
import TetraPhy.Lib.Run

/-!
# What a machine sends

A machine with an output port: `out s` is what the port shows in state `s`, if anything.  A run
sends what the port shows after each of its steps.

A phase is a family of predicates, one for each number of steps that are left (`silent`) or for
each list of words that are still to be sent (`sending`).  One step takes it to the next, and the
two rules say what a phase comes to.  Where a machine does not look at its inputs for a while,
`Leads` says what it comes to by itself, and its rules put phases of known lengths together.

A machine that goes by the clock is followed cycle by cycle (`clocked`).  Its registers hold what an
event of some cycles ago left (`Ago`), or what every `R`-th of the events did (`Due`), or that one
came since they were cleared (`flag_iff`).

`length_emitted_le` is the rule for how much a run can send: what each word costs is paid from
what the state has in store and what the inputs bring.

A machine that also takes words in, `take s e` in a step, is followed by a relation between what it
has taken, what it has sent and its state (`transduce`).
-/

namespace TetraPhy.Run

universe u v w

variable {S : Type u} {E : Type v} {β : Type w} (step : S → E → S) (out : S → Option β)

/-- What a run sends. -/
def emitted : S → List E → List β
  | _, [] => []
  | s, e :: es => (out (step s e)).toList ++ emitted (step s e) es

@[simp] theorem emitted_nil (s : S) : emitted step out s [] = [] := rfl

theorem emitted_append (s : S) (es fs : List E) :
    emitted step out s (es ++ fs) =
      emitted step out s es ++ emitted step out (exec step s es) fs := by
  induction es generalizing s with
  | nil => rfl
  | cons e es ih => rw [List.cons_append, emitted, ih, emitted, List.append_assoc, exec_cons]

section Nothing

variable {step out}

/-- A step that sends nothing. -/
theorem emitted_cons_of_none {s : S} {e : E} (h : out (step s e) = none) (es : List E) :
    emitted step out s (e :: es) = emitted step out (step s e) es := by
  rw [emitted, h]
  rfl

end Nothing

/-- **A silent phase.** -/
theorem silent {P : ℕ → S → Prop} {C : E → Prop}
    (hstep : ∀ k s e, C e → P (k + 1) s → P k (step s e) ∧ out (step s e) = none)
    {s : S} {es : List E} (hC : ∀ e ∈ es, C e) (h : P es.length s) :
    P 0 (exec step s es) ∧ emitted step out s es = [] := by
  induction es generalizing s with
  | nil => exact ⟨h, rfl⟩
  | cons e es ih =>
      rw [List.forall_mem_cons] at hC
      obtain ⟨hP, hout⟩ := hstep es.length s e hC.1 h
      rw [emitted_cons_of_none hout]
      exact ih hC.2 hP

/-- A silent phase in which two steps count as one. -/
theorem silent_pairs {P : ℕ → S → Prop} {C : E → Prop}
    (hstep : ∀ k s e f, C e → C f → P (k + 1) s → P k (step (step s e) f) ∧
      out (step s e) = none ∧ out (step (step s e) f) = none)
    {n : ℕ} {s : S} {es : List E} (hlen : es.length = 2 * n) (hC : ∀ e ∈ es, C e) (h : P n s) :
    P 0 (exec step s es) ∧ emitted step out s es = [] := by
  induction n generalizing s es with
  | zero =>
      obtain rfl := List.eq_nil_of_length_eq_zero hlen
      exact ⟨h, rfl⟩
  | succ n ih =>
      match es with
      | [] => exact absurd hlen.symm (Nat.succ_ne_zero _)
      | [e] => exact absurd (Nat.succ.inj hlen).symm (Nat.succ_ne_zero _)
      | e :: f :: es =>
          rw [List.forall_mem_cons, List.forall_mem_cons] at hC
          obtain ⟨hP, hfst, hsnd⟩ := hstep n s e f hC.1 hC.2.1 h
          rw [emitted_cons_of_none hfst, emitted_cons_of_none hsnd]
          exact ih (Nat.succ.inj (Nat.succ.inj hlen)) hC.2.2 hP

/-- **A phase that sends a word in each step.** -/
theorem sending {P : List β → S → Prop} {C : E → Prop}
    (hstep : ∀ x xs s e, C e → P (x :: xs) s → P xs (step s e) ∧ out (step s e) = some x)
    {s : S} {es : List E} {xs : List β} (hlen : es.length = xs.length) (hC : ∀ e ∈ es, C e)
    (h : P xs s) : P [] (exec step s es) ∧ emitted step out s es = xs := by
  induction es generalizing s xs with
  | nil =>
      obtain rfl := List.eq_nil_of_length_eq_zero hlen.symm
      exact ⟨h, rfl⟩
  | cons e es ih =>
      rw [List.forall_mem_cons] at hC
      cases xs with
      | nil => exact absurd hlen (Nat.succ_ne_zero _)
      | cons x xs =>
          obtain ⟨hP, hout⟩ := hstep x xs s e hC.1 h
          obtain ⟨hend, hrest⟩ := ih (Nat.succ.inj hlen) hC.2 hP
          rw [emitted, hout, hrest]
          exact ⟨hend, rfl⟩

/-- **The rule of budgets.**  A word costs `w`, an input brings `c`, and `φ` is what is in store. -/
theorem length_emitted_le {I : S → Prop} {φ : S → ℕ} {c : E → ℕ} {w : ℕ}
    (hstep : ∀ s e, I s → I (step s e) ∧
      w * (out (step s e)).toList.length + φ (step s e) ≤ φ s + c e)
    {s : S} (hs : I s) (es : List E) :
    w * (emitted step out s es).length + φ (exec step s es) ≤ φ s + (es.map c).sum := by
  induction es generalizing s with
  | nil => exact Nat.le_of_eq (Nat.zero_add _)
  | cons e es ih =>
      obtain ⟨hI, hpaid⟩ := hstep s e hs
      have hrest := ih hI
      rw [emitted, List.length_append, Nat.mul_add, exec_cons, List.map_cons, List.sum_cons]
      omega

/-! ## Whatever the inputs are -/

/-- In `n` steps the machine gets from `P` to `Q`, and sends nothing. -/
def Leads (n : ℕ) (P Q : S → Prop) : Prop :=
  ∀ s es, es.length = n → P s → Q (exec step s es) ∧ emitted step out s es = []

section Leads

variable {step out} {P Q R : S → Prop}

theorem leads_one (h : ∀ s e, P s → Q (step s e) ∧ out (step s e) = none) :
    Leads step out 1 P Q := by
  intro s es hlen hs
  obtain ⟨e, rfl⟩ := List.length_eq_one_iff.1 hlen
  obtain ⟨hQ, hout⟩ := h s e hs
  exact ⟨hQ, emitted_cons_of_none hout []⟩

theorem Leads.trans {m n : ℕ} (h : Leads step out m P Q) (h' : Leads step out n Q R) :
    Leads step out (m + n) P R := by
  intro s es hlen hs
  obtain ⟨hQ, hfst⟩ := h s (es.take m) (by rw [List.length_take]; omega) hs
  obtain ⟨hR, hsnd⟩ := h' (exec step s (es.take m)) (es.drop m)
    (by rw [List.length_drop]; omega) hQ
  rw [← exec_append, List.take_append_drop] at hR
  refine ⟨hR, ?_⟩
  rw [← List.take_append_drop m es, emitted_append, hfst, hsnd]
  rfl

/-- Rounds of one length. -/
theorem leads_rounds {m n : ℕ} {P : ℕ → S → Prop}
    (h : ∀ k < n, Leads step out m (P k) (P (k + 1))) : Leads step out (m * n) (P 0) (P n) := by
  induction n with
  | zero =>
      intro s es hlen hs
      obtain rfl := List.eq_nil_of_length_eq_zero hlen
      exact ⟨hs, rfl⟩
  | succ n ih => exact (ih fun k hk ↦ h k (Nat.lt_succ_of_lt hk)).trans (h n (Nat.lt_succ_self n))

end Leads

/-! ## By the clock -/

section Clock

variable {step out}

/-- **The rule of clocks.**  Where the number of the cycle says all there is to say about the state,
it says what is sent. -/
theorem clocked {P : ℕ → S → Prop} {f : ℕ → E} {o : ℕ → Option β}
    (hstep : ∀ t s, P t s → P (t + 1) (step s (f t)) ∧ out (step s (f t)) = o t)
    {s : S} (h : P 0 s) (n : ℕ) :
    P n (exec step s ((List.range n).map f)) ∧
      emitted step out s ((List.range n).map f) = (List.range n).filterMap o := by
  induction n with
  | zero => exact ⟨h, rfl⟩
  | succ n ih =>
      obtain ⟨hP, hout⟩ := hstep n _ ih.1
      rw [List.range_succ, List.map_append, exec_append, emitted_append, ih.2,
        List.filterMap_append, List.map_singleton, emitted, hout, emitted_nil, List.append_nil]
      refine ⟨hP, ?_⟩
      cases h : o n <;> simp [h]

end Clock

/-! ## Registers behind an event -/

section Ago

variable (p : ℕ → Prop)

/-- The event was in the cycle `d` before. -/
def Ago (d t : ℕ) : Prop := d ≤ t ∧ p (t - d)

variable [DecidablePred p]

instance decidableAgo (d t : ℕ) : Decidable (Ago p d t) := inferInstanceAs (Decidable (_ ∧ _))

/-- The event, and it ends a round of `R`. -/
def Due (R t : ℕ) : Prop := p t ∧ Nat.count p t % R + 1 = R

instance decidableDue (R : ℕ) : DecidablePred (Due p R) :=
  fun _ ↦ inferInstanceAs (Decidable (_ ∧ _))

variable {p} {d t R : ℕ}

/-- A register more. -/
theorem ago_succ {p : ℕ → Prop} : Ago p (d + 1) (t + 1) ↔ Ago p d t := by
  rw [Ago, Ago, Nat.add_sub_add_right, Nat.add_le_add_iff_right]

theorem not_ago_zero {p : ℕ → Prop} : ¬Ago p (d + 1) 0 := fun h ↦ Nat.not_succ_le_zero d h.1

@[simp] theorem ago_zero {p : ℕ → Prop} : Ago p 0 t ↔ p t := by simp [Ago]

theorem count_sub_succ (d t : ℕ) :
    Nat.count p (t + 1 - d) = Nat.count p (t - d) + if Ago p d t then 1 else 0 := by
  by_cases hd : d ≤ t
  · rw [Nat.sub_add_comm hd, Nat.count_succ]
    simp [Ago, hd]
  · rw [Nat.sub_eq_zero_of_le (by omega), Nat.sub_eq_zero_of_le (by omega), if_neg fun h ↦ hd h.1,
      Nat.add_zero]

/-- **Rounds are counted by their ends.** -/
theorem count_sub_succ_div (hR : 0 < R) (d t : ℕ) :
    Nat.count p (t + 1 - d) / R = Nat.count p (t - d) / R + if Ago (Due p R) d t then 1 else 0 := by
  have hdiv := Nat.div_add_mod (Nat.count p (t - d)) R
  have hmod := Nat.mod_lt (Nat.count p (t - d)) hR
  rw [count_sub_succ]
  by_cases h : Ago p d t
  · by_cases hlast : Nat.count p (t - d) % R + 1 = R
    · rw [if_pos h, if_pos ⟨h.1, h.2, hlast⟩]
      refine Nat.div_eq_of_lt_le ?_ ?_
      · rw [Nat.succ_mul, Nat.mul_comm]
        omega
      · rw [Nat.succ_mul, Nat.succ_mul, Nat.mul_comm]
        omega
    · rw [if_pos h, if_neg fun hd ↦ hlast hd.2.2]
      refine Nat.div_eq_of_lt_le ?_ ?_
      · rw [Nat.add_zero, Nat.mul_comm]
        omega
      · rw [Nat.add_zero, Nat.succ_mul, Nat.mul_comm]
        omega
  · rw [if_neg h, if_neg fun hd ↦ h ⟨hd.1, hd.2.1⟩, Nat.add_zero, Nat.add_zero]

theorem count_add_le (t k : ℕ) : Nat.count p (t + k) ≤ Nat.count p t + k := by
  rw [Nat.count_add]
  exact Nat.add_le_add_left (Nat.count_le _) _

/-- **The ends of rounds are `R` cycles apart.** -/
theorem Due.spacing {t' : ℕ} (h : Due p R t) (h' : Due p R t') (hlt : t < t') : t + R ≤ t' := by
  have hnext : Nat.count p (t + 1) = Nat.count p t + 1 := by rw [Nat.count_succ, if_pos h.1]
  have hmono : Nat.count p (t + 1) ≤ Nat.count p t' := Nat.count_monotone p hlt
  have hle := count_add_le (p := p) t (t' - t)
  rw [Nat.add_sub_cancel' hlt.le] at hle
  -- the two counts are the same up to multiples of `R`
  have hmod : Nat.count p t' % R = Nat.count p t % R := Nat.succ.inj (h'.2.trans h.2.symm)
  obtain ⟨k, hk⟩ := Nat.dvd_of_mod_eq_zero (Nat.sub_mod_eq_zero_of_mod_eq hmod)
  have hk0 : k ≠ 0 := by
    rintro rfl
    omega
  have hR : R ≤ R * k := Nat.le_mul_of_pos_right R (Nat.pos_of_ne_zero hk0)
  omega

theorem Due.not_ago {d' : ℕ} (h : Ago (Due p R) d t) (hlt : d < d') (hle : d' < d + R) :
    ¬Ago (Due p R) d' t := fun h' ↦ by
  have hd := h.1
  have hd' := h'.1
  have hs := Due.spacing h'.2 h.2 (by omega)
  omega

/-- Within `R` cycles behind the end of a round there is no other. -/
theorem Due.count_div {t' : ℕ} (h : Due p R t) (hlt : t < t') (hle : t' ≤ t + R) :
    Nat.count p t' / R = Nat.count p t / R + 1 := by
  have hnext : Nat.count p (t + 1) = Nat.count p t + 1 := by rw [Nat.count_succ, if_pos h.1]
  have hmono : Nat.count p (t + 1) ≤ Nat.count p t' := Nat.count_monotone p hlt
  have hadd := count_add_le (p := p) t (t' - t)
  rw [Nat.add_sub_cancel' hlt.le] at hadd
  have hdiv := Nat.div_add_mod (Nat.count p t) R
  have hlast := h.2
  refine Nat.div_eq_of_lt_le ?_ ?_
  · rw [Nat.succ_mul, Nat.mul_comm]
    omega
  · rw [Nat.succ_mul, Nat.succ_mul, Nat.mul_comm]
    omega

/-- What is sent at the end of each round. -/
theorem filterMap_due {β : Type*} (hR : 0 < R) (y : ℕ → β) (d n : ℕ) :
    (List.range n).filterMap (fun t ↦
        if Ago (Due p R) d t then some (y (Nat.count p (t - d) / R)) else none) =
      (List.range (Nat.count p (n - d) / R)).map y := by
  induction n with
  | zero => rw [Nat.zero_sub, Nat.count_zero, Nat.zero_div]; rfl
  | succ n ih =>
      rw [List.range_succ, List.filterMap_append, ih, count_sub_succ_div hR]
      by_cases h : Ago (Due p R) d n
      · rw [if_pos h, List.range_succ, List.map_append]
        simp [h]
      · rw [if_neg h]
        simp [h]

end Ago

/-! ## Flags -/

section Flag

variable {step}

/-- **The rule of flags.**  A flag that an event sets, and that is cleared in a step without one, is
up after a run from a state where it is down exactly if there was an event and no later step has
cleared it. -/
theorem flag_iff (flag : S → Prop) (set : E → Prop) (clear : S → E → Prop)
    (h : ∀ s e, flag (step s e) ↔ set e ∨ flag s ∧ ¬clear s e) {s : S} (hs : ¬flag s) (es : List E) :
    flag (exec step s es) ↔ ∃ pre e post, es = pre ++ e :: post ∧ set e ∧
      Along step (fun s e ↦ set e ∨ ¬clear s e) (exec step s (pre ++ [e])) post := by
  induction es using List.reverseRecOn with
  | nil => simpa using hs
  | append_singleton es e ih =>
      have hlast : exec step s (es ++ [e]) = step (exec step s es) e := exec_append step s es [e]
      rw [hlast, h, ih]
      constructor
      · rintro (hset | ⟨⟨pre, d, post, rfl, hset, hkept⟩, hclear⟩)
        · exact ⟨es, e, [], rfl, hset, trivial⟩
        · refine ⟨pre, d, post ++ [e], by simp, hset, (along_append step _ _).2 ⟨hkept, ?_, trivial⟩⟩
          rw [← exec_append, List.append_assoc]
          exact .inr hclear
      · rintro ⟨pre, d, post, heq, hset, hkept⟩
        rcases List.eq_nil_or_concat post with rfl | ⟨post, e', rfl⟩
        · obtain ⟨rfl, hone⟩ := List.append_inj' heq rfl
          obtain rfl := List.singleton_inj.1 hone
          exact .inl hset
        · rw [List.concat_eq_append, ← List.cons_append, ← List.append_assoc] at heq
          obtain ⟨rfl, hone⟩ := List.append_inj' heq rfl
          obtain rfl := List.singleton_inj.1 hone
          rw [List.concat_eq_append, along_append] at hkept
          obtain ⟨hkept, hclear, -⟩ := hkept
          rw [← exec_append, List.append_assoc] at hclear
          exact hclear.imp_right fun hclear ↦ ⟨⟨pre, d, post, rfl, hset, hkept⟩, hclear⟩

end Flag

/-! ## What a machine takes -/

section Taken

variable {α : Type*} (take : S → E → Option α)

/-- What a run takes. -/
def taken : S → List E → List α
  | _, [] => []
  | s, e :: es => (take s e).toList ++ taken (step s e) es

@[simp] theorem taken_nil (s : S) : taken step take s [] = [] := rfl

theorem taken_append (s : S) (es fs : List E) :
    taken step take s (es ++ fs) = taken step take s es ++ taken step take (exec step s es) fs := by
  induction es generalizing s with
  | nil => rfl
  | cons e es ih => rw [List.cons_append, taken, ih, taken, List.append_assoc, exec_cons]

theorem taken_concat (s : S) (es : List E) (e : E) :
    taken step take s (es ++ [e]) = taken step take s es ++ (take (exec step s es) e).toList := by
  rw [taken_append, taken, taken_nil, List.append_nil]

variable {step out take}

/-- **The rule of transducers.**  A relation between what was taken, what was sent and the state
holds over a run if each step carries it on. -/
theorem transduce {R : List α → List β → S → Prop}
    (hstep : ∀ xs ys s e, R xs ys s →
      R (xs ++ (take s e).toList) (ys ++ (out (step s e)).toList) (step s e))
    {xs : List α} {ys : List β} {s : S} (h : R xs ys s) (es : List E) :
    R (xs ++ taken step take s es) (ys ++ emitted step out s es) (exec step s es) := by
  induction es generalizing xs ys s with
  | nil => simpa using h
  | cons e es ih =>
      have hnext := ih (hstep xs ys s e h)
      rwa [List.append_assoc, List.append_assoc] at hnext

/-- A relation between what was sent and the state holds over a run if each step carries it on. -/
theorem track {R : List β → S → Prop}
    (hstep : ∀ ys s e, R ys s → R (ys ++ (out (step s e)).toList) (step s e))
    {ys : List β} {s : S} (h : R ys s) (es : List E) :
    R (ys ++ emitted step out s es) (exec step s es) := by
  induction es generalizing ys s with
  | nil => simpa using h
  | cons e es ih =>
      have hnext := ih (hstep ys s e h)
      rwa [List.append_assoc] at hnext

end Taken

end TetraPhy.Run
