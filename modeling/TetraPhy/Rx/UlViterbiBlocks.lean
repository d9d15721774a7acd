import TetraPhy.Rx.UlViterbiVariants

/-!
# Blocks through the uplink Viterbi decoders

What goes in is a sequence of blocks, each followed by the cycles that the decoder is busy with it
(`Presents`).  The number of stages is held while a block is under way; between the symbols there
may be any number of cycles without one, and what the soft inputs show while the decoder is busy
is not looked at.

`Decodes` says what a decoder does with one block.  Each of the two comes back to rest when its
busy cycles are over, and has then sent what the traceback found.
-/

namespace TetraPhy.Rx

open Codec Survivor Run

attribute [local instance] neZeroViterbi neZeroSymbols

variable {w maxStages : ℕ}

/-- A block; the number of its stages fits the port. -/
structure SymbolBlock (w maxStages : ℕ) where
  symbols : List (Fin 4 → BitVec w)
  long : 4 < symbols.length
  fits : symbols.length ≤ maxStages
  counted : symbols.length < 512

/-- What `num_stages` says. -/
def SymbolBlock.numStages (b : SymbolBlock w maxStages) : BitVec 9 := BitVec.ofNat 9 b.symbols.length

theorem SymbolBlock.toNat_numStages (b : SymbolBlock w maxStages) :
    b.numStages.toNat = b.symbols.length := by
  rw [numStages, BitVec.toNat_ofNat]
  exact Nat.mod_eq_of_lt b.counted

/-- The cycles in which the symbols of a block come in. -/
inductive Loads (n : BitVec 9) : List (Fin 4 → BitVec w) → List (UlViterbiIn w) → Prop
  | last {i : UlViterbiIn w} (hv : i.inputValid = true) (hn : i.numStages = n) : Loads n [i.soft] [i]
  | symbol {i : UlViterbiIn w} {softs : List (Fin 4 → BitVec w)} {is : List (UlViterbiIn w)}
      (hv : i.inputValid = true) (hn : i.numStages = n) (rest : Loads n softs is) :
      Loads n (i.soft :: softs) (i :: is)
  | gap {i : UlViterbiIn w} {softs : List (Fin 4 → BitVec w)} {is : List (UlViterbiIn w)}
      (hv : i.inputValid = false) (hn : i.numStages = n) (rest : Loads n softs is) :
      Loads n softs (i :: is)

/-- The cycles in which a sequence of blocks comes in. -/
inductive Presents (busy : ℕ → ℕ) : List (SymbolBlock w maxStages) → List (UlViterbiIn w) → Prop
  | nil : Presents busy [] []
  | wait {i : UlViterbiIn w} {blocks : List (SymbolBlock w maxStages)} {is : List (UlViterbiIn w)}
      (hv : i.inputValid = false) (rest : Presents busy blocks is) :
      Presents busy blocks (i :: is)
  | block {b : SymbolBlock w maxStages} {load hold : List (UlViterbiIn w)}
      {blocks : List (SymbolBlock w maxStages)} {is : List (UlViterbiIn w)}
      (hload : Loads b.numStages b.symbols load)
      (hlen : hold.length = busy b.symbols.length)
      (hn : ∀ i ∈ hold, i.numStages = b.numStages) (rest : Presents busy blocks is) :
      Presents busy (b :: blocks) (load ++ hold ++ is)

/-- A block without gaps, and quiet cycles after it. -/
def SymbolBlock.feed (busy : ℕ → ℕ) (b : SymbolBlock w maxStages) : List (UlViterbiIn w) :=
  b.symbols.map (fun soft ↦ ⟨soft, true, b.numStages⟩) ++
    List.replicate (busy b.symbols.length) ⟨fun _ ↦ 0, false, b.numStages⟩

theorem loads_map (n : BitVec 9) {softs : List (Fin 4 → BitVec w)} (h : softs ≠ []) :
    Loads n softs (softs.map fun soft ↦ ⟨soft, true, n⟩) := by
  induction softs with
  | nil => exact absurd rfl h
  | cons soft softs ih =>
      cases softs with
      | nil => exact Loads.last (i := ⟨soft, true, n⟩) rfl rfl
      | cons soft' softs => exact Loads.symbol (i := ⟨soft, true, n⟩) rfl rfl (ih (List.cons_ne_nil _ _))

/-- Any sequence of blocks can come in. -/
theorem presents_feed (busy : ℕ → ℕ) (blocks : List (SymbolBlock w maxStages)) :
    Presents busy blocks (blocks.flatMap (SymbolBlock.feed busy)) := by
  induction blocks with
  | nil => exact Presents.nil
  | cons b blocks ih =>
      have hne : b.symbols ≠ [] := fun hnil ↦ by
        have hlong := b.long
        rw [hnil, List.length_nil] at hlong
        omega
      rw [List.flatMap_cons, SymbolBlock.feed]
      refine Presents.block (loads_map b.numStages hne) List.length_replicate ?_ ih
      intro i hi
      rw [List.eq_of_mem_replicate hi]

/-- A decoder for blocks. -/
structure Decodes {S : Type} (maxStages : ℕ) (busy : ℕ → ℕ) (step : S → UlViterbiIn w → S)
    (out : S → Option Bool) (rest : S → Prop) : Prop where
  wait : ∀ {s i}, rest s → i.inputValid = false → rest (step s i) ∧ out (step s i) = none
  block : ∀ {s} (b : SymbolBlock w maxStages) {load hold}, rest s →
    Loads b.numStages b.symbols load → hold.length = busy b.symbols.length →
    (∀ i ∈ hold, i.numStages = b.numStages) →
    rest (exec step s (load ++ hold)) ∧ emitted step out s (load ++ hold) = decoded b.symbols

/-- It decodes a sequence of them. -/
theorem Decodes.exec {S : Type} {busy : ℕ → ℕ} {step : S → UlViterbiIn w → S}
    {out : S → Option Bool} {rest : S → Prop} (h : Decodes maxStages busy step out rest)
    {blocks : List (SymbolBlock w maxStages)} {is : List (UlViterbiIn w)}
    (hp : Presents busy blocks is) {s : S} (hs : rest s) :
    rest (exec step s is) ∧ emitted step out s is = blocks.flatMap fun b ↦ decoded b.symbols := by
  induction hp generalizing s with
  | nil => exact ⟨hs, rfl⟩
  | wait hv _ ih =>
      obtain ⟨hrest, hout⟩ := h.wait hs hv
      rw [emitted_cons_of_none hout]
      exact ih hrest
  | block hload hlen hn _ ih =>
      obtain ⟨hrest, hout⟩ := h.block _ hs hload hlen hn
      obtain ⟨hend, hemit⟩ := ih hrest
      rw [exec_append, emitted_append, hout, hemit]
      exact ⟨hend, rfl⟩

/-! ## One block -/

theorem decoded_eq_take (softs : List (Fin 4 → BitVec w)) :
    (r14.traceback 0 (decisions pmInit softs)).2.take ((decisions pmInit softs).length - 4) =
      decoded softs := by
  rw [length_decisions]
  rfl

theorem Loads.length_pos {n : BitVec 9} {softs : List (Fin 4 → BitVec w)}
    {is : List (UlViterbiIn w)} (h : Loads n softs is) : 0 < softs.length := by
  induction h with
  | last => exact Nat.one_pos
  | symbol => exact Nat.succ_pos _
  | gap _ _ _ ih => exact ih

/-- **The symbols come in**, for a decoder that goes along with the flops meanwhile. -/
theorem Loads.exec {S : Type} (core : S → UlViterbiR14) (step : S → UlViterbiIn w → S)
    (hfront : ∀ {s i}, (core s).state = .idle ∨ (core s).state = .acs →
      core (step s i) = (core s).step maxStages i)
    {n : BitVec 9} {softs : List (Fin 4 → BitVec w)} {is : List (UlViterbiIn w)}
    (h : Loads n softs is) {taken : List (Fin 4 → BitVec w)} {s : S}
    (hs : (core s).Loading taken) (hn : n.toNat = (taken ++ softs).length) (hlong : 1 < n.toNat)
    (hmax : n.toNat ≤ maxStages) :
    (core (exec step s is)).Loaded (decisions pmInit (taken ++ softs)) ∧
      emitted step (fun s ↦ (core s).sent) s is = [] := by
  have hsilent : ∀ {i} {taken : List (Fin 4 → BitVec w)} {s}, (core s).Loading taken →
      (core (step s i)).sent = none := fun {i} {_} {_} hs ↦ by
    rw [hfront hs.front]
    exact UlViterbiR14.sent_of_front hs.state_ne
  induction h generalizing taken s with
  | last hv hi =>
      rw [emitted_cons_of_none (hsilent hs), exec_cons, exec_nil, hfront hs.front]
      rw [List.length_append, List.length_singleton] at hn
      subst hi
      have hne : taken ≠ [] := fun hnil ↦ by
        rw [hnil, List.length_nil] at hn
        omega
      exact ⟨hs.step_last hv hne hn.symm hmax, rfl⟩
  | @symbol i softs is hv hi rest ih =>
      rw [emitted_cons_of_none (hsilent hs), exec_cons, List.append_cons]
      rw [List.append_cons] at hn
      have hpos := rest.length_pos
      have hnext : (core (step s i)).Loading (taken ++ [i.soft]) := by
        rw [hfront hs.front]
        subst hi
        refine hs.step_symbol hv ?_ hmax
        rw [hn, List.length_append, List.length_append, List.length_singleton]
        omega
      exact ih hnext hn
  | gap hv hi rest ih =>
      rw [emitted_cons_of_none (hsilent hs), exec_cons]
      refine ih ?_ hn
      rw [hfront hs.front]
      exact hs.step_quiet hv

/-- The decisions of a block and what the memory says of it. -/
theorem SymbolBlock.length_decisions (b : SymbolBlock w maxStages) :
    (decisions pmInit b.symbols).length = b.numStages.toNat := by
  rw [Rx.length_decisions, b.toNat_numStages]

theorem SymbolBlock.loads {S : Type} (core : S → UlViterbiR14) (step : S → UlViterbiIn w → S)
    (hfront : ∀ {s i}, (core s).state = .idle ∨ (core s).state = .acs →
      core (step s i) = (core s).step maxStages i)
    (b : SymbolBlock w maxStages) {load : List (UlViterbiIn w)} {s : S} (hs : (core s).AtRest)
    (hload : Loads b.numStages b.symbols load) :
    (core (exec step s load)).Loaded (decisions pmInit b.symbols) ∧
      emitted step (fun s ↦ (core s).sent) s load = [] := by
  have hlong := b.long
  refine hload.exec core step hfront hs.loading b.toNat_numStages ?_ ?_
  · rw [b.toNat_numStages]
    omega
  · rw [b.toNat_numStages]
    exact b.fits

namespace UlViterbiR14

/-- The cycles after the last symbol: one to turn round, one for each stage back, and one for
each bit. -/
def busy (n : ℕ) : ℕ := 1 + n + (n - 4)

variable {d : UlViterbiR14} {i : UlViterbiIn w}

theorem AtRest.step_quiet (h : d.AtRest) (hv : i.inputValid = false) :
    (d.step maxStages i).AtRest := by
  rw [step_of_quiet (Or.inl h.state) hv]
  exact ⟨h.state, h.cnt, h.pm⟩

theorem sent_of_atRest (h : d.AtRest) : (d.step maxStages i).sent = none :=
  sent_of_front (by rw [h.state]; exact UlViterbiState.noConfusion)

theorem sent_tbInit (h : d.state = .tbInit) : (d.step maxStages i).sent = none :=
  sent_of_front (by rw [h]; exact UlViterbiState.noConfusion)

theorem sent_tracing {ds : List (State → Bool)} {m : ℕ} (h : d.Tracing ds (m + 1)) :
    (d.step maxStages i).sent = none :=
  sent_of_front (by rw [h.state, if_neg (Nat.succ_ne_zero m)]; exact UlViterbiState.noConfusion)

/-- Nothing is left to send. -/
theorem Sending.atRest {bits : List Bool} (h : d.Sending bits []) (hpm : d.pm = pmInit) :
    d.AtRest where
  state := h.state
  cnt := BitVec.eq_of_toNat_eq h.cnt
  pm := hpm

end UlViterbiR14

theorem SymbolBlock.length_decisions_le (b : SymbolBlock w maxStages) :
    (decisions pmInit b.symbols).length ≤ maxStages := by
  rw [b.length_decisions, b.toNat_numStages]
  exact b.fits

theorem SymbolBlock.decisions_ne_nil (b : SymbolBlock w maxStages) : decisions pmInit b.symbols ≠ [] := by
  intro hnil
  have hlen := b.length_decisions
  have hlong := b.long
  rw [hnil, List.length_nil, b.toNat_numStages] at hlen
  omega

/-- All stages are done. -/
theorem SymbolBlock.sending (b : SymbolBlock w maxStages) {d : UlViterbiR14}
    (h : d.Tracing (decisions pmInit b.symbols) 0) :
    d.Sending (decoded b.symbols) (decoded b.symbols) := by
  have hlong := b.long
  have hsend := h.sending (by rw [b.length_decisions, b.toNat_numStages]; exact hlong)
  rwa [decoded_eq_take] at hsend

theorem length_decoded (softs : List (Fin 4 → BitVec w)) :
    (decoded softs).length = softs.length - 4 := by
  have hlen : ∀ (t : State) (ds : List (State → Bool)),
      (r14.traceback t ds).2.length = ds.length := by
    intro t ds
    induction ds with
    | nil => rfl
    | cons d ds ih => rw [ShiftRegister.traceback_cons, List.length_cons, ih, List.length_cons]
  rw [decoded, tracedBits, List.length_take, hlen, length_decisions]
  exact Nat.min_eq_left (Nat.sub_le _ _)

theorem SymbolBlock.numStages_eq (b : SymbolBlock w maxStages) :
    b.numStages.toNat = (decoded b.symbols).length + 4 := by
  have hlong := b.long
  rw [b.toNat_numStages, length_decoded]
  omega

theorem SymbolBlock.decoded_ne_nil (b : SymbolBlock w maxStages) : decoded b.symbols ≠ [] := by
  intro hnil
  have hlen := length_decoded b.symbols
  have hlong := b.long
  rw [hnil, List.length_nil] at hlen
  omega

/-- The busy cycles. -/
theorem exists_split {i : List (UlViterbiIn w)} {a c : ℕ} (h : i.length = 1 + a + c) :
    ∃ turn back send, i = turn :: (back ++ send) ∧ back.length = a ∧ send.length = c := by
  obtain ⟨turn, i, rfl⟩ := List.exists_cons_of_length_eq_add_one (n := a + c) (l := i) (by omega)
  rw [List.length_cons] at h
  refine ⟨turn, i.take a, i.drop a, by rw [List.take_append_drop], ?_, ?_⟩
  · rw [List.length_take]
    omega
  · rw [List.length_drop]
    omega

namespace UlViterbiR14

variable {d : UlViterbiR14} {is : List (UlViterbiIn w)}

/-- The way back. -/
theorem exec_tracing {ds : List (State → Bool)} (h : d.Tracing ds is.length)
    (hn : ∀ i ∈ is, i.numStages.toNat = ds.length) (hmax : ds.length ≤ maxStages) :
    (exec (step maxStages) d is).Tracing ds 0 ∧ emitted (step maxStages) sent d is = [] :=
  silent (step maxStages) sent (fun _ _ _ hi h ↦ ⟨h.step hi hmax, sent_tracing h⟩) hn h

/-- The output. -/
theorem exec_sending {bits xs : List Bool} (h : d.Sending bits xs) (hne : xs ≠ [])
    (hlen : is.length = xs.length) (hn : ∀ i ∈ is, i.numStages.toNat = bits.length + 4) :
    (exec (step maxStages) d is).AtRest ∧ emitted (step maxStages) sent d is = xs := by
  obtain ⟨⟨hsent, hpm⟩, hbits⟩ := sending (step maxStages) sent
    (P := fun xs d ↦ Sending bits xs d ∧ (xs = [] → d.pm = pmInit))
    (fun x xs d i hi h ↦ by
      obtain ⟨hstep, hout, hpm⟩ := h.1.step hi
      exact ⟨⟨hstep, hpm⟩, hout⟩)
    hlen hn ⟨h, fun hnil ↦ absurd hnil hne⟩
  exact ⟨hsent.atRest (hpm rfl), hbits⟩

/-- **The decoder with flops decodes blocks.** -/
theorem decodes : Decodes maxStages busy (step (w := w) maxStages) sent AtRest where
  wait h hv := ⟨h.step_quiet hv, sent_of_atRest h⟩
  block := by
    intro d b load hold hd hload hlen hn
    obtain ⟨turn, back, send, rfl, hback, hsend⟩ := exists_split hlen
    obtain ⟨hturn, hn⟩ := List.forall_mem_cons.1 hn
    rw [List.forall_mem_append] at hn
    obtain ⟨hloaded, hfront⟩ := b.loads id (step maxStages) (fun _ ↦ rfl) hd hload
    change (exec (step maxStages) d load).Loaded _ at hloaded
    change emitted (step maxStages) sent d load = [] at hfront
    have htracing : ((exec (step maxStages) d load).step maxStages turn).Tracing
        (decisions pmInit b.symbols) back.length := by
      rw [hback, ← length_decisions pmInit b.symbols]
      exact hloaded.step b.decisions_ne_nil
    obtain ⟨htraced, hmid⟩ := exec_tracing htracing
      (fun i hi ↦ by rw [hn.1 i hi, b.length_decisions]) b.length_decisions_le
    obtain ⟨hrest, hbits⟩ := exec_sending (b.sending htraced)
      b.decoded_ne_nil (by rw [hsend, length_decoded])
      (fun i hi ↦ by rw [hn.2 i hi, b.numStages_eq])
    rw [exec_append, emitted_append, exec_cons, emitted_cons_of_none (sent_tbInit hloaded.state),
      exec_append, emitted_append, hfront, hmid, hbits]
    exact ⟨hrest, rfl⟩

end UlViterbiR14

namespace UlViterbiR14Bram

/-- The same, with two cycles for each stage back. -/
def busy (n : ℕ) : ℕ := 1 + 2 * n + (n - 4)

variable {b : UlViterbiR14Bram} {i j : UlViterbiIn w} {is : List (UlViterbiIn w)}

/-- What holds of the flops from the way back on, with the metrics reset and no read under way. -/
structure Steady (P : UlViterbiR14 → Prop) (b : UlViterbiR14Bram) : Prop where
  core : P b.toUlViterbiR14
  tbPhase : b.tbPhase = false
  pm : b.pm = pmInit

theorem step_pm (h : b.state = .traceback ∨ b.state = .output) :
    (b.step maxStages i).pm = b.pm := by
  obtain hs | hs := h <;> simp [step, hs, UlViterbiR14.taking]

theorem sent_step_core (h : b.state ≠ .traceback) :
    (b.step maxStages i).sent = (b.toUlViterbiR14.step maxStages i).sent := by
  rw [sent, step_core h]
  rfl

theorem step_tbInit {ds : List (State → Bool)} (h : b.toUlViterbiR14.Loaded ds) (hds : ds ≠ []) :
    Steady (UlViterbiR14.Tracing ds ds.length) (b.step maxStages i) := by
  have hs : b.state = .tbInit := h.state
  have hcore : (b.toUlViterbiR14.step maxStages i).Tracing ds ds.length := h.step hds
  refine ⟨?_, ?_, ?_⟩
  · rw [step_core (by rw [hs]; exact UlViterbiState.noConfusion)]
    exact ⟨hcore.le, hcore.state, hcore.cnt, hcore.surv, hcore.tbState, hcore.outBuf⟩
  · rw [step, hs]
  · rw [step, if_pos hs]

/-- **One stage back takes two cycles.** -/
theorem step_step_tracing {ds : List (State → Bool)} {m : ℕ}
    (h : Steady (UlViterbiR14.Tracing ds (m + 1)) b) (hi : i.numStages.toNat = ds.length)
    (hj : j.numStages.toNat = ds.length) (hmax : ds.length ≤ maxStages) :
    Steady (UlViterbiR14.Tracing ds m) ((b.step maxStages i).step maxStages j) ∧
      (b.step maxStages i).sent = none ∧
      ((b.step maxStages i).step maxStages j).sent = none := by
  have hs : b.state = .traceback := by rw [h.core.state, if_neg (Nat.succ_ne_zero m)]
  have hn : j.numStages = i.numStages := BitVec.eq_of_toNat_eq (hj.trans hi.symm)
  obtain ⟨hcore, hphase⟩ : ((b.step maxStages i).step maxStages j).toUlViterbiR14 =
      b.toUlViterbiR14.step maxStages j ∧ ((b.step maxStages i).step maxStages j).tbPhase = false :=
    step_step_core hs h.tbPhase hn
  have hread : b.step maxStages i = _ := step_read hs h.tbPhase
  refine ⟨⟨?_, hphase, ?_⟩, ?_, ?_⟩
  · rw [hcore]
    exact h.core.step hj hmax
  · have hs' : (b.step maxStages i).state = .traceback := by rw [hread]; exact hs
    rw [step_pm (Or.inl hs'), step_pm (Or.inl hs), h.pm]
  · rw [hread]
    rfl
  · rw [sent, hcore]
    exact UlViterbiR14.sent_tracing h.core

/-- **One bit out.** -/
theorem step_sending {bits xs : List Bool} {x : Bool}
    (h : Steady (UlViterbiR14.Sending bits (x :: xs)) b)
    (hn : i.numStages.toNat = bits.length + 4) :
    Steady (UlViterbiR14.Sending bits xs) (b.step maxStages i) ∧
      (b.step maxStages i).sent = some x := by
  have hs : b.state = .output := by rw [h.core.state, if_neg (List.cons_ne_nil x xs)]
  have hne : b.state ≠ .traceback := by rw [hs]; exact UlViterbiState.noConfusion
  obtain ⟨hcore, hout, -⟩ : (b.toUlViterbiR14.step maxStages i).Sending bits xs ∧
      (b.toUlViterbiR14.step maxStages i).sent = some x ∧ _ := h.core.step hn
  refine ⟨⟨?_, ?_, ?_⟩, ?_⟩
  · rw [step_core hne]
    exact ⟨hcore.state, hcore.cnt, hcore.outBuf, hcore.isSuffix⟩
  · rw [step, hs]
    exact h.tbPhase
  · rw [step_pm (Or.inr hs), h.pm]
  · rw [sent_step_core hne, hout]

theorem exec_tracing {ds : List (State → Bool)} (h : Steady (UlViterbiR14.Tracing ds ds.length) b)
    (hlen : is.length = 2 * ds.length) (hn : ∀ i ∈ is, i.numStages.toNat = ds.length)
    (hmax : ds.length ≤ maxStages) :
    Steady (UlViterbiR14.Tracing ds 0) (exec (step maxStages) b is) ∧
      emitted (step maxStages) sent b is = [] :=
  silent_pairs (step maxStages) sent
    (P := fun m ↦ Steady (UlViterbiR14.Tracing ds m))
    (fun _ _ _ _ hi hj h ↦ step_step_tracing h hi hj hmax) hlen hn h

theorem exec_sending {bits xs : List Bool} (h : Steady (UlViterbiR14.Sending bits xs) b)
    (hlen : is.length = xs.length) (hn : ∀ i ∈ is, i.numStages.toNat = bits.length + 4) :
    Steady UlViterbiR14.AtRest (exec (step maxStages) b is) ∧
      emitted (step maxStages) sent b is = xs := by
  obtain ⟨hsent, hbits⟩ := sending (step maxStages) sent
    (P := fun xs ↦ Steady (UlViterbiR14.Sending bits xs))
    (fun _ _ _ _ hi h ↦ step_sending h hi) hlen hn h
  exact ⟨⟨hsent.core.atRest hsent.pm, hsent.tbPhase, hsent.pm⟩, hbits⟩

/-- Between blocks. -/
def AtRest (b : UlViterbiR14Bram) : Prop := b.toUlViterbiR14.AtRest

/-- **The decoder with the memory decodes blocks.** -/
theorem decodes : Decodes maxStages busy (step (w := w) maxStages) sent AtRest where
  wait := by
    intro b i h hv
    have hcore : (b.step maxStages i).toUlViterbiR14 = _ := step_core_of_front (Or.inl h.state)
    rw [AtRest, sent, hcore]
    exact ⟨h.step_quiet hv, UlViterbiR14.sent_of_atRest h⟩
  block := by
    intro d b load hold hd hload hlen hn
    obtain ⟨turn, back, send, rfl, hback, hsend⟩ := exists_split hlen
    obtain ⟨hturn, hn⟩ := List.forall_mem_cons.1 hn
    rw [List.forall_mem_append] at hn
    obtain ⟨hloaded, hfront⟩ := b.loads toUlViterbiR14 (step maxStages) step_core_of_front hd hload
    have htracing : Steady (UlViterbiR14.Tracing _ _)
        ((exec (step maxStages) d load).step maxStages turn) :=
      step_tbInit hloaded b.decisions_ne_nil
    obtain ⟨htraced, hmid⟩ := exec_tracing htracing (by rw [hback, length_decisions])
      (fun i hi ↦ by rw [hn.1 i hi, b.length_decisions]) b.length_decisions_le
    have hsending : Steady (UlViterbiR14.Sending (decoded b.symbols) (decoded b.symbols)) _ :=
      ⟨b.sending htraced.core, htraced.tbPhase, htraced.pm⟩
    obtain ⟨hrest, hbits⟩ := exec_sending hsending (by rw [hsend, length_decoded])
      (fun i hi ↦ by rw [hn.2 i hi, b.numStages_eq])
    have hturned : ((exec (step maxStages) d load).step maxStages turn).sent = none := by
      rw [sent_step_core (by rw [hloaded.state]; exact UlViterbiState.noConfusion)]
      exact UlViterbiR14.sent_tbInit hloaded.state
    rw [exec_append, emitted_append, exec_cons, emitted_cons_of_none hturned, exec_append,
      emitted_append, hfront, hmid, hbits]
    exact ⟨hrest.core, rfl⟩

end UlViterbiR14Bram

/-! ## The two decoders -/

/-- **The two decoders agree, and are optimal.**  From rest, and whatever their memories hold,
each sends for a sequence of blocks the decoded bits of each block in turn, and comes to rest
again; and where the accumulated cost cannot reach the metric of "no path", the bits of a block
and the tail label a path from state 0 to state 0 of minimum cost. -/
theorem ulViterbi_agree (hw : w + 2 ≤ 16) {d : UlViterbiR14} {b : UlViterbiR14Bram} (hd : d.AtRest)
    (hb : b.AtRest) {blocks : List (SymbolBlock w maxStages)} {is js : List (UlViterbiIn w)}
    (his : Presents UlViterbiR14.busy blocks is) (hjs : Presents UlViterbiR14Bram.busy blocks js) :
    emitted (UlViterbiR14Bram.step maxStages) UlViterbiR14Bram.sent b js =
        emitted (UlViterbiR14.step maxStages) UlViterbiR14.sent d is ∧
      emitted (UlViterbiR14.step maxStages) UlViterbiR14.sent d is =
        (blocks.flatMap fun block ↦ decoded block.symbols) ∧
      (exec (UlViterbiR14.step maxStages) d is).AtRest ∧
      (exec (UlViterbiR14Bram.step maxStages) b js).AtRest ∧
      ∀ block ∈ blocks, CannotReach block.symbols →
        MinimumCost block.symbols (decoded block.symbols ++ [false, false, false, false]) := by
  obtain ⟨hdrest, hdsent⟩ := UlViterbiR14.decodes.exec his hd
  obtain ⟨hbrest, hbsent⟩ := UlViterbiR14Bram.decodes.exec hjs hb
  rw [hdsent]
  refine ⟨hbsent, rfl, hdrest, hbrest, fun block _ hcost ↦ ?_⟩
  exact minimumCost_decoded hw (Nat.le_of_lt block.long) hcost

/-- Five stages of a strong bit one, as three bits of resolution have it. -/
def loudBlock : SymbolBlock 3 436 where
  symbols := List.replicate 5 fun _ ↦ 7
  long := by decide
  fits := by decide
  counted := by decide

/-- Twice in a row. -/
theorem ulViterbi_agree_loud :
    emitted (UlViterbiR14Bram.step 436) UlViterbiR14Bram.sent {}
        ([loudBlock, loudBlock].flatMap (SymbolBlock.feed UlViterbiR14Bram.busy)) = [true, true] ∧
      MinimumCost loudBlock.symbols [true, false, false, false, false] := by
  have hrest : ({} : UlViterbiR14).AtRest := ⟨rfl, rfl, rfl⟩
  have hrest' : ({} : UlViterbiR14Bram).AtRest := hrest
  obtain ⟨hsame, hsent, -, -, hmin⟩ := ulViterbi_agree (by decide) hrest hrest'
    (presents_feed UlViterbiR14.busy [loudBlock, loudBlock])
    (presents_feed UlViterbiR14Bram.busy [loudBlock, loudBlock])
  have hdecoded : decoded loudBlock.symbols = [true] := by decide +kernel
  have hbest := hmin loudBlock (List.mem_cons_self ..) (cannotReach_of_lt (by decide))
  rw [hdecoded] at hbest
  refine ⟨hsame.trans (hsent.trans ?_), hbest⟩
  rw [List.flatMap_cons, List.flatMap_cons, List.flatMap_nil, hdecoded]
  rfl

end TetraPhy.Rx
