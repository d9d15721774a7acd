import TetraPhy.Lib.Run
import TetraPhy.Tx.BurstBuilder

/-!
# The continuous downlink

The burst builder over whole runs: which dibits go out of `tetra_burst_builder.v` for which build
requests, the requests coming one slot, 255 symbols, apart.

A request that finds the builder busy waits in a shadow register, and a burst that ends with one
waiting is followed by it without a gap.  `tx_busy` however falls two cycles after the last symbol, so
there are two cycles in which a request is put into the shadow and nothing takes it out again: that
of the last symbol itself and the one behind it, S_DONE.  `closing` are these two.

* `Phase` — what the builder is doing, without its registers, and `Holds`, which registers that is;
* `holds_step` — the builder goes from phase to phase as it is meant to, as long as a request finds
  the builder `Free`;
* `Timed` — how far apart requests keep the phases, so that only `closing` is left to avoid;
* **`continuous_iff`** — the downlink is continuous exactly in the runs with no request in a closing
  cycle.
-/

namespace TetraPhy.Tx

/-- The symbols of a burst, in the order they are sent. -/
def dibits (x : BitVec 510) : List (BitVec 2) :=
  (List.range 255).map fun j ↦ x.extractLsb' (508 - 2 * j) 2

@[simp] theorem length_dibits (x : BitVec 510) : (dibits x).length = 255 := by simp [dibits]

/-- The shift register: the symbol that is sent, and those behind it. -/
theorem take_dibits (x : BitVec 510) {k : ℕ} (hk : k ≤ 254) :
    (dibits x).take (k + 1) = x.extractLsb' 508 2 :: (dibits (x <<< 2)).take k := by
  have hshift : ∀ j < 254, x.extractLsb' (508 - 2 * (j + 1)) 2 =
      (x <<< 2).extractLsb' (508 - 2 * j) 2 := by
    intro j hj
    refine BitVec.eq_of_getLsbD_eq fun i hi ↦ ?_
    have hpos : 508 - 2 * j + i - 2 = 508 - 2 * (j + 1) + i := by omega
    have hlt : 508 - 2 * j + i < 510 := by omega
    have hge : ¬ 508 - 2 * j + i < 2 := by omega
    rw [BitVec.getLsbD_extractLsb', BitVec.getLsbD_extractLsb', BitVec.getLsbD_shiftLeft, hpos]
    simp only [hlt, hge, decide_true, decide_false, Bool.not_false, Bool.true_and]
  rw [dibits, dibits, ← List.map_take, ← List.map_take, List.take_range, List.take_range,
    Nat.min_eq_left (by omega), Nat.min_eq_left (by omega), List.range_succ_eq_map, List.map_cons,
    List.map_map]
  refine congrArg (_ :: ·) (List.map_congr_left fun j hj ↦ ?_)
  exact hshift j (by have := List.mem_range.1 hj; omega)

/-! ## What the builder is doing -/

/-- The phases of the builder: nothing to do, a burst is loaded, `n` symbols of it are sent and
perhaps another burst waits, the last one is sent. -/
inductive Phase
  | quiet
  | start (x : BitVec 510)
  | send (n : ℕ) (x : BitVec 510) (waiting : Option (BitVec 510))
  | ended

namespace Phase

/-- A cycle, with its symbol enable and its request. -/
def next (symEn : Bool) (r : Option (BitVec 510)) : Phase → Phase
  | quiet => match r with
      | none => quiet
      | some x => start x
  | start x => if symEn then send 0 x none else start x
  | send n x waiting =>
      if symEn then
        if n = 254 then match waiting with
          | none => ended
          | some y => send 0 y r
        else send (n + 1) (x <<< 2) (r.or waiting)
      else send n x (r.or waiting)
  | ended => quiet

/-- The symbol that is sent in a cycle. -/
def out (symEn : Bool) : Phase → List (BitVec 2)
  | send _ x _ => if symEn then [x.extractLsb' 508 2] else []
  | _ => []

/-- What is still to be sent. -/
def owed : Phase → List (BitVec 2)
  | quiet => []
  | start x => dibits x
  | send n x waiting => (dibits x).take (255 - n) ++ waiting.toList.flatMap dibits
  | ended => []

/-- A request is taken: it neither falls between two bursts nor drives out one that waits. -/
def Free (symEn : Bool) : Phase → Prop
  | quiet => True
  | start _ => False
  | send n _ waiting => if symEn = true ∧ n = 254 then waiting.isSome else waiting = none
  | ended => False

/-- **Nothing is lost and nothing is sent twice** as long as requests find the builder free. -/
theorem owed_next {p : Phase} {symEn : Bool} {r : Option (BitVec 510)}
    (hn : ∀ n x w, p = send n x w → n ≤ 254) (hfree : r.isSome → p.Free symEn) :
    p.out symEn ++ (p.next symEn r).owed = p.owed ++ r.toList.flatMap dibits := by
  cases p with
  | quiet => cases r <;> simp [next, out, owed]
  | start x =>
      cases r with
      | none =>
          have htake : (dibits x).take 255 = dibits x :=
            List.take_of_length_le (Nat.le_of_eq (length_dibits x))
          cases symEn <;> simp [next, out, owed, htake]
      | some y => exact (hfree rfl).elim
  | ended =>
      cases r with
      | none => rfl
      | some y => exact (hfree rfl).elim
  | send n x w =>
      have hn := hn n x w rfl
      cases symEn with
      | false =>
          cases r with
          | none => simp [next, out, owed]
          | some y =>
              have hw : w = none := by simpa [Free] using hfree rfl
              simp [next, out, owed, hw]
      | true =>
          have hone : (dibits x).take (255 - n) =
              x.extractLsb' 508 2 :: (dibits (x <<< 2)).take (255 - (n + 1)) := by
            rw [show 255 - n = 255 - (n + 1) + 1 by omega]
            exact take_dibits x (by omega)
          by_cases hlast : n = 254
          · subst hlast
            cases w with
            | none =>
                cases r with
                | none => simp [next, out, owed, hone]
                | some y => exact absurd (hfree rfl) (by simp [Free])
            | some z =>
                have htake : (dibits z).take 255 = dibits z :=
                  List.take_of_length_le (Nat.le_of_eq (length_dibits z))
                simp [next, out, owed, hone, htake]
          · cases r with
            | none => simp [next, out, owed, hone, hlast]
            | some y =>
                have hw : w = none := by simpa [Free, hlast] using hfree rfl
                simp [next, out, owed, hone, hlast, hw]

end Phase

/-! ## The registers -/

/-- The request of a cycle. -/
def BurstDispatcher.request (d : BurstDispatcher) : Option (BitVec 510) :=
  if d.buildReq then some d.burst else none

namespace BurstBuilder

variable {b : BurstBuilder} {symEnExt : Bool} {req : BurstDispatcher} {p : Phase}

/-- The registers of a phase. -/
def Holds (b : BurstBuilder) : Phase → Prop
  | .quiet => b.state = .idle ∧ b.txBusy = false ∧ b.chainPending = false
  | .start x => b.state = .idle ∧ b.txBusy = true ∧ b.buildReqPending = true ∧
      b.chainPending = false ∧ b.burstSreg = x
  | .send n x waiting => b.state = .shift ∧ b.txBusy = true ∧ b.symCnt.toNat = n ∧
      b.burstSreg = x ∧ b.chainPending = waiting.isSome ∧ ∀ y, waiting = some y → b.chainBurst = y
  | .ended => b.state = .done ∧ b.txBusy = true ∧ b.chainPending = false

/-- The builder is about to be idle, but busy: the last symbol goes out and nothing waits, or
it has gone. -/
def closing (b : BurstBuilder) (symEnExt : Bool) : Bool :=
  b.state == .done || (b.symEn symEnExt && b.lastSymbol && !b.chainPending)

/-- A symbol is presented. -/
def output (b : BurstBuilder) : List (BitVec 2) := if b.txDibitValid then [b.txDibit] else []

theorem txDibitValid_of_output (h : b.output ≠ []) : b.txDibitValid = true := by
  by_contra hvalid
  exact h (if_neg hvalid)

/-- While a burst goes out. -/
theorem holds_step_send {n : ℕ} {x : BitVec 510} {w : Option (BitVec 510)}
    (h : b.Holds (.send n x w)) (hn : n ≤ 254)
    (hfree : req.buildReq = true → (Phase.send n x w).Free symEnExt) :
    (b.step symEnExt req).Holds ((Phase.send n x w).next symEnExt req.request) ∧
      (b.step symEnExt req).output = (Phase.send n x w).out symEnExt := by
  obtain ⟨hstate, hbusy, hcnt, hsreg, hchain, hburst⟩ := h
  have hlast : b.symCnt = 254#8 ↔ n = 254 := by
    rw [← hcnt]
    exact BitVec.toNat_inj.symm
  cases symEnExt with
  | false =>
      cases hreq : req.buildReq with
      | false => simpa [step, Holds, Phase.next, Phase.out, output, BurstDispatcher.request,
          symEn, reloads, hreq, hstate, hbusy, hcnt, hsreg, hchain] using hburst
      | true => simp [step, Holds, Phase.next, Phase.out, output, BurstDispatcher.request, symEn,
          reloads, hreq, hstate, hbusy, hcnt, hsreg]
  | true =>
      by_cases h254 : n = 254
      · cases w with
        | none =>
            have hreq : req.buildReq = false := by
              cases hreq : req.buildReq with
              | false => rfl
              | true => exact absurd (hfree hreq) (by simp [Phase.Free, h254])
            simp [step, Holds, Phase.next, Phase.out, output, symEn, reloads, lastSymbol,
              nextState, hlast, h254, hreq, hstate, hbusy, hsreg, hchain]
        | some y =>
            have hy := hburst y rfl
            cases hreq : req.buildReq with
            | false => simp [step, Holds, Phase.next, Phase.out, output, BurstDispatcher.request,
                symEn, reloads, lastSymbol, nextState, hlast, h254, hreq, hstate, hbusy, hsreg,
                hchain, hy]
            | true => simp [step, Holds, Phase.next, Phase.out, output, BurstDispatcher.request,
                symEn, reloads, lastSymbol, nextState, hlast, h254, hreq, hstate, hbusy, hsreg,
                hchain, hy]
      · have hsucc : (b.symCnt.toNat + 1) % 256 = n + 1 := by omega
        cases hreq : req.buildReq with
        | false => simpa [step, Holds, Phase.next, Phase.out, output, BurstDispatcher.request,
            symEn, reloads, lastSymbol, nextState, hlast, h254, hreq, hstate, hbusy, hsreg, hchain,
            hsucc] using hburst
        | true => simp [step, Holds, Phase.next, Phase.out, output, BurstDispatcher.request, symEn,
            reloads, lastSymbol, nextState, hlast, h254, hreq, hstate, hbusy, hsreg, hsucc]

/-- **The builder goes from phase to phase**, if a request finds it free. -/
theorem holds_step (h : b.Holds p) (hn : ∀ n x w, p = .send n x w → n ≤ 254)
    (hfree : req.buildReq = true → p.Free symEnExt) :
    (b.step symEnExt req).Holds (p.next symEnExt req.request) ∧
      (b.step symEnExt req).output = p.out symEnExt := by
  cases p with
  | quiet =>
      obtain ⟨hstate, hbusy, hchain⟩ := h
      cases hreq : req.buildReq with
      | false => simp [step, Holds, Phase.next, Phase.out, output, BurstDispatcher.request, symEn,
          reloads, hreq, hstate, hbusy, hchain]
      | true => simp [step, Holds, Phase.next, Phase.out, output, BurstDispatcher.request, symEn,
          hreq, hstate, hbusy, hchain]
  | start x =>
      obtain ⟨hstate, hbusy, hpending, hchain, hsreg⟩ := h
      have hreq : req.buildReq = false := by
        cases hreq : req.buildReq with
        | false => rfl
        | true => exact (hfree hreq).elim
      cases symEnExt with
      | false => simp [step, Holds, Phase.next, Phase.out, output, symEn, reloads, hreq,
          hstate, hbusy, hchain, hpending, hsreg]
      | true => simp [step, Holds, Phase.next, Phase.out, output, symEn, reloads,
          lastSymbol, nextState, hreq, hstate, hbusy, hchain, hpending, hsreg]
  | send n x w => exact holds_step_send h (hn n x w rfl) hfree
  | ended =>
      obtain ⟨hstate, hbusy, hchain⟩ := h
      have hreq : req.buildReq = false := by
        cases hreq : req.buildReq with
        | false => rfl
        | true => exact (hfree hreq).elim
      simp [step, Holds, Phase.next, Phase.out, output, reloads, lastSymbol, hreq, hstate,
        hbusy, hchain]

end BurstBuilder

/-! ## Requests one slot apart -/

namespace Phase

/-- How many symbol enables ago the last request can have been.  One in the cycle of a request
counts to the gap behind it if `own` is set, else to the one before it. -/
def Timed (own : Bool) (since : ℕ) : Phase → Prop
  | start _ => since ≤ own.toNat
  | send n _ waiting => n ≤ 254 ∧
      if waiting.isSome then since + 254 ≤ n + own.toNat else since ≤ n + 1 + own.toNat
  | _ => True

variable {own symEn : Bool} {since : ℕ} {p : Phase} {r : Option (BitVec 510)}

theorem Timed.sent_le (h : p.Timed own since) : ∀ n x w, p = send n x w → n ≤ 254 := by
  rintro n x w rfl
  exact h.1

/-- What is owed is on air within 257 symbols of the last request. -/
theorem Timed.length_owed_le (h : p.Timed own since) : p.owed.length ≤ 257 - since := by
  have hown := own.toNat_le
  cases p with
  | quiet => exact Nat.zero_le _
  | ended => exact Nat.zero_le _
  | start x =>
      have hsince : since ≤ own.toNat := h
      rw [owed, length_dibits]
      omega
  | send n x w =>
      obtain ⟨hn, htime⟩ := h
      cases w with
      | none =>
          have hsince : since ≤ n + 1 + own.toNat := htime
          simp only [owed, List.length_append, List.length_take, length_dibits,
            Option.toList_none, List.flatMap_nil, List.length_nil]
          omega
      | some y =>
          have hsince : since + 254 ≤ n + own.toNat := htime
          simp only [owed, List.length_append, List.length_take, length_dibits,
            Option.toList_some, List.flatMap_singleton]
          omega

/-- **A request a slot after the last one finds the builder free**, unless it is closing. -/
theorem Timed.free {b : BurstBuilder} {symEnExt : Bool} (h : p.Timed own since) (hb : b.Holds p)
    (hgap : p = quiet ∨ 255 ≤ since + (!own && symEnExt).toNat)
    (hclosing : b.closing symEnExt = false) : p.Free symEnExt := by
  have hown : own.toNat + (!own && symEnExt).toNat ≤ 1 := by cases own <;> cases symEnExt <;> decide
  cases p with
  | quiet => trivial
  | start x =>
      have hsince : since ≤ own.toNat := h
      have hgap := hgap.resolve_left (by rintro ⟨⟩)
      omega
  | ended =>
      rw [BurstBuilder.closing, hb.1] at hclosing
      exact absurd hclosing (by simp)
  | send n x w =>
      obtain ⟨hn, htime⟩ := h
      have hgap := hgap.resolve_left (by rintro ⟨⟩)
      cases w with
      | some y =>
          have hsince : since + 254 ≤ n + own.toNat := htime
          omega
      | none =>
          obtain ⟨hstate, hbusy, hcnt, -, hchain, -⟩ := hb
          rw [Free]
          split_ifs with hlast
          · -- the last symbol goes out and nothing waits
            obtain ⟨rfl, rfl⟩ := hlast
            have h254 : b.symCnt = 254 := BitVec.toNat_inj.1 hcnt
            simp [BurstBuilder.closing, BurstBuilder.symEn, BurstBuilder.lastSymbol, hstate, hbusy,
              hchain, h254] at hclosing
          · rfl

theorem Timed.next (h : p.Timed own since) (hfree : r.isSome → p.Free symEn)
    (hgap : r.isSome → p = quiet ∨ 255 ≤ since + (!own && symEn).toNat) :
    (p.next symEn r).Timed own
      (if r.isSome then (own && symEn).toNat else since + symEn.toNat) := by
  cases p with
  | quiet => cases r <;> cases own <;> cases symEn <;> simp [Phase.next, Timed]
  | start x =>
      cases r with
      | some y => exact (hfree rfl).elim
      | none =>
          have hsince : since ≤ own.toNat := h
          cases symEn with
          | false => exact hsince
          | true => exact ⟨Nat.zero_le _, by simpa [Nat.add_comm] using hsince⟩
  | ended => trivial
  | send n x w =>
      obtain ⟨hn, htime⟩ := h
      cases r with
      | none =>
          cases symEn with
          | false => exact ⟨hn, htime⟩
          | true =>
              cases w with
              | none =>
                  have hsince : since ≤ n + 1 + own.toNat := htime
                  by_cases hlast : n = 254
                  · simp [Phase.next, Timed, hlast]
                  · simp only [Phase.next, hlast, Timed, Option.or_none, if_true, if_false]
                    exact ⟨by omega, by simpa using by omega⟩
              | some y =>
                  have hsince : since + 254 ≤ n + own.toNat := htime
                  by_cases hlast : n = 254
                  · simp only [Phase.next, hlast, Timed, if_true]
                    exact ⟨Nat.zero_le _, by simp; omega⟩
                  · simp only [Phase.next, hlast, Timed, Option.none_or, if_true, if_false]
                    exact ⟨by omega, by simp; omega⟩
      | some z =>
          have hslot : 255 ≤ since + (!own && symEn).toNat :=
            (hgap rfl).resolve_left (by rintro ⟨⟩)
          have hown : own.toNat + (!own && symEn).toNat ≤ 1 := by
            cases own <;> cases symEn <;> decide
          cases w with
          | some y =>
              have hsince : since + 254 ≤ n + own.toNat := htime
              omega
          | none =>
              have hsince : since ≤ n + 1 + own.toNat := htime
              cases symEn with
              | false =>
                  rw [Bool.and_false, Bool.toNat_false] at hslot
                  simp only [Phase.next, Timed, Bool.false_eq_true, if_false, Option.some_or,
                    Option.isSome_some, if_true, Bool.and_false, Bool.toNat_false]
                  exact ⟨hn, by omega⟩
              | true =>
                  have hlast : n ≠ 254 := by
                    rintro rfl
                    exact absurd (hfree rfl) (by simp [Free])
                  rw [Bool.and_true] at hslot hown
                  simp only [Phase.next, Timed, hlast, if_false, Option.some_or,
                    Option.isSome_some, if_true, Bool.and_true]
                  exact ⟨by omega, by omega⟩

end Phase

/-! ## Runs -/

/-- The inputs of a cycle. -/
structure BuilderIn where
  symEnExt : Bool := false
  req : BurstDispatcher := {}

/-- The builder, and what an observer of it has written down: the bursts requested, the symbols
presented, and the number of symbol enables since the last request. -/
structure Watch where
  builder : BurstBuilder := {}
  requested : List (BitVec 510) := []
  sent : List (BitVec 2) := []
  since : ℕ := 0

namespace Watch

section Definitions

variable (own : Bool) (w : Watch) (i : BuilderIn)

/-- One clock edge. -/
def step : Watch where
  builder := w.builder.step i.symEnExt i.req
  requested := w.requested ++ i.req.request.toList
  sent := w.sent ++ (w.builder.step i.symEnExt i.req).output
  since := if i.req.buildReq then (own && i.symEnExt).toNat else w.since + i.symEnExt.toNat

/-- The symbol enables from the last request to one in this cycle. -/
def gap : ℕ := w.since + (!own && i.symEnExt).toNat

/-- A request comes at least 255 symbol enables after the one before it. -/
def Spaced : Prop := i.req.buildReq = true → w.requested ≠ [] → 255 ≤ w.gap own i

/-- The requests come every 255 symbol enables exactly: none is early and none is late. -/
def OnTime : Prop :=
  w.requested ≠ [] →
    if i.req.buildReq then w.gap own i = 255 else w.since + i.symEnExt.toNat ≤ 255

/-- A request does not come in a closing cycle. -/
def NotClosing : Prop := i.req.buildReq = true → w.builder.closing i.symEnExt = false

/-- What was sent are the requested bursts in order, up to what is still owed; and nothing is owed
from the 257th symbol enable after a request on. -/
def Delivered : Prop :=
  ∃ owed, w.requested.flatMap dibits = w.sent ++ owed ∧ owed.length ≤ 257 - w.since

/-- After the first symbol, every symbol enable brings another. -/
def NoGap : Prop :=
  i.symEnExt = true → w.sent ≠ [] → (w.step own i).builder.txDibitValid = true

end Definitions

variable {own : Bool} {w : Watch} {i : BuilderIn} {p : Phase}

theorem isSome_request (d : BurstDispatcher) : d.request.isSome = d.buildReq := by
  cases h : d.buildReq <;> simp [BurstDispatcher.request, h]

/-- What holds in a phase. -/
structure Inv (own : Bool) (w : Watch) (p : Phase) : Prop where
  holds : w.builder.Holds p
  timed : p.Timed own w.since
  kept : w.requested.flatMap dibits = w.sent ++ p.owed
  unrequested : w.requested = [] → p = .quiet

theorem inv_init : Inv own {} .quiet where
  holds := ⟨rfl, rfl, rfl⟩
  timed := trivial
  kept := rfl
  unrequested _ := rfl

theorem Inv.delivered (h : Inv own w p) : w.Delivered :=
  ⟨p.owed, h.kept, h.timed.length_owed_le⟩

theorem Inv.gap (h : Inv own w p) (hspaced : w.Spaced own i) (hreq : i.req.buildReq = true) :
    p = .quiet ∨ 255 ≤ w.since + (!own && i.symEnExt).toNat := by
  rcases eq_or_ne w.requested [] with hnone | hsome
  · exact .inl (h.unrequested hnone)
  · exact .inr (hspaced hreq hsome)

theorem Inv.free (h : Inv own w p) (hspaced : w.Spaced own i) (hclosing : w.NotClosing i)
    (hreq : i.req.buildReq = true) : p.Free i.symEnExt :=
  h.timed.free h.holds (h.gap hspaced hreq) (hclosing hreq)

theorem Inv.step (h : Inv own w p) (hspaced : w.Spaced own i) (hclosing : w.NotClosing i) :
    Inv own (w.step own i) (p.next i.symEnExt i.req.request) := by
  have hfree : i.req.request.isSome → p.Free i.symEnExt := by
    rw [isSome_request]
    exact h.free hspaced hclosing
  obtain ⟨hholds, hout⟩ := BurstBuilder.holds_step h.holds h.timed.sent_le (h.free hspaced hclosing)
  refine ⟨hholds, ?_, ?_, ?_⟩
  · have htimed := h.timed.next hfree (by rw [isSome_request]; exact h.gap hspaced)
    rwa [isSome_request] at htimed
  · have howed := Phase.owed_next h.timed.sent_le hfree
    rw [Watch.step, hout, List.flatMap_append, h.kept, List.append_assoc, List.append_assoc, howed]
  · intro hnone
    obtain ⟨hnone, hr⟩ := List.append_eq_nil_iff.1 hnone
    rw [h.unrequested hnone, Option.toList_eq_nil_iff.1 hr]
    rfl

/-! ### No gap -/

theorem OnTime.spaced (h : w.OnTime own i) : w.Spaced own i := by
  intro hreq hsome
  have hgap := h hsome
  rw [if_pos hreq] at hgap
  exact hgap.ge

/-- What holds of the phases while every request is on time: the builder never falls quiet. -/
def Streaming (w : Watch) : Phase → Prop
  | .quiet => w.requested = []
  | .start _ => w.sent = []
  | .send n _ waiting => waiting = none → n + 1 ≤ w.since
  | .ended => False

theorem Inv.streaming_step (h : Inv own w p) (hp : w.Streaming p) (htime : w.OnTime own i)
    (hclosing : w.NotClosing i) :
    (w.step own i).Streaming (p.next i.symEnExt i.req.request) := by
  have hfree := h.free htime.spaced hclosing
  have hout := (BurstBuilder.holds_step h.holds h.timed.sent_le hfree).2
  have hkept := h.kept
  cases hreq : i.req.buildReq with
  | true =>
      have hr : i.req.request = some i.req.burst := if_pos hreq
      have hfree := hfree hreq
      rw [hr]
      cases p with
      | quiet =>
          rw [show w.requested = [] from hp] at hkept
          obtain ⟨hsent, -⟩ := List.append_eq_nil_iff.1 hkept.symm
          exact List.append_eq_nil_iff.2 ⟨hsent, hout⟩
      | start x => exact hfree.elim
      | ended => exact hfree.elim
      | send n x waiting =>
          -- the new request waits, whatever becomes of the old one
          by_cases hlast : i.symEnExt = true ∧ n = 254
          · obtain ⟨y, rfl⟩ := Option.isSome_iff_exists.1 (show waiting.isSome from by
              rwa [Phase.Free, if_pos hlast] at hfree)
            simp [Phase.next, hlast, Streaming]
          · have hwait : ∀ m z, (w.step own i).Streaming (.send m z (some i.req.burst)) :=
              fun m z hnone ↦ absurd hnone (Option.some_ne_none _)
            simp only [Phase.next, Option.some_or]
            split_ifs with hen h254
            · exact absurd ⟨hen, h254⟩ hlast
            · exact hwait _ _
            · exact hwait _ _
  | false =>
      have hr : i.req.request = none := if_neg (by simp [hreq])
      have hsince : (w.step own i).since = w.since + i.symEnExt.toNat := if_neg (by simp [hreq])
      rw [hr]
      cases p with
      | quiet =>
          change w.requested ++ i.req.request.toList = []
          rw [show w.requested = [] from hp, hr]
          rfl
      | start x =>
          simp only [Phase.next]
          split_ifs with hen
          · intro _
            rw [hsince, hen]
            exact Nat.le_add_left 1 w.since
          · exact List.append_eq_nil_iff.2 ⟨hp, hout⟩
      | ended => exact hp.elim
      | send n x waiting =>
          simp only [Phase.next, Option.none_or]
          split_ifs with hen h254
          · cases waiting with
            | some y =>
                intro _
                rw [hsince, hen]
                exact Nat.le_add_left 1 w.since
            | none =>
                -- the next request would be late
                have hlate := hp rfl
                have hnow := htime fun hnone ↦ by simpa using h.unrequested hnone
                rw [if_neg (by simp [hreq]), hen, Bool.toNat_true] at hnow
                omega
          · intro hnone
            have hp := hp hnone
            rw [hsince, hen, Bool.toNat_true]
            omega
          · intro hnone
            rw [hsince]
            exact (hp hnone).trans (Nat.le_add_right _ _)

theorem Inv.noGap (h : Inv own w p) (hp : w.Streaming p) (htime : w.OnTime own i)
    (hclosing : w.NotClosing i) : w.NoGap own i := by
  intro hen hsent
  have hout := (BurstBuilder.holds_step h.holds h.timed.sent_le (h.free htime.spaced hclosing)).2
  cases p with
  | quiet =>
      have hkept := h.kept
      rw [show w.requested = [] from hp] at hkept
      exact absurd (List.append_eq_nil_iff.1 hkept.symm).1 hsent
  | start x => exact absurd hp hsent
  | ended => exact hp.elim
  | send n x waiting =>
      rw [Phase.out, if_pos hen] at hout
      exact BurstBuilder.txDibitValid_of_output (hout ▸ List.cons_ne_nil _ _)

section Runs

variable {is : List BuilderIn} (hspaced : Run.Along (step own) (Spaced own) {} is)
  (hclosing : Run.Along (step own) NotClosing {} is)
include hspaced hclosing

theorem throughout_inv : Run.Throughout (step own) (fun w ↦ ∃ p, Inv own w p) {} is := by
  have h := ((Run.along_and (step own)).2 ⟨hspaced, hclosing⟩).throughout_and (step own)
    (I := fun _ ↦ True) (P := fun w ↦ ∃ p, Inv own w p) (D := fun _ _ ↦ True)
    (fun _ _ _ ↦ trivial) ?_ trivial ⟨_, inv_init⟩
  · exact h.1
  · rintro w i - ⟨p, h⟩ ⟨hs, hc⟩
    exact ⟨⟨_, h.step hs hc⟩, trivial⟩

end Runs

theorem along_noGap {is : List BuilderIn} (htime : Run.Along (step own) (OnTime own) {} is)
    (hclosing : Run.Along (step own) NotClosing {} is) :
    Run.Along (step own) (NoGap own) {} is := by
  have h := ((Run.along_and (step own)).2 ⟨htime, hclosing⟩).throughout_and (step own)
    (I := fun _ ↦ True) (P := fun w ↦ ∃ p, Inv own w p ∧ w.Streaming p) (D := NoGap own)
    (fun _ _ _ ↦ trivial) ?_ trivial ⟨_, inv_init, rfl⟩
  · exact h.2
  · rintro w i - ⟨p, h, hp⟩ ⟨ht, hc⟩
    exact ⟨⟨_, h.step ht.spaced hc, h.streaming_step hp ht hc⟩, h.noGap hp ht hc⟩

/-! ### A request in a closing cycle -/

/-- A burst waits and the builder is on its way to idle, or there. -/
def Stuck (b : BurstBuilder) : Prop :=
  b.chainPending = true ∧ (b.state = .done ∨ b.state = .idle ∧ b.txBusy = false)

theorem stuck_step {b : BurstBuilder} (h : Stuck b) (hreq : i.req.buildReq = false) :
    Stuck (b.step i.symEnExt i.req) ∧ (b.step i.symEnExt i.req).output = [] := by
  obtain ⟨hchain, hstate | ⟨hstate, hbusy⟩⟩ := h
  · simp [Stuck, BurstBuilder.step, BurstBuilder.output, BurstBuilder.reloads,
      BurstBuilder.lastSymbol, hreq, hchain, hstate]
  · simp [Stuck, BurstBuilder.step, BurstBuilder.output, BurstBuilder.reloads,
      BurstBuilder.symEn, hreq, hchain, hstate, hbusy]

/-- Without another request nothing is sent. -/
theorem exec_stuck {js : List BuilderIn} (hjs : ∀ j ∈ js, j.req.buildReq = false)
    (h : Stuck w.builder) :
    (Run.exec (step own) w js).requested = w.requested ∧
      (Run.exec (step own) w js).sent = w.sent ∧
      (Run.exec (step own) w js).since = w.since + js.countP (·.symEnExt) := by
  induction js generalizing w with
  | nil => exact ⟨rfl, rfl, rfl⟩
  | cons j js ih =>
      have hreq := hjs j List.mem_cons_self
      have hr : j.req.request = none := if_neg (by simp [hreq])
      obtain ⟨hstuck, hout⟩ := stuck_step h hreq
      obtain ⟨hrequested, hsent, hsince⟩ :=
        ih (w := w.step own j) (fun k hk ↦ hjs k (List.mem_cons_of_mem j hk)) hstuck
      refine ⟨hrequested.trans ?_, hsent.trans ?_, hsince.trans ?_⟩
      · simp [step, hr]
      · simp [step, hout]
      · cases hen : j.symEnExt <;> simp [step, hreq, hen, Nat.add_assoc, Nat.add_comm]

/-- The request is put into the shadow, and everything before it is sent. -/
theorem Inv.stuck (h : Inv own w p) (hreq : i.req.buildReq = true)
    (hclosing : w.builder.closing i.symEnExt = true) :
    Stuck (w.step own i).builder ∧
      ((w.step own i).requested.flatMap dibits).length = (w.step own i).sent.length + 255 := by
  have hr : i.req.request = some i.req.burst := if_pos hreq
  have hlen : ((w.step own i).requested.flatMap dibits).length =
      w.sent.length + p.owed.length + 255 := by
    rw [Watch.step, hr, List.flatMap_append, h.kept]
    simp [Nat.add_assoc]
  obtain ⟨hholds, htimed, -, -⟩ := h
  cases p with
  | quiet => simp [BurstBuilder.closing, BurstBuilder.lastSymbol, hholds.1] at hclosing
  | start x => simp [BurstBuilder.closing, BurstBuilder.lastSymbol, hholds.1] at hclosing
  | ended =>
      obtain ⟨hstate, hbusy, -⟩ := hholds
      refine ⟨?_, hlen.trans ?_⟩
      · simp [Stuck, Watch.step, BurstBuilder.step, hreq, hstate, hbusy]
      · simp [Phase.owed, Watch.step, BurstBuilder.step, BurstBuilder.output, hstate]
  | send n x waiting =>
      obtain ⟨hstate, hbusy, hcnt, -, hchain, -⟩ := hholds
      have hlast : i.symEnExt = true ∧ w.builder.symCnt = 254 ∧ waiting = none := by
        simpa [BurstBuilder.closing, hstate, BurstBuilder.symEn, hbusy, BurstBuilder.lastSymbol,
          hchain, and_assoc] using hclosing
      obtain ⟨hen, h254, rfl⟩ := hlast
      have hn : n = 254 := by rw [← hcnt, h254]; rfl
      refine ⟨?_, hlen.trans ?_⟩
      · simp [Stuck, Watch.step, BurstBuilder.step, BurstBuilder.nextState, BurstBuilder.symEn,
          hreq, hstate, hbusy, hen, h254, hchain]
      · simp [Phase.owed, Watch.step, BurstBuilder.step, BurstBuilder.output, BurstBuilder.symEn,
          hstate, hbusy, hen, hn]

/-- **A request in a closing cycle is not sent**, however long one waits. -/
theorem Inv.lost (h : Inv own w p) (hreq : i.req.buildReq = true)
    (hclosing : w.builder.closing i.symEnExt = true) {js : List BuilderIn}
    (hjs : ∀ j ∈ js, j.req.buildReq = false) (hlong : 3 ≤ js.countP (·.symEnExt)) :
    ¬ (Run.exec (Watch.step own) w (i :: js)).Delivered := by
  obtain ⟨hstuck, hlen⟩ := h.stuck hreq hclosing
  obtain ⟨hrequested, hsent, hsince⟩ := exec_stuck hjs hstuck
  rintro ⟨owed, hkept, howed⟩
  rw [Run.exec_cons] at hkept howed
  rw [hrequested, hsent] at hkept
  have hlens := congrArg List.length hkept
  rw [hlen, List.length_append] at hlens
  omega

/-! ### Continuity -/

/-- However far the run is followed and whenever the requests stop, what is sent is what was
requested. -/
def AllDelivered (own : Bool) (is : List BuilderIn) : Prop :=
  ∀ es, es <+: is → ∀ js : List BuilderIn, (∀ j ∈ js, j.req.buildReq = false) →
    Run.Throughout (step own) Delivered {} (es ++ js)

/-- No cycle without a request is early or closing. -/
theorem along_of_no_request {C : Watch → BuilderIn → Prop}
    (hC : ∀ w i, i.req.buildReq = false → C w i) {js : List BuilderIn}
    (hjs : ∀ j ∈ js, j.req.buildReq = false) (w : Watch) : Run.Along (step own) C w js := by
  induction js generalizing w with
  | nil => trivial
  | cons j js ih =>
      exact ⟨hC w j (hjs j List.mem_cons_self),
        ih (fun k hk ↦ hjs k (List.mem_cons_of_mem j hk)) (w.step own j)⟩

theorem spaced_of_no_request (h : i.req.buildReq = false) : w.Spaced own i :=
  fun hreq ↦ absurd (h.symm.trans hreq) Bool.false_ne_true

theorem notClosing_of_no_request (h : i.req.buildReq = false) : w.NotClosing i :=
  fun hreq ↦ absurd (h.symm.trans hreq) Bool.false_ne_true

theorem allDelivered_of_not_closing {is : List BuilderIn}
    (hspaced : Run.Along (step own) (Spaced own) {} is)
    (hclosing : Run.Along (step own) NotClosing {} is) : AllDelivered own is := by
  rintro es ⟨rest, rfl⟩ js hjs
  have hspaced := ((Run.along_append (step own) es rest).1 hspaced).1
  have hclosing := ((Run.along_append (step own) es rest).1 hclosing).1
  refine (throughout_inv ?_ ?_).imp (step own) fun _ ⟨_, h⟩ ↦ h.delivered
  · exact (Run.along_append (step own) es js).2
      ⟨hspaced, along_of_no_request (fun _ _ ↦ spaced_of_no_request) hjs _⟩
  · exact (Run.along_append (step own) es js).2
      ⟨hclosing, along_of_no_request (fun _ _ ↦ notClosing_of_no_request) hjs _⟩

/-- Three symbol enables tell. -/
theorem not_closing_of_allDelivered {is : List BuilderIn}
    (hspaced : Run.Along (step own) (Spaced own) {} is) (h : AllDelivered own is) :
    Run.Along (step own) NotClosing {} is := by
  induction is using List.reverseRecOn with
  | nil => trivial
  | append_singleton is i ih =>
      have hspaced := ((Run.along_append (step own) is [i]).1 hspaced).1
      have hclosing := ih hspaced fun es hes ↦ h es (hes.trans (List.prefix_append is [i]))
      refine (Run.along_append (step own) is [i]).2 ⟨hclosing, fun hreq ↦ ?_, trivial⟩
      obtain ⟨p, hinv⟩ := (throughout_inv hspaced hclosing).last
      by_contra hc
      have hquiet : ∀ j ∈ List.replicate 3 ({ symEnExt := true } : BuilderIn),
          j.req.buildReq = false := fun j hj ↦ by rw [List.eq_of_mem_replicate hj]
      have hlast := (h (is ++ [i]) (List.prefix_refl _) _ hquiet).last
      rw [List.append_assoc, Run.exec_append] at hlast
      exact hinv.lost hreq (by simpa using hc) hquiet (by decide) hlast

/-- **The downlink is continuous exactly in the runs with no request in a closing cycle**: with
requests at least a slot apart every burst is sent as requested, and if they come every slot there is
no gap. -/
theorem continuous_iff (own : Bool) (is : List BuilderIn)
    (hspaced : Run.Along (step own) (Spaced own) {} is) :
    AllDelivered own is ∧
        (Run.Along (step own) (OnTime own) {} is → Run.Along (step own) (NoGap own) {} is) ↔
      Run.Along (step own) NotClosing {} is := by
  constructor
  · rintro ⟨hdelivered, -⟩
    exact not_closing_of_allDelivered hspaced hdelivered
  · intro hclosing
    exact ⟨allDelivered_of_not_closing hspaced hclosing, fun htime ↦ along_noGap htime hclosing⟩

/-! ### Two bursts -/

instance : Decidable (w.Spaced own i) := inferInstanceAs (Decidable (_ → _ → _))

instance : Decidable (w.OnTime own i) := inferInstanceAs (Decidable (_ → ite _ _ _))

instance : Decidable (w.NotClosing i) := inferInstanceAs (Decidable (_ → _))

/-- A request for a burst. -/
def request : BuilderIn := { req := { buildReq := true, buildBlock1 := 5 } }

/-- Symbol enables. -/
def enables (n : ℕ) : List BuilderIn := List.replicate n { symEnExt := true }

/-- Two requests a slot apart, the second one in the cycle of a symbol enable. -/
def coincident : List BuilderIn :=
  request :: enables 255 ++ { request with symEnExt := true } :: enables 257

/-- Two requests a slot apart. -/
def slotApart : List BuilderIn := request :: enables 255 ++ request :: enables 255

theorem slotApart_continuous :
    AllDelivered true slotApart ∧ Run.Along (step true) (NoGap true) {} slotApart := by
  have h := (continuous_iff true slotApart (by decide +kernel)).2 (by decide +kernel)
  exact ⟨h.1, h.2 (by decide +kernel)⟩

/-- The request that coincides with the last symbol is put where nothing takes it out. -/
theorem coincident_lost :
    Run.Along (step true) (Spaced true) {} coincident ∧
      ¬ Run.Throughout (step true) Delivered {} coincident := by
  refine ⟨by decide +kernel, fun h ↦ ?_⟩
  have hspaced : Run.Along (step true) (Spaced true) {} (request :: enables 255) := by
    decide +kernel
  obtain ⟨p, hinv⟩ := (throughout_inv hspaced (by decide +kernel)).last
  have hquiet : ∀ j ∈ enables 257, j.req.buildReq = false :=
    fun j hj ↦ by rw [List.eq_of_mem_replicate hj]
  refine hinv.lost (i := { request with symEnExt := true }) rfl (by decide +kernel) hquiet
    (by decide +kernel) ?_
  have hlast := h.last
  rwa [coincident, Run.exec_append] at hlast

end Watch

end TetraPhy.Tx
