import TetraPhy.Daemon.SdsDecode

/-!
# What becomes of the user data of an SDS

The relayed D-SDS-DATA is built of the whole octets of user data that arrived, and its length
indicator counts these.

**`faithful_iff`**: for which U-SDS-DATA the two services keep their word, that what is relayed is
what was sent, and that what did not arrive in full is neither relayed nor acknowledged.
-/

namespace TetraPhy.Daemon

open Sw Lmac Codec FieldReader

/-! ## The mobility replies -/

/-- The PDUs that answer a mobility demand, the D-SETUP of a late entry among them. -/
inductive MmReplyClass
  | luAccept | luReject | grpAttachAck | dSetup
deriving DecidableEq, Repr

def MmReplyClass.cls : MmReplyClass → TxPduClass
  | luAccept => .luAccept
  | luReject => .luReject
  | grpAttachAck => .grpAttachAck
  | dSetup => .dSetup

/-- A reply, and whether the reply mailbox goes idle in time for it. -/
structure MmReply where
  idle : Bool
  cls : MmReplyClass
  req : TxPduMeta

/-- The replies of `react_mm2_locupd` and `react_mm7_grpid`, one after another. -/
def SdsRx.answer (s : SdsRx) (replies : List MmReply) : SdsRx :=
  replies.foldl (fun s r ↦ s.submit r.idle r.cls.cls r.req) s

/-- The surroundings with these replies to a mobility demand. -/
def SdsEnv.withMm (env : SdsEnv) (react : UInt8 → UInt32 → (ℕ → Bool) → List MmReply) : SdsEnv :=
  { env with walk := fun mmType ssi body s ↦ s.answer (react mmType ssi body) }

/-! ## What arrives -/

/-- The LLC PDU type and the option flag in the demand mailbox. -/
def uldbodLlc (env : SdsEnv) : ℕ := ((uldbodMeta env >>> 2) &&& 0xF).toNat
def uldbodOpt (env : SdsEnv) : Bool := (uldbodMeta env &&& 0x1) != 0

/-- A U-SDS-DATA is in the demand mailbox. -/
structure ShortArrives (env : SdsEnv) (u : USds) : Prop where
  disc : (uldbodMeta env >>> 6) &&& 0x7 = 2
  read : readTlSdu (uldbodLlc env) (uldbodOpt env) (window (uldbodBody env) 0 147) = some u

/-- The LLC PDU type of the reassembled body. -/
def lsdsLlc (env : SdsEnv) : ℕ := number (window (lsdsBody env) (if lsdsOpt env then 6 else 0) 4)

/-- A U-SDS-DATA is new in the long-SDS mailbox. -/
structure LongArrives (env : SdsEnv) (s : SdsRx) (u : USds) : Prop where
  started : s.lsdsCntInit = true
  new : lsdsCnt env ≠ s.lsdsLastCnt
  le : lsdsNbits env ≤ 8192
  read : readTlSdu (lsdsLlc env) (lsdsOpt env) (window (lsdsBody env) 0 (lsdsNbits env)) = some u

/-! ## What is relayed -/

/-- What a terminal hears of a delivery: its bursts, decoded, and joined. -/
def SdsDl.heard (env : SdsEnv) (d : SdsDl) : Option SdsReception :=
  ((List.range d.n).mapM fun i ↦
    (schfDecode ((List.range 432).map (d.type5 i)) env.cc 1 env.mcc env.mnc).map Prod.fst).bind
      receiveChain

/-- A call relayed a D-SDS-DATA: it is in the reply mailbox in full, or it is what a delivery that
was started carries. -/
def Relayed (env : SdsEnv) (s s' : SdsRx) (pdu : DSdsData) : Prop :=
  (∃ sub ∈ fresh s s', sub.cls = .dSdsData ∧
    StagedInFull sub.result sub.req (buildDSdsData sub.req.cmce) ∧
    readDSdsData (buildDSdsData sub.req.cmce) = some pdu) ∨
  (s.sds.active = false ∧ s'.sds.active = true ∧ ∃ reception ns,
    s'.sds.heard env = some reception ∧ readTmSdu reception.tmSdu = some (ns, pdu))

/-- What is relayed of a complete PDU has its length indicator and its user data, and an incomplete
one is neither acknowledged nor relayed. -/
def Faithful (env : SdsEnv) (s s' : SdsRx) (u : USds) : Prop :=
  (u.Complete → ∀ pdu, Relayed env s s' pdu →
    pdu.lengthInd = u.lengthInd ∧ pdu.udd = u.received.take u.lengthInd) ∧
  (¬ u.Complete → ¬ Acked s s' ∧ ∀ pdu, ¬ Relayed env s s' pdu)

/-- The limits between which a message goes out. -/
def Passes (env : SdsEnv) (long : Bool) (s : SdsRx) (dest : UInt32) (octets : ℕ) : Prop :=
  env.registered dest = true ∧
    (env.idle 1 = true ∧ octets ≤ 10 ∨
      long = true ∧ s.sds.active = false ∧ 24 < octets ∧ octets ≤ 120)

instance (env : SdsEnv) (long : Bool) (s : SdsRx) (dest : UInt32) (octets : ℕ) :
    Decidable (Passes env long s dest octets) := inferInstanceAs (Decidable (_ ∧ _))

/-! ### A delivery that is heard -/

theorem mapM_some_map {α β : Type*} {f : α → Option β} {g : α → β} {l : List α}
    (h : ∀ a ∈ l, f a = some (g a)) : l.mapM f = some (l.map g) := by
  induction l with
  | nil => rfl
  | cons a l ih =>
      rw [List.mapM_cons, h a List.mem_cons_self, ih fun x hx ↦ h x (List.mem_cons_of_mem a hx)]
      rfl

theorem map_getD_range {l : List Bool} {n : ℕ} (h : l.length = n) :
    ((List.range n).map fun b ↦ l.getD b false) = l := by
  refine List.ext_getElem (by rw [List.length_map, List.length_range, h]) fun i hi hi' ↦ ?_
  rw [List.getElem_map, List.getElem_range, List.getD_eq_getElem _ _ hi']

/-- A burst is decoded to the block that it was coded from. -/
theorem schfDecode_burst (env : SdsEnv) {info bits : List Bool} (h : info.length = 268)
    (hbits : schfEncode info env.cc 1 env.mcc env.mnc = some bits) :
    (schfDecode ((List.range 432).map fun b ↦ bits.getD b false) env.cc 1 env.mcc env.mnc).map
      Prod.fst = some info := by
  obtain ⟨block, hblock, hlen, hdecode⟩ :=
    Channel.decode_encode (c := schf) h env.cc 1 1 env.mcc env.mnc
  rw [schfEncode_eq h, hblock] at hbits
  obtain rfl := Option.some.inj hbits
  rw [map_getD_range (n := 432) hlen]
  exact congrArg (Option.map Prod.fst) hdecode

/-- The terminal hears the blocks of the chain that was started. -/
theorem heard_start (env : SdsEnv) {dest calling : UInt32} {ns nr : UInt8} {udd : List UInt8}
    {frags : List SdsFrag} (hfrags : sdsDlBuildFragments dest calling ns nr udd = some frags)
    {d : SdsDl} (hd : d.active = false) :
    (sdsDlDeliveryStart env dest calling ns nr udd d).active = true ∧
      (sdsDlDeliveryStart env dest calling ns nr udd d).heard env =
        receiveChain (frags.map SdsFrag.info) := by
  obtain ⟨type5, hmap, hget⟩ := mapM_schfEncode env frags
  have hstart : sdsDlDeliveryStart env dest calling ns nr udd d =
      { active := true, n := frags.length, idx := 0, lastFn := airFn env.txTdma
        dest := dest &&& 0x00FFFFFF, type5 := fun i b ↦ (type5.getD i []).getD b false } := by
    have hn : (d.active || frags.length == 0) = false := by
      have hhead := sdsDlBuildFragments_head hfrags
      cases frags with
      | nil => exact absurd hhead (by simp)
      | cons f frags => rw [hd]; rfl
    rw [sdsDlDeliveryStart, if_neg (by rw [hd]; decide), hfrags]
    dsimp only
    rw [hmap]
    dsimp only
    rw [SdsDl.start, hn, if_neg Bool.false_ne_true]
  have hblocks : ((List.range frags.length).mapM fun i ↦
      (schfDecode ((List.range 432).map fun b ↦ (type5.getD i []).getD b false) env.cc 1 env.mcc
        env.mnc).map Prod.fst) = some (frags.map SdsFrag.info) := by
    rw [mapM_some_map (g := fun i ↦ (frags.map SdsFrag.info).getD i [])]
    · refine congrArg some (List.ext_getElem (by simp) fun i hi hi' ↦ ?_)
      rw [List.getElem_map, List.getElem_range, List.getD_eq_getElem _ _ hi']
    · intro i hi
      obtain ⟨bits, hbits, hrow⟩ := hget i (List.mem_range.1 hi)
      rw [hrow, schfDecode_burst env (SdsFrag.length_info _) hbits, List.getD_eq_getElem _ _ (by
        rw [List.length_map]; exact List.mem_range.1 hi), List.getElem_map]
      rfl
  rw [hstart]
  exact ⟨rfl, by rw [SdsDl.heard, hblocks]; rfl⟩

/-! ### A D-SDS-DATA in one burst -/

/-- The two builders of a D-SDS-DATA agree. -/
theorem buildDSdsData_eq {m : CmceMeta} {udd : List UInt8} (hpos : 0 < udd.length)
    (hmax : udd.length ≤ 24) (hlen : m.sdsUddLen = udd.length.toUInt16)
    (hudd : ∀ i, m.sdsUdd i = udd.getD i.val 0) :
    buildDSdsData m = buildCmceDSdsData m.callingPartySsi udd := by
  have hnat : m.sdsUddLen.toNat = udd.length := by
    rw [hlen, Nat.toUInt16, UInt16.toNat_ofNat']
    omega
  have hguard : (m.sdsUddLen == 0 || decide (m.sdsUddLen > 24)) = false := by
    rw [Bool.or_eq_false_iff, beq_eq_false_iff_ne, decide_eq_false_iff_not, gt_iff_lt,
      UInt16.not_lt, UInt16.le_iff_toNat_le, hnat]
    exact ⟨fun hzero ↦ hpos.ne (by rw [← hnat, hzero]; rfl), hmax⟩
  have hli : m.sdsUddLen.toUInt32 * 8 = (udd.length * 8).toUInt32 := by
    refine UInt32.toNat_inj.1 ?_
    rw [UInt32.toNat_mul, UInt16.toNat_toUInt32, hnat, Nat.toUInt32, UInt32.toNat_ofNat']
    rfl
  have hoctets : (List.range udd.length).map (fun i ↦ m.sdsUdd (Fin.ofNat 32 i)) = udd := by
    refine List.ext_getElem (by rw [List.length_map, List.length_range]) fun i hi hi' ↦ ?_
    have hmod : (Fin.ofNat 32 i).val = i := Nat.mod_eq_of_lt (by omega)
    rw [List.getElem_map, List.getElem_range, hudd, hmod, List.getD_eq_getElem _ _ hi']
  have hbits : (List.range udd.length).flatMap (fun i ↦
      putBits (m.sdsUdd (Fin.ofNat 32 i)).toUInt32 8) =
        udd.flatMap fun o ↦ putBits o.toUInt32 8 := by
    conv_rhs => rw [← hoctets]
    rw [List.flatMap_map]
  rw [buildDSdsData, hguard, if_neg Bool.false_ne_true, hnat, hli, hbits]
  rfl

/-! ### What a service relays -/

/-- The D-SDS-DATA that carries a message. -/
def SdsMsg.pdu (msg : SdsMsg) (calling : UInt32) : DSdsData :=
  ⟨(calling &&& 0x00FFFFFF).toNat, 8 * msg.udd.length,
    msg.udd.flatMap fun o ↦ putBits o.toUInt32 8⟩

variable {env : SdsEnv} {s s' : SdsRx} {msg : SdsMsg} {calling : UInt32} {long : Bool}

/-- What the body of the relayed PDU reads as. -/
theorem readDSdsData_relay (hpos : 0 < msg.udd.length) (hlen : msg.udd.length ≤ 24) :
    readDSdsData (buildDSdsData (relayMeta calling msg).cmce) = some (msg.pdu calling) := by
  rw [buildDSdsData_eq hpos hlen rfl fun _ ↦ rfl]
  exact readDSdsData_build calling (by omega)

variable (env calling) in
/-- What a terminal hears of a delivery that the call started. -/
theorem heard_delivery (dest : UInt32) {udd : List UInt8} (hmin : 16 ≤ udd.length)
    (hmax : udd.length ≤ 120) {d : SdsDl} (hd : d.active = false) :
    (sdsDlDeliveryStart env dest calling 1 1 udd d).active = true ∧
      ∃ reception, (sdsDlDeliveryStart env dest calling 1 1 udd d).heard env = some reception ∧
        reception.tmSdu = sdsTmSdu calling 1 udd := by
  obtain ⟨frags, hfrags⟩ := Option.isSome_iff_exists.1
    ((sdsDlBuildFragments_isSome dest calling 1 1 udd).2 ⟨by omega, hmax⟩)
  obtain ⟨hactive, hheard⟩ := heard_start env hfrags hd
  refine ⟨hactive, _, hheard.trans (receiveChain_buildFragments hfrags), ?_⟩
  dsimp only
  rw [length_sdsTmSdu, show 177 - (53 + 8 * udd.length) = 0 by omega, List.replicate_zero,
    List.append_nil]

/-- A message of an acknowledged sender goes out between the limits, with its octets. -/
theorem Relays.relayed_pdu_iff (h : Relays env long s s' calling msg) (hpos : 0 < msg.udd.length)
    (pdu : DSdsData) :
    Relayed env s s' pdu ↔
      (env.idle 1 = true ∧ msg.udd.length ≤ 10 ∨
        long = true ∧ s.sds.active = false ∧ 24 < msg.udd.length ∧ msg.udd.length ≤ 120) ∧
      pdu = msg.pdu calling := by
  have hread : 24 < msg.udd.length → msg.udd.length ≤ 120 →
      readTmSdu (sdsTmSdu calling 1 msg.udd) = some (1, msg.pdu calling) := fun _ hmax ↦
    readTmSdu_sdsTmSdu calling 1 hmax
  constructor
  · rintro (⟨sub, hmem, hcls, hfull, hpdu⟩ | ⟨hidle, hactive, reception, ns, hheard, hpdu⟩)
    · obtain ⟨ack, hsub⟩ := h.submitted
      rw [fresh, hsub, List.drop_left] at hmem
      rcases List.mem_cons.1 hmem with rfl | hmem
      · cases hcls
      · split_ifs at hmem with hlen
        · obtain rfl := List.mem_singleton.1 hmem
          refine ⟨.inl ((h.staged_iff hpos).1 ⟨_, ?_, rfl, rfl, hfull⟩), ?_⟩
          · rw [fresh, hsub, List.drop_left, if_pos hlen]
            exact List.mem_cons_of_mem _ (List.mem_singleton_self _)
          · exact Option.some.inj (hpdu.symm.trans (readDSdsData_relay hpos hlen))
        · exact absurd hmem List.not_mem_nil
    · rw [h.sds] at hactive hheard
      split_ifs at hactive hheard with hlong
      · by_cases hmax : msg.udd.length ≤ 120
        · refine ⟨.inr ⟨hlong.1, hidle, hlong.2, hmax⟩, ?_⟩
          obtain ⟨-, heard, hheard', htm⟩ :=
            heard_delivery env calling msg.dest (by omega) hmax hidle
          rw [hheard'] at hheard
          rw [← Option.some.inj hheard, htm, hread hlong.2 hmax] at hpdu
          exact (Prod.mk.inj (Option.some.inj hpdu)).2.symm
        · have hnone : sdsDlBuildFragments msg.dest calling 1 1 msg.udd = none := by
            rw [← Option.not_isSome_iff_eq_none, sdsDlBuildFragments_isSome]
            exact fun hle ↦ hmax hle.2
          rw [sdsDlDeliveryStart, if_neg (by rw [hidle]; decide), hnone] at hactive
          exact absurd (hidle.symm.trans hactive) (by decide)
      · exact absurd (hidle.symm.trans hactive) (by decide)
  · rintro ⟨hidle | ⟨hlong, hinactive, hmin, hmax⟩, rfl⟩
    · obtain ⟨sub, hmem, hcls, hreq, hfull⟩ := (h.staged_iff hpos).2 hidle
      refine .inl ⟨sub, hmem, hcls, hfull, ?_⟩
      rw [hreq]
      exact readDSdsData_relay hpos (by omega)
    · obtain ⟨hactive, reception, hheard, htm⟩ :=
        heard_delivery env calling msg.dest (by omega) hmax hinactive
      refine .inr ⟨hinactive, ?_, reception, 1, ?_, ?_⟩
      · rw [h.sds, if_pos ⟨hlong, hmin⟩]
        exact hactive
      · rw [h.sds, if_pos ⟨hlong, hmin⟩]
        exact hheard
      · rw [htm]
        exact hread hmin hmax

/-! ### Calls that relay nothing -/

/-- Neither an acknowledgement nor a D-SDS-DATA. -/
def Quiet (subs : List Submission) : Prop := ∀ sub ∈ subs, sub.cls ≠ .blAck ∧ sub.cls ≠ .dSdsData

theorem quiet_nil : Quiet [] := fun _ h ↦ absurd h List.not_mem_nil

/-- The replies to a mobility demand are quiet. -/
theorem submitted_answer (s : SdsRx) (replies : List MmReply) :
    ∃ subs, (s.answer replies).submitted = s.submitted ++ subs ∧ Quiet subs ∧
      (s.answer replies).sds = s.sds := by
  induction replies generalizing s with
  | nil => exact ⟨[], (List.append_nil _).symm, quiet_nil, rfl⟩
  | cons r replies ih =>
      obtain ⟨subs, hsub, hquiet, hsds⟩ := ih (s.submit r.idle r.cls.cls r.req)
      refine ⟨.of r.idle r.cls.cls r.req :: subs, ?_, ?_, hsds⟩
      · rw [SdsRx.answer, List.foldl_cons]
        refine hsub.trans ?_
        rw [SdsRx.submitted_submit, List.append_assoc, List.singleton_append]
      · intro sub hmem
        rcases List.mem_cons.1 hmem with rfl | hmem
        · change r.cls.cls ≠ .blAck ∧ r.cls.cls ≠ .dSdsData
          cases r.cls <;> decide
        · exact hquiet sub hmem

/-- A call that submits nothing but quiet PDUs relays nothing. -/
theorem not_relayed {subs : List Submission} (hsub : s'.submitted = s.submitted ++ subs)
    (hquiet : ∀ sub ∈ subs, sub.cls ≠ .dSdsData) (hsds : s'.sds = s.sds) (pdu : DSdsData) :
    ¬ Relayed env s s' pdu := by
  rintro (⟨sub, hmem, hcls, -⟩ | ⟨hidle, hactive, -⟩)
  · rw [fresh, hsub, List.drop_left] at hmem
    exact hquiet sub hmem hcls
  · rw [hsds] at hactive
    exact Bool.false_ne_true (hidle.symm.trans hactive)

theorem not_acked {subs : List Submission} (hsub : s'.submitted = s.submitted ++ subs)
    (hquiet : Quiet subs) : ¬ Acked s s' := by
  rintro ⟨sub, hmem, hcls, -⟩
  rw [fresh, hsub, List.drop_left] at hmem
  exact (hquiet sub hmem).1 hcls

/-- A call that acknowledges the sender and does nothing else with the message. -/
theorem acked_iff_idle {subs : List Submission} {idle : Bool} {ack : TxPduMeta}
    (hsub : s'.submitted = s.submitted ++ .of idle .blAck ack :: subs) (hquiet : Quiet subs) :
    Acked s s' ↔ idle = true := by
  rw [Acked, fresh, hsub, List.drop_left]
  constructor
  · rintro ⟨sub, hmem, hcls, hrc⟩
    rcases List.mem_cons.1 hmem with rfl | hmem
    · exact (result_blAck idle ack).1 hrc
    · exact absurd hcls (hquiet sub hmem).1
  · intro hidle
    exact ⟨_, List.mem_cons_self, rfl, (result_blAck idle ack).2 hidle⟩

theorem not_dSdsData_cons {subs : List Submission} {idle : Bool} {ack : TxPduMeta}
    (hquiet : Quiet subs) :
    ∀ sub ∈ Submission.of idle .blAck ack :: subs, sub.cls ≠ .dSdsData := by
  intro sub hmem
  rcases List.mem_cons.1 hmem with rfl | hmem
  · exact fun hc ↦ by cases hc
  · exact (hquiet sub hmem).2

/-! ### The two services -/

/-- Whether a call keeps its word, from what it acknowledges and relays. -/
theorem faithful_of_iff {A P : Prop} {u : USds} (hmsg : Holds u msg) (hacked : Acked s s' ↔ A)
    (hrelayed : ∀ pdu, Relayed env s s' pdu ↔ P ∧ pdu = msg.pdu calling) :
    Faithful env s s' u ↔
      (u.Complete → P → 8 ∣ u.lengthInd) ∧ (¬ u.Complete → ¬ A ∧ ¬ P) := by
  refine and_congr (imp_congr_right fun hcomplete ↦ ?_) (imp_congr_right fun _ ↦
    and_congr (not_congr hacked) ?_)
  · have hoct : u.octets = u.lengthInd / 8 := Nat.min_eq_left (Nat.div_le_div_right hcomplete)
    constructor
    · intro h hP
      have hli : 8 * msg.udd.length = u.lengthInd := (h _ ((hrelayed _).2 ⟨hP, rfl⟩)).1
      exact ⟨_, hli.symm⟩
    · rintro h pdu hpdu
      obtain ⟨hP, rfl⟩ := (hrelayed pdu).1 hpdu
      have hli : 8 * u.octets = u.lengthInd := by
        rw [hoct]
        exact Nat.mul_div_cancel' (h hP)
      exact ⟨by rw [SdsMsg.pdu, hmsg.length, hli], by rw [SdsMsg.pdu, hmsg.bits, hli]⟩
  · constructor
    · exact fun h hP ↦ h _ ((hrelayed _).2 ⟨hP, rfl⟩)
    · exact fun h pdu hpdu ↦ h ((hrelayed pdu).1 hpdu).1

theorem llcHdrLen_eq (llcPt : UInt16) :
    llcHdrLen llcPt = llcHeaderLen llcPt.toNat ∨ llcHdrLen llcPt = 5 := by
  rw [llcHdrLen]
  split_ifs with h0 h1 h2
  · rw [beq_iff_eq.1 h0]
    exact .inl rfl
  · exact .inr rfl
  · rw [beq_iff_eq.1 h2]
    exact .inl rfl
  · exact .inr rfl

/-- The message in the demand mailbox. -/
theorem uldbodMsg_of_arrives {u : USds} (h : ShortArrives env u) :
    ∃ msg, Holds u msg ∧ uldbodMsg env =
      if u.Taken (uldbodLlc env) (llcHdrLen ((uldbodMeta env >>> 2) &&& 0xF)) then some msg
      else none := by
  obtain ⟨cpti, udd, hat⟩ := usdsAt_of_read h.read
  refine decode_of_read h.read h.disc rfl (llcHdrLen_eq _) 64 ?_
  have := hat.length_received
  rw [USds.octets]
  omega

/-- The message in the long-SDS mailbox: the header is taken to be that of a BL-DATA. -/
theorem lsdsMsg_of_arrives {u : USds} (h : LongArrives env s u) :
    ∃ msg, Holds u msg ∧ lsdsMsg env =
      if u.Taken (lsdsLlc env) 5 then some msg else none := by
  obtain ⟨cpti, udd, hat⟩ := usdsAt_of_read h.read
  have hmd : ∀ opt : Bool, let md : UInt16 := ((2 : UInt16) <<< 6) ||| ((1 : UInt16) <<< 2) |||
      opt.toNat.toUInt16
      (md >>> 6) &&& 0x7 = 2 ∧ ((md &&& 0x1) != 0) = opt ∧ llcHdrLen ((md >>> 2) &&& 0xF) = 5 := by
    decide
  obtain ⟨hdisc, hopt, hhdr⟩ := hmd (lsdsOpt env)
  have hcap : u.octets ≤ 400 := by
    have := hat.lengthInd_lt
    rw [USds.octets]
    omega
  obtain ⟨msg, hmsg, hdecode⟩ := decode_of_read h.read hdisc hopt (.inr hhdr) 512 hcap
  rw [hhdr] at hdecode
  exact ⟨msg, hmsg, hdecode⟩

section Services

variable {react : UInt8 → UInt32 → (ℕ → Bool) → List MmReply} {u : USds}
variable (hwalk : env.walk = fun mmType ssi body s ↦ s.answer (react mmType ssi body))

include hwalk in
/-- The demand mailbox holds no SDS, and its walker answers, or it holds the start of a chain. -/
theorem serviceUldbod_silent
    (h : uldbodMsg env = none ∨ ∃ msg, uldbodMsg env = some msg ∧ msg.FragStart) :
    ∃ subs, (serviceUldbod env s).submitted = s.submitted ++ subs ∧ Quiet subs ∧
      (serviceUldbod env s).sds = s.sds := by
  rcases h with hnone | ⟨msg, hmsg, hfrag⟩
  · rw [serviceUldbod, hnone]
    dsimp only
    rw [hwalk]
    exact submitted_answer (s.select regUlDemandBodyIndex (List.range 7)) _
  · rw [serviceUldbod, hmsg]
    dsimp only
    rw [if_pos hfrag]
    exact ⟨[], (List.append_nil _).symm, quiet_nil, rfl⟩

/-- A message for nobody here is acknowledged and not passed on. -/
theorem serviceUldbod_unregistered (s : SdsRx) (h : uldbodMsg env = some msg)
    (hfrag : ¬ msg.FragStart) (hreg : env.registered msg.dest = false) :
    (serviceUldbod env s).submitted = s.submitted ++ [.of (env.idle 0) .blAck (uldbodAck env)] ∧
      (serviceUldbod env s).sds = s.sds := by
  rw [serviceUldbod, h]
  dsimp only
  rw [if_neg hfrag, hreg, Bool.and_false, if_neg Bool.false_ne_true]
  exact ⟨rfl, rfl⟩

include hwalk in
/-- Behind the acknowledgement: the walker answers, or there is nothing to pass on. -/
theorem quiet_rest {s₁ : SdsRx}
    (hsub : ∃ ack, s₁.submitted = s.submitted ++ [.of (env.idle 0) .blAck ack])
    (hsds : s₁.sds = s.sds)
    (h : ∀ msg, lsdsMsg env = some msg → env.registered msg.dest = false)
    (mm : Bool) (mmType : UInt8) (ssi : UInt32) (body : ℕ → Bool) :
    ∃ ack subs, (if mm = true then env.walk mmType ssi body s₁ else relayLong env s₁).submitted =
        s.submitted ++ .of (env.idle 0) .blAck ack :: subs ∧ Quiet subs ∧
      (if mm = true then env.walk mmType ssi body s₁ else relayLong env s₁).sds = s.sds := by
  obtain ⟨ack, hsub⟩ := hsub
  cases mm with
  | true =>
      rw [if_pos rfl, hwalk]
      obtain ⟨subs, hanswer, hquiet, hkept⟩ := submitted_answer s₁ (react mmType ssi body)
      refine ⟨ack, subs, ?_, hquiet, hkept.trans hsds⟩
      rw [hanswer, hsub, List.append_assoc, List.singleton_append]
  | false =>
      rw [if_neg Bool.false_ne_true, relayLong]
      cases hmsg : lsdsMsg env with
      | none => exact ⟨ack, [], hsub, quiet_nil, hsds⟩
      | some msg =>
          dsimp only
          rw [h msg hmsg, Bool.and_false, Bool.and_false, if_neg Bool.false_ne_true,
            if_neg Bool.false_ne_true]
          exact ⟨ack, [], hsub, quiet_nil, hsds⟩

include hwalk in
/-- A reassembled body that is no SDS, or one for nobody here: its sender is acknowledged. -/
theorem serviceLongSdsRx_acks (hstart : s.lsdsCntInit = true) (hnew : lsdsCnt env ≠ s.lsdsLastCnt)
    (hpos : 0 < lsdsNbits env) (hle : lsdsNbits env ≤ 8192)
    (h : ∀ msg, lsdsMsg env = some msg → env.registered msg.dest = false) :
    ∃ ack subs, (serviceLongSdsRx env s).submitted =
        s.submitted ++ .of (env.idle 0) .blAck ack :: subs ∧ Quiet subs ∧
      (serviceLongSdsRx env s).sds = s.sds := by
  have hbogus : (decide (lsdsNbits env = 0) || decide (lsdsNbits env > 8192)) = false := by
    rw [decide_eq_false hpos.ne', decide_eq_false (Nat.not_lt.2 hle)]
    rfl
  rw [serviceLongSdsRx]
  dsimp only
  rw [if_neg (by simp [SdsRx.select, hstart]), if_neg (by simpa [SdsRx.select] using hnew), hbogus,
    if_neg Bool.false_ne_true]
  refine quiet_rest (s := s) hwalk ?_ ?_ h _ _ _ _
  · exact ⟨_, rfl⟩
  · rfl

/-- Where the daemon takes the PDU for an SDS, its discriminator is not that of mobility
management. -/
theorem not_mm_of_taken (h : LongArrives env s u) (ht : u.Taken (lsdsLlc env) 5) :
    sdsGbits (lsdsBody env) (lsdsMlePos env) 3 ≠ 1 := by
  obtain ⟨cpti, udd, hat⟩ := usdsAt_of_read h.read
  have hllc :
      llcHdrLen (sdsGbits (lsdsBody env) (if lsdsOpt env then 6 else 0) 4).toUInt16 = 5 := by
    have hnat : (sdsGbits (lsdsBody env) (if lsdsOpt env then 6 else 0) 4).toUInt16.toNat =
        lsdsLlc env := by
      have hlt := number_lt (window (lsdsBody env) (if lsdsOpt env then 6 else 0) 4)
      rw [length_window] at hlt
      rw [UInt32.toNat_toUInt16, toNat_sdsGbits _ _ (by decide), lsdsLlc]
      omega
    rcases llcHdrLen_eq (sdsGbits (lsdsBody env) (if lsdsOpt env then 6 else 0) 4).toUInt16 with
      hlen | hlen
    · rw [hlen, hnat]
      exact ht.2
    · exact hlen
  have hpos : lsdsMlePos env = (if lsdsOpt env then 6 else 0) + llcHeaderLen (lsdsLlc env) := by
    rw [lsdsMlePos, ht.2]
    exact congrArg _ hllc
  rw [Ne, sdsGbits_eq_iff _ _ (by decide), hpos, hat.disc]
  decide

theorem faithful_of_silent {subs : List Submission} (hsub : s'.submitted = s.submitted ++ subs)
    (hquiet : Quiet subs) (hsds : s'.sds = s.sds) : Faithful env s s' u :=
  have hnone : ∀ pdu, ¬ Relayed env s s' pdu :=
    not_relayed hsub (fun sub hmem ↦ (hquiet sub hmem).2) hsds
  ⟨fun _ pdu hpdu ↦ absurd hpdu (hnone pdu), fun _ ↦ ⟨not_acked hsub hquiet, hnone⟩⟩

/-- The sender is acknowledged, and nothing is passed on. -/
theorem faithful_of_acks {subs : List Submission} {ack : TxPduMeta}
    (hsub : s'.submitted = s.submitted ++ .of (env.idle 0) .blAck ack :: subs)
    (hquiet : Quiet subs) (hsds : s'.sds = s.sds) :
    Faithful env s s' u ↔ (¬ u.Complete → env.idle 0 = false) := by
  have hnone : ∀ pdu, ¬ Relayed env s s' pdu := not_relayed hsub (not_dSdsData_cons hquiet) hsds
  rw [Faithful, acked_iff_idle hsub hquiet, Bool.not_eq_true]
  constructor
  · exact fun h hc ↦ (h.2 hc).1
  · exact fun h ↦ ⟨fun _ pdu hpdu ↦ absurd hpdu (hnone pdu), fun hc ↦ ⟨h hc, hnone⟩⟩

/-- The sender is acknowledged, and the message passed on between the limits. -/
theorem faithful_of_relays {msg : SdsMsg} (hmsg : Holds u msg)
    (h : Relays env long s s' calling msg) (hpos : 0 < msg.udd.length)
    (hreg : env.registered msg.dest = true) :
    Faithful env s s' u ↔
      (u.Complete → Passes env long s u.dest.toUInt32 u.octets → 8 ∣ u.lengthInd) ∧
      (¬ u.Complete → env.idle 0 = false ∧ ¬ Passes env long s u.dest.toUInt32 u.octets) := by
  have hpasses : Passes env long s u.dest.toUInt32 u.octets ↔
      (env.idle 1 = true ∧ msg.udd.length ≤ 10 ∨
        long = true ∧ s.sds.active = false ∧ 24 < msg.udd.length ∧ msg.udd.length ≤ 120) := by
    rw [Passes, ← hmsg.dest, hmsg.length, and_iff_right hreg]
  rw [faithful_of_iff hmsg h.acked_iff (h.relayed_pdu_iff hpos), hpasses, Bool.not_eq_true]

theorem not_passes {dest : UInt32} (hreg : env.registered dest = false) (octets : ℕ) :
    ¬ Passes env long s dest octets := fun h ↦
  Bool.false_ne_true (hreg.symm.trans h.1)

include hwalk in
theorem faithful_serviceUldbod (h : ShortArrives env u) :
    Faithful env s (serviceUldbod env s) u ↔
      (u.Taken (uldbodLlc env) (llcHdrLen ((uldbodMeta env >>> 2) &&& 0xF)) →
        (u.Complete → Passes env false s u.dest.toUInt32 u.octets → 8 ∣ u.lengthInd) ∧
        (¬ u.Complete → u.lengthInd / 8 ≤ u.octets →
          env.idle 0 = false ∧ ¬ Passes env false s u.dest.toUInt32 u.octets)) := by
  obtain ⟨msg, hmsg, hdecode⟩ := uldbodMsg_of_arrives h
  by_cases ht : u.Taken (uldbodLlc env) (llcHdrLen ((uldbodMeta env >>> 2) &&& 0xF))
  · rw [if_pos ht] at hdecode
    rw [imp_iff_right ht]
    by_cases hwhole : u.lengthInd / 8 ≤ u.octets
    · have hfrag : ¬ msg.FragStart := by
        rw [SdsMsg.FragStart, hmsg.li, hmsg.length]
        exact Nat.not_lt.2 hwhole
      simp only [imp_iff_right hwhole]
      cases hreg : env.registered msg.dest with
      | true =>
          exact faithful_of_relays hmsg (relays_serviceUldbod s ⟨hdecode, hfrag, hreg⟩)
            (udd_length_pos hdecode (by decide)) hreg
      | false =>
          obtain ⟨hsub, hsds⟩ := serviceUldbod_unregistered s hdecode hfrag hreg
          rw [faithful_of_acks hsub quiet_nil hsds]
          rw [hmsg.dest] at hreg
          have hno : ¬ Passes env false s u.dest.toUInt32 u.octets := not_passes hreg u.octets
          exact ⟨fun hack ↦ ⟨fun _ hp ↦ absurd hp hno, fun hc ↦ ⟨hack hc, hno⟩⟩,
            fun hack hc ↦ (hack.2 hc).1⟩
    · have hfrag : msg.FragStart := by
        rw [SdsMsg.FragStart, hmsg.li, hmsg.length]
        exact Nat.lt_of_not_le hwhole
      obtain ⟨subs, hsub, hquiet, hsds⟩ :=
        serviceUldbod_silent (s := s) hwalk (.inr ⟨msg, hdecode, hfrag⟩)
      refine iff_of_true (faithful_of_silent hsub hquiet hsds) ⟨fun hc ↦ ?_, fun _ hc ↦ ?_⟩
      · exact absurd (Nat.min_eq_left (Nat.div_le_div_right hc)).ge hwhole
      · exact absurd hc hwhole
  · rw [if_neg ht] at hdecode
    obtain ⟨subs, hsub, hquiet, hsds⟩ := serviceUldbod_silent (s := s) hwalk (.inl hdecode)
    exact iff_of_true (faithful_of_silent hsub hquiet hsds) fun hc ↦ absurd hc ht

include hwalk in
theorem faithful_serviceLongSdsRx (h : LongArrives env s u) :
    Faithful env s (serviceLongSdsRx env s) u ↔
      (u.Complete → u.Taken (lsdsLlc env) 5 →
        Passes env true s u.dest.toUInt32 u.octets → 8 ∣ u.lengthInd) ∧
      (¬ u.Complete → env.idle 0 = false ∧
        (u.Taken (lsdsLlc env) 5 → ¬ Passes env true s u.dest.toUInt32 u.octets)) := by
  obtain ⟨msg, hmsg, hdecode⟩ := lsdsMsg_of_arrives h
  have hpos : 0 < lsdsNbits env := by
    obtain ⟨cpti, udd, hat⟩ := usdsAt_of_read h.read
    have := hat.start
    have := hat.inside
    omega
  by_cases hreg : u.Taken (lsdsLlc env) 5 ∧ env.registered msg.dest = true
  · obtain ⟨ht, hreg⟩ := hreg
    rw [if_pos ht] at hdecode
    simp only [imp_iff_right ht]
    exact faithful_of_relays hmsg (relays_serviceLongSdsRx ⟨h.started, h.new, hpos, h.le,
      not_mm_of_taken h ht, hdecode, hreg⟩) (udd_length_pos hdecode (by decide)) hreg
  · have hnobody : ∀ m, lsdsMsg env = some m → env.registered m.dest = false := by
      intro m hm
      rw [hdecode] at hm
      split_ifs at hm with ht
      obtain rfl := Option.some.inj hm
      exact Bool.eq_false_iff.2 fun hr ↦ hreg ⟨ht, hr⟩
    have hno : u.Taken (lsdsLlc env) 5 → ¬ Passes env true s u.dest.toUInt32 u.octets := by
      intro ht hp
      exact hreg ⟨ht, by rw [hmsg.dest]; exact hp.1⟩
    obtain ⟨ack, subs, hsub, hquiet, hsds⟩ :=
      serviceLongSdsRx_acks hwalk h.started h.new hpos h.le hnobody
    rw [faithful_of_acks hsub hquiet hsds]
    exact ⟨fun hack ↦ ⟨fun _ ht hp ↦ absurd hp (hno ht), fun hc ↦ ⟨hack hc, hno⟩⟩,
      fun hack hc ↦ (hack.2 hc).1⟩

end Services

/-- **For which U-SDS-DATA the services keep their word.** -/
theorem faithful_iff (env : SdsEnv) (react : UInt8 → UInt32 → (ℕ → Bool) → List MmReply)
    (s : SdsRx) (u : USds) :
    (ShortArrives env u →
      (Faithful (env.withMm react) s (serviceUldbod (env.withMm react) s) u ↔
        (u.Taken (uldbodLlc env) (llcHdrLen ((uldbodMeta env >>> 2) &&& 0xF)) →
          (u.Complete → Passes env false s u.dest.toUInt32 u.octets → 8 ∣ u.lengthInd) ∧
          (¬ u.Complete → u.lengthInd / 8 ≤ u.octets →
            env.idle 0 = false ∧ ¬ Passes env false s u.dest.toUInt32 u.octets)))) ∧
    (LongArrives env s u →
      (Faithful (env.withMm react) s (serviceLongSdsRx (env.withMm react) s) u ↔
        (u.Complete → u.Taken (lsdsLlc env) 5 →
          Passes env true s u.dest.toUInt32 u.octets → 8 ∣ u.lengthInd) ∧
        (¬ u.Complete → env.idle 0 = false ∧
          (u.Taken (lsdsLlc env) 5 → ¬ Passes env true s u.dest.toUInt32 u.octets)))) := by
  have hwalk : (env.withMm react).walk = fun mmType ssi body s ↦
    s.answer (react mmType ssi body) := rfl
  constructor
  · intro h
    exact faithful_serviceUldbod hwalk ⟨h.disc, h.read⟩
  · intro h
    exact faithful_serviceLongSdsRx hwalk ⟨h.started, h.new, h.le, h.read⟩

/-! ### Messages -/

/-- Ten octets, of 91 bits that are there. -/
def tenOctetsUSds : USds := ⟨2633617, 80, window (uldbodBody tenOctets) 55 92⟩

/-- 25 octets. -/
def twentyFiveOctetsUSds : USds := ⟨2633617, 200, window (lsdsBody twentyFiveOctets) 56 200⟩

theorem shortArrives_tenOctets : ShortArrives tenOctets tenOctetsUSds :=
  ⟨by decide, by decide +kernel⟩

theorem longArrives_twentyFiveOctets :
    LongArrives twentyFiveOctets { lsdsCntInit := true } twentyFiveOctetsUSds :=
  ⟨rfl, by decide, by decide, by decide +kernel⟩

/-- Ten octets and 25 octets are relayed as they were sent. -/
theorem faithful_octets :
    Faithful (tenOctets.withMm fun _ _ _ ↦ []) {}
        (serviceUldbod (tenOctets.withMm fun _ _ _ ↦ []) {}) tenOctetsUSds ∧
      Faithful (twentyFiveOctets.withMm fun _ _ _ ↦ []) { lsdsCntInit := true }
        (serviceLongSdsRx (twentyFiveOctets.withMm fun _ _ _ ↦ []) { lsdsCntInit := true })
        twentyFiveOctetsUSds := by
  obtain ⟨hshort, -⟩ := faithful_iff tenOctets (fun _ _ _ ↦ []) {} tenOctetsUSds
  obtain ⟨-, hlong⟩ := faithful_iff twentyFiveOctets (fun _ _ _ ↦ []) { lsdsCntInit := true }
    twentyFiveOctetsUSds
  refine ⟨(hshort shortArrives_tenOctets).2 fun _ ↦ ⟨fun _ _ ↦ by decide, fun hc ↦ ?_⟩,
    (hlong longArrives_twentyFiveOctets).2 ⟨fun _ _ _ ↦ by decide, fun hc ↦ ?_⟩⟩
  · exact absurd (by decide +kernel) hc
  · exact absurd (by decide +kernel) hc

/-- 84 bits for a recipient who is registered. -/
def eightyFourBits : SdsEnv := shortEnv 0x24f04a0b 0xe470a904 0x82848688 0x8a8c8e90 0x49000

def eightyFourBitsUSds : USds := ⟨2633617, 84, window (uldbodBody eightyFourBits) 55 92⟩

/-- 208 bits, of which the last chain link brought 200. -/
def cutOff : SdsEnv where
  word i := if i = 1 then 0xf238d082 else twentyFiveOctets.word i
  registered ssi := ssi == 2633617

def cutOffUSds : USds := ⟨2633617, 208, window (lsdsBody cutOff) 56 200⟩

/-- Of 84 bits that arrived in full, 80 are relayed; and 200 bits of 208 are acknowledged and
relayed. -/
theorem not_faithful_bits :
    ShortArrives eightyFourBits eightyFourBitsUSds ∧
      ¬ Faithful (eightyFourBits.withMm fun _ _ _ ↦ []) {}
        (serviceUldbod (eightyFourBits.withMm fun _ _ _ ↦ []) {}) eightyFourBitsUSds ∧
      LongArrives cutOff { lsdsCntInit := true } cutOffUSds ∧
      ¬ Faithful (cutOff.withMm fun _ _ _ ↦ []) { lsdsCntInit := true }
        (serviceLongSdsRx (cutOff.withMm fun _ _ _ ↦ []) { lsdsCntInit := true }) cutOffUSds := by
  have hshort : ShortArrives eightyFourBits eightyFourBitsUSds := ⟨by decide, by decide +kernel⟩
  have hlong : LongArrives cutOff { lsdsCntInit := true } cutOffUSds :=
    ⟨rfl, by decide, by decide, by decide +kernel⟩
  refine ⟨hshort, fun h ↦ ?_, hlong, fun h ↦ ?_⟩
  · have hwalk : (eightyFourBits.withMm fun _ _ _ ↦ []).walk = fun _ _ _ s ↦ s.answer [] := rfl
    have h := (faithful_serviceUldbod hwalk ⟨hshort.disc, hshort.read⟩).1 h (by decide +kernel)
    exact absurd (h.1 (by decide +kernel) (by decide +kernel)) (by decide)
  · have hwalk : (cutOff.withMm fun _ _ _ ↦ []).walk = fun _ _ _ s ↦ s.answer [] := rfl
    have h := (faithful_serviceLongSdsRx hwalk
      ⟨hlong.started, hlong.new, hlong.le, hlong.read⟩).1 h
    exact absurd (h.2 (by decide +kernel)).1 (by decide)

end TetraPhy.Daemon
