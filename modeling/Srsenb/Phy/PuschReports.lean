import Srsenb.Phy.Pusch

/-! # Whose report it is

The calls of `decode_pusch` for one user, whatever else the list of grants holds. -/

open Srsenb.Mac (MacEvent UlSchedGrant UlDci Cell)

namespace Srsenb.Phy

/-- The user that a call is for. -/
def callUser : MacEvent → Option Nat
  | .rlFailure rnti | .rlOk rnti => some rnti
  | e => e.status

/-- The calls for a user. -/
def callsFor (rnti : Nat) (calls : List MacEvent) : List MacEvent :=
  calls.filter fun e => decide (callUser e = some rnti)

/-- What a run of `decode_pusch` has beside the entry of one user: the grants before and after it,
the users and their configuration. -/
structure PuschRun where
  pre : List PuschEntry
  post : List PuschEntry
  db : PuschDb
  conf : Nat → PuschConf

namespace PuschLib

variable (lib : PuschLib) (cell : Cell) (tti : Nat)

/-- The calls of a run for the user of an entry. -/
def callsOf (b : PuschEntry) (r : PuschRun) : List MacEvent :=
  callsFor b.rnti (lib.decodePusch cell r.conf tti (r.pre ++ b :: r.post) r.db {}).2.2

/-- The variables with which the loop comes to the entry, if it does. -/
def arrives (r : PuschRun) : Option CqiVars :=
  (lib.decodePusch cell r.conf tti r.pre r.db {}).2.1

/-- What the decoder makes of the entry. -/
def decoded (b : PuschEntry) (r : PuschRun) : Option Decoded :=
  (lib.decodeGrant cell r.conf tti b r.db).2

/-- The PMI of the entry's own report. -/
def ownPmi (c : PuschConf) (b : PuschEntry) (d : Decoded) : Option Nat :=
  (keepCqi c d.cqiEnabled b.grant.grant.cqiRequest d.out {}).widebandPmi

/-- The entry's grant does not compute; or the loop comes to it in neither run; or in both, and the
reception fails, or it has a PMI and a CQI of its own where the variables differ. -/
def SameBefore (b : PuschEntry) (r r' : PuschRun) : Prop :=
  match lib.decoded cell tti b r with
  | none => True
  | some d =>
    match lib.arrives cell tti r, lib.arrives cell tti r' with
    | none, none => True
    | some v, some v' => d.out.ok = true →
      (v.widebandPmi = v'.widebandPmi ∨ (ownPmi (r.conf b.rnti) b d).isSome = true) ∧
      (v.widebandCqiValue = v'.widebandCqiValue ∨ d.cqiEnabled = true ∨ d.out.hasCqi = false)
    | _, _ => False

/-! ## The users of a round -/

variable {lib} {cell} {tti} {db db' : PuschDb} {rnti r : Nat}

theorem isAckPending_frame (sf : Nat) (tb : Fin 2) (hr : r ≠ rnti) :
    (PuschDb.isAckPending db rnti sf tb).2[r]? = db[r]? := by
  unfold PuschDb.isAckPending
  cases h : db[rnti]? with
  | none => rfl
  | some u =>
    simp only [StdMap.getElem?_insert]
    rw [if_neg (Ne.symm hr)]

theorem isAckPending_congr (h : db[rnti]? = db'[rnti]?) (sf : Nat) (tb : Fin 2) :
    (PuschDb.isAckPending db rnti sf tb).1 = (PuschDb.isAckPending db' rnti sf tb).1 ∧
      (PuschDb.isAckPending db rnti sf tb).2[rnti]? =
        (PuschDb.isAckPending db' rnti sf tb).2[rnti]? := by
  unfold PuschDb.isAckPending
  rw [← h]
  cases hu : db[rnti]? with
  | none => exact ⟨rfl, by rw [← h]⟩
  | some u => simp

theorem lastUl_frame (g : UlGrant) (hr : r ≠ rnti) :
    (lib.lastUl tti rnti g db).2[r]? = db[r]? := by
  simp only [lastUl, PuschDb.setLastUlMod, PuschDb.setLastUlTbs, StdMap.getElem?_update]
  rw [if_neg hr.symm, if_neg hr.symm]

theorem lastUl_congr (h : db[rnti]? = db'[rnti]?) (g : UlGrant) :
    (lib.lastUl tti rnti g db).1 = (lib.lastUl tti rnti g db').1 := by
  have hsub : StdMap.sub db rnti = StdMap.sub db' rnti := by
    rw [StdMap.sub_eq, StdMap.sub_eq, h]
  simp only [lastUl, PuschDb.getLastUlTbs, PuschDb.getLastUlMod, PuschDb.setLastUlTbs,
    StdMap.getElem?_update, h, hsub]

theorem setRi_frame (ri : Nat) (hr : r ≠ rnti) : (PuschDb.setRi db rnti ri)[r]? = db[r]? := by
  unfold PuschDb.setRi
  cases h : db[rnti]? with
  | none => rfl
  | some u => simp only [StdMap.getElem?_insert, if_neg hr.symm]

variable {conf : Nat → PuschConf} {e : PuschEntry}

variable (lib cell tti conf db) in
theorem decodeGrant_frame (hr : r ≠ e.rnti) :
    (lib.decodeGrant cell conf tti e db).1[r]? = db[r]? := by
  unfold decodeGrant
  simp only
  cases lib.dciToGrant e.grant.grant cell.nofPrb with
  | none => simp only [isAckPending_frame _ _ hr]
  | some g => simp only [lastUl_frame _ hr, isAckPending_frame _ _ hr]

/-- What the decoder makes of a grant depends on its own user. -/
theorem decodeGrant_congr {conf' : Nat → PuschConf} (h : db[e.rnti]? = db'[e.rnti]?)
    (hconf : conf e.rnti = conf' e.rnti) :
    (lib.decodeGrant cell conf tti e db).2 = (lib.decodeGrant cell conf' tti e db').2 := by
  obtain ⟨hack0, hdb0⟩ := isAckPending_congr h (ttimod tti) 0
  obtain ⟨hack1, hdb1⟩ := isAckPending_congr hdb0 (ttimod tti) 1
  unfold decodeGrant
  simp only
  cases lib.dciToGrant e.grant.grant cell.nofPrb with
  | none => rfl
  | some g =>
    simp only [PuschDb.getRi, hack0, hack1, hdb1, hconf, lastUl_congr hdb1]

variable (lib cell tti conf db) in
theorem puschRound_frame (v : CqiVars) (hr : r ≠ e.rnti) :
    (lib.puschRound cell conf tti e db v).1[r]? = db[r]? := by
  have hframe := decodeGrant_frame lib cell tti db conf hr
  unfold puschRound
  split
  · rename_i hd
    rw [hd] at hframe
    exact hframe
  · rename_i hd
    rw [hd] at hframe
    simp only
    split_ifs
    · rw [setRi_frame _ hr]
      exact hframe
    · exact hframe

/-! ## The calls of a round -/

theorem callUser_puschCalls (e : PuschEntry) (ack0 ack1 : Bool) (tbs : Int) (out : PuschOut)
    (v : CqiVars) :
    ∀ c ∈ puschCalls tti e ack0 ack1 tbs out v, callUser c = some e.rnti := by
  unfold puschCalls ackInfos
  simp only [List.forall_mem_append]
  refine ⟨⟨⟨⟨⟨⟨?_, ?_⟩, ?_⟩, ?_⟩, ?_⟩, ?_⟩, ?_⟩
  · split_ifs <;> simp [callUser]
  · simp [callUser, MacEvent.status]
  · cases ack0 <;> cases ack1 <;> simp [callUser, MacEvent.status]
  · split_ifs <;> simp [callUser, MacEvent.status]
  · split_ifs <;> simp [callUser, MacEvent.status]
  · split_ifs <;> simp [callUser, MacEvent.status]
  · split_ifs <;> simp [callUser, MacEvent.status]

theorem callsFor_self {calls : List MacEvent} (h : ∀ c ∈ calls, callUser c = some rnti) :
    callsFor rnti calls = calls :=
  List.filter_eq_self.mpr fun c hc => decide_eq_true (h c hc)

theorem callsFor_other {calls : List MacEvent} (h : ∀ c ∈ calls, callUser c = some r)
    (hr : rnti ≠ r) : callsFor rnti calls = [] := by
  refine List.filter_eq_nil_iff.mpr fun c hc => ?_
  rw [h c hc, decide_eq_true_eq, Option.some.injEq]
  exact hr.symm

theorem callsFor_append (calls calls' : List MacEvent) :
    callsFor rnti (calls ++ calls') = callsFor rnti calls ++ callsFor rnti calls' :=
  List.filter_append ..

/-- The CQI and the PMI are all that a round takes from the variables. -/
theorem puschCalls_inj (e : PuschEntry) (ack0 ack1 : Bool) (tbs : Int) (out : PuschOut)
    (v v' : CqiVars) :
    puschCalls tti e ack0 ack1 tbs out v = puschCalls tti e ack0 ack1 tbs out v' ↔
      (out.ok = true → (out.hasCqi = true → v.widebandCqiValue = v'.widebandCqiValue) ∧
        v.widebandPmi = v'.widebandPmi) := by
  unfold puschCalls
  cases hok : out.ok with
  | false => simp
  | true =>
    simp only [List.append_assoc, List.append_cancel_left_eq, Bool.and_true, if_true,
      forall_const]
    have hri : ∀ l l' : List MacEvent,
        (if out.hasRi = true then [MacEvent.riInfo e.rnti out.ri] else []) ++ l =
          (if out.hasRi = true then [MacEvent.riInfo e.rnti out.ri] else []) ++ l' ↔ l = l' :=
      fun l l' => List.append_right_inj _
    have hpmi : v.widebandPmi.toList.map (MacEvent.pmiInfo e.rnti) =
        v'.widebandPmi.toList.map (MacEvent.pmiInfo e.rnti) ↔ v.widebandPmi = v'.widebandPmi := by
      cases v.widebandPmi <;> cases v'.widebandPmi <;> simp
    cases hcqi : out.hasCqi with
    | false => simp [hri, hpmi]
    | true => simp [hri, hpmi]

theorem configureCqi_enabled {c : PuschConf} {ri : Nat} {cqiRequest : Bool}
    (h : (lib.configureCqi cell tti c ri cqiRequest).2.isSome = true) :
    c.cqiEn = true ∨ cqiRequest = true := by
  unfold configureCqi at h
  cases hen : c.cqiEn with
  | true => exact Or.inl rfl
  | false =>
    right
    cases hreq : cqiRequest with
    | true => rfl
    | false => simp [hen, hreq] at h

theorem decodeGrant_enabled {d : Decoded} (h : (lib.decodeGrant cell conf tti e db).2 = some d)
    (hen : d.cqiEnabled = true) :
    (conf e.rnti).cqiEn = true ∨ e.grant.grant.cqiRequest = true := by
  unfold decodeGrant at h
  simp only at h
  cases hg : lib.dciToGrant e.grant.grant cell.nofPrb with
  | none => simp [hg] at h
  | some g =>
    simp only [hg, Option.some.injEq] at h
    subst h
    exact configureCqi_enabled hen

/-- Where the variables differ, a report of one's own makes up for it. -/
theorem keepCqi_pmi (c : PuschConf) (e : PuschEntry) (d : Decoded) (v v' : CqiVars) :
    (keepCqi c d.cqiEnabled e.grant.grant.cqiRequest d.out v).widebandPmi =
        (keepCqi c d.cqiEnabled e.grant.grant.cqiRequest d.out v').widebandPmi ↔
      v.widebandPmi = v'.widebandPmi ∨ (ownPmi c e d).isSome = true := by
  have hor : ∀ own : Option Nat, own.or v.widebandPmi = own.or v'.widebandPmi ↔
      v.widebandPmi = v'.widebandPmi ∨ (own.or none).isSome = true := by
    intro own
    cases own <;> simp
  unfold ownPmi keepCqi
  split_ifs
  · exact hor _
  · exact hor _
  · simp
  · simp

theorem keepCqi_cqi {c : PuschConf} {e : PuschEntry} {d : Decoded}
    (hen : d.cqiEnabled = true → c.cqiEn = true ∨ e.grant.grant.cqiRequest = true)
    (v v' : CqiVars) :
    (keepCqi c d.cqiEnabled e.grant.grant.cqiRequest d.out v).widebandCqiValue =
        (keepCqi c d.cqiEnabled e.grant.grant.cqiRequest d.out v').widebandCqiValue ↔
      v.widebandCqiValue = v'.widebandCqiValue ∨ d.cqiEnabled = true := by
  unfold keepCqi
  split_ifs with h1 h2 h3
  · simp [h1]
  · simp [h1]
  · exact absurd (hen h1) (by simp [h2, h3])
  · simp [h1]

/-! ## The list -/

/-- The outcomes of a round. -/
theorem puschRound_cases (lib : PuschLib) (cell : Cell) (conf : Nat → PuschConf) (tti : Nat)
    (e : PuschEntry) (db : PuschDb) (v : CqiVars) :
    (∃ db', lib.decodeGrant cell conf tti e db = (db', none) ∧
      lib.puschRound cell conf tti e db v = (db', none)) ∨
    ∃ db' d, (lib.decodeGrant cell conf tti e db).2 = some d ∧
      lib.puschRound cell conf tti e db v =
        (db', some (keepCqi (conf e.rnti) d.cqiEnabled e.grant.grant.cqiRequest d.out v,
          puschCalls tti e d.ack0 d.ack1 d.tbs d.out
            (keepCqi (conf e.rnti) d.cqiEnabled e.grant.grant.cqiRequest d.out v))) := by
  unfold puschRound
  cases hd : lib.decodeGrant cell conf tti e db with
  | mk db' o =>
    cases o with
    | none => exact Or.inl ⟨db', rfl, rfl⟩
    | some d => exact Or.inr ⟨_, d, rfl, rfl⟩

theorem decodePusch_skip (h0 : e.rnti = 0) (es : List PuschEntry) (v : CqiVars) :
    lib.decodePusch cell conf tti (e :: es) db v = lib.decodePusch cell conf tti es db v := by
  rw [decodePusch, if_neg (not_not.mpr h0)]

theorem decodePusch_error (h0 : e.rnti ≠ 0) (es : List PuschEntry) {v : CqiVars}
    (hr : lib.puschRound cell conf tti e db v = (db', none)) :
    lib.decodePusch cell conf tti (e :: es) db v = (db', none, []) := by
  rw [decodePusch, if_pos h0, hr]

theorem decodePusch_round (h0 : e.rnti ≠ 0) (es : List PuschEntry) {v v' : CqiVars}
    {calls : List MacEvent} (hr : lib.puschRound cell conf tti e db v = (db', some (v', calls))) :
    lib.decodePusch cell conf tti (e :: es) db v =
      ((lib.decodePusch cell conf tti es db' v').1, (lib.decodePusch cell conf tti es db' v').2.1,
        calls ++ (lib.decodePusch cell conf tti es db' v').2.2) := by
  rw [decodePusch, if_pos h0, hr]

variable (lib cell tti conf) in
/-- The grants of other users: no call for this one, whose record stays. -/
theorem decodePusch_others {es : List PuschEntry} (h : ∀ e ∈ es, e.rnti ≠ rnti) (db : PuschDb)
    (v : CqiVars) :
    callsFor rnti (lib.decodePusch cell conf tti es db v).2.2 = [] ∧
      (lib.decodePusch cell conf tti es db v).1[rnti]? = db[rnti]? := by
  induction es generalizing db v with
  | nil => exact ⟨rfl, rfl⟩
  | cons e es ih =>
    have hrest := ih fun e' he' => h e' (List.mem_cons_of_mem e he')
    have he := h e List.mem_cons_self
    by_cases h0 : e.rnti = 0
    · rw [decodePusch_skip h0]
      exact hrest db v
    · have hframe := puschRound_frame lib cell tti db conf v he.symm
      rcases puschRound_cases lib cell conf tti e db v with ⟨db1, -, hr⟩ | ⟨db1, d, -, hr⟩
      · rw [decodePusch_error h0 es hr]
        rw [hr] at hframe
        exact ⟨rfl, hframe⟩
      · rw [decodePusch_round h0 es hr]
        rw [hr] at hframe
        obtain ⟨hcalls, hdb⟩ := hrest db1
          (keepCqi (conf e.rnti) d.cqiEnabled e.grant.grant.cqiRequest d.out v)
        refine ⟨?_, hdb.trans hframe⟩
        rw [callsFor_append, hcalls, List.append_nil]
        exact callsFor_other (callUser_puschCalls e _ _ _ _ _) he.symm

theorem decodePusch_append (es es' : List PuschEntry) (db : PuschDb) (v : CqiVars) :
    lib.decodePusch cell conf tti (es ++ es') db v =
      match lib.decodePusch cell conf tti es db v with
      | (db, none, calls) => (db, none, calls)
      | (db, some v, calls) =>
        ((lib.decodePusch cell conf tti es' db v).1, (lib.decodePusch cell conf tti es' db v).2.1,
          calls ++ (lib.decodePusch cell conf tti es' db v).2.2) := by
  induction es generalizing db v with
  | nil => simp [decodePusch]
  | cons e es ih =>
    rw [List.cons_append]
    by_cases h0 : e.rnti = 0
    · rw [decodePusch_skip h0, decodePusch_skip h0, ih]
    · rcases puschRound_cases lib cell conf tti e db v with ⟨db1, -, hr⟩ | ⟨db1, d, -, hr⟩
      · rw [decodePusch_error h0 _ hr, decodePusch_error h0 _ hr]
      · rw [decodePusch_round h0 _ hr, decodePusch_round h0 _ hr, ih]
        rcases lib.decodePusch cell conf tti es db1 _ with ⟨db2, _ | v2, calls⟩
        · rfl
        · simp

/-- The calls for the user of an entry: those of its own round, if the loop comes to it. -/
theorem callsOf_eq {b : PuschEntry} {r : PuschRun} (h0 : b.rnti ≠ 0)
    (halone : ∀ e ∈ r.pre ++ r.post, e.rnti ≠ b.rnti) :
    lib.callsOf cell tti b r =
      match lib.arrives cell tti r, lib.decoded cell tti b r with
      | some v, some d =>
        puschCalls tti b d.ack0 d.ack1 d.tbs d.out
          (keepCqi (r.conf b.rnti) d.cqiEnabled b.grant.grant.cqiRequest d.out v)
      | _, _ => [] := by
  obtain ⟨hpre, hpost⟩ := List.forall_mem_append.mp halone
  obtain ⟨hcalls, hdb⟩ := decodePusch_others lib cell tti r.conf hpre r.db {}
  have hsame : lib.decoded cell tti b r = (lib.decodeGrant cell r.conf tti b
      (lib.decodePusch cell r.conf tti r.pre r.db {}).1).2 := decodeGrant_congr hdb.symm rfl
  unfold callsOf arrives
  rw [hsame, decodePusch_append]
  generalize lib.decodePusch cell r.conf tti r.pre r.db {} = before at hcalls
  obtain ⟨db1, _ | v1, calls⟩ := before
  · simpa using hcalls
  · simp only at hcalls ⊢
    rw [callsFor_append, hcalls, List.nil_append]
    rcases puschRound_cases lib cell r.conf tti b db1 v1 with ⟨db2, hd, hr⟩ | ⟨db2, d, hd, hr⟩
    · rw [decodePusch_error h0 _ hr, hd]
      rfl
    · rw [decodePusch_round h0 _ hr, hd, callsFor_append,
        (decodePusch_others _ _ _ _ hpost _ _).1, List.append_nil]
      exact callsFor_self (callUser_puschCalls b _ _ _ _ _)

/-- **Whose report it is.** Two lists that agree on the entry of a user lead to the same calls for
it if and only if what comes before the entry leaves the same PMI and CQI, or the user's own report
replaces them, or there is no use of them. -/
theorem callsOf_eq_iff (lib : PuschLib) (cell : Cell) (tti : Nat) (b : PuschEntry)
    (r r' : PuschRun) (h0 : b.rnti ≠ 0) (halone : ∀ e ∈ r.pre ++ r.post, e.rnti ≠ b.rnti)
    (halone' : ∀ e ∈ r'.pre ++ r'.post, e.rnti ≠ b.rnti) (hdb : r.db[b.rnti]? = r'.db[b.rnti]?)
    (hconf : r.conf b.rnti = r'.conf b.rnti) :
    lib.callsOf cell tti b r = lib.callsOf cell tti b r' ↔ lib.SameBefore cell tti b r r' := by
  have hdecoded : lib.decoded cell tti b r' = lib.decoded cell tti b r :=
    (decodeGrant_congr hdb hconf).symm
  have hne : ∀ (d : Decoded) (v : CqiVars),
      puschCalls tti b d.ack0 d.ack1 d.tbs d.out v ≠ [] := by
    intro d v
    simp [puschCalls]
  rw [callsOf_eq h0 halone, callsOf_eq h0 halone', hdecoded, ← hconf]
  unfold SameBefore
  cases hd : lib.decoded cell tti b r with
  | none => cases lib.arrives cell tti r <;> cases lib.arrives cell tti r' <;> simp
  | some d =>
    have hen := fun h => decodeGrant_enabled (e := b) (d := d) hd h
    cases lib.arrives cell tti r with
    | none =>
      cases lib.arrives cell tti r' with
      | none => simp
      | some v' => simpa using (hne d _).symm
    | some v =>
      cases lib.arrives cell tti r' with
      | none => simpa using hne d _
      | some v' =>
        simp only
        rw [puschCalls_inj, keepCqi_pmi, keepCqi_cqi hen]
        refine imp_congr_right fun _ => ?_
        cases d.out.hasCqi <;> simp [and_comm]

/-! ## Two users -/

/-- srsLTE as far as two grants need it: a CQI is due in subframe 1. -/
def exampleLib : PuschLib where
  srSendTti _ _ := false
  riSend _ _ _ := false
  cqiSend _ tti := tti % 10 == 1
  dciToGrant _ _ := some { tbs := 800 }
  modBits _ := 2
  noSubbands _ := 0

/-- A grant of a user, received as told. -/
def exampleEntry (rnti : Nat) (out : PuschOut) : PuschEntry where
  grant := { rnti := rnti, currentTxNb := 0, needsPdcch := true, grant := {}, location := {},
             softbuffer := 0, data := none }
  rx _ := out

/-- User 71, without a report, is received after the grants of a list. User 70 is in mode 4 and
reports a PMI. -/
def exampleRun (pre : List PuschEntry) : PuschRun where
  pre := pre
  post := []
  db := ∅
  conf rnti := if rnti = 70 then { cqiEn := true, txMode := .mode4 } else {}

def reportOf70 : PuschEntry :=
  exampleEntry 70 { wideband := { cqi := 9, pmi := some 1 }, hasCqi := true }

theorem callsOf_eq_iff_exampleRun :
    exampleLib.callsOf ⟨6, 1, 7⟩ 1 (exampleEntry 71 {}) (exampleRun [reportOf70]) =
        exampleLib.callsOf ⟨6, 1, 7⟩ 1 (exampleEntry 71 {}) (exampleRun []) ↔
      exampleLib.SameBefore ⟨6, 1, 7⟩ 1 (exampleEntry 71 {}) (exampleRun [reportOf70])
        (exampleRun []) :=
  callsOf_eq_iff exampleLib ⟨6, 1, 7⟩ 1 (exampleEntry 71 {}) (exampleRun [reportOf70])
    (exampleRun []) (by decide) (by decide) (by decide) rfl rfl

/-- The PMI of user 70 is told for user 71 as well. -/
theorem callsOf_ne_exampleRun :
    exampleLib.callsOf ⟨6, 1, 7⟩ 1 (exampleEntry 71 {}) (exampleRun [reportOf70]) ≠
      exampleLib.callsOf ⟨6, 1, 7⟩ 1 (exampleEntry 71 {}) (exampleRun []) :=
  fun h => absurd (congrArg List.length h) (by decide +kernel)

/-! ## The acknowledgements

`Phy.decodePusch` is the same loop as far as it is about pending ACKs. -/

/-- A grant as that loop has it. -/
def asPusch (lib : PuschLib) (cell : Cell) (conf : Nat → PuschConf) (tti : Nat) (e : PuschEntry)
    (db : PuschDb) : Pusch :=
  let d := (lib.decodeGrant cell conf tti e db).2
  { rnti := e.rnti, grantOk := d.isSome
    crc := d.any fun d => d.out.ok
    snrOk := d.any fun d => d.out.snr == some .gt
    uciAck := d.any fun d => d.out.uciAck
    uciAck2 := d.any fun d => d.out.uciAck2 }

/-- The list as that loop has it. -/
def asPuschs (lib : PuschLib) (cell : Cell) (conf : Nat → PuschConf) (tti : Nat) :
    List PuschEntry → PuschDb → CqiVars → List Pusch
  | [], _, _ => []
  | e :: es, db, v =>
    lib.asPusch cell conf tti e db ::
      if e.rnti = 0 then asPuschs lib cell conf tti es db v
      else
        match lib.puschRound cell conf tti e db v with
        | (_, none) => []
        | (db, some (v, _)) => asPuschs lib cell conf tti es db v

/-- An acknowledgement among the calls. -/
def ackCall : MacEvent → Option AckInfo
  | .ackInfo _ rnti tb ack => some ⟨rnti, tb, ack⟩
  | _ => none

/-- The users, as far as they are about ACKs. -/
def AgreeDb (db : PuschDb) (cdb : CommonDb) : Prop :=
  ∀ r : Nat, db[r]?.map (·.toCommonUe) = cdb[r]?

variable {cdb : CommonDb}

theorem AgreeDb.isAckPending (h : AgreeDb db cdb) (rnti sf : Nat) (tb : Fin 2) :
    (PuschDb.isAckPending db rnti sf tb).1 = (CommonDb.isAckPending cdb sf rnti tb).1 ∧
      AgreeDb (PuschDb.isAckPending db rnti sf tb).2 (CommonDb.isAckPending cdb sf rnti tb).2 := by
  have hr := h rnti
  unfold PuschDb.isAckPending CommonDb.isAckPending
  rw [← hr]
  cases hu : db[rnti]? with
  | none => exact ⟨rfl, h⟩
  | some u =>
    refine ⟨rfl, fun r => ?_⟩
    simp only [StdMap.getElem?_insert, Option.map_some]
    split_ifs
    · rfl
    · exact h r

theorem AgreeDb.lastUl (h : AgreeDb db cdb) (rnti : Nat) (g : UlGrant) :
    AgreeDb (lib.lastUl tti rnti g db).2 (CommonDb.setLastUlTbs cdb rnti) := by
  have hr := h rnti
  have hkept : ∀ r : Nat, (lib.lastUl tti rnti g db).2[r]?.map (·.toCommonUe) =
      if rnti = r then some (StdMap.sub db rnti).toCommonUe else db[r]?.map (·.toCommonUe) := by
    intro r
    simp only [PuschLib.lastUl, PuschDb.setLastUlMod, PuschDb.setLastUlTbs,
      StdMap.getElem?_update, StdMap.sub_update, if_true]
    by_cases heq : rnti = r
    · rw [if_pos heq, if_pos heq]
      rfl
    · rw [if_neg heq, if_neg heq, if_neg heq]
  intro r
  rw [hkept, StdMap.sub_eq]
  unfold CommonDb.setLastUlTbs CommonDb.addRnti
  rw [← hr, Option.isSome_map]
  cases hu : db[rnti]? with
  | none =>
    simp only [Option.isSome_none, Bool.false_eq_true, if_false, StdMap.getElem?_update,
      StdMap.sub_eq, ← hr, hu]
    split_ifs
    · rfl
    · exact h r
  | some u =>
    simp only [Option.isSome_some, if_true, Option.getD_some]
    split_ifs with heq
    · rw [← heq, ← hr, hu]
      rfl
    · exact h r

theorem AgreeDb.setRi (h : AgreeDb db cdb) (rnti ri : Nat) :
    AgreeDb (PuschDb.setRi db rnti ri) cdb := by
  intro r
  unfold PuschDb.setRi
  cases hu : db[rnti]? with
  | none => exact h r
  | some u =>
    simp only [StdMap.getElem?_insert]
    split_ifs with hr
    · subst hr
      rw [← h rnti, hu]
      rfl
    · exact h r

theorem puschCalls_acks (e : PuschEntry) (ack0 ack1 : Bool) (tbs : Int) (out : PuschOut)
    (v : CqiVars) :
    (puschCalls tti e ack0 ack1 tbs out v).filterMap ackCall =
      ackInfos e.rnti ack0 ack1 out.uciAck out.uciAck2 (out.ok || out.snr == some .gt) := by
  have hnone : ∀ (c : Prop) [Decidable c] (l : List MacEvent), l.filterMap ackCall = [] →
      (if c then l else []).filterMap ackCall = [] := by
    intro c _ l hl
    split_ifs
    · exact hl
    · rfl
  have hpmi : (v.widebandPmi.toList.map (MacEvent.pmiInfo e.rnti)).filterMap ackCall = [] := by
    cases v.widebandPmi <;> rfl
  have hrl : [if (!out.ok && out.snr == some .lt) = true then MacEvent.rlFailure e.rnti
      else .rlOk e.rnti].filterMap ackCall = [] := by
    split_ifs <;> rfl
  have hacks : ∀ l : List AckInfo,
      (l.map fun a => MacEvent.ackInfo tti a.rnti a.tb a.ack).filterMap ackCall = l := by
    intro l
    induction l with
    | nil => rfl
    | cons a l ih => simp [ackCall, ih]
  unfold puschCalls
  simp only [List.filterMap_append, hacks, hnone _ _ hrl, hnone _ _ hpmi]
  rw [hnone _ _ rfl, hnone _ _ rfl, hnone _ _ rfl]
  simp [ackCall]

/-- The ACKs of `decode_pusch` are those of the loop over pending ACKs. -/
theorem decodePusch_acks (es : List PuschEntry) (v : CqiVars) (h : AgreeDb db cdb) (ueDb : UeDb)
    (calls : List AckInfo) :
    let r := Phy.decodePusch tti (lib.asPuschs cell conf tti es db v) cdb ueDb calls
    r.2.2 = calls ++ (lib.decodePusch cell conf tti es db v).2.2.filterMap ackCall ∧
      AgreeDb (lib.decodePusch cell conf tti es db v).1 r.1 := by
  induction es generalizing db v cdb ueDb calls with
  | nil => exact ⟨by simp [asPuschs, decodePusch, Phy.decodePusch], h⟩
  | cons e es ih =>
    by_cases h0 : e.rnti = 0
    · rw [decodePusch_skip h0, asPuschs, if_pos h0]
      simp only [Phy.decodePusch, asPusch, h0, ne_eq, not_true, if_false]
      exact ih v h ueDb calls
    · obtain ⟨hack0, hdb0⟩ := h.isAckPending e.rnti (ttimod tti) 0
      obtain ⟨hack1, hdb1⟩ := hdb0.isAckPending e.rnti (ttimod tti) 1
      rw [asPuschs, if_neg h0]
      cases hg : lib.dciToGrant e.grant.grant cell.nofPrb with
      | none =>
        have hd : lib.decodeGrant cell conf tti e db = ((PuschDb.isAckPending
            (PuschDb.isAckPending db e.rnti (ttimod tti) 0).2 e.rnti (ttimod tti) 1).2, none) := by
          simp only [decodeGrant, hg]
        have hr : lib.puschRound cell conf tti e db v = ((PuschDb.isAckPending
            (PuschDb.isAckPending db e.rnti (ttimod tti) 0).2 e.rnti (ttimod tti) 1).2, none) := by
          simp only [puschRound, hd]
        rw [decodePusch_error h0 es hr]
        simp only [hr, asPusch, hd, Phy.decodePusch, h0, ne_eq, not_false_eq_true, if_true]
        exact ⟨by simp, hdb1⟩
      | some g =>
        obtain ⟨d, hd, hd0, hd1⟩ : ∃ d, lib.decodeGrant cell conf tti e db =
            ((lib.lastUl tti e.rnti g (PuschDb.isAckPending (PuschDb.isAckPending db e.rnti
              (ttimod tti) 0).2 e.rnti (ttimod tti) 1).2).2, some d) ∧
            d.ack0 = (PuschDb.isAckPending db e.rnti (ttimod tti) 0).1 ∧
            d.ack1 = (PuschDb.isAckPending (PuschDb.isAckPending db e.rnti
              (ttimod tti) 0).2 e.rnti (ttimod tti) 1).1 := by
          simp only [decodeGrant, hg]
          exact ⟨_, rfl, rfl, rfl⟩
        have hdb2 : AgreeDb (lib.lastUl tti e.rnti g (PuschDb.isAckPending (PuschDb.isAckPending db
            e.rnti (ttimod tti) 0).2 e.rnti (ttimod tti) 1).2).2 (CommonDb.setLastUlTbs
              (CommonDb.isAckPending (CommonDb.isAckPending cdb (ttimod tti) e.rnti 0).2
                (ttimod tti) e.rnti 1).2 e.rnti) := hdb1.lastUl e.rnti g
        obtain ⟨db3, hr, hdb3⟩ : ∃ db3, lib.puschRound cell conf tti e db v =
            (db3, some (keepCqi (conf e.rnti) d.cqiEnabled e.grant.grant.cqiRequest d.out v,
              puschCalls tti e d.ack0 d.ack1 d.tbs d.out
                (keepCqi (conf e.rnti) d.cqiEnabled e.grant.grant.cqiRequest d.out v))) ∧
            AgreeDb db3 (CommonDb.setLastUlTbs
              (CommonDb.isAckPending (CommonDb.isAckPending cdb (ttimod tti) e.rnti 0).2
                (ttimod tti) e.rnti 1).2 e.rnti) := by
          simp only [puschRound, hd]
          refine ⟨_, rfl, ?_⟩
          split_ifs
          · exact hdb2.setRi e.rnti d.out.ri
          · exact hdb2
        rw [decodePusch_round h0 es hr]
        simp only [hr, asPusch, hd, Phy.decodePusch, h0, ne_eq, not_false_eq_true, if_true,
          Option.isSome_some, Option.any_some]
        obtain ⟨hcalls, hlast⟩ := ih
          (keepCqi (conf e.rnti) d.cqiEnabled e.grant.grant.cqiRequest d.out v) hdb3
          (StdMap.update ueDb e.rnti fun u => { u with hasGrantTti := tti })
          (calls ++ ackInfos e.rnti d.ack0 d.ack1 d.out.uciAck d.out.uciAck2
            (d.out.ok || d.out.snr == some .gt))
        have he0 := hack0.symm.trans hd0.symm
        have he1 := hack1.symm.trans hd1.symm
        simp only [he0, he1]
        refine ⟨?_, hlast⟩
        rw [hcalls, List.filterMap_append, puschCalls_acks, List.append_assoc]

end PuschLib

end Srsenb.Phy
