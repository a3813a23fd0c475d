import Srsenb.Base.Run
import Srsenb.Mac.RxBuffers
import Srsenb.Mac.SoftBuffers
import Srsenb.Phy.AckRuns
import Srsenb.Phy.PuschReports

/-! # The uplink grants between two subframes

The worker of a subframe decodes the grants of its slot, and asks the MAC for those of the subframe
eight later. In between they wait in a ring of ten slots, and their buffers in one of sixteen. -/

open Srsenb.Run
open Srsenb.Mac (Lib MacState MacEvent MacAction MacUe Sched SchedUe UlSchedGrant Cell DciCce)

namespace Srsenb.Mac

/-- `ul_sched` returns an error. -/
def Sched.ulFails (s : Sched) : Bool :=
  s.configured && decide (s.cfg.prachFreqOffset + 6 > s.cfg.cell.nofPrb) &&
    decide (s.cfg.cell.nofPrb > 10)

end Srsenb.Mac

namespace Srsenb.Phy

open AckRun (tti ackSf)

/-- `MAX_WORKERS` -/
def maxWorkers : Nat := 4

/-- Where the worker of a subframe is: not at it yet, past `decode_pusch`, or out of `work_imp`. -/
inductive WorkPhase
  | off
  | received
  | over
  deriving DecidableEq, Repr

/-- What the worker decodes with. -/
structure PuschInput where
  running : Bool := true
  conf : Nat → PuschConf
  db : PuschDb
  /-- The decoder of the samples, by user. -/
  rx : Nat → PuschIn → PuschOut

/-- The MAC and the slots of `ul_grants`, and what has happened: where the workers are, the subframe
that each slot was last filled for, and by subframe the grants that `get_ul_sched` returned for it,
and the calls of `crc_info` and the buffers given back, with their users, as it was decoded. -/
structure GrantRun where
  mac : MacState
  ulGrants : Nat → List UlSchedGrant := fun _ => []
  phase : Nat → WorkPhase
  due : Nat → Option Nat := fun _ => none
  granted : Nat → List UlSchedGrant := fun _ => []
  crcs : Nat → List (Nat × Nat) := fun _ => []
  returned : Nat → List (Nat × Nat) := fun _ => []

/-- The worker of subframe `n` decodes, or comes to its end, by way of `get_ul_sched` if it is
`reached`, with what the queues of PDUs give. Beside that the MAC is called, anything but the users
of the scheduler changes, or `rem_rnti` takes a user out of the slots. -/
inductive GrantEvent
  | rx (n : Nat) (inp : PuschInput)
  | tx (n : Nat) (reached : Bool) (buffers : Nat → Option Nat)
  | mac (e : MacEvent)
  | sched (s : Sched) (ue : Nat → SchedUe)
  | remRnti (rnti : Nat)

/-- The MAC while a worker decodes, with the calls of `crc_info` and the buffers given back. -/
structure RxOut where
  mac : MacState
  crcs : List (Nat × Nat) := []
  returned : List (Nat × Nat) := []

/-- The functions that a run uses, the cell and the places of the DCIs. -/
structure GrantEnv where
  macLib : Lib
  puschLib : PuschLib
  cell : Cell
  locations : Nat → Nat → Nat → DciCce

namespace GrantEnv

variable (env : GrantEnv)

def call (out : RxOut) (e : MacEvent) : RxOut where
  mac := (out.mac.handle env.macLib env.locations e).st
  crcs := out.crcs ++ e.crc.toList
  returned := out.returned ++
    ((out.mac.handle env.macLib env.locations e).acts.filterMap MacAction.returns).map
      fun b => ((callUser e).getD 0, b)

/-- The calls that the worker of a subframe makes for some grants. -/
def calls (n : Nat) (inp : PuschInput) (gs : List UlSchedGrant) : List MacEvent :=
  if inp.running then
    (env.puschLib.decodePusch env.cell inp.conf (tti n)
      (gs.map fun g => ⟨g, inp.rx g.rnti⟩) inp.db {}).2.2
  else []

end GrantEnv

namespace GrantRun

variable (env : GrantEnv) (st : GrantRun)

/-- `get_ul_sched` fills the slot. -/
def Fills (reached : Bool) : Prop := reached = true ∧ st.mac.sched.ulFails = false

instance (reached : Bool) : Decidable (st.Fills reached) := inferInstanceAs (Decidable (_ ∧ _))

def rxOut (n : Nat) (inp : PuschInput) : RxOut :=
  (env.calls n inp (st.ulGrants (ttimod n))).foldl env.call ⟨st.mac, [], []⟩

def step (st : GrantRun) : GrantEvent → GrantRun
  | .rx n inp =>
    { st with
      mac := (st.rxOut env n inp).mac
      phase := Function.update st.phase n .received
      crcs := Function.update st.crcs n (st.crcs n ++ (st.rxOut env n inp).crcs)
      returned := Function.update st.returned n (st.returned n ++ (st.rxOut env n inp).returned) }
  | .tx n reached buffers =>
    if st.Fills reached then
      let out := st.mac.getUlSched env.macLib (tti (ackSf n)) buffers
      { st with
        mac := out.st
        phase := Function.update st.phase n .over
        ulGrants := Function.update st.ulGrants (ttimod (ackSf n)) out.grants
        due := Function.update st.due (ttimod (ackSf n)) (some (ackSf n))
        granted := Function.update st.granted (ackSf n) out.grants }
    else { st with phase := Function.update st.phase n .over }
  | .mac e => { st with mac := st.mac.step env.macLib env.locations e }
  | .sched s ue =>
    { st with mac := { st.mac with
        sched := { s with ueDb := st.mac.sched.ueDb.map fun k _ => { ue k with rnti := k } } } }
  | .remRnti rnti =>
    { st with ulGrants := fun i =>
        (st.ulGrants i).map fun g => if g.rnti = rnti then { g with rnti := 0 } else g }

/-- Nothing is reported of a subframe before it is decoded; from then on each of its grants has
one `crc_info` for its TTI, and its buffer was given back once. -/
def Settled : Prop :=
  ∀ n, ((st.granted n).map (·.rnti)).Nodup ∧
    if st.phase n = .off then st.crcs n = [] ∧ st.returned n = []
    else st.crcs n = (st.granted n).map (fun g => (tti n, g.rnti)) ∧
      st.returned n = (st.granted n).filterMap fun g => g.data.map fun b => (g.rnti, b)

/-- Each grant finds its user's slot empty and gets what the queue gives. -/
def Requests (st : GrantRun) : GrantEvent → Prop
  | .tx n reached buffers => st.Fills reached →
    ∀ (k : Nat) (g : UlSchedGrant),
      (st.mac.getUlSched env.macLib (tti (ackSf n)) buffers).grants[k]? = some g →
        st.mac.pending g.rnti (MacUe.bufferOf (tti (ackSf n))) = none ∧ g.data = buffers k
  | _ => True

/-! ## Order -/

/-- The subframe is next for one of the workers. If there are grants in its slot, then they are for
this subframe, the worker runs, and each grant computes. -/
def RxInTurn (n : Nat) (inp : PuschInput) : Prop :=
  st.phase n = .off ∧ (∀ m < n, m + maxWorkers ≤ n → st.phase m = .over) ∧
    ((∃ g ∈ st.ulGrants (ttimod n), g.rnti ≠ 0) →
      st.due (ttimod n) = some n ∧ inp.running = true ∧
        ∀ g ∈ st.ulGrants (ttimod n),
          (env.puschLib.dciToGrant g.grant env.cell.nofPrb).isSome = true)

/-- The worker has decoded. It does not fill a slot whose grants another one is still to decode. -/
def TxInTurn (n : Nat) (reached : Bool) : Prop :=
  st.phase n = .received ∧
    (st.Fills reached → ∀ m < n, m + 2 = n → st.phase m = .off →
      ∀ g ∈ st.ulGrants (ttimod m), g.rnti = 0)

/-- No grant of the user is still to be decoded. -/
def Idle (rnti : Nat) : Prop :=
  ∀ i < 10, ∀ n ∈ st.due i, st.phase n = .off → ∀ g ∈ st.ulGrants i, g.rnti ≠ rnti

/-- Only the workers call `crc_info`, ACKs are for users that are there, and a user stays while a
grant of it is to be decoded. -/
def MacInTurn (e : MacEvent) : Prop :=
  e.crc = none ∧ st.mac.Allowed e ∧ ∀ r ∈ st.mac.resets e, st.Idle r

def InTurn (st : GrantRun) : GrantEvent → Prop
  | .rx n inp => st.RxInTurn env n inp
  | .tx n reached _ => st.TxInTurn n reached
  | .mac e => st.MacInTurn e
  | .sched _ _ => True
  | .remRnti rnti => st.Idle rnti

instance (n : Nat) (inp : PuschInput) : Decidable (st.RxInTurn env n inp) :=
  inferInstanceAs (Decidable (_ ∧ (∀ m < n, _) ∧ (_ → _)))

instance (n : Nat) (reached : Bool) : Decidable (st.TxInTurn n reached) :=
  inferInstanceAs (Decidable (_ ∧ (_ → ∀ m < n, _)))

instance (rnti : Nat) : Decidable (st.Idle rnti) :=
  inferInstanceAs (Decidable (∀ i < 10, ∀ n ∈ st.due i, _))

instance (m : MacState) : DecidablePred m.Allowed := by
  intro e
  unfold MacState.Allowed
  split <;> infer_instance

instance (e : MacEvent) : Decidable (st.MacInTurn e) :=
  inferInstanceAs (Decidable (_ ∧ _ ∧ ∀ r ∈ st.mac.resets e, _))

instance InTurn.decidable (st : GrantRun) (e : GrantEvent) : Decidable (st.InTurn env e) := by
  unfold InTurn
  split <;> infer_instance

/-- The first subframe is `first`; no user is there yet. -/
def init (sched : Sched) (first : Nat) : GrantRun where
  mac := .init sched
  phase n := if n < first then .over else .off

end GrantRun

/-! ## The calls of a worker -/

/-- A call of a worker is for a user that stays. -/
theorem resets_of_callUser {m : MacState} {e : MacEvent} {rnti : Nat}
    (h : callUser e = some rnti) : m.resets e = none := by
  cases e with
  | rachDetected tti preambleIdx timeAdv => simp [callUser, MacEvent.status] at h
  | ueRem rnti => simp [callUser, MacEvent.status] at h
  | addMbmsUser => simp [callUser, MacEvent.status] at h
  | _ => rfl

theorem allowed_of_callUser {m : MacState} {e : MacEvent} {rnti : Nat}
    (h : callUser e = some rnti) (hthere : m.ueDb[rnti]?.isSome = true) : m.Allowed e := by
  cases e with
  | ackInfo tti r tb ack =>
    obtain rfl : r = rnti := by simpa [callUser, MacEvent.status] using h
    exact hthere
  | _ => trivial

/-- One of the calls for a grant is `crc_info`. -/
theorem PuschLib.puschCalls_split (tti : Nat) (e : PuschEntry) (ack0 ack1 : Bool) (tbs : Int)
    (out : PuschOut) (v : CqiVars) :
    ∃ pre post, puschCalls tti e ack0 ack1 tbs out v =
        pre ++ .crcInfo tti e.rnti (Mac.toU32 (tbs.tdiv 8)) out.ok :: post ∧
      (∀ c ∈ pre, callUser c = some e.rnti ∧ c.crc = none) ∧
      ∀ c ∈ post, callUser c = some e.rnti ∧ c.crc = none := by
  have huser := @callUser_puschCalls tti e ack0 ack1 tbs out v
  obtain ⟨pre, post, heq, hpre, hpost⟩ : ∃ pre post, puschCalls tti e ack0 ack1 tbs out v =
        pre ++ .crcInfo tti e.rnti (Mac.toU32 (tbs.tdiv 8)) out.ok :: post ∧
      (∀ c ∈ pre, c.crc = none) ∧ ∀ c ∈ post, c.crc = none := by
    unfold puschCalls ackInfos
    simp only [List.append_assoc, List.singleton_append]
    refine ⟨_, _, rfl, ?_, ?_⟩
    · split_ifs <;> simp [MacEvent.crc]
    · simp only [List.append_eq, List.forall_mem_append]
      refine ⟨?_, ?_, ?_, ?_, ?_⟩
      · cases ack0 <;> cases ack1 <;> simp [MacEvent.crc]
      · split_ifs <;> simp [MacEvent.crc]
      · split_ifs <;> simp [MacEvent.crc]
      · split_ifs <;> simp [MacEvent.crc]
      · split_ifs <;> simp [MacEvent.crc]
  rw [heq] at huser
  refine ⟨pre, post, heq, fun c hc => ⟨huser c ?_, hpre c hc⟩,
    fun c hc => ⟨huser c ?_, hpost c hc⟩⟩
  · exact List.mem_append_left _ hc
  · exact List.mem_append_right _ (List.mem_cons_of_mem _ hc)

/-- A grant that computes makes its calls. -/
theorem PuschLib.puschRound_calls {lib : PuschLib} {cell : Cell} {e : PuschEntry}
    (h : (lib.dciToGrant e.grant.grant cell.nofPrb).isSome = true) (conf : Nat → PuschConf)
    (tti : Nat) (db : PuschDb) (v : CqiVars) :
    ∃ db' v' ack0 ack1 tbs out, lib.puschRound cell conf tti e db v =
      (db', some (v', puschCalls tti e ack0 ack1 tbs out v')) := by
  obtain ⟨g, hg⟩ := Option.isSome_iff_exists.mp h
  rcases puschRound_cases lib cell conf tti e db v with ⟨db', hd, -⟩ | ⟨db', d, -, hr⟩
  · simp [decodeGrant, hg] at hd
  · exact ⟨db', _, d.ack0, d.ack1, d.tbs, d.out, hr⟩

namespace GrantEnv

variable {env : GrantEnv} {rnti : Nat}

/-- What the calls of a worker leave: the users of `m`, with their buffers but for those of `gone`
under the TTI. -/
structure Leaves (m : MacState) (tti : Nat) (gone : List Nat) (m' : MacState) : Prop where
  sound : m'.Sound
  users : ∀ r : Nat, m'.ueDb[r]?.isSome = m.ueDb[r]?.isSome
  pending : ∀ r i, m'.pending r i =
    if i = MacUe.bufferOf tti ∧ r ∈ gone then none else m.pending r i

theorem Leaves.refl {m : MacState} (h : m.Sound) (tti : Nat) : Leaves m tti [] m :=
  ⟨h, fun _ => rfl, by simp⟩

theorem Leaves.trans {m m' m'' : MacState} {tti : Nat} {gone gone' : List Nat}
    (h : Leaves m tti gone m') (h' : Leaves m' tti gone' m'') :
    Leaves m tti (gone ++ gone') m'' := by
  refine ⟨h'.sound, fun r => (h'.users r).trans (h.users r), fun r i => ?_⟩
  rw [h'.pending, h.pending]
  by_cases hi : i = MacUe.bufferOf tti
  · by_cases hr : r ∈ gone <;> by_cases hr' : r ∈ gone' <;> simp [hi, hr, hr']
  · simp [hi]

/-- The calls for a user but `crc_info` change neither its buffers nor the records. -/
theorem foldl_quiet {cs : List MacEvent} (hcs : ∀ c ∈ cs, callUser c = some rnti ∧ c.crc = none)
    (tti : Nat) {out : RxOut} (h : out.mac.Sound) (hthere : out.mac.ueDb[rnti]?.isSome = true) :
    (cs.foldl env.call out).crcs = out.crcs ∧ (cs.foldl env.call out).returned = out.returned ∧
      Leaves out.mac tti [] (cs.foldl env.call out).mac := by
  induction cs generalizing out with
  | nil => exact ⟨rfl, rfl, .refl h tti⟩
  | cons c cs ih =>
    obtain ⟨huser, hcrc⟩ := hcs c List.mem_cons_self
    have ha := allowed_of_callUser huser hthere
    have hreset : ∀ r, r ∉ out.mac.resets c := by
      rw [resets_of_callUser huser]
      simp
    have hcall : Leaves out.mac tti [] (env.call out c).mac := by
      refine ⟨h.handle ha, fun r => MacState.handle_isSome ha (hreset r), fun r i => ?_⟩
      rw [if_neg (by simp)]
      exact MacState.handle_pending hcrc i (fun r hr => absurd hr (hreset r)) r
    obtain ⟨hcrcs, hreturned, hrest⟩ := ih (fun c' hc' => hcs c' (List.mem_cons_of_mem c hc'))
      hcall.sound ((hcall.users rnti).trans hthere)
    refine ⟨hcrcs.trans ?_, hreturned.trans ?_, hcall.trans hrest⟩
    · simp [call, hcrc]
    · simp [call, MacState.handle_returns hcrc]

/-- `crc_info` gives back the buffer of its user. -/
theorem call_crcInfo (tti : Nat) {out : RxOut} (h : out.mac.Sound)
    (hthere : out.mac.ueDb[rnti]?.isSome = true) (nofBytes : Nat) (crc : Bool) :
    (env.call out (.crcInfo tti rnti nofBytes crc)).crcs = out.crcs ++ [(tti, rnti)] ∧
      (env.call out (.crcInfo tti rnti nofBytes crc)).returned = out.returned ++
        (out.mac.pending rnti (MacUe.bufferOf tti)).toList.map (fun b => (rnti, b)) ∧
      Leaves out.mac tti [rnti] (env.call out (.crcInfo tti rnti nofBytes crc)).mac := by
  obtain ⟨hpending, hreturns⟩ := MacState.crcInfo_pending hthere tti nofBytes crc
  refine ⟨rfl, ?_, h.handle trivial, fun r => ?_, fun r i => ?_⟩
  · exact congrArg (fun l => out.returned ++ l.map fun b => (rnti, b)) hreturns
  · exact MacState.handle_isSome (e := .crcInfo tti rnti nofBytes crc) trivial
      (by simp [MacState.resets])
  · refine (hpending r i).trans ?_
    simp [and_comm]

/-- A grant leads to one `crc_info` and gives back what waits for its user. -/
theorem foldl_puschCalls (tti : Nat) (e : PuschEntry) (ack0 ack1 : Bool) (tbs : Int)
    (pusch : PuschOut) (v : CqiVars) {out : RxOut} (h : out.mac.Sound)
    (hthere : out.mac.ueDb[e.rnti]?.isSome = true) :
    let out' := (PuschLib.puschCalls tti e ack0 ack1 tbs pusch v).foldl env.call out
    out'.crcs = out.crcs ++ [(tti, e.rnti)] ∧
      out'.returned = out.returned ++
        (out.mac.pending e.rnti (MacUe.bufferOf tti)).toList.map (fun b => (e.rnti, b)) ∧
      Leaves out.mac tti [e.rnti] out'.mac := by
  obtain ⟨pre, post, hcalls, hpre, hpost⟩ := PuschLib.puschCalls_split tti e ack0 ack1 tbs pusch v
  intro out'
  obtain ⟨hcrcs0, hreturned0, hleaves0⟩ := @foldl_quiet env _ _ hpre tti _ h hthere
  obtain ⟨out0, hout0⟩ : ∃ out0, pre.foldl env.call out = out0 := ⟨_, rfl⟩
  rw [hout0] at hcrcs0 hreturned0 hleaves0
  obtain ⟨hcrcs1, hreturned1, hleaves1⟩ := @call_crcInfo env _ tti _ hleaves0.sound
    ((hleaves0.users e.rnti).trans hthere) (Mac.toU32 (tbs.tdiv 8)) pusch.ok
  obtain ⟨hcrcs2, hreturned2, hleaves2⟩ := @foldl_quiet env _ _ hpost tti _ hleaves1.sound
    ((hleaves1.users e.rnti).trans ((hleaves0.users e.rnti).trans hthere))
  have hout' : out' = post.foldl env.call (env.call out0
      (.crcInfo tti e.rnti (Mac.toU32 (tbs.tdiv 8)) pusch.ok)) := by
    simp only [out', hcalls, List.foldl_append, List.foldl_cons, hout0]
  rw [hout', hcrcs2, hreturned2, hcrcs1, hreturned1, hcrcs0, hreturned0]
  refine ⟨rfl, ?_, (hleaves0.trans hleaves1).trans hleaves2⟩
  rw [hleaves0.pending, if_neg (by simp)]

/-- A list of grants that all compute: each leads to one `crc_info`, in turn. -/
theorem foldl_decodePusch (tti : Nat) (conf : Nat → PuschConf) (rx : Nat → PuschIn → PuschOut)
    {gs : List UlSchedGrant} (hgs : ∀ g ∈ gs, g.rnti ≠ 0 ∧
      (env.puschLib.dciToGrant g.grant env.cell.nofPrb).isSome = true)
    (hnd : (gs.map (·.rnti)).Nodup) (db : PuschDb) (v : CqiVars) {out : RxOut}
    (h : out.mac.Sound) (hthere : ∀ g ∈ gs, out.mac.ueDb[g.rnti]?.isSome = true) :
    let out' := (env.puschLib.decodePusch env.cell conf tti (gs.map fun g => ⟨g, rx g.rnti⟩) db
      v).2.2.foldl env.call out
    out'.crcs = out.crcs ++ gs.map (fun g => (tti, g.rnti)) ∧
      out'.returned = out.returned ++ gs.flatMap (fun g =>
        (out.mac.pending g.rnti (MacUe.bufferOf tti)).toList.map fun b => (g.rnti, b)) ∧
      Leaves out.mac tti (gs.map (·.rnti)) out'.mac := by
  induction gs generalizing db v out with
  | nil =>
    simp only [List.map_nil, PuschLib.decodePusch, List.foldl_nil, List.flatMap_nil,
      List.append_nil, true_and]
    exact .refl h tti
  | cons g gs ih =>
    obtain ⟨hg, hgs⟩ := List.forall_mem_cons.mp hgs
    obtain ⟨hnew, hnd⟩ := List.nodup_cons.mp hnd
    obtain ⟨hthereg, hthere⟩ := List.forall_mem_cons.mp hthere
    obtain ⟨e, he⟩ : ∃ e : PuschEntry, e = ⟨g, rx g.rnti⟩ := ⟨_, rfl⟩
    have hrnti : e.rnti = g.rnti := by rw [he]; rfl
    obtain ⟨db', v', ack0, ack1, tbs, pusch, hr⟩ := @PuschLib.puschRound_calls
      env.puschLib env.cell e (by rw [he]; exact hg.2) conf tti db v
    obtain ⟨hcrcs, hreturned, hleaves⟩ := @foldl_puschCalls env tti e ack0 ack1 tbs pusch
      v' _ h (hrnti ▸ hthereg)
    obtain ⟨hcrcs', hreturned', hleaves'⟩ := ih hgs hnd db' v' hleaves.sound
      fun g' hg' => (hleaves.users g'.rnti).trans (hthere g' hg')
    rw [hrnti] at hcrcs hreturned hleaves
    simp only [List.map_cons, ← he,
      PuschLib.decodePusch_round (e := e) (by rw [hrnti]; exact hg.1) _ hr, List.foldl_append]
    refine ⟨?_, ?_, hleaves.trans hleaves'⟩
    · rw [hcrcs', hcrcs, List.append_assoc]
      rfl
    · -- The buffers of the other users still wait.
      have hrest : ∀ g' ∈ gs, ((PuschLib.puschCalls tti e ack0 ack1 tbs pusch v').foldl env.call
          out).mac.pending g'.rnti (MacUe.bufferOf tti) =
            out.mac.pending g'.rnti (MacUe.bufferOf tti) := by
        intro g' hg'
        rw [hleaves.pending, if_neg]
        rintro ⟨-, hmem⟩
        exact hnew (List.mem_map.mpr ⟨g', hg', List.mem_singleton.mp hmem⟩)
      rw [hreturned', hreturned, List.flatMap_cons, List.append_assoc]
      refine congrArg _ (congrArg _ ?_)
      exact List.flatMap_congr fun g' hg' => by rw [hrest g' hg']

end GrantEnv

namespace GrantRun

variable {env : GrantEnv} {st : GrantRun}

/-! ## The invariant -/

/-- The workers are at most four subframes apart. A grant that is to be decoded waits in its slot,
which is kept for its subframe, and its buffer in the one of its TTI. -/
structure Inv (st : GrantRun) : Prop where
  sound : st.mac.Sound
  pool : ∀ n, st.phase n ≠ .off → ∀ m < n, m + maxWorkers ≤ n → st.phase m = .over
  slots : ∀ i n, st.due i = some n → i = ttimod n ∧ ∃ k, n = ackSf k ∧ st.phase k = .over
  holds : ∀ n, st.phase n = .off → st.due (ttimod n) = some n →
    st.ulGrants (ttimod n) = st.granted n
  waits : ∀ n, st.phase n = .off → st.granted n ≠ [] → st.due (ttimod n) = some n
  users : ∀ n, st.phase n = .off → ∀ g ∈ st.granted n, st.mac.ueDb[g.rnti]?.isSome = true
  pending : ∀ r i b, st.mac.pending r i = some b ↔
    ∃ n, st.phase n = .off ∧ i = MacUe.bufferOf n ∧
      ∃ g ∈ st.granted n, g.rnti = r ∧ g.data = some b
  settled : st.Settled

theorem inv_init (sched : Sched) (first : Nat) : Inv (init sched first) where
  sound := by
    refine ⟨⟨by simp [init, MacState.init], by simp [init, MacState.init]⟩, ?_, ⟨?_, ?_⟩⟩
    · intro k u hu
      simp [init, MacState.init] at hu
    · simp [init, MacState.init]
    · simp [init, MacState.init]
  pool := by
    intro n hn m hm _
    simp only [init] at hn ⊢
    split_ifs at hn with hlt
    · rw [if_pos (hm.trans hlt)]
    · exact absurd rfl hn
  slots := by simp [init]
  holds := by simp [init]
  waits := by simp [init]
  users := by simp [init]
  pending := by
    intro r i b
    rw [MacState.pending_of_none (by simp [init, MacState.init])]
    simp [init]
  settled := by
    intro n
    refine ⟨List.nodup_nil, ?_⟩
    simp [init]

theorem bufferOf_tti (n : Nat) : MacUe.bufferOf (tti n) = MacUe.bufferOf n := by
  unfold MacUe.bufferOf tti
  apply Fin.ext
  simp only [Fin.val_ofNat]
  omega

/-- The waiting grants of a subframe are those of its slot. -/
theorem Inv.slot (h : Inv st) {n : Nat} (hoff : st.phase n = .off) (hne : st.granted n ≠ []) :
    st.due (ttimod n) = some n ∧ st.ulGrants (ttimod n) = st.granted n :=
  ⟨h.waits n hoff hne, h.holds n hoff (h.waits n hoff hne)⟩

theorem Inv.rnti_ne (h : Inv st) {n : Nat} (hoff : st.phase n = .off) :
    ∀ g ∈ st.granted n, g.rnti ≠ 0 := by
  intro g hg hzero
  have hthere := h.users n hoff g hg
  rw [hzero, h.sound.rntis.zero] at hthere
  cases hthere

/-- The grants of a waiting subframe were asked for by a worker that is not far ahead of any other
that is not done. -/
theorem Inv.asked (h : Inv st) {n : Nat} (hoff : st.phase n = .off) (hne : st.granted n ≠ []) :
    ∃ k, n = k + 8 ∧ st.phase k = .over ∧ ∀ m, st.phase m ≠ .over → k < m + maxWorkers := by
  obtain ⟨-, k, rfl, hk⟩ := h.slots _ n (h.waits n hoff hne)
  refine ⟨k, rfl, hk, fun m hm => ?_⟩
  by_contra hle
  exact hm (h.pool k (by simp [hk]) m (by unfold maxWorkers at hle; omega) (by omega))

/-- Two subframes that wait do not share a buffer. -/
theorem Inv.same (h : Inv st) {n n' : Nat} (hoff : st.phase n = .off) (hne : st.granted n ≠ [])
    (hoff' : st.phase n' = .off) (hne' : st.granted n' ≠ [])
    (hbuf : MacUe.bufferOf n = MacUe.bufferOf n') : n = n' := by
  obtain ⟨k, hk, -, hnear⟩ := h.asked hoff hne
  obtain ⟨k', hk', -, hnear'⟩ := h.asked hoff' hne'
  have h1 := hnear n' (by simp [hoff'])
  have h2 := hnear' n (by simp [hoff])
  have hmod := congrArg Fin.val hbuf
  simp only [MacUe.bufferOf, Fin.val_ofNat] at hmod
  unfold maxWorkers at h1 h2
  omega

/-- The buffer of a grant waits until it is decoded. -/
theorem Inv.data (h : Inv st) {n : Nat} (hoff : st.phase n = .off) :
    ∀ g ∈ st.granted n, st.mac.pending g.rnti (MacUe.bufferOf n) = g.data := by
  intro g hg
  refine Option.ext fun b => ?_
  rw [h.pending]
  constructor
  · rintro ⟨n', hoff', hbuf, g', hg', hr, hb⟩
    obtain rfl := h.same hoff (List.ne_nil_of_mem hg) hoff' (List.ne_nil_of_mem hg') hbuf
    rwa [← List.inj_on_of_nodup_map (h.settled n).1 hg' hg hr]
  · exact fun hb => ⟨n, hoff, rfl, g, hg, rfl, hb⟩

/-! ## Decoding -/

theorem decodePusch_skips {lib : PuschLib} {cell : Cell} {conf : Nat → PuschConf} {tti : Nat}
    {es : List PuschEntry} (hes : ∀ e ∈ es, e.rnti = 0) (db : PuschDb) (v : CqiVars) :
    (lib.decodePusch cell conf tti es db v).2.2 = [] := by
  induction es with
  | nil => rfl
  | cons e es ih =>
    obtain ⟨he, hes⟩ := List.forall_mem_cons.mp hes
    rw [PuschLib.decodePusch_skip he]
    exact ih hes

/-- In turn, a worker decodes what was granted for its subframe: each grant leads to one
`crc_info` and its buffer is given back. -/
theorem Inv.rxOut (h : Inv st) {n : Nat} {inp : PuschInput} (hturn : st.RxInTurn env n inp) :
    (st.rxOut env n inp).crcs = (st.granted n).map (fun g => (tti n, g.rnti)) ∧
      (st.rxOut env n inp).returned =
        (st.granted n).filterMap (fun g => g.data.map fun b => (g.rnti, b)) ∧
      GrantEnv.Leaves st.mac (tti n) ((st.granted n).map (·.rnti)) (st.rxOut env n inp).mac := by
  obtain ⟨hoff, -, hslot⟩ := hturn
  by_cases hused : ∃ g ∈ st.ulGrants (ttimod n), g.rnti ≠ 0
  · obtain ⟨hdue, hrun, hcomputes⟩ := hslot hused
    have hgrants := h.holds n hoff hdue
    rw [hgrants] at hcomputes
    have hrnti := h.rnti_ne hoff
    obtain ⟨hcrcs, hreturned, hleaves⟩ := @GrantEnv.foldl_decodePusch env (tti n) inp.conf
      inp.rx _ (fun g hg => ⟨hrnti g hg, hcomputes g hg⟩) (h.settled n).1 inp.db {}
      ⟨st.mac, [], []⟩ h.sound (h.users n hoff)
    unfold GrantRun.rxOut GrantEnv.calls
    rw [if_pos hrun, hgrants]
    refine ⟨hcrcs, hreturned.trans ?_, hleaves⟩
    rw [List.nil_append, List.filterMap_eq_flatMap_toList]
    refine List.flatMap_congr fun g hg => ?_
    rw [bufferOf_tti, h.data hoff g hg, Option.toList_map]
  · push Not at hused
    have hnone : st.granted n = [] := by
      by_contra hne
      obtain ⟨-, hgrants⟩ := h.slot hoff hne
      obtain ⟨g, gs, hg⟩ := List.exists_cons_of_ne_nil hne
      exact h.rnti_ne hoff g (by simp [hg]) (hused g (by simp [hgrants, hg]))
    have hcalls : env.calls n inp (st.ulGrants (ttimod n)) = [] := by
      unfold GrantEnv.calls
      split_ifs
      · refine decodePusch_skips ?_ _ _
        rw [List.forall_mem_map]
        exact hused
      · rfl
    unfold GrantRun.rxOut
    rw [hcalls, hnone]
    exact ⟨rfl, rfl, .refl h.sound _⟩

theorem inv_rx (h : Inv st) {n : Nat} {inp : PuschInput} (hturn : st.RxInTurn env n inp) :
    Inv (step env st (.rx n inp)) := by
  obtain ⟨hoff, hpool, -⟩ := id hturn
  obtain ⟨hcrcs, hreturned, hleaves⟩ := h.rxOut hturn
  have hphase : ∀ k, (step env st (.rx n inp)).phase k = .off ↔ k ≠ n ∧ st.phase k = .off := by
    intro k
    simp only [step, Function.update_apply]
    split_ifs with hk <;> simp [hk]
  have hover : ∀ k, st.phase k = .over → (step env st (.rx n inp)).phase k = .over := by
    intro k hk
    have hne : k ≠ n := by
      rintro rfl
      rw [hoff] at hk
      cases hk
    simpa only [step, Function.update_of_ne hne] using hk
  refine ⟨hleaves.sound, ?_, ?_, ?_, ?_, ?_, ?_, ?_⟩
  · intro k hk m hm hle
    refine hover m ?_
    by_cases heq : k = n
    · subst heq
      exact hpool m hm hle
    · exact h.pool k (fun hk' => hk ((hphase k).mpr ⟨heq, hk'⟩)) m hm hle
  · intro i m hm
    obtain ⟨hi, k, hk, hk'⟩ := h.slots i m hm
    exact ⟨hi, k, hk, hover k hk'⟩
  · exact fun k hk hdue => h.holds k ((hphase k).mp hk).2 hdue
  · exact fun k hk hne => h.waits k ((hphase k).mp hk).2 hne
  · exact fun k hk g hg => (hleaves.users g.rnti).trans (h.users k ((hphase k).mp hk).2 g hg)
  · intro r i b
    refine (iff_of_eq (congrArg (· = some b) (hleaves.pending r i))).trans ?_
    rw [bufferOf_tti]
    by_cases hgone : i = MacUe.bufferOf n ∧ r ∈ (st.granted n).map (·.rnti)
    · rw [if_pos hgone]
      obtain ⟨rfl, hr⟩ := hgone
      obtain ⟨g, hg, -⟩ := List.mem_map.mp hr
      refine iff_of_false (by simp) ?_
      rintro ⟨k, hk, hbuf, g', hg', -, -⟩
      obtain ⟨hne, hk⟩ := (hphase k).mp hk
      exact hne (h.same hoff (List.ne_nil_of_mem hg) hk (List.ne_nil_of_mem hg') hbuf).symm
    · rw [if_neg hgone, h.pending]
      refine exists_congr fun k => ?_
      rw [hphase]
      constructor
      · rintro ⟨hk, hbuf, g, hg, hr, hb⟩
        refine ⟨⟨?_, hk⟩, hbuf, g, hg, hr, hb⟩
        rintro rfl
        exact hgone ⟨hbuf, List.mem_map.mpr ⟨g, hg, hr⟩⟩
      · rintro ⟨⟨-, hk⟩, hrest⟩
        exact ⟨hk, hrest⟩
  · intro k
    refine ⟨(h.settled k).1, ?_⟩
    by_cases heq : k = n
    · subst heq
      obtain ⟨hcrc, hret⟩ : st.crcs k = [] ∧ st.returned k = [] := by
        simpa only [hoff, if_true] using (h.settled k).2
      simp [step, hcrc, hret, hcrcs, hreturned]
    · simpa only [step, Function.update_of_ne heq] using (h.settled k).2

/-! ## Asking for grants -/

/-- What `get_ul_sched` finds when a slot is filled in turn: nobody is past the subframe, no buffer
waits under its TTI, and the slot holds nothing that is still to be decoded. -/
theorem Inv.free (h : Inv st) {n : Nat} {reached : Bool} (hturn : st.TxInTurn n reached)
    (hfills : st.Fills reached) :
    st.phase (ackSf n) = .off ∧ st.granted (ackSf n) = [] ∧
      (∀ r, st.mac.pending r (MacUe.bufferOf (tti (ackSf n))) = none) ∧
      ∀ m, st.phase m = .off → st.granted m ≠ [] → ttimod m ≠ ttimod (ackSf n) := by
  obtain ⟨hreceived, hslot⟩ := hturn
  have hnear : ∀ m, st.phase m = .off → st.granted m ≠ [] → n < m + 4 ∧ m < n + 12 ∧ m ≠ n + 8 := by
    intro m hoff hne
    obtain ⟨k, rfl, hk, hlt⟩ := h.asked hoff hne
    have hkn := hlt n (by simp [hreceived])
    refine ⟨?_, by unfold maxWorkers at hkn; omega, ?_⟩
    · by_contra hle
      have hover := h.pool n (by simp [hreceived]) (k + 8) (by omega)
        (by unfold maxWorkers; omega)
      rw [hoff] at hover
      cases hover
    · intro heq
      obtain rfl : k = n := by omega
      rw [hreceived] at hk
      cases hk
  have hack : ackSf n = n + 8 := rfl
  have hoff : st.phase (ackSf n) = .off := by
    by_contra hne
    have hover := h.pool (ackSf n) hne n (by omega) (by unfold maxWorkers; omega)
    rw [hreceived] at hover
    cases hover
  refine ⟨hoff, ?_, fun r => ?_, fun m hm hne hmod => ?_⟩
  · by_contra hne
    exact (hnear _ hoff hne).2.2 hack
  · cases hb : st.mac.pending r (MacUe.bufferOf (tti (ackSf n))) with
    | none => rfl
    | some b =>
      obtain ⟨m, hm, hbuf, g, hg, -, -⟩ := (h.pending r _ b).mp hb
      have hbounds := hnear m hm (List.ne_nil_of_mem hg)
      rw [bufferOf_tti] at hbuf
      have hmod := congrArg Fin.val hbuf
      simp only [MacUe.bufferOf, Fin.val_ofNat, hack] at hmod
      omega
  · obtain ⟨hlow, hhigh, hne8⟩ := hnear m hm hne
    unfold ttimod at hmod
    have hm2 : m + 2 = n := by omega
    obtain ⟨-, hgrants⟩ := h.slot hm hne
    obtain ⟨g, gs, hg⟩ := List.exists_cons_of_ne_nil hne
    exact h.rnti_ne hm g (by simp [hg])
      (hslot hfills m (by omega) hm2 hm g (by simp [hgrants, hg]))

theorem inv_leave (h : Inv st) {n : Nat} (hreceived : st.phase n = .received) :
    Inv { st with phase := Function.update st.phase n .over } := by
  have hphase : ∀ k, Function.update st.phase n .over k = .off ↔ st.phase k = .off := by
    intro k
    rw [Function.update_apply]
    split_ifs with hk
    · simp [hk, hreceived]
    · rfl
  have hover : ∀ k, st.phase k = .over → Function.update st.phase n .over k = .over := by
    intro k hk
    rw [Function.update_apply]
    split_ifs
    · rfl
    · exact hk
  refine ⟨h.sound, ?_, ?_, ?_, ?_, ?_, ?_, ?_⟩
  · exact fun k hk m hm hle => hover m (h.pool k (fun hk' => hk ((hphase k).mpr hk')) m hm hle)
  · intro i m hm
    obtain ⟨hi, k, hk, hk'⟩ := h.slots i m hm
    exact ⟨hi, k, hk, hover k hk'⟩
  · exact fun k hk => h.holds k ((hphase k).mp hk)
  · exact fun k hk => h.waits k ((hphase k).mp hk)
  · exact fun k hk => h.users k ((hphase k).mp hk)
  · intro r i b
    rw [h.pending]
    exact exists_congr fun k => and_congr_left fun _ => (hphase k).symm
  · intro k
    refine ⟨(h.settled k).1, ?_⟩
    simp only [hphase]
    exact (h.settled k).2

/-- The buffers that wait are those from before and those of the new grants. -/
theorem granted_update {k : Nat} (hoff : st.phase k = .off) (hnone : st.granted k = [])
    (grants : List UlSchedGrant) (r : Nat) (i : Mac.BufferIdx) (b : Nat) :
    (∃ m, st.phase m = .off ∧ i = MacUe.bufferOf m ∧
      ∃ g ∈ Function.update st.granted k grants m, g.rnti = r ∧ g.data = some b) ↔
    (∃ m, st.phase m = .off ∧ i = MacUe.bufferOf m ∧
      ∃ g ∈ st.granted m, g.rnti = r ∧ g.data = some b) ∨
    i = MacUe.bufferOf k ∧ ∃ g ∈ grants, g.rnti = r ∧ g.data = some b := by
  simp only [Function.update_apply]
  constructor
  · rintro ⟨m, hm, hbuf, g, hg, hrest⟩
    split_ifs at hg with heq
    · exact Or.inr ⟨heq ▸ hbuf, g, hg, hrest⟩
    · exact Or.inl ⟨m, hm, hbuf, g, hg, hrest⟩
  · rintro (⟨m, hm, hbuf, g, hg, hrest⟩ | ⟨hbuf, g, hg, hrest⟩)
    · refine ⟨m, hm, hbuf, g, ?_, hrest⟩
      split_ifs with heq
      · rw [heq, hnone] at hg
        cases hg
      · exact hg
    · exact ⟨k, hoff, hbuf, g, by rwa [if_pos rfl], hrest⟩

/-- A slot is filled for a subframe that nobody has come to, by a worker that is done. -/
theorem inv_fill (h : Inv st) {n : Nat} (hover : st.phase n = .over)
    (hoff : st.phase (ackSf n) = .off) (hnone : st.granted (ackSf n) = [])
    (hfree : ∀ r, st.mac.pending r (MacUe.bufferOf (tti (ackSf n))) = none)
    (hslot : ∀ m, st.phase m = .off → st.granted m ≠ [] → ttimod m ≠ ttimod (ackSf n))
    {out : Mac.UlSchedOut} {buffers : Nat → Option Nat}
    (hout : st.mac.getUlSched env.macLib (tti (ackSf n)) buffers = out) :
    Inv { st with
      mac := out.st
      ulGrants := Function.update st.ulGrants (ttimod (ackSf n)) out.grants
      due := Function.update st.due (ttimod (ackSf n)) (some (ackSf n))
      granted := Function.update st.granted (ackSf n) out.grants } := by
  obtain ⟨hrounds, hsound⟩ := @MacState.getUlSched_rounds env.macLib _ h.sound _ hfree buffers
  rw [hout] at hrounds hsound
  have hsettled := h.settled
  refine ⟨hsound, h.pool, ?_, ?_, ?_, ?_, ?_, ?_⟩
  · intro i m hm
    simp only [Function.update_apply] at hm
    split_ifs at hm with hi
    · obtain rfl := Option.some.inj hm
      exact ⟨hi, n, rfl, hover⟩
    · exact h.slots i m hm
  · intro m hm hdue
    simp only [Function.update_apply] at hdue ⊢
    split_ifs at hdue ⊢ with hi heq heq
    · rfl
    · exact absurd (Option.some.inj hdue).symm heq
    · exact absurd (congrArg ttimod heq) hi
    · exact h.holds m hm hdue
  · intro m hm hne
    simp only [Function.update_apply] at hne ⊢
    split_ifs at hne ⊢ with hi heq heq
    · rw [heq]
    · exact absurd hi (hslot m hm hne)
    · exact absurd (congrArg ttimod heq) hi
    · exact h.waits m hm hne
  · intro m hm g hg
    rw [hrounds.users]
    simp only [Function.update_apply] at hg
    split_ifs at hg
    · exact hrounds.there g hg
    · exact h.users m hm g hg
  · intro r i b
    rw [hrounds.pending, bufferOf_tti]
    exact (or_congr (h.pending r i b) Iff.rfl).trans
      (granted_update hoff hnone out.grants r i b).symm
  · intro m
    simp only [Function.update_apply]
    split_ifs with heq hm hm
    · subst heq
      refine ⟨hrounds.rntis, ?_⟩
      have := (hsettled (ackSf n)).2
      rwa [if_pos hoff] at this
    · exact absurd (heq ▸ hoff) hm
    · have := hsettled m
      rwa [if_pos hm] at this
    · have := hsettled m
      rwa [if_neg hm] at this

theorem inv_tx (h : Inv st) {n : Nat} {reached : Bool} (hturn : st.TxInTurn n reached)
    (buffers : Nat → Option Nat) : Inv (step env st (.tx n reached buffers)) := by
  have hleave := inv_leave h hturn.1
  simp only [step]
  split_ifs with hfills
  · obtain ⟨hoff, hnone, hfree, hslot⟩ := h.free hturn hfills
    have hne : ackSf n ≠ n := by unfold ackSf harqDelayMs; omega
    refine @inv_fill env _ hleave n (Function.update_self ..) ?_ hnone hfree ?_ _ _ rfl
    · simpa only [Function.update_of_ne hne] using hoff
    · intro m hm
      refine hslot m ?_
      simp only [Function.update_apply] at hm
      split_ifs at hm
      exact hm
  · exact hleave

theorem requests_tx (h : Inv st) {n : Nat} {reached : Bool} (hturn : st.TxInTurn n reached)
    (buffers : Nat → Option Nat) : st.Requests env (.tx n reached buffers) := by
  intro hfills k g hg
  obtain ⟨-, -, hfree, -⟩ := h.free hturn hfills
  exact ⟨hfree g.rnti, (MacState.getUlSched_rounds h.sound hfree buffers).1.data k g hg⟩

/-! ## The other events -/

theorem Inv.idle (h : Inv st) {rnti : Nat} (hidle : st.Idle rnti) {n : Nat}
    (hoff : st.phase n = .off) : ∀ g ∈ st.granted n, g.rnti ≠ rnti := by
  intro g hg
  obtain ⟨hdue, hgrants⟩ := h.slot hoff (List.ne_nil_of_mem hg)
  exact hidle (ttimod n) (Nat.mod_lt n (by omega)) n hdue hoff g (hgrants ▸ hg)

theorem Inv.pending_idle (h : Inv st) {rnti : Nat} (hidle : st.Idle rnti) (i : Mac.BufferIdx) :
    st.mac.pending rnti i = none := by
  cases hb : st.mac.pending rnti i with
  | none => rfl
  | some b =>
    obtain ⟨n, hoff, -, g, hg, hr, -⟩ := (h.pending rnti i b).mp hb
    exact absurd hr (h.idle hidle hoff g hg)

/-- A new MAC with the waiting users and their buffers. -/
theorem Inv.setMac (h : Inv st) {mac : MacState} (hsound : mac.Sound)
    (husers : ∀ n, st.phase n = .off → ∀ g ∈ st.granted n, mac.ueDb[g.rnti]?.isSome = true)
    (hpending : ∀ r i, mac.pending r i = st.mac.pending r i) : Inv { st with mac := mac } := by
  refine ⟨hsound, h.pool, h.slots, h.holds, h.waits, husers, fun r i b => ?_, h.settled⟩
  rw [hpending]
  exact h.pending r i b

theorem inv_mac (h : Inv st) {e : MacEvent} (hturn : st.MacInTurn e) :
    Inv (step env st (.mac e)) := by
  obtain ⟨hcrc, ha, hidle⟩ := hturn
  refine h.setMac (h.sound.handle ha) (fun n hoff g hg => ?_) fun r i => ?_
  · refine (MacState.handle_isSome ha fun hr => ?_).trans (h.users n hoff g hg)
    exact h.idle (hidle g.rnti hr) hoff g hg rfl
  · exact MacState.handle_pending hcrc i (fun r' hr' => h.pending_idle (hidle r' hr') i) r

theorem inv_sched (h : Inv st) (s : Sched) (ue : Nat → SchedUe) :
    Inv (step env st (.sched s ue)) := by
  have hget : ∀ r : Nat, (st.mac.sched.ueDb.map fun k _ => { ue k with rnti := k })[r]? =
      st.mac.sched.ueDb[r]?.map fun _ => { ue r with rnti := r } := by
    intro r
    simp
  refine h.setMac ⟨⟨fun r hr => ?_, h.sound.agree.live⟩, ?_,
    ⟨h.sound.rntis.last, h.sound.rntis.zero⟩⟩ h.users fun _ _ => rfl
  · rw [hget, Option.isSome_map]
    exact h.sound.agree.keys r hr
  · intro k u hu
    rw [hget] at hu
    obtain ⟨-, -, rfl⟩ := Option.map_eq_some_iff.mp hu
    rfl

theorem inv_remRnti (h : Inv st) {rnti : Nat} (hidle : st.Idle rnti) :
    Inv (step env st (.remRnti rnti)) := by
  refine ⟨h.sound, h.pool, h.slots, fun n hoff hdue => ?_, h.waits, h.users, h.pending, h.settled⟩
  simp only [step]
  rw [h.holds n hoff hdue]
  refine (List.map_congr_left fun g hg => ?_).trans (List.map_id _)
  rw [if_neg (h.idle hidle hoff g hg)]
  rfl

/-! ## Every run -/

/-- **The grants of every subframe.** In a run whose steps are in turn, each grant is decoded once,
in its subframe, and leads to one `crc_info`, each request for a buffer finds an empty slot, and
each buffer is given back once. -/
theorem settled_of_inTurn (env : GrantEnv) (sched : Sched) (first : Nat) (es : List GrantEvent)
    (h : AllSteps (step env) (InTurn env) (init sched first) es) :
    AllSteps (step env) (Requests env) (init sched first) es ∧
      AllStates (step env) Settled (init sched first) es := by
  have hstep : ∀ st e, Inv st → InTurn env st e → Inv (step env st e) := by
    intro st e hI hturn
    cases e with
    | rx n inp => exact inv_rx hI hturn
    | tx n reached buffers => exact inv_tx hI hturn buffers
    | mac e => exact inv_mac hI hturn
    | sched s ue => exact inv_sched hI s ue
    | remRnti rnti => exact inv_remRnti hI hturn
  refine ⟨allSteps_of_allSteps hstep (fun st e hI hturn => ?_) (inv_init sched first) h,
    (allStates_of_allSteps hstep (inv_init sched first) h).mono fun st hI => hI.settled⟩
  cases e with
  | tx n reached buffers => exact requests_tx hI hturn buffers
  | _ => trivial

/-! ## One grant -/

def exampleEnv : GrantEnv where
  macLib := Mac.exampleLib
  puschLib := PuschLib.exampleLib
  cell := Sched.exampleCell.cell
  locations := fun _ _ _ => ⟨fun L n => n * 2 ^ L, fun _ => 4⟩

def exampleInput : PuschInput := { conf := fun _ => {}, db := ∅, rx := fun _ _ => {} }

/-- User 70 attaches and asks for a grant. The worker of subframe 0 gets one, and those after it
leave before `get_ul_sched`. -/
def oneGrantRun (subframes : Nat) : List GrantEvent :=
  [.mac (.rachDetected 1 0 0),
    .mac (.ueCfg 70 { maxharqTx := 4 } (List.replicate Mac.maxLc .both)),
    .mac (.srDetected 70)] ++
  (List.range subframes).flatMap fun n => [.rx n exampleInput, .tx n (n == 0) some]

theorem settled_oneGrantRun :
    AllSteps (step exampleEnv) (Requests exampleEnv) (init Sched.exampleSched 0) (oneGrantRun 9) ∧
      AllStates (step exampleEnv) Settled (init Sched.exampleSched 0) (oneGrantRun 9) :=
  settled_of_inTurn exampleEnv Sched.exampleSched 0 (oneGrantRun 9) (by decide +kernel)

/-- Ten subframes later the grant is decoded again. -/
theorem not_settled_oneGrantRun :
    ¬ (AllSteps (step exampleEnv) (Requests exampleEnv) (init Sched.exampleSched 0)
        (oneGrantRun 19) ∧
      AllStates (step exampleEnv) Settled (init Sched.exampleSched 0) (oneGrantRun 19)) := by
  rintro ⟨-, h⟩
  have hcrcs := (h.last 18).2
  rw [if_neg (by decide +kernel)] at hcrcs
  exact absurd hcrcs.1 (by decide +kernel)

end GrantRun

end Srsenb.Phy
