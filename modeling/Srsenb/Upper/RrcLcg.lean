import Srsenb.Mac.Lib
import Srsenb.Upper.RrcErabs

/-! # The logical channel group of a DRB

The group is read from a file into the configuration of a QCI. A DRB of the QCI is signalled to the
UE with it, and registered in the MAC. -/

open Srsenb.Mac (toU32)

namespace Srsenb.Rrc

/-! ## The configuration -/

/-- `log_chan_group` in the file. A value that is no number leaves a variable unset that is copied
all the same. -/
inductive LcgSetting where
  | missing
  | malformed (t : Nat)
  | value (n : Nat)
  deriving DecidableEq

/-- An entry of `qci_config`: which sections it has, and the last of them. -/
structure QciSetting where
  qci : Nat
  pdcpConfig : Bool := true
  ulAm : Bool := false
  ulUm : Bool := false
  dlUm : Bool := false
  logicalChannelConfig : Option LcgSetting
  deriving DecidableEq

/-- `rrc_cfg_qci_t`, with the group of its `lc_cfg`. -/
structure QciCfg where
  configured : Bool := false
  logChanGroup : Nat := 0
  logChanGroupPresent : Bool := false
  deriving DecidableEq

/-- The group is a `uint8`. -/
def QciCfg.readLcg (c : QciCfg) : LcgSetting → QciCfg
  | .missing => { c with logChanGroupPresent := false }
  | .malformed t => { c with logChanGroup := t % 256, logChanGroupPresent := false }
  | .value n => { c with logChanGroup := n % 256, logChanGroupPresent := true }

/-- The round of `field_qci::parse` for one entry. -/
def parseQci (cfg : Nat → QciCfg) (q : QciSetting) : Option (Nat → QciCfg) :=
  if !q.pdcpConfig then none
  else if !(q.ulAm || q.ulUm || q.dlUm) then none
  else
    match q.logicalChannelConfig with
    | none => none
    | some lcg =>
      some (Function.update cfg q.qci { (cfg q.qci).readLcg lcg with configured := true })

/-- `field_qci::parse` -/
def fieldQciParse (qs : List QciSetting) : Option (Nat → QciCfg) :=
  qs.foldlM parseQci fun _ => {}

/-! ## The DRBs -/

/-- `LIBLTE_RRC_DRB_TO_ADD_MOD_STRUCT`, with the group. -/
structure DrbCfg extends Drb where
  logChanGroup : Nat
  logChanGroupPresent : Bool
  deriving DecidableEq

/-- A DRB of the message, and what `mac::bearer_ue_cfg` is called with for it. -/
structure DrbSetup where
  drb : DrbCfg
  lcid : Nat
  lcg : Nat
  deriving DecidableEq

/-- `get_drbid_config` with the group: the flag is set, and then overwritten by the copy of the
configuration. -/
def Ue.getDrbidConfigLcg (u : Ue) (qciCfg : Nat → QciCfg) (drbId : Int) : Ue × Option DrbCfg :=
  let lcId := (drbId + 2).toNat
  let erabId := lcId + 2
  let u := { u with erabs := u.erabs.touch (erabId % 256) }
  let qci := (u.erabs.sub (erabId % 256)).qci
  if qci ≥ maxNofQci then (u, none)
  else if !(qciCfg qci).configured then (u, none)
  else
    let drb : DrbCfg :=
      { drbId := drbId, lcId := lcId, epsBearerId := erabId, logChanGroup := 0,
        logChanGroupPresent := true }
    let lcCfg := qciCfg qci
    (u, some { drb with
      logChanGroup := lcCfg.logChanGroup, logChanGroupPresent := lcCfg.logChanGroupPresent })

/-- The DRB of `send_connection_reconf`: the group is taken from the message. -/
def Ue.reconfDrbs (u : Ue) (qciCfg : Nat → QciCfg) : List DrbSetup :=
  match u.getDrbidConfigLcg qciCfg 1 with
  | (_, none) => []
  | (_, some drb) => [⟨drb, 3, toU32 drb.logChanGroup⟩]

/-- The DRBs of `send_connection_reconf_new_bearer`: `group` of `bearer_cfg` is not set, and has
what the stack holds in each round. -/
def Ue.newBearerDrbs (u : Ue) (qciCfg : Nat → QciCfg) (stack : Nat → Int) :
    List ErabItem → List DrbSetup
  | [] => []
  | e :: es =>
    let lcid := erabLcid e.id
    match u.getDrbidConfigLcg qciCfg ((lcid : Int) - 2) with
    | (_, none) => []
    | (u, some drb) =>
      ⟨drb, lcid, toU32 (stack 0)⟩ :: Ue.newBearerDrbs u qciCfg (fun i => stack (i + 1)) es

/-- MAC and UE have the same group of the four for the channel. -/
structure LcgAgrees (d : DrbSetup) : Prop where
  lcid : d.lcid = d.drb.lcId
  lcg_lt : d.lcg < 4
  same : d.lcg = d.drb.logChanGroup
  present : d.drb.logChanGroupPresent = true

/-- The last entry for the QCI. -/
def lastSetting (qs : List QciSetting) (qci : Nat) : Option QciSetting :=
  qs.reverse.find? fun q => q.qci = qci

/-- The file gives one of the four groups to the QCI. -/
def LcgGiven (qs : List QciSetting) (qci group : Nat) : Prop :=
  ∃ q n, lastSetting qs qci = some q ∧ q.logicalChannelConfig = some (.value n) ∧ n % 256 = group ∧
    group < 4

/-- A DRB of the QCI can be set up. -/
def Configured (qs : List QciSetting) (qci : Nat) : Prop :=
  qci < maxNofQci ∧ ∃ q ∈ qs, q.qci = qci

instance (qs : List QciSetting) (qci : Nat) : Decidable (Configured qs qci) :=
  inferInstanceAs (Decidable (_ ∧ _))

/-- The QCI of the entry that an item refers to. -/
def Ue.qciOf (u : Ue) (e : ErabItem) : Nat := (u.erabs.sub (e.id % 256)).qci

/-- The items before the first one whose QCI cannot be set up. -/
def configuredItems (qs : List QciSetting) (u : Ue) (es : List ErabItem) : List ErabItem :=
  es.takeWhile fun e => Configured qs (u.qciOf e)

/-! ## What is read -/

section Parse

variable {qs : List QciSetting} {q : QciSetting} {cfg cfg' : Nat → QciCfg} {qci : Nat}

theorem parseQci_some (h : parseQci cfg q = some cfg') :
    ∃ lcg, q.logicalChannelConfig = some lcg ∧
      cfg' = Function.update cfg q.qci { (cfg q.qci).readLcg lcg with configured := true } := by
  unfold parseQci at h
  split_ifs at h
  split at h
  · cases h
  · rename_i lcg hlcg
    exact ⟨lcg, hlcg, (Option.some.inj h).symm⟩

theorem lastSetting_snoc : lastSetting (qs ++ [q]) qci =
    if q.qci = qci then some q else lastSetting qs qci := by
  unfold lastSetting
  rw [List.reverse_append, List.reverse_singleton, List.singleton_append, List.find?_cons]
  by_cases h : q.qci = qci <;> simp [h]

/-- The configuration of a QCI is the one of its last entry. -/
theorem fieldQciParse_spec (h : fieldQciParse qs = some cfg) (qci : Nat) :
    ((cfg qci).configured = true ↔ ∃ q ∈ qs, q.qci = qci) ∧
      ∀ group, (cfg qci).logChanGroupPresent = true ∧ (cfg qci).logChanGroup = group ↔
        ∃ q n, lastSetting qs qci = some q ∧ q.logicalChannelConfig = some (.value n) ∧
          n % 256 = group := by
  induction qs using List.reverseRecOn generalizing cfg with
  | nil =>
    obtain rfl : (fun _ => {}) = cfg := Option.some.inj h
    simp [lastSetting]
  | append_singleton qs q ih =>
    unfold fieldQciParse at h
    rw [List.foldlM_append] at h
    obtain ⟨old, hold, hround⟩ := Option.bind_eq_some_iff.mp h
    obtain ⟨lcg, hlcg, hcfg⟩ := parseQci_some (by simpa using hround)
    obtain ⟨hconf, hgroup⟩ := ih hold
    simp only [lastSetting_snoc, List.mem_append, List.mem_singleton, or_and_right, exists_or,
      exists_eq_left]
    rw [hcfg]
    by_cases hq : q.qci = qci
    · subst hq
      rw [Function.update_self]
      refine ⟨by simp, fun group => ?_⟩
      cases lcg <;> simp [QciCfg.readLcg, hlcg]
    · rw [Function.update_of_ne (Ne.symm hq), if_neg hq, hconf]
      exact ⟨by simp [hq], hgroup⟩

end Parse

/-! ## What is set up -/

section Setup

variable {qs : List QciSetting} {qciCfg : Nat → QciCfg} {u : Ue} {es : List ErabItem}

/-- The DRB without its group is the one of `get_drbid_config`. -/
theorem getDrbidConfigLcg_drb (u : Ue) {cfg : Cfg} (drbId : Int)
    (h : ∀ qci, cfg.qciConfigured qci = (qciCfg qci).configured) :
    u.getDrbidConfig cfg drbId = ((u.getDrbidConfigLcg qciCfg drbId).1,
      (u.getDrbidConfigLcg qciCfg drbId).2.map (·.toDrb)) := by
  unfold Ue.getDrbidConfig Ue.getDrbidConfigLcg
  simp only [h]
  split_ifs <;> rfl

/-- The calls of `mac::bearer_ue_cfg` are the ones that the DRBs stand for. -/
theorem newBearerDrbs_calls (u : Ue) {cfg : Cfg} (rnti : Nat) (stack : Nat → Int)
    (h : ∀ qci, cfg.qciConfigured qci = (qciCfg qci).configured) :
    (u.addNewBearers cfg rnti es).2.1 = (u.newBearerDrbs qciCfg stack es).flatMap fun d =>
      [.macBearerUeCfg rnti d.lcid, .rlcAddBearer rnti d.lcid, .pdcpAddBearer rnti d.lcid] := by
  induction es generalizing u stack with
  | nil => rfl
  | cons e es ih =>
    unfold Ue.addNewBearers Ue.newBearerDrbs
    have hdrb := getDrbidConfigLcg_drb u ((erabLcid e.id : Int) - 2) h
    rcases hget : u.getDrbidConfigLcg qciCfg ((erabLcid e.id : Int) - 2) with ⟨u', _ | drb⟩
    · rw [hget] at hdrb
      simp [hdrb, hget]
    · rw [hget] at hdrb
      simp only [hdrb, hget, Option.map_some, List.flatMap_cons]
      rw [ih u' fun i => stack (i + 1)]

/-- The DRB of a channel has the group of the QCI of its E-RAB. -/
theorem getDrbidConfigLcg_configured (hcfg : fieldQciParse qs = some qciCfg) (u : Ue)
    {lcid k : Nat} (hk : (lcid + 2) % 256 = k) (hc : Configured qs (u.erabs.sub k).qci) :
    u.getDrbidConfigLcg qciCfg ((lcid : Int) - 2) = ({ u with erabs := u.erabs.touch k },
      some { drbId := (lcid : Int) - 2, lcId := lcid, epsBearerId := lcid + 2
             logChanGroup := (qciCfg (u.erabs.sub k).qci).logChanGroup
             logChanGroupPresent := (qciCfg (u.erabs.sub k).qci).logChanGroupPresent }) := by
  have hlc : ((lcid : Int) - 2 + 2).toNat = lcid := by omega
  have hconf := (fieldQciParse_spec hcfg (u.erabs.sub k).qci).1
  unfold Ue.getDrbidConfigLcg
  simp only [hlc, hk, StdMap.sub_touch]
  rw [if_neg (Nat.not_le.mpr hc.1), hconf.mpr hc.2]
  rfl

theorem getDrbidConfigLcg_refused (hcfg : fieldQciParse qs = some qciCfg) (u : Ue)
    {lcid k : Nat} (hk : (lcid + 2) % 256 = k) (hc : ¬ Configured qs (u.erabs.sub k).qci) :
    u.getDrbidConfigLcg qciCfg ((lcid : Int) - 2) =
      ({ u with erabs := u.erabs.touch k }, none) := by
  have hlc : ((lcid : Int) - 2 + 2).toNat = lcid := by omega
  have hconf := (fieldQciParse_spec hcfg (u.erabs.sub k).qci).1
  unfold Ue.getDrbidConfigLcg
  simp only [hlc, hk, StdMap.sub_touch]
  split_ifs with hqci hoff
  · rfl
  · rfl
  · exact absurd ⟨Nat.not_le.mp hqci, hconf.mp (by simpa using hoff)⟩ hc

theorem agrees_iff (hcfg : fieldQciParse qs = some qciCfg) {d : DrbSetup} {qci : Nat}
    (hlcid : d.lcid = d.drb.lcId) (hgroup : d.drb.logChanGroup = (qciCfg qci).logChanGroup)
    (hpresent : d.drb.logChanGroupPresent = (qciCfg qci).logChanGroupPresent) :
    LcgAgrees d ↔ LcgGiven qs qci d.lcg := by
  have hspec := (fieldQciParse_spec hcfg qci).2 d.lcg
  unfold LcgGiven
  constructor
  · rintro ⟨-, hlt, hsame, hpres⟩
    obtain ⟨q, n, hq, hn, heq⟩ := hspec.mp ⟨hpresent ▸ hpres, by rw [hsame, hgroup]⟩
    exact ⟨q, n, hq, hn, heq, hlt⟩
  · rintro ⟨q, n, hq, hn, heq, hlt⟩
    obtain ⟨hpres, hsame⟩ := hspec.mpr ⟨q, n, hq, hn, heq⟩
    exact ⟨hlcid, hlt, by rw [hgroup, hsame], hpresent ▸ hpres⟩

/-- The DRB of `send_connection_reconf` is registered with the group of the message. -/
theorem reconfDrbs_agree (hcfg : fieldQciParse qs = some qciCfg) (u : Ue) :
    (∀ d ∈ u.reconfDrbs qciCfg, LcgAgrees d) ↔
      (Configured qs (u.erabs.sub 5).qci → ∃ group, LcgGiven qs (u.erabs.sub 5).qci group) := by
  unfold Ue.reconfDrbs
  by_cases hc : Configured qs (u.erabs.sub 5).qci
  · have hget := getDrbidConfigLcg_configured hcfg u (rfl : (3 + 2) % 256 = 5) hc
    rw [show ((3 : Nat) : Int) - 2 = 1 by rfl] at hget
    rw [hget]
    simp only [List.mem_singleton, forall_eq, hc, forall_const]
    rw [agrees_iff hcfg rfl rfl rfl]
    constructor
    · exact fun h => ⟨_, h⟩
    · rintro ⟨group, h⟩
      obtain ⟨q, n, hq, hn, heq, hlt⟩ := h
      obtain ⟨-, hsame⟩ := ((fieldQciParse_spec hcfg _).2 group).mpr ⟨q, n, hq, hn, heq⟩
      have hu32 : toU32 (group : Int) = group := by
        unfold toU32
        omega
      rw [hsame, hu32]
      exact ⟨q, n, hq, hn, heq, hlt⟩
  · have hget := getDrbidConfigLcg_refused hcfg u (rfl : (3 + 2) % 256 = 5) hc
    rw [show ((3 : Nat) : Int) - 2 = 1 by rfl] at hget
    rw [hget]
    simp [hc]

/-- The DRBs of `send_connection_reconf_new_bearer` are registered with what the stack holds. -/
theorem newBearerDrbs_agree (hcfg : fieldQciParse qs = some qciCfg) (u : Ue)
    (stack : Nat → Int) :
    (∀ d ∈ u.newBearerDrbs qciCfg stack es, LcgAgrees d) ↔
      ∀ i e, (configuredItems qs u es)[i]? = some e →
        LcgGiven qs (u.qciOf e) (toU32 (stack i)) := by
  induction es generalizing u stack with
  | nil => simp [Ue.newBearerDrbs, configuredItems]
  | cons e es ih =>
    unfold Ue.newBearerDrbs configuredItems
    have hk : (erabLcid e.id + 2) % 256 = e.id % 256 := by
      unfold erabLcid
      omega
    dsimp only
    by_cases hc : Configured qs (u.qciOf e)
    · rw [getDrbidConfigLcg_configured hcfg u hk hc]
      set u' : Ue := { u with erabs := u.erabs.touch (e.id % 256) } with hu'
      have hqci : ∀ e', u'.qciOf e' = u.qciOf e' := fun e' => by
        simp [Ue.qciOf, hu', StdMap.sub_touch]
      have hitems : configuredItems qs u' es = configuredItems qs u es := by
        unfold configuredItems
        simp only [hqci]
      simp only [List.forall_mem_cons, ih u' fun i => stack (i + 1), hqci, hitems,
        List.takeWhile_cons, decide_eq_true hc, if_true]
      rw [agrees_iff hcfg rfl rfl rfl]
      constructor
      · rintro ⟨hhead, htail⟩ (_ | i) e' hi
        · obtain rfl := Option.some.inj hi
          exact hhead
        · exact htail i e' hi
      · exact fun h => ⟨h 0 e rfl, fun i e' hi => h (i + 1) e' hi⟩
    · rw [getDrbidConfigLcg_refused hcfg u hk hc]
      simp [hc]

/-- The groups of MAC and UE agree on the DRB of `send_connection_reconf` when the file gives its
QCI one of the four groups, and on the DRBs of `send_connection_reconf_new_bearer` when the stack
also happens to hold, in each round, the group that the file gives. -/
theorem lcgs_agree_iff (hcfg : fieldQciParse qs = some qciCfg) (u : Ue) (stack : Nat → Int)
    (es : List ErabItem) :
    ((∀ d ∈ u.reconfDrbs qciCfg, LcgAgrees d) ↔
      (Configured qs (u.erabs.sub 5).qci → ∃ group, LcgGiven qs (u.erabs.sub 5).qci group)) ∧
    ((∀ d ∈ u.newBearerDrbs qciCfg stack es, LcgAgrees d) ↔
      ∀ i e, (configuredItems qs u es)[i]? = some e →
        LcgGiven qs (u.qciOf e) (toU32 (stack i))) :=
  ⟨reconfDrbs_agree hcfg u, newBearerDrbs_agree hcfg u stack⟩

end Setup

/-- A file that gives group 1 to QCI 7. -/
def qciSevenFile : List QciSetting :=
  [{ qci := 7, ulUm := true, dlUm := true, logicalChannelConfig := some (.value 1) }]

/-- A UE whose E-RAB 6 has QCI 7. -/
def ueWithErabSix : Ue := { Ue.new with erabs := (∅ : StdMap Erab).insert 6 ⟨6, 7, 0, 0, 0⟩ }

theorem ueWithErabSix_qci : (ueWithErabSix.erabs.sub 6).qci = 7 := by decide

/-- The DRB of E-RAB 6, when the stack happens to hold 1. -/
theorem lcgs_agree_erabSix :
    ∃ table, fieldQciParse qciSevenFile = some table ∧
      ∀ d ∈ ueWithErabSix.newBearerDrbs table (fun _ => 1) [⟨6, 7, 32, 1, 1, none⟩],
        LcgAgrees d := by
  refine ⟨_, rfl, (lcgs_agree_iff (rfl : fieldQciParse qciSevenFile = _) ueWithErabSix
    (fun _ => 1) [⟨6, 7, 32, 1, 1, none⟩]).2.mpr fun i e hi => ?_⟩
  obtain rfl : e = ⟨6, 7, 32, 1, 1, none⟩ :=
    List.mem_singleton.mp ((List.takeWhile_prefix _).subset (List.mem_of_getElem? hi))
  rw [show ueWithErabSix.qciOf ⟨6, 7, 32, 1, 1, none⟩ = 7 from ueWithErabSix_qci]
  exact ⟨_, 1, rfl, rfl, rfl, by decide⟩

/-- The stack holds 2. -/
theorem lcgs_disagree_erabSix :
    ∃ table, fieldQciParse qciSevenFile = some table ∧
      ∃ d ∈ ueWithErabSix.newBearerDrbs table (fun _ => 2) [⟨6, 7, 32, 1, 1, none⟩],
        ¬ LcgAgrees d := by
  refine ⟨_, rfl, ⟨⟨⟨2, 4, 6⟩, 1, true⟩, 4, 2⟩, ?_, fun h => absurd h.same (by decide)⟩
  decide

end Srsenb.Rrc
