import Srsenb.Enb.ConfigLists
import Srsenb.Mac.Sched

/-! # The SI messages (`rrc::generate_sibs` and `rrc::config_mac`)

An access past the end of an array ends the model with `none`. -/

namespace Srsenb.Sibs

open Srsenb.Enb Srsenb.Mac

/-- `LIBLTE_RRC_SYS_INFO_BLOCK_TYPE_STRUCT` -/
structure Sib (β : Type) where
  sibType : Nat
  body : β
  deriving Inhabited

/-- `cfg.sibs`, with the types that `parse_sibs` gives the first two. It has a place for SIB13. -/
structure SibTable (lte : Liblte) (β : Type) where
  sibs : List (Sib β)
  size : sibs.length = lte.maxSib
  sib13 : 12 < lte.maxSib
  types : (sibs.get ⟨0, by omega⟩).sibType ≠ (sibs.get ⟨1, by omega⟩).sibType

/-- `LIBLTE_RRC_BCCH_DLSCH_MSG_STRUCT` -/
structure BcchMsg (β : Type) where
  nSibs : Nat
  sibs : List (Sib β)

/-- `LIBLTE_BYTE_MSG_STRUCT` -/
structure ByteMsg where
  msg : List Bool := []
  nBytes : Nat := 0

/-- What `generate_sibs` leaves in the RRC, and returns. -/
structure Generated (β : Type) where
  nofSiMessages : Nat
  sibBuffer : List ByteMsg
  sib2 : Sib β

variable {S β : Type} [Inhabited β] {lte : Liblte}

/-- `sched_info[i]`; `parse_sibs` clears the array before the parser fills it. -/
def schedInfoAt (lte : Liblte) (d : ListOf SchedInfo) (i : Nat) : Option SchedInfo :=
  if i < lte.maxSiMessage then some ((d.entries i).getD {}) else none

/-- `sib_mapping_info[mapping].sib_type` -/
def sibTypeAt (lte : Liblte) (info : SchedInfo) (mapping : Nat) : Option Nat :=
  if mapping < lte.maxSib then some ((info.sibMappingInfo.entries mapping).getD 0) else none

/-- A round of the loop over the SIBs that an entry maps. -/
def addSib (t : SibTable lte β) (info : SchedInfo) (offset : Nat) (m : BcchMsg β) (mapping : Nat) :
    Option (BcchMsg β) := do
  let sib ← t.sibs[(← sibTypeAt lte info mapping) + 2]?
  let sibs ← write m.sibs (mapping + offset) sib
  return ⟨m.nSibs + 1, sibs⟩

/-- SIB2 is always in the second SI message. -/
def startMsg (t : SibTable lte β) (msgIndex : Nat) (m : BcchMsg β) : Option (BcchMsg β) :=
  if msgIndex = 1 then do
    let sib2 ← t.sibs[1]?
    let sibs ← write m.sibs 0 sib2
    return ⟨1, sibs⟩
  else some ⟨0, m.sibs⟩

/-- The SIBs of one SI message. -/
def fillMsg (t : SibTable lte β) (info : SchedInfo) (msgIndex : Nat) (m : BcchMsg β) :
    Option (BcchMsg β) := do
  let start ← startMsg t msgIndex m
  loop info.sibMappingInfo.size (addSib t info (if msgIndex = 1 then 1 else 0)) start

/-- A message as it is packed, by `liblte_rrc_pack_bcch_dlsch_msg` and `srslte_bit_pack_vector`. -/
def packMsg (pack : List (Sib β) → List Bool) (sibs : List (Sib β)) : ByteMsg :=
  ⟨pack sibs, u32 ((pack sibs).length + 2 ^ 32 - 1) / 8 + 1⟩

/-- A round of the loop over the entries; the first message is SIB1, therefore it starts with the
second. -/
def fillRound (t : SibTable lte β) (d : ListOf SchedInfo) (msg : List (BcchMsg β)) (elem : Nat) :
    Option (List (BcchMsg β)) := do
  let info ← schedInfoAt lte d elem
  let m ← msg[elem + 1]?
  let m ← fillMsg t info (elem + 1) m
  write msg (elem + 1) m

/-- A round of the loop over the payloads. -/
def packRound (pack : List (Sib β) → List Bool) (msg : List (BcchMsg β)) (sibBuffer : List ByteMsg)
    (i : Nat) : Option (List ByteMsg) := do
  let m ← msg[i]?
  write sibBuffer i (packMsg pack (m.sibs.take m.nSibs))

/-- `rrc::generate_sibs` -/
def generateSibs (pack : List (Sib β) → List Bool) (t : SibTable lte β) (d : ListOf SchedInfo)
    (sibBuffer : List ByteMsg) : Option (Generated β) := do
  let nofMessages := 1 + d.size
  let zero : BcchMsg β := ⟨0, List.replicate lte.maxSib default⟩
  let sib1 ← t.sibs[0]?
  let first ← write zero.sibs 0 sib1
  let msg ← loop nofMessages (fillRound t d) (⟨1, first⟩ :: List.replicate nofMessages zero)
  let sibBuffer ← loop nofMessages (packRound pack msg) sibBuffer
  let sib2 ← t.sibs[1]?
  return ⟨nofMessages, sibBuffer, sib2⟩

/-- `period_rf` of a message. SIB1 is always 8 rf. -/
def periodRf (lte : Liblte) (d : ListOf SchedInfo) (i : Nat) : Option Nat :=
  if i = 0 then some 8
  else do
    let info ← schedInfoAt lte d (i - 1)
    let period ← (lte.num "si_periodicity")[info.siPeriodicity]?
    return period.toNat

/-- A round of the loop of `rrc::config_mac` over the SI messages. -/
def macRound (lte : Liblte) (d : ListOf SchedInfo) (g : Generated β) (sibs : List SibCfg)
    (i : Nat) : Option (List SibCfg) := do
  let buffer ← g.sibBuffer[i]?
  let period ← periodRf lte d i
  write sibs i ⟨buffer.nBytes, period⟩

/-- The `sibs` that `rrc::config_mac` gives the scheduler, in `MAX_SIBS` places. -/
def configMacSibs (lte : Liblte) (maxSibs : Nat) (d : ListOf SchedInfo) (g : Generated β) :
    Option (List SibCfg) :=
  loop g.nofSiMessages (macRound lte d g) (List.replicate maxSibs ⟨0, 0⟩)

/-- The SI part of `rrc::init` -/
def initSibs (pack : List (Sib β) → List Bool) (t : SibTable lte β) (maxSibs : Nat)
    (d : ListOf SchedInfo) (sibBuffer : List ByteMsg) : Option (Generated β × List SibCfg) := do
  let g ← generateSibs pack t d sibBuffer
  let sibs ← configMacSibs lte maxSibs d g
  return (g, sibs)

/-! ## What the file asks for -/

/-- The SIB numbers that `si_mapping_info` names. -/
def mappedSibs (lib : LibConfig S) (e : S) : List Nat :=
  match lib.get e "si_mapping_info" with
  | .ok mapping => (List.range (lib.getLength mapping)).map fun j =>
      ((lib.index mapping j >>= lib.uint).toOption).getD 0
  | .error _ => []

/-- `si_periodicity` -/
def siPeriodicity (lib : LibConfig S) (e : S) : Nat := (lib.lookupUint e "si_periodicity").getD 0

/-- The entries of `sched_info`. -/
def siEntries (lib : LibConfig S) (root : S) : List S :=
  (List.range (lib.getLength root)).filterMap fun i => (lib.index root i).toOption

/-- SIB `n` -/
def SibTable.sib (t : SibTable lte β) (n : Nat) : Sib β := t.sibs[n - 1]?.getD default

/-- SIB1, and a message for each entry, with SIB2 first in the first; each with its period. -/
def siMessages (lib : LibConfig S) (t : SibTable lte β) (root : S) : List (List (Sib β) × Nat) :=
  ([t.sib 1], 8) :: (siEntries lib root).mapIdx fun i e =>
    ((if i = 0 then [t.sib 2] else []) ++ (mappedSibs lib e).map t.sib, siPeriodicity lib e)

/-- The messages are in the buffers and in the scheduler's configuration, and no others; SIB2 is in
one of them. -/
def Complete (pack : List (Sib β) → List Bool) (t : SibTable lte β)
    (msgs : List (List (Sib β) × Nat)) (out : Option (Generated β × List SibCfg)) : Prop :=
  ∃ g sibs, out = some (g, sibs) ∧ g.nofSiMessages = msgs.length ∧
    g.sibBuffer.take msgs.length = msgs.map (fun m => packMsg pack m.1) ∧
    sibs.take msgs.length = msgs.map (fun m => ⟨(packMsg pack m.1).nBytes, m.2⟩) ∧
    (∀ c ∈ sibs.drop msgs.length, c.len = 0) ∧ ∃ m ∈ msgs, t.sib 2 ∈ m.1

/-! ## An entry -/

variable {lib : LibConfig S} {root s : S} {d : ListOf SchedInfo}

/-- The SIBs `ns` are those that an entry maps. -/
structure Maps (lte : Liblte) (info : SchedInfo) (ns : List Nat) : Prop where
  size : info.sibMappingInfo.size = ns.length
  size_lt : ns.length < lte.maxSib
  sib : ∀ j n, ns[j]? = some n → 3 ≤ n ∧ n ≤ 13 ∧ info.sibMappingInfo.entries j = some (n - 3)

/-- What the parser makes of a setting `s`. -/
structure EntryOf (lib : LibConfig S) (lte : Liblte) (s : S) (e : SchedInfo) : Prop where
  period : (lte.num "si_periodicity")[e.siPeriodicity]? = some (siPeriodicity lib s : Int)
  maps : Maps lte e (mappedSibs lib s)

theorem need_eq_ok {α : Type} {x : Option α} {a : α} (h : LibConfig.need x = .ok a) :
    x = some a := by
  cases x with
  | none => cases h
  | some b => exact congrArg some (Except.ok.inj h)

theorem sibType_eq_ok {n : Nat} (h : sibType lib s = .ok n) :
    ∃ k, lib.uint s = .ok k ∧ 3 ≤ k ∧ k ≤ 13 ∧ n = k - 3 := by
  obtain ⟨k, hk, h⟩ := bind_eq_ok.1 h
  split_ifs at h with hrange
  · exact ⟨k, hk, hrange.1, hrange.2, (Except.ok.inj h).symm⟩

theorem mappedSibs_absent (h : lib.has s "si_mapping_info" ≠ true) : mappedSibs lib s = [] := by
  cases hm : lib.member s "si_mapping_info" with
  | error e => rw [mappedSibs, LibConfig.get_error hm]
  | ok mapping => exact absurd ((lib.has_iff s _).2 ⟨mapping, hm⟩) h

/-- The parser keeps the SIBs of `si_mapping_info`, less 3. -/
theorem maps_of_list {mapping : S} {k : Nat} {sibs : ListOf Nat}
    (hget : lib.get s "si_mapping_info" = .ok mapping) (hsize : lib.getLength mapping < lte.maxSib)
    (hsibs : parseList lib (sibType lib) mapping (lib.getLength mapping) {} = .ok sibs) :
    Maps lte ⟨k, sibs⟩ (mappedSibs lib s) := by
  obtain ⟨hlen, hread, -⟩ := parseList_spec hsibs
  have hmapped : mappedSibs lib s = (List.range (lib.getLength mapping)).map fun j =>
      ((lib.index mapping j >>= lib.uint).toOption).getD 0 := by
    rw [mappedSibs, hget]
  have hlength : (mappedSibs lib s).length = lib.getLength mapping := by
    rw [hmapped, List.length_map, List.length_range]
  refine ⟨hlen.trans hlength.symm, hlength ▸ hsize, fun j n hn => ?_⟩
  rw [hmapped, List.getElem?_map, Option.map_eq_some_iff] at hn
  obtain ⟨j', hj', rfl⟩ := hn
  obtain ⟨hj, rfl⟩ := List.getElem?_eq_some_iff.1 hj'
  rw [List.length_range] at hj
  obtain ⟨ty, ⟨u, hu, hty⟩, hentry⟩ := hread j hj
  obtain ⟨n, hn, h3, h13, rfl⟩ := sibType_eq_ok hty
  have hnum : ((lib.index mapping j >>= lib.uint).toOption).getD 0 = n := by
    rw [hu]
    change (lib.uint u).toOption.getD 0 = n
    rw [hn]
    rfl
  rw [List.getElem_range, hnum]
  exact ⟨h3, h13, hentry⟩

theorem entryOf (hmax : 0 < lte.maxSib) {e : SchedInfo} (h : schedInfoEntry lib lte s = .ok e) :
    EntryOf lib lte s e := by
  obtain ⟨p, hp, h⟩ := bind_eq_ok.1 h
  obtain ⟨k, hk, h⟩ := bind_eq_ok.1 h
  have hperiod : (lte.num "si_periodicity")[k]? = some (siPeriodicity lib s : Int) := by
    obtain ⟨hlt, heq, -⟩ := List.idxOf?_eq_some_iff.1 (need_eq_ok hk)
    rw [siPeriodicity, need_eq_ok hp, List.getElem?_eq_getElem hlt, heq]
    rfl
  split_ifs at h with hhas
  · obtain ⟨mapping, hmapping, h⟩ := bind_eq_ok.1 h
    split_ifs at h with hsize
    · obtain ⟨sibs, hsibs, h⟩ := bind_eq_ok.1 h
      obtain rfl : ⟨k, sibs⟩ = e := Except.ok.inj h
      exact ⟨hperiod, maps_of_list hmapping hsize hsibs⟩
  · obtain rfl : ⟨k, {}⟩ = e := Except.ok.inj h
    exact ⟨hperiod, mappedSibs_absent hhas ▸ ⟨rfl, hmax, by simp⟩⟩

/-! ## A message -/

variable {t : SibTable lte β}

theorem SibTable.getElem?_sib (t : SibTable lte β) {n : Nat} (h : n ≤ 13) :
    t.sibs[n - 1]? = some (t.sib n) := by
  have hlt : n - 1 < t.sibs.length := by have := t.size; have := t.sib13; omega
  rw [sib, List.getElem?_eq_getElem hlt]
  rfl

/-- What is packed of a message. -/
def BcchMsg.content (m : BcchMsg β) : List (Sib β) := m.sibs.take m.nSibs

/-- The SIBs of message 1 that no entry names. -/
def SibTable.base (t : SibTable lte β) (msgIndex : Nat) : List (Sib β) :=
  if msgIndex = 1 then [t.sib 2] else []

/-- The first `j` SIBs of an entry come after those of `base`. -/
def FilledTo (t : SibTable lte β) (base : List (Sib β)) (ns : List Nat) (j : Nat) (m : BcchMsg β) :
    Prop :=
  m.nSibs = base.length + j ∧ m.sibs.length = lte.maxSib ∧
    m.content = base ++ (ns.take j).map t.sib

theorem addSib_spec {info : SchedInfo} {ns : List Nat} (h : Maps lte info ns) {base : List (Sib β)}
    (hbase : base.length ≤ 1) {j : Nat} (hj : j < ns.length) {m : BcchMsg β}
    (hm : FilledTo t base ns j m) :
    ∃ m', addSib t info base.length m j = some m' ∧ FilledTo t base ns (j + 1) m' := by
  obtain ⟨hn, hlen, hcontent⟩ := hm
  have hget := List.getElem?_eq_getElem hj
  obtain ⟨h3, h13, hentry⟩ := h.sib j _ hget
  have hlt := h.size_lt
  have htype : sibTypeAt lte info j = some (ns[j] - 3) := by
    rw [sibTypeAt, if_pos (by omega), hentry]
    rfl
  have hsib : t.sibs[ns[j] - 3 + 2]? = some (t.sib ns[j]) := by
    rw [← t.getElem?_sib h13, show ns[j] - 3 + 2 = ns[j] - 1 by omega]
  have hw := write_of_lt (show j + base.length < m.sibs.length by omega) (t.sib ns[j])
  refine ⟨⟨m.nSibs + 1, m.sibs.set (j + base.length) (t.sib ns[j])⟩, ?_, ?_, ?_, ?_⟩
  · simp only [addSib, htype, hsib, hw, Option.bind_eq_bind, Option.bind_some]
    rfl
  · exact congrArg (· + 1) hn
  · exact List.length_set.trans hlen
  · have htake := take_write hw
    rw [BcchMsg.content, hn, Nat.add_comm base.length j, htake, Nat.add_comm j, ← hn]
    change m.content ++ _ = _
    rw [hcontent, List.take_add_one, hget, List.append_assoc, List.map_append]
    rfl

theorem startMsg_spec {m : BcchMsg β} (hm : m.sibs.length = lte.maxSib) (ns : List Nat)
    (msgIndex : Nat) :
    ∃ start, startMsg t msgIndex m = some start ∧ FilledTo t (t.base msgIndex) ns 0 start := by
  unfold startMsg SibTable.base
  split_ifs with hfirst
  · have h13 := t.sib13
    have hw := write_of_lt (by omega : 0 < m.sibs.length) (t.sib 2)
    refine ⟨⟨1, m.sibs.set 0 (t.sib 2)⟩, ?_, rfl, List.length_set.trans hm, ?_⟩
    · rw [show t.sibs[1]? = some (t.sib 2) from t.getElem?_sib (n := 2) (by omega)]
      simp only [Option.bind_eq_bind, Option.bind_some, hw]
      rfl
    · exact (take_write hw).trans (by simp)
  · exact ⟨⟨0, m.sibs⟩, rfl, rfl, hm, rfl⟩

theorem fillMsg_spec {info : SchedInfo} {ns : List Nat} (h : Maps lte info ns) {m : BcchMsg β}
    (hm : m.sibs.length = lte.maxSib) (msgIndex : Nat) :
    ∃ m', fillMsg t info msgIndex m = some m' ∧ m'.content = t.base msgIndex ++ ns.map t.sib := by
  have hoffset : (if msgIndex = 1 then 1 else 0) = (t.base msgIndex).length := by
    unfold SibTable.base
    split_ifs <;> rfl
  have hbase : (t.base msgIndex).length ≤ 1 := by
    rw [← hoffset]
    split_ifs <;> omega
  obtain ⟨start, hstart, hfilled⟩ := startMsg_spec hm ns msgIndex
  obtain ⟨m', hloop, -, -, hcontent⟩ := loop_ok (FilledTo t (t.base msgIndex) ns) hfilled
    fun j hj m hm => addSib_spec h hbase hj hm
  refine ⟨m', ?_, by rw [hcontent, List.take_length]⟩
  rw [fillMsg, hstart, hoffset, h.size]
  exact hloop

/-! ## The messages -/

/-- The SIBs of the messages, with `ns` for what each entry maps. -/
def SibTable.expected (t : SibTable lte β) (ns : Nat → List Nat) : Nat → List (Sib β)
  | 0 => [t.sib 1]
  | i + 1 => t.base (i + 1) ++ (ns i).map t.sib

/-- The messages up to `j` are filled. -/
structure MsgsTo (t : SibTable lte β) (ns : Nat → List Nat) (k j : Nat) (msg : List (BcchMsg β)) :
    Prop where
  length : msg.length = k + 2
  content : ∀ i ≤ j, msg[i]?.map BcchMsg.content = some (t.expected ns i)
  room : ∀ i, j < i → ∀ m, msg[i]? = some m → m.sibs.length = lte.maxSib

theorem fillRound_spec {ns : Nat → List Nat} {k elem : Nat} {info : SchedInfo} (helem : elem ≤ k)
    (hinfo : schedInfoAt lte d elem = some info) (hmaps : Maps lte info (ns elem))
    {msg : List (BcchMsg β)} (h : MsgsTo t ns k elem msg) :
    ∃ msg', fillRound t d msg elem = some msg' ∧ MsgsTo t ns k (elem + 1) msg' := by
  have hlt : elem + 1 < msg.length := by rw [h.length]; omega
  have hget := List.getElem?_eq_getElem hlt
  obtain ⟨m', hfill, hcontent⟩ :=
    fillMsg_spec (t := t) hmaps (h.room (elem + 1) (by omega) _ hget) (elem + 1)
  have hw := write_of_lt hlt m'
  refine ⟨msg.set (elem + 1) m', ?_, List.length_set.trans h.length, fun i hi => ?_,
    fun i hi m hm => ?_⟩
  · rw [fillRound, hinfo, hget]
    simp only [Option.bind_eq_bind, Option.bind_some, hfill]
    exact hw
  · by_cases heq : i = elem + 1
    · subst heq
      rw [List.getElem?_set_self hlt, Option.map_some, hcontent]
      rfl
    · rw [getElem?_write hw heq]
      exact h.content i (by omega)
  · rw [getElem?_write hw (by omega)] at hm
    exact h.room i (by omega) m hm

/-! ## An accepted list -/

/-- The SIBs of entry `i`. -/
def mappedAt (lib : LibConfig S) (root : S) (i : Nat) : List Nat :=
  ((siEntries lib root)[i]?.map (mappedSibs lib)).getD []

/-- The period of message `i`. -/
def periodAt (lib : LibConfig S) (root : S) : Nat → Nat
  | 0 => 8
  | i + 1 => ((siEntries lib root)[i]?.map (siPeriodicity lib)).getD 0

theorem filterMap_range {α : Type} {f : Nat → Option α} {n : Nat}
    (h : ∀ i < n, ∃ a, f i = some a) :
    ((List.range n).filterMap f).length = n ∧
      ∀ i < n, ((List.range n).filterMap f)[i]? = f i := by
  induction n with
  | zero => exact ⟨rfl, fun i hi => absurd hi (Nat.not_lt_zero i)⟩
  | succ n ih =>
    obtain ⟨hlen, hget⟩ := ih fun i hi => h i (by omega)
    obtain ⟨a, ha⟩ := h n (by omega)
    rw [List.range_succ, List.filterMap_append, List.filterMap_cons_some ha, List.filterMap_nil]
    refine ⟨by rw [List.length_append, hlen]; rfl, fun i hi => ?_⟩
    rcases Nat.lt_succ_iff_lt_or_eq.1 hi with hlt | rfl
    · rw [List.getElem?_append_left (by omega), hget i hlt]
    · rw [List.getElem?_append_right (by omega), hlen, Nat.sub_self, ha]
      rfl

/-- The array holds the entries of the file, and nothing after them. -/
structure Holds (lib : LibConfig S) (lte : Liblte) (root : S) (d : ListOf SchedInfo) : Prop where
  size : (siEntries lib root).length = d.size
  entry : ∀ i e, (siEntries lib root)[i]? = some e →
    ∃ info, d.entries i = some info ∧ EntryOf lib lte e info
  rest : ∀ i, d.size ≤ i → d.entries i = none

theorem holds (hmax : 0 < lte.maxSib) (h : fieldSchedInfo lib lte root {} = .ok d) :
    Holds lib lte root d := by
  obtain ⟨hsize, hread, hrest⟩ := parseList_spec h
  have hsome : ∀ i < lib.getLength root, ∃ s, (lib.index root i).toOption = some s := by
    intro i hi
    obtain ⟨e, ⟨s, hs, -⟩, -⟩ := hread i hi
    exact ⟨s, by rw [hs]; rfl⟩
  obtain ⟨hlen, hget⟩ := filterMap_range hsome
  refine ⟨hlen.trans hsize.symm, fun i s hs => ?_, fun i hi => hrest i (hsize ▸ hi)⟩
  have hi : i < lib.getLength root := by
    have hlt := (List.getElem?_eq_some_iff.1 hs).1
    rwa [siEntries, hlen] at hlt
  obtain ⟨e, ⟨s', hs', he⟩, hentry⟩ := hread i hi
  have hsame := hget i hi
  rw [hs'] at hsame
  obtain rfl : s = s' := Option.some.inj (hs.symm.trans hsame)
  exact ⟨e, hentry, entryOf hmax he⟩

theorem Holds.info (h : Holds lib lte root d) (hmax : 0 < lte.maxSib)
    (hsi : d.size < lte.maxSiMessage) {i : Nat} (hi : i ≤ d.size) :
    ∃ info, schedInfoAt lte d i = some info ∧ Maps lte info (mappedAt lib root i) := by
  rw [schedInfoAt, if_pos (by omega), mappedAt]
  rcases Nat.lt_or_eq_of_le hi with hlt | rfl
  · have hget := List.getElem?_eq_getElem (h.size ▸ hlt)
    obtain ⟨info, hentry, he⟩ := h.entry i _ hget
    exact ⟨info, by rw [hentry]; rfl, by rw [hget]; exact he.maps⟩
  · rw [h.rest d.size (Nat.le_refl _), List.getElem?_eq_none (Nat.le_of_eq h.size)]
    exact ⟨{}, rfl, rfl, hmax, by simp⟩

theorem Holds.periodRf (h : Holds lib lte root d) (hsi : d.size < lte.maxSiMessage) {i : Nat}
    (hi : i ≤ d.size) : periodRf lte d i = some (periodAt lib root i) := by
  cases i with
  | zero => rfl
  | succ i =>
    have hget := List.getElem?_eq_getElem (h.size.symm ▸ hi : i < (siEntries lib root).length)
    obtain ⟨info, hentry, he⟩ := h.entry i _ hget
    have hinfo : schedInfoAt lte d i = some info := by
      rw [schedInfoAt, if_pos (by omega), hentry]
      rfl
    simp only [Sibs.periodRf, Nat.add_one_sub_one, hinfo, he.period, Option.bind_eq_bind,
      Option.bind_some, periodAt, hget]
    rfl

/-! ## The loops -/

variable {pack : List (Sib β) → List Bool} {sibBuffer : List ByteMsg} {maxSibs : Nat}

/-- The packed message `i`. -/
def SibTable.packed (t : SibTable lte β) (pack : List (Sib β) → List Bool) (lib : LibConfig S)
    (root : S) (i : Nat) : ByteMsg :=
  packMsg pack (t.expected (mappedAt lib root) i)

theorem msgsTo_start {ns : Nat → List Nat} {k : Nat} (hmax : 0 < lte.maxSib) :
    MsgsTo t ns k 0 (⟨1, (List.replicate lte.maxSib default).set 0 (t.sib 1)⟩ ::
      List.replicate (1 + k) ⟨0, List.replicate lte.maxSib default⟩) := by
  have hw := write_of_lt (l := List.replicate lte.maxSib (default : Sib β)) (i := 0)
    (by rw [List.length_replicate]; exact hmax) (t.sib 1)
  refine ⟨by simp; omega, fun i hi => ?_, fun i hi m hm => ?_⟩
  · obtain rfl : i = 0 := by omega
    exact congrArg some (take_write hw)
  · obtain ⟨i, rfl⟩ : ∃ j, i = j + 1 := ⟨i - 1, by omega⟩
    rw [List.getElem?_cons_succ] at hm
    obtain rfl := List.eq_of_mem_replicate (List.mem_of_getElem? hm)
    exact List.length_replicate

/-- The first `i` places are written. -/
def WrittenTo {α : Type} (places : Nat) (f : Nat → α) (i : Nat) (l : List α) : Prop :=
  l.length = places ∧ l.take i = (List.range i).map f

theorem WrittenTo.write {α : Type} {places : Nat} {f : Nat → α} {i : Nat} {l : List α}
    (h : WrittenTo places f i l) (hi : i < places) :
    ∃ l', Srsenb.write l i (f i) = some l' ∧ WrittenTo places f (i + 1) l' := by
  have hw := write_of_lt (h.1 ▸ hi) (f i)
  refine ⟨_, hw, (length_of_write hw).trans h.1, ?_⟩
  rw [take_write hw, h.2, List.range_succ, List.map_append]
  rfl

theorem packs_spec {ns : Nat → List Nat} {k : Nat} {msg : List (BcchMsg β)}
    (h : MsgsTo t ns k (k + 1) msg) (hk : k < sibBuffer.length) :
    ∃ buffer, loop (1 + k) (packRound pack msg) sibBuffer = some buffer ∧
      buffer.take (k + 1) = (List.range (k + 1)).map fun i => packMsg pack (t.expected ns i) := by
  obtain ⟨buffer, hloop, -, htake⟩ := loop_ok (f := packRound pack msg) (n := 1 + k)
    (WrittenTo sibBuffer.length fun i => packMsg pack (t.expected ns i)) ⟨rfl, rfl⟩
    fun i hi buffer hto => by
      obtain ⟨m, hm, hcontent⟩ := Option.map_eq_some_iff.1 (h.content i (by omega))
      obtain ⟨buffer', hw, hto'⟩ := hto.write (by omega)
      refine ⟨buffer', ?_, hto'⟩
      rw [← hw, ← hcontent, packRound, hm]
      rfl
  rw [Nat.add_comm 1 k] at htake
  exact ⟨buffer, hloop, htake⟩

theorem generateSibs_spec (pack : List (Sib β) → List Bool) (t : SibTable lte β)
    (h : Holds lib lte root d) (hsi : d.size < lte.maxSiMessage)
    (hbuffer : d.size < sibBuffer.length) :
    ∃ g, generateSibs pack t d sibBuffer = some g ∧ g.nofSiMessages = d.size + 1 ∧
      g.sibBuffer.take (d.size + 1) = (List.range (d.size + 1)).map (t.packed pack lib root) := by
  have h13 := t.sib13
  have hfirst := write_of_lt (l := List.replicate lte.maxSib (default : Sib β)) (i := 0)
    (by rw [List.length_replicate]; omega) (t.sib 1)
  obtain ⟨msg, hmsg, hto⟩ := loop_ok (f := fillRound t d) (MsgsTo t (mappedAt lib root) d.size)
    (msgsTo_start (by omega)) fun elem (helem : elem < 1 + d.size) msg hto => by
      obtain ⟨info, hinfo, hmaps⟩ := h.info (by omega) hsi (by omega : elem ≤ d.size)
      exact fillRound_spec (by omega) hinfo hmaps hto
  rw [Nat.add_comm] at hto
  obtain ⟨buffer, hpacks, htake⟩ := packs_spec hto hbuffer
  refine ⟨⟨1 + d.size, buffer, t.sib 2⟩, ?_, Nat.add_comm 1 d.size, htake⟩
  have h1 : t.sibs[0]? = some (t.sib 1) := t.getElem?_sib (n := 1) (by omega)
  have h2 : t.sibs[1]? = some (t.sib 2) := t.getElem?_sib (n := 2) (by omega)
  simp only [generateSibs, h1, h2, hfirst, Option.bind_eq_bind, Option.bind_some]
  rw [hmsg, Option.bind_some, hpacks]
  rfl

theorem configMacSibs_spec (h : Holds lib lte root d) (hsi : d.size < lte.maxSiMessage)
    (hmac : d.size < maxSibs) {g : Generated β} (hg : g.nofSiMessages = d.size + 1)
    (hbuffer : g.sibBuffer.take (d.size + 1) =
      (List.range (d.size + 1)).map (t.packed pack lib root)) :
    ∃ sibs, configMacSibs lte maxSibs d g = some sibs ∧
      sibs.take (d.size + 1) = (List.range (d.size + 1)).map (fun i =>
        ⟨(t.packed pack lib root i).nBytes, periodAt lib root i⟩) ∧
      ∀ c ∈ sibs.drop (d.size + 1), c.len = 0 := by
  rw [configMacSibs, hg]
  obtain ⟨sibs, hloop, ⟨-, htake⟩, hdrop⟩ := loop_ok (f := macRound lte d g)
    (s := List.replicate maxSibs ⟨0, 0⟩)
    (fun i sibs => WrittenTo maxSibs (fun i =>
        (⟨(t.packed pack lib root i).nBytes, periodAt lib root i⟩ : SibCfg)) i sibs ∧
      ∀ c ∈ sibs.drop i, c.len = 0)
    ⟨⟨List.length_replicate, rfl⟩, fun c hc => by rw [List.eq_of_mem_replicate hc]⟩
    fun i (hi : i < d.size + 1) sibs hsibs => by
      obtain ⟨hto, hzero⟩ := hsibs
      obtain ⟨sibs', hw, hto'⟩ := hto.write (by omega)
      have hget : g.sibBuffer[i]? = some (t.packed pack lib root i) := by
        rw [← List.getElem?_take_of_lt hi, hbuffer, List.getElem?_map, List.getElem?_range hi]
        rfl
      refine ⟨sibs', ?_, hto', fun c hc => ?_⟩
      · rw [macRound, hget, h.periodRf hsi (by omega)]
        exact hw
      · rw [drop_write hw] at hc
        exact hzero c (List.drop_subset_drop_left sibs (Nat.le_succ i) hc)
  exact ⟨sibs, hloop, htake, hdrop⟩

theorem siMessages_eq (h : Holds lib lte root d) : siMessages lib t root =
    (List.range (d.size + 1)).map fun i =>
      (t.expected (mappedAt lib root) i, periodAt lib root i) := by
  rw [siMessages, List.range_succ_eq_map, List.map_cons, List.map_map]
  refine congrArg _ (List.ext_getElem? fun i => ?_)
  rw [List.getElem?_mapIdx, List.getElem?_map]
  by_cases hi : i < d.size
  · have hget := List.getElem?_eq_getElem (h.size.symm ▸ hi : i < (siEntries lib root).length)
    rw [List.getElem?_range hi, hget]
    simp [SibTable.expected, SibTable.base, mappedAt, periodAt, hget]
  · rw [List.getElem?_eq_none (by rw [h.size]; omega),
      List.getElem?_eq_none (by rw [List.length_range]; omega)]
    rfl

/-! ## The SI messages are complete -/

theorem complete (h : Holds lib lte root d) (hne : 1 ≤ d.size) (hsi : d.size < lte.maxSiMessage)
    (hbuffer : d.size < sibBuffer.length) (hmac : d.size < maxSibs) :
    Complete pack t (siMessages lib t root) (initSibs pack t maxSibs d sibBuffer) := by
  obtain ⟨g, hgen, hnof, hpacked⟩ := generateSibs_spec pack t h hsi hbuffer
  obtain ⟨sibs, hconf, htake, hdrop⟩ := configMacSibs_spec h hsi hmac hnof hpacked
  have hlen : (siMessages lib t root).length = d.size + 1 := by
    rw [siMessages_eq h, List.length_map, List.length_range]
  refine ⟨g, sibs, ?_, hnof.trans hlen.symm, ?_, ?_, ?_, ?_⟩
  · rw [initSibs, hgen, Option.bind_eq_bind, Option.bind_some, hconf]
    rfl
  · rw [hlen, hpacked, siMessages_eq h, List.map_map]
    rfl
  · rw [hlen, htake, siMessages_eq h, List.map_map]
    rfl
  · rw [hlen]
    exact hdrop
  · rw [siMessages_eq h]
    refine ⟨_, List.mem_map_of_mem (List.mem_range.2 (by omega : 1 < d.size + 1)), ?_⟩
    simp [SibTable.expected, SibTable.base]

/-- The array of entries is read one past the last. -/
theorem generateSibs_entries (hsi : lte.maxSiMessage ≤ d.size) :
    generateSibs pack t d sibBuffer = none := by
  have hstuck : ∀ msg, loop (1 + d.size) (fillRound t d) msg = none := fun msg =>
    loop_stuck (fun _ => True) trivial (by omega : lte.maxSiMessage < 1 + d.size)
      (fun _ _ _ _ _ => trivial) fun msg _ => by
        rw [fillRound, schedInfoAt, if_neg (Nat.lt_irrefl _)]
        rfl
  simp [generateSibs, hstuck]

theorem generateSibs_buffers (hbuffer : sibBuffer.length ≤ d.size) :
    generateSibs pack t d sibBuffer = none := by
  have hstuck : ∀ msg, loop (1 + d.size) (packRound pack msg) sibBuffer = none := fun msg =>
    loop_stuck (fun l => l.length = sibBuffer.length) rfl
      (by omega : sibBuffer.length < 1 + d.size)
      (fun i l l' hl hround => by
        obtain ⟨m, -, hw⟩ := Option.bind_eq_some_iff.1 hround
        exact (length_of_write hw).trans hl)
      fun l hl => by
        rw [packRound, Option.bind_eq_bind, Option.bind_eq_none_iff]
        exact fun m _ => write_of_le (Nat.le_of_eq hl) _
  simp [generateSibs, hstuck]

theorem generateSibs_nof {g : Generated β} (h : generateSibs pack t d sibBuffer = some g) :
    g.nofSiMessages = 1 + d.size := by
  simp only [generateSibs, Option.bind_eq_bind, Option.bind_eq_some_iff] at h
  obtain ⟨sib1, -, first, -, msg, -, buffer, -, sib2, -, hg⟩ := h
  rw [← Option.some.inj hg]

theorem configMacSibs_places {γ : Type} {g : Generated γ} (hg : g.nofSiMessages = 1 + d.size)
    (hmac : maxSibs ≤ d.size) : configMacSibs lte maxSibs d g = none := by
  refine loop_stuck (fun l => l.length = maxSibs) List.length_replicate
    (by omega : maxSibs < g.nofSiMessages) (fun i l l' hl hround => ?_) fun l hl => ?_
  · obtain ⟨buffer, -, hround⟩ := Option.bind_eq_some_iff.1 hround
    obtain ⟨period, -, hw⟩ := Option.bind_eq_some_iff.1 hround
    exact (length_of_write hw).trans hl
  · rw [macRound, Option.bind_eq_bind, Option.bind_eq_none_iff]
    refine fun buffer _ => ?_
    rw [Option.bind_eq_bind, Option.bind_eq_none_iff]
    exact fun period _ => write_of_le (Nat.le_of_eq hl) _

theorem initSibs_places (hmac : maxSibs ≤ d.size) :
    initSibs pack t maxSibs d sibBuffer = none := by
  rw [initSibs, Option.bind_eq_bind, Option.bind_eq_none_iff]
  intro g hg
  rw [Option.bind_eq_bind, configMacSibs_places (generateSibs_nof hg) hmac]
  rfl

theorem SibTable.sib_ne (t : SibTable lte β) : t.sib 2 ≠ t.sib 1 := by
  have h13 := t.sib13
  have hsize := t.size
  intro heq
  have h1 : t.sib 1 = t.sibs.get ⟨0, by omega⟩ := by
    rw [sib, List.getElem?_eq_getElem (by omega)]
    rfl
  have h2 : t.sib 2 = t.sibs.get ⟨1, by omega⟩ := by
    rw [sib, List.getElem?_eq_getElem (by omega)]
    rfl
  rw [h1, h2] at heq
  exact t.types (congrArg Sib.sibType heq.symm)

/-- With an entry at least, and places for one more message than there are entries. -/
theorem complete_iff (hparse : fieldSchedInfo lib lte root {} = .ok d)
    (hbuffer : sibBuffer.length = lte.maxSib) :
    Complete pack t (siMessages lib t root) (initSibs pack t maxSibs d sibBuffer) ↔
      1 ≤ lib.getLength root ∧ lib.getLength root < lte.maxSiMessage ∧
        lib.getLength root < lte.maxSib ∧ lib.getLength root < maxSibs := by
  have h := holds (by have := t.sib13; omega : 0 < lte.maxSib) hparse
  rw [← (parseList_spec hparse).1]
  constructor
  · rintro ⟨g, sibs, hinit, -, -, -, -, hsib2⟩
    obtain ⟨g', hgen, -⟩ := Option.bind_eq_some_iff.1 hinit
    refine ⟨?_, ?_, ?_, ?_⟩
    · by_contra hzero
      have hnil := List.length_eq_zero_iff.1 (h.size.trans (by omega : d.size = 0))
      rw [siMessages, hnil] at hsib2
      simp [t.sib_ne] at hsib2
    · by_contra hsi
      rw [generateSibs_entries (by omega)] at hgen
      cases hgen
    · by_contra hsib
      rw [generateSibs_buffers (by omega)] at hgen
      cases hgen
    · by_contra hmac
      rw [initSibs_places (by omega)] at hinit
      cases hinit
  · rintro ⟨hne, hsi, hsib, hmac⟩
    exact complete h hne hsi (by omega) hmac

/-! ## Files -/

def exampleTable : SibTable exampleLte Unit where
  sibs := (List.range 32).map fun i => ⟨i, ()⟩
  size := rfl
  sib13 := by decide
  types := by decide

/-- A packer, of one bit for each SIB. -/
def examplePack (sibs : List (Sib Unit)) : List Bool := sibs.map fun sib => sib.sibType % 2 == 0

def siFile (entries : List (List Int)) : Conf :=
  .list (entries.map fun sibs =>
    .group [("si_periodicity", .num 5), ("si_mapping_info", .list (sibs.map .num))])

theorem complete_two :
    ∃ d, fieldSchedInfo Conf.lib exampleLte (siFile [[3, 9], [13]]) {} = .ok d ∧
      Complete examplePack exampleTable (siMessages Conf.lib exampleTable (siFile [[3, 9], [13]]))
        (initSibs examplePack exampleTable 16 d (List.replicate 32 {})) :=
  ⟨_, rfl, (complete_iff rfl rfl).2 (by decide)⟩

/-- Without an entry SIB2 is filled in but not packed; 17 messages do not fit the scheduler. -/
theorem not_complete :
    (∃ d, fieldSchedInfo Conf.lib exampleLte (siFile []) {} = .ok d ∧
      ¬Complete examplePack exampleTable (siMessages Conf.lib exampleTable (siFile []))
        (initSibs examplePack exampleTable 16 d (List.replicate 32 {}))) ∧
    ∃ d, fieldSchedInfo Conf.lib exampleLte (siFile (List.replicate 16 [])) {} = .ok d ∧
      ¬Complete examplePack exampleTable
        (siMessages Conf.lib exampleTable (siFile (List.replicate 16 [])))
        (initSibs examplePack exampleTable 16 d (List.replicate 32 {})) := by
  refine ⟨⟨_, rfl, ?_⟩, ⟨_, rfl, ?_⟩⟩
  · rintro ⟨g, sibs, -, -, -, -, -, m, hm, hsib2⟩
    obtain rfl : m = ([exampleTable.sib 1], 8) := List.mem_singleton.1 hm
    have heq := congrArg Sib.sibType (List.mem_singleton.1 hsib2)
    exact absurd heq (by decide)
  · rintro ⟨g, sibs, hinit, -⟩
    rw [initSibs_places (by decide)] at hinit
    cases hinit

end Srsenb.Sibs
