import Srsenb.Base.Run
import Srsenb.Phy.AckFlags

/-! # HARQ-ACKs over runs of the workers

A worker takes part in a run with two events, the reception and the preparation of a subframe.
Those of different workers come in any order. -/

open Srsenb.Run

namespace Srsenb.Phy

open CommonDb

/-- A transport block, under the subframe that its ACK is due in. -/
structure Block where
  sf : Nat
  rnti : Nat
  tb : Fin 2
  deriving DecidableEq, Repr

/-- The PHY, and what has happened: the users that are registered, the subframe that each slot is
kept for, the subframes received, the blocks sent, those of them whose user has stayed, and the
calls of `ack_info`. -/
structure AckRun (N : Nat) where
  phy : PhyState N := {}
  users : List Nat := []
  due : Nat → Option Nat := fun _ => none
  received : List Nat := []
  sent : List Block := []
  owed : List Block := []
  acks : List Block := []

/-- The events; subframes are counted on, and `n` is the one that the worker received. -/
inductive PhyEvent (N : Nat)
  | addRnti (rnti : Nat)
  | remRnti (rnti : Nat)
  | config (rnti : Nat) (conf : UeConf)
  | rx (n : Nat) (w : Fin N) (pusch : List Pusch) (pucch : Nat → Pucch)
  | tx (n : Nat) (w : Fin N) (inp : TxInput)

/-- The subframe is regular, and no encoder fails up to some element with the block of `i`. -/
def TxInput.Sends (inp : TxInput) (d : DlSched) (i : Nat) (tb : Fin 2) : Prop :=
  inp.dl.isRegular = true ∧ ∃ j < d.nofGrants, (d.schedGrants j).rnti = (d.schedGrants i).rnti ∧
    (d.schedGrants j).tbEn tb = true ∧
    ∀ k ∈ d.users, k ≤ j → inp.pdcchOk k = true ∧ inp.pdschOk k = true

instance (inp : TxInput) (d : DlSched) (i : Nat) (tb : Fin 2) : Decidable (inp.Sends d i tb) :=
  inferInstanceAs (Decidable (_ ∧ ∃ j < _, _ ∧ _ ∧ _))

namespace AckRun

variable {N : Nat} (lib : PhyLib) (s : AckRun N)

/-- The TTI of a subframe. -/
def tti (n : Nat) : Nat := n % 10240

/-- The subframe in which a block of the worker of `n` is to be acknowledged. -/
def ackSf (n : Nat) : Nat := n + 2 * harqDelayMs

/-- The blocks that the worker of subframe `n` sends. -/
def sentBlocks (n : Nat) (inp : TxInput) : List Block :=
  (s.phy.sentGrants (tti n) inp).flatMap fun g =>
    ((List.finRange 2).filter g.wantsAck).map fun tb => ⟨ackSf n, g.rnti, tb⟩

def step (s : AckRun N) : PhyEvent N → AckRun N
  | .addRnti rnti => { s with phy := s.phy.addRnti rnti, users := rnti :: s.users }
  | .remRnti rnti =>
    { s with
      phy := s.phy.remRnti rnti, users := s.users.filter fun r => decide (r ≠ rnti)
      owed := s.owed.filter fun b => decide (b.rnti ≠ rnti) }
  | .config rnti conf => { s with phy := s.phy.setConfigDedicated rnti conf }
  | .rx n w pusch pucch =>
    { s with
      phy := (s.phy.rx lib (tti n) w pusch pucch).1, received := n :: s.received
      acks := s.acks ++ (s.phy.rx lib (tti n) w pusch pucch).2.map fun c => ⟨n, c.rnti, c.tb⟩ }
  | .tx n w inp =>
    { s with
      phy := s.phy.tx (tti n) w inp
      due := Function.update s.due (ttimod (ackSf n)) (some (ackSf n))
      sent := s.sent ++ s.sentBlocks n inp
      owed := s.owed ++ (s.sentBlocks n inp).filter fun b => decide (b.rnti ∈ s.users) }

/-- Each ACK is reported once, none is made up, and what is owed is reported. -/
structure AcksRight : Prop where
  once : s.acks.Nodup
  real : ∀ b ∈ s.acks, b ∈ s.sent
  reported : ∀ b ∈ s.owed, b.sf ∈ s.received → b ∈ s.acks

/-! ## Order -/

/-- The subframe was not received before, its slot is not kept for another one, and no decoder
returns while a flag of a registered user is to be reported. -/
def RxInTurn (n : Nat) (w : Fin N) (pusch : List Pusch) (pucch : Nat → Pucch) : Prop :=
  n ∉ s.received ∧ (∀ m ∈ s.due (ttimod n), m = n) ∧
    ∀ r ∈ s.users, (∃ t, pend s.phy.common (ttimod n) r t = true) →
      Heard lib (tti n) pusch pucch s.phy.common (s.phy.workers w) r

/-- The slot is free: its ACKs are not received yet, and those before are. A worker that goes on
sends each block that it sets a flag for; one that returns early finds no flag in the slot. -/
def TxInTurn (n : Nat) (inp : TxInput) : Prop :=
  ackSf n ∉ s.received ∧ (∀ m ∈ s.due (ttimod (ackSf n)), m ∈ s.received) ∧
    if inp.goesOn (s.phy.filled (tti n) inp) then
      ∀ i < (s.phy.filled (tti n) inp).nofGrants, ∀ t,
        ((s.phy.filled (tti n) inp).schedGrants i).wantsAck t = true →
        s.phy.common[((s.phy.filled (tti n) inp).schedGrants i).rnti]?.isSome = true →
        inp.Sends (s.phy.filled (tti n) inp) i t
    else ∀ r ∈ s.phy.common.keys, ∀ t, pend s.phy.common (ttimod (ackSf n)) r t = false

/-- A user that is added has no block to be acknowledged, from when it was added before. -/
def AddInTurn (rnti : Nat) : Prop := ∀ b ∈ s.owed, b.rnti = rnti → b.sf ∈ s.received

def InTurn (s : AckRun N) : PhyEvent N → Prop
  | .addRnti rnti => s.AddInTurn rnti
  | .rx n w pusch pucch => s.RxInTurn lib n w pusch pucch
  | .tx n _ inp => s.TxInTurn n inp
  | _ => True

instance (n : Nat) (w : Fin N) (pusch : List Pusch) (pucch : Nat → Pucch) :
    Decidable (s.RxInTurn lib n w pusch pucch) := by
  unfold RxInTurn
  infer_instance

instance (n : Nat) (inp : TxInput) : Decidable (s.TxInTurn n inp) := by
  unfold TxInTurn
  infer_instance

instance InTurn.decidable (s : AckRun N) (e : PhyEvent N) : Decidable (s.InTurn lib e) :=
  match e with
  | .addRnti rnti => inferInstanceAs (Decidable (∀ b ∈ s.owed, b.rnti = rnti → b.sf ∈ s.received))
  | .rx n w pusch pucch => inferInstanceAs (Decidable (s.RxInTurn lib n w pusch pucch))
  | .tx n _ inp => inferInstanceAs (Decidable (s.TxInTurn n inp))
  | .remRnti _ => .isTrue trivial
  | .config _ _ => .isTrue trivial

/-! ## The invariant -/

/-- A flag stands for a block that was sent and is acknowledged in the slot's subframe. -/
structure Ring : Prop where
  flags : ∀ sl r t, pend s.phy.common sl r t = true → ∃ m, s.due sl = some m ∧ ⟨m, r, t⟩ ∈ s.sent
  slots : ∀ sl m, s.due sl = some m → ttimod m = sl
  known : ∀ r ∈ s.users, (isCrnti r = true → s.phy.common[r]?.isSome = true) ∧
    ∀ w, (s.phy.workers w)[r]?.isSome = true
  acked : ∀ b ∈ s.acks, b.sf ∈ s.received
  waiting : ∀ b ∈ s.owed, (b.rnti ∈ s.users ∧ isCrnti b.rnti = true) ∧
    (b.sf ∉ s.received → s.due (ttimod b.sf) = some b.sf ∧
      pend s.phy.common (ttimod b.sf) b.rnti b.tb = true)
  right : s.AcksRight

variable {lib s}

theorem ring_init : Ring ({} : AckRun N) where
  flags := by
    intro sl r t h
    simp [pend] at h
  slots := by simp
  known := by simp
  acked := by simp
  waiting := by simp
  right := ⟨.nil, by simp, by simp⟩

/-- The slot of a subframe, as the receiver names it. -/
theorem ttimod_tti (n : Nat) : ttimod (tti n) = ttimod n := by
  unfold ttimod tti
  omega

/-- The slot of a subframe, as the sender names it. -/
theorem ttimod_slotTx (n : Nat) :
    ttimod (ttiTx (PhyState.slotTx (tti n))) = ttimod (ackSf n) := by
  unfold PhyState.slotTx ttimod ttiTx tti ackSf harqDelayMs
  omega

/-! ## Users -/

/-- A user comes or goes: its flags are lost at most, and the others stay as they are. -/
theorem Ring.forget (h : Ring s) (rnti : Nat) {phy : PhyState N} {users : List Nat}
    {owed : List Block}
    (hless : ∀ sl r t, pend phy.common sl r t = true → pend s.phy.common sl r t = true)
    (hsame : ∀ sl r t, r ≠ rnti → pend phy.common sl r t = pend s.phy.common sl r t)
    (hknown : ∀ r ∈ users, (isCrnti r = true → phy.common[r]?.isSome = true) ∧
      ∀ w, (phy.workers w)[r]?.isSome = true)
    (howed : ∀ b ∈ owed, b ∈ s.owed ∧ (b.rnti ∈ s.users → b.rnti ∈ users) ∧
      (b.rnti = rnti → b.sf ∈ s.received)) :
    Ring { s with phy := phy, users := users, owed := owed } where
  flags := fun sl r t hp => h.flags sl r t (hless sl r t hp)
  slots := h.slots
  known := hknown
  acked := h.acked
  waiting := by
    intro b hb
    obtain ⟨hmem, husers, hdone⟩ := howed b hb
    obtain ⟨⟨hu, hc⟩, hw⟩ := h.waiting b hmem
    refine ⟨⟨husers hu, hc⟩, fun hr => ?_⟩
    obtain ⟨hdue, hp⟩ := hw hr
    exact ⟨hdue, (hsame _ _ _ fun heq => hr (hdone heq)).trans hp⟩
  right := ⟨h.right.once, h.right.real, fun b hb hr => h.right.reported b (howed b hb).1 hr⟩

theorem Ring.addRnti (h : Ring s) {rnti : Nat} (hc : s.AddInTurn rnti) :
    Ring (step lib s (.addRnti rnti)) := by
  have hpend : ∀ sl r t, pend (s.phy.addRnti rnti).common sl r t =
      (!(isCrnti rnti && decide (r = rnti)) && pend s.phy.common sl r t) := by
    intro sl r t
    unfold PhyState.addRnti
    cases hc : isCrnti rnti with
    | true => simp [pend_addRnti]
    | false => simp
  apply h.forget rnti
  · intro sl r t hp
    rw [hpend, Bool.and_eq_true] at hp
    exact hp.2
  · intro sl r t hne
    rw [hpend]
    simp [hne]
  · intro r hr
    have hr : r = rnti ∨ r ∈ s.users := List.mem_cons.mp hr
    constructor
    · intro hcrnti
      unfold PhyState.addRnti
      split_ifs with hadd
      · exact isSome_addRnti (hr.symm.imp_left fun hu => (h.known r hu).1 hcrnti)
      · refine (h.known r (hr.resolve_left ?_)).1 hcrnti
        rintro rfl
        exact hadd hcrnti
    · exact fun w => StdMap.isSome_touch (hr.imp_right fun hu => (h.known r hu).2 w)
  · exact fun b hb => ⟨hb, fun hu => List.mem_cons_of_mem rnti hu, hc b hb⟩

theorem Ring.remRnti (h : Ring s) (rnti : Nat) : Ring (step lib s (.remRnti rnti)) := by
  have hpend : ∀ sl r t, pend (s.phy.remRnti rnti).common sl r t =
      (!(isCrnti rnti && decide (r = rnti)) && pend s.phy.common sl r t) := by
    intro sl r t
    unfold PhyState.remRnti
    cases hc : isCrnti rnti with
    | true => simp [pend_erase]
    | false => simp
  apply h.forget rnti
  · intro sl r t hp
    rw [hpend, Bool.and_eq_true] at hp
    exact hp.2
  · intro sl r t hne
    rw [hpend]
    simp [hne]
  · intro r hr
    obtain ⟨hu, hne⟩ := List.mem_filter.mp hr
    have hne : rnti ≠ r := Ne.symm (of_decide_eq_true hne)
    constructor
    · intro hc
      unfold PhyState.remRnti
      split_ifs
      · rw [StdMap.getElem?_erase, if_neg hne]
        exact (h.known r hu).1 hc
      · exact (h.known r hu).1 hc
    · intro w
      unfold PhyState.remRnti
      rw [StdMap.getElem?_erase, if_neg hne]
      exact (h.known r hu).2 w
  · intro b hb
    obtain ⟨hb, hne⟩ := List.mem_filter.mp hb
    exact ⟨hb, fun hu => List.mem_filter.mpr ⟨hu, hne⟩,
      fun heq => absurd heq (of_decide_eq_true hne)⟩

theorem Ring.config (h : Ring s) (rnti : Nat) (conf : UeConf) :
    Ring (step lib s (.config rnti conf)) := by
  refine ⟨h.flags, h.slots, fun r hr => ⟨(h.known r hr).1, fun w => ?_⟩, h.acked, h.waiting,
    ⟨h.right.once, h.right.real, h.right.reported⟩⟩
  have hw := (h.known r hr).2 w
  unfold step PhyState.setConfigDedicated
  simp only
  split
  · rw [StdMap.getElem?_insert]
    split_ifs
    · rfl
    · exact hw
  · exact hw

/-! ## Reception -/

theorem nodup_acks {n : Nat} {calls : List AckInfo} (hacks : s.acks.Nodup)
    (hacked : ∀ b ∈ s.acks, b.sf ∈ s.received) (hn : n ∉ s.received)
    (honce : (calls.map AckInfo.block).Nodup) :
    (s.acks ++ calls.map fun c => (⟨n, c.rnti, c.tb⟩ : Block)).Nodup := by
  have hmap : (calls.map fun c => (⟨n, c.rnti, c.tb⟩ : Block)) =
      (calls.map AckInfo.block).map fun x => ⟨n, x.1, x.2⟩ := by
    rw [List.map_map]
    rfl
  rw [List.nodup_append]
  refine ⟨hacks, ?_, ?_⟩
  · rw [hmap]
    refine honce.map ?_
    intro x y hxy
    obtain ⟨-, h1, h2⟩ := Block.mk.inj hxy
    exact Prod.ext h1 h2
  · intro a ha b hb hab
    obtain ⟨c, -, rfl⟩ := List.mem_map.mp hb
    have := hacked a ha
    rw [hab] at this
    exact hn this

theorem Ring.rx (h : Ring s) {n : Nat} {w : Fin N} {pusch : List Pusch} {pucch : Nat → Pucch}
    (hc : s.RxInTurn lib n w pusch pucch) : Ring (step lib s (.rx n w pusch pucch)) := by
  obtain ⟨hn, hdue, hheard⟩ := hc
  have hreads : Reads (ttimod n) s.phy.common (s.phy.rx lib (tti n) w pusch pucch).1.common
      (s.phy.rx lib (tti n) w pusch pucch).2 := by
    rw [← ttimod_tti n]
    exact receive_reads
  have hother : ∀ sl m r t, s.due sl = some m → m ≠ n →
      pend (s.phy.rx lib (tti n) w pusch pucch).1.common sl r t = pend s.phy.common sl r t := by
    intro sl m r t hm hne
    refine hreads.other sl r t ?_
    rintro rfl
    exact hne (hdue m hm)
  refine ⟨?_, h.slots, ?_, ?_, ?_, ?_, ?_, ?_⟩
  · intro sl r t hp
    refine h.flags sl r t ?_
    by_cases hsl : sl = ttimod n
    · rw [hsl] at hp ⊢
      exact hreads.less r t hp
    · rw [← hreads.other sl r t hsl]
      exact hp
  · intro r hr
    refine ⟨fun hc => hreads.keeps r ((h.known r hr).1 hc), fun w' => ?_⟩
    have hw := (h.known r hr).2
    change (Function.update s.phy.workers w _ w')[r]?.isSome = true
    by_cases hww : w' = w
    · subst hww
      rw [Function.update_self]
      exact receive_keeps lib (tti n) pusch pucch s.phy.common (hw w')
    · rw [Function.update_of_ne hww]
      exact hw w'
  · intro b hb
    rcases List.mem_append.mp hb with hb | hb
    · exact List.mem_cons_of_mem n (h.acked b hb)
    · obtain ⟨c, -, rfl⟩ := List.mem_map.mp hb
      exact List.mem_cons_self
  · intro b hb
    refine ⟨(h.waiting b hb).1, fun hr => ?_⟩
    obtain ⟨hne, hr⟩ := not_or.mp fun hor => hr (List.mem_cons.mpr hor)
    obtain ⟨hd, hp⟩ := (h.waiting b hb).2 hr
    exact ⟨hd, (hother _ _ _ _ hd hne).trans hp⟩
  · exact nodup_acks h.right.once h.acked hn hreads.once
  · intro b hb
    rcases List.mem_append.mp hb with hb | hb
    · exact h.right.real b hb
    · obtain ⟨c, hc, rfl⟩ := List.mem_map.mp hb
      -- The flag that the call used up stands for a block of this subframe.
      obtain ⟨m, hm, hsent⟩ := h.flags _ _ _ (hreads.used c hc).1
      rwa [hdue m hm] at hsent
  · intro b hb hr
    rcases List.mem_cons.mp hr with heq | hr
    · obtain ⟨⟨hu, hcrnti⟩, hw⟩ := h.waiting b hb
      obtain ⟨-, hp⟩ := hw (heq ▸ hn)
      rw [heq] at hp
      have hheard := hheard b.rnti hu ⟨b.tb, hp⟩
      rw [← ttimod_tti n] at hp
      obtain ⟨c, hc, hblock⟩ := receive_reports ((h.known _ hu).2 w) hcrnti hp hheard
      obtain ⟨h1, h2⟩ := Prod.mk.inj hblock
      refine List.mem_append_right _ (List.mem_map.mpr ⟨c, hc, ?_⟩)
      rw [h1, h2, ← heq]
    · exact List.mem_append_left _ (h.right.reported b hb hr)

/-! ## Transmission -/

theorem mem_takeWhile {l : List Nat} {p : Nat → Bool} {i : Nat} (hs : l.Pairwise (· < ·)) :
    i ∈ l.takeWhile p ↔ i ∈ l ∧ ∀ j ∈ l, j ≤ i → p j = true := by
  induction l with
  | nil => simp
  | cons a l ih =>
    obtain ⟨ha, hs⟩ := List.pairwise_cons.mp hs
    rw [List.takeWhile_cons]
    split_ifs with hp
    · rw [List.mem_cons, ih hs, List.mem_cons, List.forall_mem_cons]
      constructor
      · rintro (rfl | ⟨hi, hall⟩)
        · refine ⟨Or.inl rfl, fun _ => hp, fun j hj hle => ?_⟩
          exact absurd (ha j hj) (Nat.not_lt.mpr hle)
        · exact ⟨Or.inr hi, fun _ => hp, hall⟩
      · rintro ⟨rfl | hi, -, hall⟩
        · exact Or.inl rfl
        · exact Or.inr ⟨hi, hall⟩
    · simp only [List.not_mem_nil, false_iff, not_and]
      intro hi hall
      refine hp (hall a List.mem_cons_self ?_)
      rcases List.mem_cons.mp hi with rfl | hi
      · exact le_rfl
      · exact Nat.le_of_lt (ha i hi)

theorem mem_users {d : DlSched} {i : Nat} :
    i ∈ d.users ↔ i < d.nofGrants ∧ (d.schedGrants i).rnti ≠ 0 := by
  unfold DlSched.users
  simp

theorem mem_sent {d : DlSched} {inp : TxInput} {i : Nat} :
    i ∈ d.sent inp ↔ i ∈ d.users ∧
      ∀ j ∈ d.users, j ≤ i → inp.pdcchOk j = true ∧ inp.pdschOk j = true := by
  have hs : d.users.Pairwise (· < ·) := List.pairwise_lt_range.filter _
  unfold DlSched.sent
  rw [List.mem_filter, decide_eq_true_eq, mem_takeWhile hs, mem_takeWhile hs]
  constructor
  · rintro ⟨⟨hi, h1⟩, -, h2⟩
    exact ⟨hi, fun j hj hle => ⟨h1 j hj hle, h2 j hj hle⟩⟩
  · rintro ⟨hi, hall⟩
    exact ⟨⟨hi, fun j hj hle => (hall j hj hle).1⟩, hi, fun j hj hle => (hall j hj hle).2⟩

theorem mem_sentGrants {p : PhyState N} {n : Nat} {inp : TxInput} {g : DlGrant} :
    g ∈ p.sentGrants n inp ↔ inp.goesOn (p.filled n inp) = true ∧ inp.dl.isRegular = true ∧
      ∃ i ∈ (p.filled n inp).sent inp, (p.filled n inp).schedGrants i = g := by
  unfold PhyState.sentGrants DlSubframe.isRegular
  simp only
  split_ifs with hg
  · split <;> simp [hg]
  · simp [hg]

theorem mem_sentBlocks {n : Nat} {inp : TxInput} {b : Block} :
    b ∈ s.sentBlocks n inp ↔ b.sf = ackSf n ∧
      ∃ g ∈ s.phy.sentGrants (tti n) inp, g.rnti = b.rnti ∧ g.wantsAck b.tb = true := by
  unfold sentBlocks
  rw [List.mem_flatMap]
  constructor
  · rintro ⟨g, hg, hb⟩
    obtain ⟨tb, htb, rfl⟩ := List.mem_map.mp hb
    exact ⟨rfl, g, hg, rfl, (List.mem_filter.mp htb).2⟩
  · rintro ⟨hsf, g, hg, hr, htb⟩
    refine ⟨g, hg, List.mem_map.mpr ⟨b.tb, List.mem_filter.mpr ⟨List.mem_finRange _, htb⟩, ?_⟩⟩
    rw [hr, ← hsf]

/-- An element whose block is sent has it among the blocks. -/
theorem mem_sentBlocks_of_sends {n : Nat} {inp : TxInput} {i : Nat} {t : Fin 2}
    (hgo : inp.goesOn (s.phy.filled (tti n) inp) = true)
    (hw : ((s.phy.filled (tti n) inp).schedGrants i).wantsAck t = true)
    (h : inp.Sends (s.phy.filled (tti n) inp) i t) :
    ⟨ackSf n, ((s.phy.filled (tti n) inp).schedGrants i).rnti, t⟩ ∈ s.sentBlocks n inp := by
  obtain ⟨hreg, j, hj, hr, htb, hok⟩ := h
  unfold DlGrant.wantsAck at hw
  rw [Bool.and_eq_true] at hw
  have hne : ((s.phy.filled (tti n) inp).schedGrants j).rnti ≠ 0 := by
    rw [hr]
    rintro h0
    rw [h0] at hw
    exact absurd hw.1 (by decide)
  refine mem_sentBlocks.mpr ⟨rfl, _, mem_sentGrants.mpr ⟨hgo, hreg, j, ?_, rfl⟩, hr, ?_⟩
  · exact mem_sent.mpr ⟨mem_users.mpr ⟨hj, hne⟩, hok⟩
  · unfold DlGrant.wantsAck
    rw [hr, hw.1, htb]
    rfl

/-- A block that is sent to a user that is known has its flag set. -/
theorem exists_of_mem_sentBlocks {n : Nat} {inp : TxInput} {b : Block}
    (hb : b ∈ s.sentBlocks n inp) :
    b.sf = ackSf n ∧ isCrnti b.rnti = true ∧ inp.goesOn (s.phy.filled (tti n) inp) = true ∧
      ∃ i < (s.phy.filled (tti n) inp).nofGrants,
        b.rnti = ((s.phy.filled (tti n) inp).schedGrants i).rnti ∧
        ((s.phy.filled (tti n) inp).schedGrants i).wantsAck b.tb = true := by
  obtain ⟨hsf, g, hg, hr, hw⟩ := mem_sentBlocks.mp hb
  obtain ⟨hgo, -, i, hi, rfl⟩ := mem_sentGrants.mp hg
  refine ⟨hsf, ?_, hgo, i, (mem_users.mp (mem_sent.mp hi).1).1, hr.symm, hw⟩
  unfold DlGrant.wantsAck at hw
  rw [← hr]
  exact (Bool.and_eq_true_iff.mp hw).1

theorem tx_common (p : PhyState N) (n : Nat) (w : Fin N) (inp : TxInput) :
    (p.tx (tti n) w inp).common =
      if inp.goesOn (p.filled (tti n) inp) then
        prepareAcks (ttimod (ackSf n)) (p.filled (tti n) inp) p.common
      else p.common := by
  rw [← ttimod_slotTx]
  unfold PhyState.tx
  simp only
  split_ifs <;> rfl

theorem isSome_foldl_touch {r : Nat} (rs : List Nat) {ueDb : UeDb} (h : ueDb[r]?.isSome = true) :
    (rs.foldl StdMap.touch ueDb)[r]?.isSome = true := by
  induction rs generalizing ueDb with
  | nil => exact h
  | cons a rs ih => exact ih (StdMap.isSome_touch (Or.inr h))

theorem isSome_tx_workers {p : PhyState N} {n r : Nat} (w : Fin N) (inp : TxInput)
    (h : ∀ w, (p.workers w)[r]?.isSome = true) (w' : Fin N) :
    ((p.tx n w inp).workers w')[r]?.isSome = true := by
  unfold PhyState.tx
  simp only
  split_ifs
  · change (Function.update p.workers w _ w')[r]?.isSome = true
    by_cases hww : w' = w
    · subst hww
      rw [Function.update_self]
      exact isSome_foldl_touch _ (h w')
    · rw [Function.update_of_ne hww]
      exact h w'
  · exact h w'

theorem pend_tx {n : Nat} {inp : TxInput} (w : Fin N) (hc : s.TxInTurn n inp) (sl r : Nat)
    (t : Fin 2) :
    pend (s.phy.tx (tti n) w inp).common sl r t = true ↔
      sl ≠ ttimod (ackSf n) ∧ pend s.phy.common sl r t = true ∨
      sl = ttimod (ackSf n) ∧ ⟨ackSf n, r, t⟩ ∈ s.sentBlocks n inp ∧
        s.phy.common[r]?.isSome = true := by
  obtain ⟨-, -, hfree⟩ := hc
  rw [tx_common]
  split_ifs at hfree ⊢ with hgo
  · rw [pend_prepareAcks]
    refine or_congr_right (and_congr_right fun _ => and_congr_left fun hsome => ?_)
    constructor
    · rintro ⟨i, hi, rfl, hw⟩
      exact mem_sentBlocks_of_sends hgo hw (hfree i hi t hw hsome)
    · intro hb
      obtain ⟨-, -, -, i, hi, hr, hw⟩ := exists_of_mem_sentBlocks hb
      exact ⟨i, hi, hr, hw⟩
  · -- Nothing is set, and the slot is free as it is.
    constructor
    · intro hp
      refine Or.inl ⟨?_, hp⟩
      rintro rfl
      have hkey : r ∈ s.phy.common.keys := by
        rw [StdMap.mem_keys]
        cases hr : s.phy.common[r]? with
        | none => rw [pend_of_none hr] at hp; cases hp
        | some u => rfl
      rw [hfree r hkey t] at hp
      cases hp
    · rintro (⟨-, hp⟩ | ⟨-, hb, -⟩)
      · exact hp
      · exact absurd (exists_of_mem_sentBlocks hb).2.2.1 hgo

theorem Ring.tx (h : Ring s) {n : Nat} {w : Fin N} {inp : TxInput} (hc : s.TxInTurn n inp) :
    Ring (step lib s (.tx n w inp)) := by
  have hpend := pend_tx w hc
  obtain ⟨hn, hdue, -⟩ := hc
  refine ⟨?_, ?_, ?_, h.acked, ?_, ⟨h.right.once, ?_, ?_⟩⟩
  · intro sl r t hp
    change ∃ m, Function.update s.due _ _ sl = some m ∧ _ ∈ s.sent ++ s.sentBlocks n inp
    rcases (hpend sl r t).mp hp with ⟨hne, hp⟩ | ⟨rfl, hb, -⟩
    · obtain ⟨m, hm, hsent⟩ := h.flags sl r t hp
      exact ⟨m, by rw [Function.update_of_ne hne, hm], List.mem_append_left _ hsent⟩
    · exact ⟨ackSf n, Function.update_self .., List.mem_append_right _ hb⟩
  · intro sl m hm
    change Function.update s.due _ _ sl = some m at hm
    by_cases hsl : sl = ttimod (ackSf n)
    · subst hsl
      rw [Function.update_self, Option.some.injEq] at hm
      rw [hm]
    · rw [Function.update_of_ne hsl] at hm
      exact h.slots sl m hm
  · intro r hr
    refine ⟨fun hcrnti => ?_, isSome_tx_workers w inp (h.known r hr).2⟩
    change (s.phy.tx (tti n) w inp).common[r]?.isSome = true
    rw [tx_common]
    split_ifs
    · rw [isSome_prepareAcks]
      exact (h.known r hr).1 hcrnti
    · exact (h.known r hr).1 hcrnti
  · intro b hb
    rcases List.mem_append.mp hb with hb | hb
    · refine ⟨(h.waiting b hb).1, fun hr => ?_⟩
      obtain ⟨hd, hp⟩ := (h.waiting b hb).2 hr
      have hne : ttimod b.sf ≠ ttimod (ackSf n) := by
        intro heq
        rw [heq] at hd
        exact hr (hdue b.sf hd)
      exact ⟨(Function.update_of_ne hne ..).trans hd, (hpend _ _ _).mpr (Or.inl ⟨hne, hp⟩)⟩
    · obtain ⟨hb, hu⟩ := List.mem_filter.mp hb
      have hu : b.rnti ∈ s.users := of_decide_eq_true hu
      obtain ⟨hsf, hcrnti, -⟩ := exists_of_mem_sentBlocks hb
      refine ⟨⟨hu, hcrnti⟩, fun _ => ?_⟩
      rw [hsf]
      refine ⟨Function.update_self ..,
        (hpend _ _ _).mpr (Or.inr ⟨rfl, ?_, (h.known _ hu).1 hcrnti⟩)⟩
      rwa [← hsf]
  · exact fun b hb => List.mem_append_left _ (h.right.real b hb)
  · intro b hb hr
    rcases List.mem_append.mp hb with hb | hb
    · exact h.right.reported b hb hr
    · have hsf := (exists_of_mem_sentBlocks (List.mem_filter.mp hb).1).1
      exact absurd (hsf ▸ hr) hn

theorem ring_step (s : AckRun N) (e : PhyEvent N) (h : Ring s) (hc : InTurn lib s e) :
    Ring (step lib s e) := by
  cases e with
  | addRnti rnti => exact h.addRnti hc
  | remRnti rnti => exact h.remRnti rnti
  | config rnti conf => exact h.config rnti conf
  | rx n w pusch pucch => exact h.rx hc
  | tx n w inp => exact h.tx hc

/-- **In every run in turn, each ACK is reported exactly once, and none is made up.** -/
theorem acks_right (lib : PhyLib) (es : List (PhyEvent N))
    (h : AllSteps (step lib) (InTurn lib) {} es) : AllStates (step lib) AcksRight {} es :=
  (allStates_of_allSteps ring_step ring_init h).mono fun _ hr => hr.right

/-! ## A run with an MBSFN subframe -/

/-- A library without SR, RI and CQI. -/
def exampleLib : PhyLib where
  srSendTti := fun _ _ => false
  riSend := fun _ _ _ => false
  cqiSend := fun _ _ => false

/-- One transport block to each of two users. -/
def toTwo : DlSched where
  schedGrants := fun i => { rnti := 70 + i, tbEn := fun tb => decide (tb = 0) }
  nofGrants := 2
  cfi := 1

/-- The worker of subframe `n` receives it and prepares `dl`. -/
def work (n : Nat) (dl : DlSubframe) : List (PhyEvent 2) :=
  [.rx n (Fin.ofNat 2 n) [] fun _ => {}, .tx n (Fin.ofNat 2 n) { dl := dl }]

/-- Subframes without grants. -/
def idle (n len : Nat) : List (PhyEvent 2) :=
  (List.range' n len).flatMap fun n => work n (.regular { cfi := 1 } true)

/-- Two users are sent a block each in subframe 11, and acknowledge it in subframe 15. -/
def twoAcks : List (PhyEvent 2) :=
  [.addRnti 70, .addRnti 71] ++ work 7 (.regular toTwo true) ++ idle 8 9

theorem acks_right_two : AllStates (step exampleLib) AcksRight {} twoAcks :=
  acks_right exampleLib twoAcks (by decide +kernel)

/-- The MBSFN subframe 21 has the slot of subframe 11. The flag of the second user is set again,
and an ACK is made up in subframe 25. -/
theorem acks_invented : ¬ AllStates (step exampleLib) AcksRight {}
    (twoAcks ++ work 17 (.mbsfn 1 true) ++ idle 18 8) := by
  intro h
  have hmem : (⟨25, 71, 0⟩ : Block) ∈
      (exec (step exampleLib) {} (twoAcks ++ work 17 (.mbsfn 1 true) ++ idle 18 8)).acks := by
    decide +kernel
  have hnot : (⟨25, 71, 0⟩ : Block) ∉
      (exec (step exampleLib) {} (twoAcks ++ work 17 (.mbsfn 1 true) ++ idle 18 8)).sent := by
    decide +kernel
  exact hnot (h.last.real _ hmem)

end AckRun

end Srsenb.Phy
