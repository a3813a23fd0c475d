import Srsenb.Mac.DataBounds

/-! # The bytes of the PDUs

Each round of the loop over `alloc_pdu` draws bytes from one bearer. The elements of a block tell
what the buffers lost, to the last byte. -/

namespace Srsenb.Mac

/-- The bytes of an element. -/
def DlSchedPdu.nbytes : DlSchedPdu → Int
  | conRes => 0
  | sdu _ n => n

@[simp] theorem DlSchedPdu.nbytes_sdu (lcid : Nat) (n : Int) : (sdu lcid n).nbytes = n := rfl

/-- A bearer gives `x` bytes: of its retransmissions, and of new data where there are none. -/
inductive UeBearer.Gives (b : UeBearer) (x : Int) : UeBearer → Prop
  | retx : x ≤ b.bufRetx → Gives b x { b with bufRetx := b.bufRetx - x }
  | tx : b.bufRetx = 0 → x ≤ b.bufTx → Gives b x { b with bufTx := b.bufTx - x }

theorem UeBearer.Gives.nonNeg {b b' : UeBearer} {x : Int} (h : b.Gives x b')
    (hb : 0 ≤ b.bufTx ∧ 0 ≤ b.bufRetx) : 0 ≤ b'.bufTx ∧ 0 ≤ b'.bufRetx := by
  cases h <;> simp only <;> omega

namespace SchedUe

def NonNeg (lch : List UeBearer) : Prop := ∀ b ∈ lch, 0 ≤ b.bufTx ∧ 0 ≤ b.bufRetx

/-- The bytes of all buffers. -/
def total (lch : List UeBearer) : Int := (lch.map fun b => b.bufRetx + b.bufTx).sum

/-- Bearer `lcid` gives `x` bytes, and the others stay. -/
structure Draws (lch : List UeBearer) (lcid : Nat) (x : Int) (lch' : List UeBearer) : Prop where
  pos : 0 < x
  gives : ∃ b b', lch[lcid]? = some b ∧ b.Gives x b' ∧ lch' = lch.set lcid b'

/-- What the elements draw, one after the other. -/
inductive DrawsAll : List UeBearer → List DlSchedPdu → List UeBearer → Prop
  | nil (lch : List UeBearer) : DrawsAll lch [] lch
  | cons {lch lch1 lch' : List UeBearer} {lcid : Nat} {x : Int} {pdus : List DlSchedPdu} :
    Draws lch lcid x lch1 → DrawsAll lch1 pdus lch' → DrawsAll lch (.sdu lcid x :: pdus) lch'

/-- The `do` loop of the generators, as it ends: from the bytes that remain and the bearers to the
elements and the bearers. -/
inductive AllocLoop : Int → List UeBearer → List DlSchedPdu → List UeBearer → Prop
  | empty {rem : Int} {lch lch' : List UeBearer} :
    allocPdu rem 0 lch = (none, lch') → AllocLoop rem lch [] lch'
  | last {rem x : Int} {lch lch' : List UeBearer} {lcid : Nat} :
    allocPdu rem 0 lch = (some (lcid, x), lch') → ¬ (rem - x > 0 ∧ x > 0) →
    AllocLoop rem lch [.sdu lcid x] lch'
  | more {rem x : Int} {lch lch1 lch' : List UeBearer} {lcid : Nat} {pdus : List DlSchedPdu} :
    allocPdu rem 0 lch = (some (lcid, x), lch1) → rem - x > 0 ∧ x > 0 →
    AllocLoop (rem - x) lch1 pdus lch' → AllocLoop rem lch (.sdu lcid x :: pdus) lch'

/-- The elements account for a block of `tbs` bytes: the loop ends with them, each is what one
bearer lost, and together they are the block or all there was. -/
structure Conserves (tbs : Int) (lch : List UeBearer) (pdus : List DlSchedPdu)
    (lch' : List UeBearer) : Prop where
  ends : AllocLoop tbs lch pdus lch'
  draws : DrawsAll lch pdus lch'
  pos : ∀ p ∈ pdus, 0 < p.nbytes
  sum : (pdus.map DlSchedPdu.nbytes).sum = min tbs (total lch)
  nonNeg : NonNeg lch'

variable {tbs x : Int} {lch lch' : List UeBearer} {lcid : Nat}

/-! ## One round -/

theorem total_cons (b : UeBearer) (bs : List UeBearer) :
    total (b :: bs) = b.bufRetx + b.bufTx + total bs := by
  unfold total
  rw [List.map_cons, List.sum_cons]

theorem NonNeg.tail {b : UeBearer} {bs : List UeBearer} (h : NonNeg (b :: bs)) : NonNeg bs :=
  fun c hc => h c (List.mem_cons_of_mem _ hc)

theorem NonNeg.total (h : NonNeg lch) : 0 ≤ total lch := by
  induction lch with
  | nil => rfl
  | cons b bs ih =>
    have hb := h b (List.mem_cons_self ..)
    have hbs := ih h.tail
    rw [total_cons]
    omega

theorem NonNeg.cons {b : UeBearer} {bs : List UeBearer} (hb : 0 ≤ b.bufTx ∧ 0 ≤ b.bufRetx)
    (h : NonNeg bs) : NonNeg (b :: bs) := by
  intro c hc
  obtain rfl | hc := List.mem_cons.mp hc
  · exact hb
  · exact h c hc

/-- A round comes to the first bearer with bytes; without room for any it passes each. -/
theorem allocPdu_cons (tbs : Int) (i : Nat) (b : UeBearer) (bs : List UeBearer) :
    (∃ x b', x ≠ 0 ∧ (x = min b.bufRetx tbs ∨ x = min b.bufTx tbs) ∧ b.Gives x b' ∧
      allocPdu tbs i (b :: bs) = (some (i, x), b' :: bs)) ∨
    ((tbs = 0 ∨ b.bufRetx = 0 ∧ b.bufTx = 0) ∧ allocPdu tbs i (b :: bs) =
      ((allocPdu tbs (i + 1) bs).1, b :: (allocPdu tbs (i + 1) bs).2)) := by
  by_cases hretx : b.bufRetx = 0
  · by_cases htx : b.bufTx = 0
    · exact Or.inr ⟨Or.inr ⟨hretx, htx⟩, by simp [allocPdu, hretx, htx]⟩
    · by_cases hx : min b.bufTx tbs = 0
      · exact Or.inr ⟨Or.inl (by omega), by simp [allocPdu, hretx, htx, hx]⟩
      · exact Or.inl ⟨_, _, hx, Or.inr rfl, .tx hretx (min_le_left ..),
          by simp [allocPdu, hretx, htx, hx]⟩
  · by_cases hx : min b.bufRetx tbs = 0
    · exact Or.inr ⟨Or.inl (by omega), by simp [allocPdu, hretx, hx]⟩
    · exact Or.inl ⟨_, _, hx, Or.inl rfl, .retx (min_le_left ..), by simp [allocPdu, hretx, hx]⟩

/-- A round takes no more of a buffer than there is, whatever the bytes that remain. -/
theorem allocPdu_nonNeg (tbs : Int) (i : Nat) (h : NonNeg lch) :
    NonNeg (allocPdu tbs i lch).2 := by
  induction lch generalizing i with
  | nil => exact h
  | cons b bs ih =>
    have hb := h b (List.mem_cons_self ..)
    obtain ⟨x, b', -, -, hgives, heq⟩ | ⟨-, heq⟩ := allocPdu_cons tbs i b bs
    · rw [heq]
      exact .cons (hgives.nonNeg hb) h.tail
    · rw [heq]
      exact .cons hb (ih (i + 1) h.tail)

theorem allocPdus_nonNeg (fuel : Nat) (tbs : Int) (h : NonNeg lch) :
    NonNeg (allocPdus fuel tbs lch).2 := by
  induction fuel generalizing tbs lch with
  | zero => exact h
  | succ fuel ih =>
    have hround := allocPdu_nonNeg tbs 0 h
    obtain ⟨⟨r, lch'⟩, hr⟩ : ∃ r, allocPdu tbs 0 lch = r := ⟨_, rfl⟩
    rw [hr] at hround
    cases r with
    | none => simpa only [allocPdus, hr] using hround
    | some p =>
      simp only [allocPdus, hr]
      split_ifs
      · exact ih _ hround
      · exact hround

theorem Draws.cons (h : Draws lch lcid x lch') (b : UeBearer) :
    Draws (b :: lch) (lcid + 1) x (b :: lch') := by
  obtain ⟨c, c', hc, hgives, rfl⟩ := h.gives
  exact ⟨h.pos, c, c', hc, hgives, rfl⟩

/-- What was drawn is missing. -/
theorem Draws.total (h : Draws lch lcid x lch') : total lch' = total lch - x := by
  obtain ⟨b, b', hb, hgives, rfl⟩ := h.gives
  clear h
  induction lch generalizing lcid with
  | nil => simp at hb
  | cons c bs ih =>
    cases lcid with
    | zero =>
      obtain rfl : c = b := by simpa using hb
      rw [List.set_cons_zero, total_cons, total_cons]
      cases hgives <;> simp only <;> omega
    | succ n =>
      rw [List.set_cons_succ, total_cons, total_cons, ih (by simpa using hb)]
      omega

/-- A round that draws nothing has no byte to draw, or none to fill. -/
theorem allocPdu_draws (htbs : 0 ≤ tbs) (h : NonNeg lch) (i : Nat) :
    match allocPdu tbs i lch with
    | (none, lch') => lch' = lch ∧ (tbs = 0 ∨ total lch = 0)
    | (some (lcid, x), lch') => ∃ k, lcid = i + k ∧ x ≤ tbs ∧ Draws lch k x lch' := by
  induction lch generalizing i with
  | nil => exact ⟨rfl, Or.inr rfl⟩
  | cons b bs ih =>
    have hb := h b (List.mem_cons_self ..)
    have hrest := ih h.tail (i + 1)
    obtain ⟨x, b', hx, hmin, hgives, heq⟩ | ⟨hnone, heq⟩ := allocPdu_cons tbs i b bs
    · rw [heq]
      exact ⟨0, rfl, by omega, by omega, b, b', rfl, hgives, rfl⟩
    · obtain ⟨⟨r, bs'⟩, hr⟩ : ∃ r, allocPdu tbs (i + 1) bs = r := ⟨_, rfl⟩
      rw [heq, hr]
      rw [hr] at hrest
      cases r with
      | none =>
        obtain ⟨rfl, hrest⟩ := hrest
        refine ⟨rfl, ?_⟩
        rw [total_cons]
        omega
      | some p =>
        obtain ⟨k, hk, hle, hdraws⟩ := hrest
        exact ⟨k + 1, by omega, hle, hdraws.cons b⟩

/-! ## The loop -/

/-- The next round is settled by what remains. -/
theorem AllocLoop.unique {pdus pdus' : List DlSchedPdu} {lch1 lch2 : List UeBearer}
    (h : AllocLoop tbs lch pdus lch1) (h' : AllocLoop tbs lch pdus' lch2) :
    pdus = pdus' ∧ lch1 = lch2 := by
  induction h generalizing pdus' lch2 with
  | empty hr =>
    cases h' with
    | empty hr' => exact ⟨rfl, (Prod.mk.inj (hr.symm.trans hr')).2⟩
    | last hr' => cases (Prod.mk.inj (hr.symm.trans hr')).1
    | more hr' => cases (Prod.mk.inj (hr.symm.trans hr')).1
  | last hr hstop =>
    cases h' with
    | empty hr' => cases (Prod.mk.inj (hr.symm.trans hr')).1
    | last hr' => cases hr.symm.trans hr'; exact ⟨rfl, rfl⟩
    | more hr' hmore => cases hr.symm.trans hr'; exact absurd hmore hstop
  | more hr hmore hrest ih =>
    cases h' with
    | empty hr' => cases (Prod.mk.inj (hr.symm.trans hr')).1
    | last hr' hstop => cases hr.symm.trans hr'; exact absurd hmore hstop
    | more hr' hmore' hrest' =>
      cases hr.symm.trans hr'
      obtain ⟨rfl, rfl⟩ := ih hrest'
      exact ⟨rfl, rfl⟩

/-- As many rounds as there are bytes are enough, and one that finds nothing more. -/
theorem allocPdus_conserves {fuel : Nat} (hfuel : tbs < fuel) (htbs : 0 ≤ tbs) (h : NonNeg lch) :
    Conserves tbs lch (allocPdus fuel tbs lch).1 (allocPdus fuel tbs lch).2 := by
  induction fuel generalizing tbs lch with
  | zero => omega
  | succ fuel ih =>
    have hround := allocPdu_draws htbs h 0
    have hleft := allocPdu_nonNeg tbs 0 h
    have htotal := h.total
    obtain ⟨⟨r, lch1⟩, hr⟩ : ∃ r, allocPdu tbs 0 lch = r := ⟨_, rfl⟩
    rw [hr] at hround
    replace hleft : NonNeg lch1 := by simpa only [hr] using hleft
    cases r with
    | none =>
      obtain ⟨rfl, hnone⟩ := hround
      simp only [allocPdus, hr]
      refine ⟨.empty hr, .nil _, by simp, ?_, h⟩
      simp only [List.map_nil, List.sum_nil]
      omega
    | some p =>
      obtain ⟨lcid, x⟩ := p
      obtain ⟨k, hk, hle, hdraws⟩ := hround
      obtain rfl : lcid = k := by omega
      have hpos := hdraws.pos
      have hrest := hdraws.total
      have hleftTotal := NonNeg.total hleft
      simp only [allocPdus, hr]
      split_ifs with hmore
      · have hlt : tbs - x < fuel := by omega
        obtain ⟨hends, hall, hposs, hsum, hnonNeg⟩ := ih hlt (by omega) hleft
        refine ⟨.more hr hmore hends, .cons hdraws hall, ?_, ?_, hnonNeg⟩
        · rw [List.forall_mem_cons]
          exact ⟨hpos, hposs⟩
        · rw [List.map_cons, List.sum_cons, hsum, hrest]
          rw [DlSchedPdu.nbytes_sdu]
          omega
      · refine ⟨.last hr hmore, .cons hdraws (.nil _), ?_, ?_, hleft⟩
        · simpa using hpos
        · simp only [List.map_cons, List.map_nil, List.sum_cons, List.sum_nil,
            DlSchedPdu.nbytes_sdu]
          omega

/-! ## The generators -/

/-- The bearers after the act for a block. -/
def BlockAct.left (lch : List UeBearer) : BlockAct → List UeBearer
  | .new _ tbs _ => (allocPdus (tbs.toNat + 1) tbs lch).2
  | _ => lch

/-- The bearers as the round for block `tb` leaves them. -/
def leftLch (lib : Lib) (u : SchedUe) (pid : Pid) (tti cfi : Nat) (format : DciFormat)
    (data : DlSchedData) (tb : Fin 2) : List UeBearer :=
  if tb = 0 ∧ format ≠ .format1 then (u.format2aFirst lib pid tti cfi data).1.lch
  else (Sched.generateFormat lib format u pid data tti cfi).1.lch

section Generators

variable (lib : Lib) (u : SchedUe) (pid : Pid) (tti cfi : Nat) (data : DlSchedData)

theorem format2aTb_lch (nofPrb nofRe : Nat) (tbEn noRetx : Bool) (tb : Fin 2) :
    (format2aTb lib pid nofPrb nofRe tti tbEn noRetx tb u data).1.lch =
      BlockAct.left u.lch (u.format2aTbAct lib pid nofPrb nofRe tbEn noRetx tb) := by
  unfold format2aTbAct
  cases hempty : (u.dlHarq pid).isEmpty tb with
  | false =>
    rw [format2aTb_retx hempty]
    rfl
  | true =>
    by_cases hnew : (tbEn && decide (u.getPendingDlNewData ≠ 0) && noRetx) = true
    · rw [format2aTb_new hempty hnew rfl]
      simp only [hnew, Bool.not_true, Bool.false_eq_true, if_false, if_true]
      rfl
    · rw [format2aTb_idle hempty hnew]
      simp only [hnew, Bool.not_true, Bool.false_eq_true, if_false]
      rfl

theorem generateFormat1_lch (he : (u.dlHarq pid).isEmpty 0 = true) {t : Int × Int}
    (ht : u.format1Tbs lib (u.dlHarq pid) tti cfi = t) :
    (u.generateFormat1 lib pid data tti cfi).1.lch =
      (allocPdus (t.1.toNat + 1) t.1 u.lch).2 := by
  simp only [generateFormat1, he, if_true, ht]
  by_cases hpos : t.1 > 0
  · simp only [hpos, if_true]
  · simp only [hpos, if_false]

theorem newBlock_left {t : Int × Int} {mcs tbs : Int} {sdus : List DlSchedPdu}
    (h : u.newBlock t = .new mcs tbs sdus) :
    t.1 = tbs ∧ sdus = (allocPdus (tbs.toNat + 1) tbs u.lch).1 := by
  unfold newBlock at h
  cases h
  exact ⟨rfl, rfl⟩

theorem format2aTbAct_left {nofPrb nofRe : Nat} {tbEn noRetx : Bool} {tb : Fin 2} {mcs tbs : Int}
    {sdus : List DlSchedPdu}
    (h : u.format2aTbAct lib pid nofPrb nofRe tbEn noRetx tb = .new mcs tbs sdus) :
    (sdus, (format2aTb lib pid nofPrb nofRe tti tbEn noRetx tb u data).1.lch) =
      allocPdus (tbs.toNat + 1) tbs u.lch := by
  rw [format2aTb_lch, h]
  unfold format2aTbAct at h
  split_ifs at h
  obtain ⟨rfl, rfl⟩ := newBlock_left u h
  rfl

/-- Whichever format a user has, the round for a new block leaves what the loop leaves. -/
theorem leftLch_new {format : DciFormat} {tb : Fin 2} {mcs tbs : Int} {sdus : List DlSchedPdu}
    (h : u.acts lib pid tti cfi format data tb = .new mcs tbs sdus) :
    (sdus, u.leftLch lib pid tti cfi format data tb) =
      allocPdus (tbs.toNat + 1) tbs (u.blockLch lib pid tti cfi data tb) := by
  cases format with
  | format0 => cases h
  | format1 =>
    unfold acts format1Act at h
    simp only at h
    split_ifs at h with htb hempty
    subst htb
    obtain ⟨rfl, rfl⟩ := newBlock_left u h
    rw [leftLch, if_neg fun hn => hn.2 rfl, Sched.generateFormat,
      generateFormat1_lch lib u pid tti cfi data hempty rfl]
    rfl
  | format2 | format2a =>
    unfold acts at h
    simp only at h
    split_ifs at h with htb
    · subst htb
      exact format2aTbAct_left lib u pid tti _ h
    · obtain rfl : tb = 1 := by omega
      exact format2aTbAct_left lib _ pid tti _ h

theorem blockLch_nonNeg (h : NonNeg u.lch) (tb : Fin 2) :
    NonNeg (u.blockLch lib pid tti cfi data tb) := by
  unfold blockLch
  split_ifs
  · exact h
  · unfold format2aFirst
    rw [format2aTb_lch]
    cases u.format2aTbAct lib pid _ _ _ _ 0 with
    | idle => exact h
    | retx => exact h
    | new mcs tbs sdus => exact allocPdus_nonNeg _ _ h

/-- **The PDUs conserve the bytes**: the loop ends for every TBS, and what a generator puts into a
new block, whichever the format, is what its buffers lose. -/
theorem pdu_bytes_conserved (h : NonNeg u.lch) (format : DciFormat) :
    (∀ tbs : Int, 0 ≤ tbs → ∃ pdus lch', Conserves tbs u.lch pdus lch' ∧
      ∀ pdus' lch'', AllocLoop tbs u.lch pdus' lch'' → pdus' = pdus ∧ lch'' = lch') ∧
    ∀ tb mcs tbs sdus, u.acts lib pid tti cfi format data tb = .new mcs tbs sdus → 0 ≤ tbs →
      Conserves tbs (u.blockLch lib pid tti cfi data tb) sdus
        (u.leftLch lib pid tti cfi format data tb) ∧
      (Sched.generateFormat lib format u pid data tti cfi).2.1.pdu tb =
        (if u.addsConRes format then withConRes (data.pdu tb) else data.pdu tb) ++ sdus := by
  constructor
  · intro tbs htbs
    have hall := allocPdus_conserves (by omega : tbs < (tbs.toNat + 1 : Nat)) htbs h
    exact ⟨_, _, hall, fun _ _ hloop => hloop.unique hall.ends⟩
  · intro tb mcs tbs sdus hact htbs
    have hall := allocPdus_conserves (by omega : tbs < (tbs.toNat + 1 : Nat)) htbs
      (blockLch_nonNeg lib u pid tti cfi data h tb)
    rw [← leftLch_new lib u pid tti cfi data hact] at hall
    refine ⟨hall, ?_⟩
    have hf : format ≠ .format0 := by
      rintro rfl
      cases hact
    rw [(generateFormat_grantOf lib u pid data tti cfi hf).pdu tb, hact]
    rfl

end Generators

/-- A user of 6 PRBs with retransmissions on one bearer and new data on both. -/
def twoBearers : SchedUe :=
  { SchedUe.new.setCfg exampleLib 70 { maxharqTx := 4 } [] ⟨6, 1, 7⟩ fun _ _ =>
      ⟨fun _ _ => 0, fun _ => 0⟩ with
    lch := [{ bufTx := 4 }, { bufTx := 40, bufRetx := 5 }]
    dlHarq := fun i => { id := i.val, maxRetx := 4, rbgmask := 3 } }

/-- Two PRBs of MCS 4 carry 15 bytes. -/
theorem pdu_bytes_conserved_twoBearers :
    Conserves 15 twoBearers.lch [.sdu 0 4, .sdu 1 5, .sdu 1 6]
      [{}, { bufTx := 34 }] := by
  have h : NonNeg twoBearers.lch := by
    unfold NonNeg
    decide
  exact ((pdu_bytes_conserved exampleLib twoBearers 0 0 1 {} h .format1).2 0 4 15 _ rfl
    (by decide)).1

end SchedUe

end Srsenb.Mac
