import Srsenb.Base.StdMap
import Srsenb.Mac.SchedUe

/-! # Round robin metrics (`mac/scheduler_metric.cc`) -/

namespace Srsenb.Mac

/-- The users from the one with priority on, then those before it. -/
def fromPriority (ueDb : StdMap SchedUe) (priorityIdx : Nat) : List Nat :=
  ueDb.keys.rotate priorityIdx

/-! ## Downlink -/

/-- `dl_metric_rr` -/
structure DlMetric where
  totalRbg : Nat := 0
  usedRbg : Nat → Bool := fun _ => false
  usedRbgMask : Nat := 0
  availableRbg : Nat := 0
  nofCtrlSymbols : Nat := 0
  currentTti : Nat := 0

namespace DlMetric

/-- RBG `n` is bit `total - 1 - n` of the mask. -/
def calcRbgMask (total : Nat) (mask : Nat → Bool) : Nat :=
  (List.range total).foldl (fun b n => if mask n then b ||| 1 <<< (total - 1 - n) else b) 0

/-- The loop of `count_rbg` over the bits of a `uint32_t`. -/
def countRbgFrom : Nat → Nat → Nat → Nat
  | 0, _, count => count
  | fuel + 1, mask, count =>
    if mask > 0 then countRbgFrom fuel (mask >>> 1) (if mask % 2 = 1 then count + 1 else count)
    else count

def countRbg (mask : Nat) : Nat := countRbgFrom 32 mask 0

/-- The loop of `new_allocation`: RBGs still wanted, and the mask so far. -/
def takeFree (used : Nat → Bool) : List Nat → Nat → (Nat → Bool) → Nat × (Nat → Bool)
  | [], left, bits => (left, bits)
  | n :: ns, left, bits =>
    if left > 0 then
      if used n then takeFree used ns left bits
      else takeFree used ns (left - 1) (Function.update bits n true)
    else (left, bits)

variable (lib : Lib) (m : DlMetric)

def newAllocation (nofRbg : Nat) : Bool × Nat :=
  let (left, bits) := takeFree m.usedRbg (List.range m.totalRbg) nofRbg fun _ => false
  (decide (left = 0), calcRbgMask m.totalRbg bits)

def updateAllocation (newMask : Nat) : DlMetric :=
  let mask := m.usedRbgMask ||| newMask
  { m with
    usedRbgMask := mask
    usedRbg := fun n =>
      if n < m.totalRbg then mask.testBit (m.totalRbg - 1 - n) else m.usedRbg n }

/-- `allocation_is_valid`, which tells that the mask meets RBGs in use. -/
def allocationIsValid (mask : Nat) : Bool := decide (mask &&& m.usedRbgMask ≠ 0)

/-- The first part of `apply_user_allocation`: a pending retransmission, on its own mask or on
another one of the same size. -/
def retxAllocation (u : SchedUe) : Option (Pid × DlMetric × SchedUe) :=
  match u.getPendingDlHarq lib m.currentTti with
  | none => none
  | some pid =>
    let h := u.dlHarq pid
    if !m.allocationIsValid h.rbgmask then some (pid, m.updateAllocation h.rbgmask, u)
    else
      let nofRbg := countRbg h.rbgmask
      if nofRbg < m.availableRbg then
        let (fits, mask) := m.newAllocation nofRbg
        if fits then some (pid, m.updateAllocation mask, u.setDl pid (h.setRbgmask mask)) else none
      else none

/-- The second part: new data on an empty process. -/
def newtxAllocation (u : SchedUe) (reqBytes : Nat) : Option (Pid × DlMetric × SchedUe) :=
  match u.getEmptyDlHarq with
  | none => none
  | some pid =>
    if reqBytes ≠ 0 then
      let pendingRbg := u.prbToRbg (u.getRequiredPrbDl lib reqBytes m.nofCtrlSymbols)
      let mask := (m.newAllocation pendingRbg).2
      if mask ≠ 0 then
        some (pid, m.updateAllocation mask, u.setDl pid ((u.dlHarq pid).setRbgmask mask))
      else none
    else none

def applyUserAllocation (u : SchedUe) : Option (Pid × DlMetric × SchedUe) :=
  let reqBytes := u.getPendingDlNewDataTotal
  match m.retxAllocation lib u with
  | some r => some r
  | none => m.newtxAllocation lib u reqBytes

/-- The round of `new_tti` for one user. -/
def visitUser (m : DlMetric) (_ : Nat) (u : SchedUe) : DlMetric × SchedUe :=
  match m.applyUserAllocation lib u with
  | some (pid, m', u') => (m', { u' with dlNextAlloc := some pid })
  | none => (m, { u with dlNextAlloc := none })

/-- What `new_tti` sets before it looks at the users. -/
def start (startRbg nofRbg nofCtrlSymbols tti : Nat) : DlMetric :=
  let total := startRbg + nofRbg
  let used := fun n => if n < total then decide (n < startRbg) else m.usedRbg n
  { totalRbg := total, usedRbg := used, usedRbgMask := calcRbgMask total used,
    availableRbg := nofRbg, nofCtrlSymbols := nofCtrlSymbols, currentTti := tti }

def newTti (ueDb : StdMap SchedUe) (startRbg nofRbg nofCtrlSymbols tti : Nat) :
    DlMetric × StdMap SchedUe :=
  ueDb.visit (visitUser lib) (fromPriority ueDb (tti % ueDb.size))
    (m.start startRbg nofRbg nofCtrlSymbols tti)

end DlMetric

/-! ## Uplink -/

/-- The end of the range of PRBs, as a `uint32_t`. -/
def UlAlloc.stop (a : UlAlloc) : Nat := u32 (a.rbStart + a.L)

/-- `ul_metric_rr` -/
structure UlMetric where
  nofRb : Nat := 0
  usedRb : Nat → Bool := fun _ => false
  currentTti : Nat := 0

namespace UlMetric

variable (lib : Lib) (m : UlMetric)

def resetAllocation (nofRb : Nat) : UlMetric :=
  { m with nofRb := nofRb, usedRb := fun n => if n < nofRb then false else m.usedRb n }

def allocationIsValid (alloc : UlAlloc) : Bool :=
  if alloc.stop > m.nofRb then false
  else (List.range' alloc.rbStart (alloc.stop - alloc.rbStart)).all fun n => !m.usedRb n

/-- Whether the PRBs were free; they are taken in any case. -/
def updateAllocation (alloc : UlAlloc) : Bool × UlMetric :=
  (m.allocationIsValid alloc,
   { m with
     usedRb := fun n => if alloc.rbStart ≤ n ∧ n < alloc.stop then true else m.usedRb n })

/-- The search of `new_allocation` for a run of at most `L` free PRBs; a run that ends before
PRB 3 is dropped. -/
def freeRun (used : Nat → Bool) (L : Nat) : List Nat → UlAlloc → UlAlloc
  | [], a => a
  | n :: ns, a =>
    if a.L < L then
      if !used n then freeRun used L ns ⟨if a.L = 0 then n else a.rbStart, a.L + 1⟩
      else if a.L > 0 then if n < 3 then freeRun used L ns {} else a
      else freeRun used L ns a
    else a

/-- The loop down to a number of PRBs that SC-FDMA allows, which 1 is. -/
def shrink : Nat → Nat
  | 0 => 0
  | L + 1 => if lib.validPrb (L + 1) then L + 1 else shrink L

def newAllocation (L : Nat) : Bool × UlAlloc :=
  let a := freeRun m.usedRb L (List.range m.nofRb) {}
  if a.L = 0 then (false, a)
  else
    let a := { a with L := shrink lib a.L }
    (decide (a.L = L), a)

/-- The process that retransmits in the same PRBs or in others, if there is one. -/
def allocateUserRetxPrbs (u : SchedUe) : Option Pid × UlMetric × SchedUe :=
  let pid := SchedUe.getUlHarq m.currentTti
  let h := u.ulHarq pid
  if !h.isEmpty 0 then
    let (ok, m) := m.updateAllocation h.allocation
    if ok then (some pid, m, u)
    else
      let (ok, alloc) := m.newAllocation lib h.allocation.L
      if ok then (some pid, (m.updateAllocation alloc).2, u.setUl pid (h.setAlloc alloc))
      else (none, m, u)
  else (none, m, u)

def allocateUserNewtxPrbs (u : SchedUe) : Option Pid × UlMetric × SchedUe :=
  let pendingData := u.getPendingUlNewData lib m.currentTti
  let pid := SchedUe.getUlHarq m.currentTti
  let h := u.ulHarq pid
  if h.isEmpty 0 && decide (pendingData ≠ 0) then
    let alloc := (m.newAllocation lib (u.getRequiredPrbUl lib pendingData)).2
    if alloc.L ≠ 0 then
      (some pid, (m.updateAllocation alloc).2, u.setUl pid (h.setAlloc alloc))
    else (none, m, u)
  else (none, m, u)

/-- The rounds of `new_tti`. -/
def visitRetx (m : UlMetric) (_ : Nat) (u : SchedUe) : UlMetric × SchedUe :=
  let (next, m, u) := m.allocateUserRetxPrbs lib u
  (m, { u with ulNextAlloc := next })

def visitNewtx (m : UlMetric) (_ : Nat) (u : SchedUe) : UlMetric × SchedUe :=
  if u.ulNextAlloc.isNone then
    let (next, m, u) := m.allocateUserNewtxPrbs lib u
    (m, { u with ulNextAlloc := next })
  else (m, u)

def newTti (ueDb : StdMap SchedUe) (tti : Nat) : UlMetric × StdMap SchedUe :=
  let (m, db) := ueDb.visit (visitRetx lib) ueDb.keys { m with currentTti := tti }
  db.visit (visitNewtx lib) (fromPriority db ((tti + db.size / 2) % db.size)) m

end UlMetric

end Srsenb.Mac
