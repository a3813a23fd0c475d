import Srsenb.Mac.Lib

/-! # HARQ processes (`mac/scheduler_harq.cc`) -/

namespace Srsenb.Mac

/-- What `harq_proc` keeps for each transport block. -/
structure Tb where
  active : Bool := false
  ack : Bool := false
  ackReceived : Bool := false
  ndi : Bool := false
  nRtx : Nat := 0
  txCnt : Nat := 0
  lastMcs : Int := 0
  lastTbs : Int := 0
  deriving DecidableEq, Repr

/-- `harq_proc` -/
structure HarqProc where
  id : Nat := 0
  maxRetx : Nat := 0
  tti : Nat := 0
  tb : Fin 2 → Tb := fun _ => {}

namespace HarqProc

variable (p : HarqProc) (i : Fin 2)

/-- The process with the record of one transport block replaced. -/
def setTb (b : Tb) : HarqProc := { p with tb := Function.update p.tb i b }

def config (id maxRetx : Nat) : HarqProc :=
  { p with id := id, maxRetx := maxRetx, tb := fun i => { p.tb i with ndi := false } }

def setMaxRetx (maxRetx : Nat) : HarqProc := { p with maxRetx := maxRetx }

def reset : HarqProc :=
  { p.setTb i
      { p.tb i with active := false, ack := true, ackReceived := false, nRtx := 0, lastMcs := -1,
                    lastTbs := -1, txCnt := 0 } with
    tti := 0 }

def isEmpty : Bool :=
  !(p.tb i).active || ((p.tb i).active && (p.tb i).ack && (p.tb i).ackReceived)

def hasPendingRetxCommon : Bool := !(p.tb i).ack && decide ((p.tb i).nRtx < p.maxRetx)

def setAck (ack : Bool) : HarqProc :=
  p.setTb i
    { p.tb i with
      ack := ack, ackReceived := true,
      active := if u32 ((p.tb i).nRtx + 1) ≥ p.maxRetx then false else (p.tb i).active }

def newTxCommon (tti : Nat) (mcs tbs : Int) : HarqProc :=
  let r := p.reset i
  { r.setTb i
      { r.tb i with
        ndi := !(r.tb i).ndi, txCnt := u32 ((r.tb i).txCnt + 1), lastMcs := mcs, lastTbs := tbs,
        active := decide (p.maxRetx ≠ 0) } with
    tti := tti }

/-- The process, and the MCS and TBS that the retransmission reads back. -/
def newRetx (tti : Nat) : HarqProc × Int × Int :=
  ({ p.setTb i { p.tb i with ackReceived := false, nRtx := u32 ((p.tb i).nRtx + 1) } with
     tti := tti },
   (p.tb i).lastMcs, (p.tb i).lastTbs)

@[simp] theorem setTb_tb (b : Tb) : (p.setTb i b).tb i = b := by simp [setTb]

@[simp] theorem setTb_tti (b : Tb) : (p.setTb i b).tti = p.tti := rfl

@[simp] theorem reset_tti : (p.reset i).tti = 0 := rfl

@[simp] theorem setAck_tti (a : Bool) : (p.setAck i a).tti = p.tti := rfl

@[simp] theorem newTxCommon_tti (t : Nat) (mcs tbs : Int) :
    (p.newTxCommon i t mcs tbs).tti = t := rfl

@[simp] theorem newRetx_tti (t : Nat) : (p.newRetx i t).1.tti = t := rfl

end HarqProc

/-! ## Downlink -/

/-- `dl_harq_proc` -/
structure DlHarqProc extends HarqProc where
  rbgmask : Nat := 0
  nCce : Nat := 0

namespace DlHarqProc

variable (h : DlHarqProc) (i : Fin 2)

def reset : DlHarqProc := { h with toHarqProc := h.toHarqProc.reset i }

/-- `reset` of both transport blocks. -/
def resetAll : DlHarqProc := (h.reset 0).reset 1

def setAck (ack : Bool) : DlHarqProc := { h with toHarqProc := h.toHarqProc.setAck i ack }

def newTx (tti : Nat) (mcs tbs : Int) (nCce : Nat) : DlHarqProc :=
  { h with toHarqProc := h.newTxCommon i tti mcs tbs, nCce := nCce }

def newRetx (tti : Nat) : DlHarqProc × Int × Int :=
  let (p, mcs, tbs) := h.toHarqProc.newRetx i tti
  ({ h with toHarqProc := p }, mcs, tbs)

def setRbgmask (mask : Nat) : DlHarqProc := { h with rbgmask := mask }

def hasPendingRetx (lib : Lib) (currentTti : Nat) : Bool :=
  decide (lib.ttiInterval currentTti h.tti ≥ 2 * harqDelayMs) && h.hasPendingRetxCommon i

def getTbs : Int := (h.tb i).lastTbs

@[simp] theorem setRbgmask_rbgmask (m : Nat) : (h.setRbgmask m).rbgmask = m := rfl

end DlHarqProc

/-! ## Uplink -/

/-- `ul_alloc_t` -/
structure UlAlloc where
  rbStart : Nat := 0
  L : Nat := 0
  deriving DecidableEq, Repr

/-- `ul_harq_proc` -/
structure UlHarqProc extends HarqProc where
  allocation : UlAlloc := {}
  needAck : Bool := false
  pendingData : Int := 0
  rarMcs : Nat := 0
  hasRarMcs : Bool := false
  isAdaptive : Bool := false

namespace UlHarqProc

variable (h : UlHarqProc)

def reset : UlHarqProc := { h with toHarqProc := h.toHarqProc.reset 0 }

def setAck (ack : Bool) : UlHarqProc := { h with toHarqProc := h.toHarqProc.setAck 0 ack }

def setMaxRetx (maxRetx : Nat) : UlHarqProc :=
  { h with toHarqProc := h.toHarqProc.setMaxRetx maxRetx }

def setAlloc (alloc : UlAlloc) : UlHarqProc := { h with isAdaptive := false, allocation := alloc }

def newTx (tti : Nat) (mcs tbs : Int) : UlHarqProc :=
  { h with needAck := true, toHarqProc := h.newTxCommon 0 tti mcs tbs, pendingData := tbs }

def newRetx (tti : Nat) : UlHarqProc × Int :=
  let (p, mcs, _) := h.toHarqProc.newRetx 0 tti
  ({ h with toHarqProc := p }, mcs)

/-- Whether a PHICH is due; a positive acknowledgement ends the transport block. -/
def hasPendingAck : Bool × UlHarqProc :=
  let b := h.tb 0
  let active := if b.active && b.ack then false else b.active
  (h.needAck,
   { h with
     toHarqProc := h.toHarqProc.setTb 0 { b with active := active },
     needAck := if active then h.needAck else false })

def resetPendingData : UlHarqProc :=
  { h with pendingData := if (h.tb 0).active then h.pendingData else 0 }

def setRarMcs (mcs : Nat) : UlHarqProc := { h with rarMcs := mcs, hasRarMcs := true }

def getRarMcs : Option (UlHarqProc × Nat) :=
  if h.hasRarMcs then some ({ h with hasRarMcs := false }, h.rarMcs) else none

@[simp] theorem setAlloc_allocation (a : UlAlloc) : (h.setAlloc a).allocation = a := rfl

end UlHarqProc

end Srsenb.Mac
