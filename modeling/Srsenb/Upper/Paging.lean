import Srsenb.Base.StdMap
import Srsenb.Mac.Sched

/-! # Paging (`upper/rrc.cc`, `mac/scheduler.cc`)

RRC keeps the records that the MME asked for and encodes the ones that are due; `dl_sched_bc` asks
for them and sends the message if it has the resources. -/

namespace Srsenb.Rrc

open Srsenb.Mac

/-- `LIBLTE_S1AP_UEPAGINGID_STRUCT` -/
inductive UePagingId where
  | imsi (octets : List UInt8)
  | sTmsi (mmec : UInt8) (mTmsi : Vector UInt8 4)
  deriving DecidableEq

/-- A record of the PCCH message. -/
inductive PagingRecord where
  | imsi (octets : List UInt8)
  | sTmsi (mmec mTmsi : Nat)
  deriving DecidableEq, Repr

/-- The paging part of SIB2, what the packer of liblte makes of a message, and how many records it
has room for. -/
structure PagingCfg where
  /-- The default paging cycle `T`, in frames. -/
  T : Nat
  /-- `T` times `nB`. -/
  nb : Nat
  maxPageRec : Nat
  packPcchMsg : List PagingRecord → Nat

/-- `pending_paging` -/
abbrev PendingPaging := StdMap UePagingId

instance : Inhabited UePagingId := ⟨.imsi []⟩

/-- `add_paging_id` -/
def addPagingId (pending : PendingPaging) (ueid : Nat) (p : UePagingId) : PendingPaging :=
  if pending[ueid]?.isNone then pending.insert ueid p else pending

/-- `sf_pattern` -/
def sfPattern : List (List Int) := [[9, 4, -1, 0], [-1, 9, -1, 4], [-1, -1, -1, 5], [-1, -1, -1, 9]]

/-- The record of `ueid` is due in the subframe. -/
def isDue (cfg : PagingCfg) (tti ueid : Nat) : Bool :=
  let n := min cfg.T cfg.nb
  let ns := if cfg.nb / cfg.T > 1 then cfg.nb / cfg.T else 1
  let sfn := tti / 10
  let ueid := ueid % 1024
  let iS := ueid / n % ns
  decide (sfn % cfg.T = cfg.T / n * (ueid % n)) &&
    let sfIdx := (sfPattern.getD (iS % 4) []).getD ((ns - 1) % 4) (-1)
    decide (sfIdx ≥ 0) && decide (sfIdx = (tti % 10 : Nat))

/-- The record as it stands in the message. -/
def UePagingId.encode : UePagingId → PagingRecord
  | .imsi octets => .imsi octets
  | .sTmsi mmec mTmsi => .sTmsi mmec.toNat
      ((List.finRange 4).foldl (fun acc i => acc ||| mTmsi[i].toNat <<< (8 * (4 - i.val - 1))) 0)

/-- The loop of `is_paging_opportunity`: the entries that are encoded, after `n` others. -/
def assemble (cfg : PagingCfg) (tti : Nat) : List (Nat × UePagingId) → Nat → List (Nat × UePagingId)
  | [], _ => []
  | it :: its, n =>
    if n < cfg.maxPageRec then
      if isDue cfg tti it.1 then it :: assemble cfg tti its (n + 1) else assemble cfg tti its n
    else []

/-- `ue_to_remove`: the entries encoded are looked for under `ueid % 1024`. -/
def removePaging (pending : PendingPaging) (encoded : List (Nat × UePagingId)) : PendingPaging :=
  encoded.foldl (fun m it => m.erase (it.1 % 1024)) pending

/-- `is_paging_opportunity`: the entries encoded, with the length of the message. -/
def isPagingOpportunity (cfg : PagingCfg) (pending : PendingPaging) (tti : Nat) :
    PendingPaging × List (Nat × UePagingId) × Option Nat :=
  let encoded := assemble cfg tti pending.toList 0
  let pending := removePaging pending encoded
  if encoded.length > 0 then
    let nBits := cfg.packPcchMsg (encoded.map fun it => it.2.encode)
    (pending, encoded, some (u32 (nBits + 2 ^ 32 - 1) / 8 + 1))
  else (pending, encoded, none)

/-- `dl_sched` with the RRC that it asks for a paging message: the entries encoded for it, too. -/
def dlSchedPaging (lib : Lib) (cfg : PagingCfg) (pending : PendingPaging) (s : Sched) (tti : Nat) :
    PendingPaging × List (Nat × UePagingId) × DlSchedRes :=
  if !s.configured then (pending, [], {})
  else
    let (pending, encoded, payload) := isPagingOpportunity cfg pending tti
    (pending, encoded, (s.dlSched lib tti payload).2)

end Srsenb.Rrc
