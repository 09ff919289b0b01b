import Mathlib

/-! # The stream state machine of the client

`crates/core/src/machine.rs` with the two burn formulas of `settle.rs` it uses. `Shell` is a
`u64`. A transition that panics answers `none`; the receipts that only a chain action produces
are not settlements of this machine and are left out. -/
namespace StreamMachine

def shellMax : ℕ := 2 ^ 64 - 1

structure Tick where
  index : ℕ
  price : ℕ
  deriving DecidableEq, Repr

inductive StreamState where
  | opening
  | probe (tick : Tick)
  | streaming (trusted pending : ℕ)
  | stopping
  | disputed (trusted contested : ℕ)
  | closed
  deriving DecidableEq, Repr

structure ContestedBurn where
  buyer : ℕ
  buyerRefund : ℕ
  seller : ℕ
  sellerRefund : ℕ
  deriving DecidableEq, Repr

def ContestedBurn.total (b : ContestedBurn) : ℕ := b.buyer + b.seller

def contestedBurn (deposit sellerBond : ℕ) : ContestedBurn :=
  { buyer := min sellerBond deposit, buyerRefund := 0, seller := sellerBond, sellerRefund := 0 }

def probeBurn (probeTick sellerBond : ℕ) : ContestedBurn :=
  { buyer := probeTick, buyerRefund := 0, seller := min probeTick sellerBond
    sellerRefund := sellerBond - min probeTick sellerBond }

inductive Settlement where
  | burnBoth (burn : ContestedBurn)
  | amicableSplit (toSellerTicks toBuyerRefund : ℕ)
  | sellerNoShow (toBuyerRefund sellerBondReturned : ℕ)
  deriving DecidableEq, Repr

namespace Settlement

def sellerTicks : Settlement → ℕ
  | amicableSplit ticks _ => ticks
  | _ => 0

def burned : Settlement → ℕ
  | burnBoth burn => burn.total
  | _ => 0

attribute [grind =] burned

end Settlement

inductive InvariantError where
  | notProbe | decreasing | notOpen | belowTrusted
  deriving DecidableEq, Repr

structure Machine where
  state : StreamState
  price : ℕ
  sellerBond : ℕ
  deriving DecidableEq, Repr

namespace Machine

def openStream (price : ℕ) : Machine :=
  { state := .probe ⟨0, price⟩, price := price, sellerBond := price * 2 }

def onProbeAccepted (m : Machine) : Except InvariantError Machine :=
  match m.state with
  | .probe _ => .ok { m with state := .streaming 1 1 }
  | _ => .error .notProbe

def trustedTicks (m : Machine) : ℕ :=
  match m.state with
  | .streaming trusted _ | .disputed trusted _ => trusted
  | _ => 0

def pendingTicks (m : Machine) : ℕ :=
  match m.state with
  | .streaming _ pending => pending
  | .disputed trusted contested => trusted + contested
  | _ => 0

def checkInvariant (m : Machine) : Except InvariantError Machine :=
  match m.state with
  | .streaming trusted pending => if pending < trusted then .error .belowTrusted else .ok m
  | _ => .ok m

def onClaim (m : Machine) (cumulative : ℕ) : Except InvariantError Machine :=
  match m.state with
  | .streaming _ pending =>
    if cumulative < pending then .error .decreasing
    else checkInvariant { m with state := .streaming pending cumulative }
  | _ => .error .notOpen

def onPromote (m : Machine) : Except InvariantError Machine :=
  match m.state with
  | .streaming _ pending => checkInvariant { m with state := .streaming pending pending }
  | _ => .error .notOpen

def bondShell (m : Machine) : ℕ := min m.sellerBond shellMax

def buyerStop (m : Machine) : Option (Settlement × Machine) :=
  match m.state with
  | .probe tick => some (.burnBoth (probeBurn tick.price m.bondShell), { m with state := .stopping })
  | .streaming _ _ | .disputed _ _ =>
    some (.amicableSplit m.trustedTicks 0, { m with state := .stopping })
  | _ => none

def sellerStop (m : Machine) : Option (Settlement × Machine) :=
  match m.state with
  | .probe _ | .streaming _ _ | .disputed _ _ =>
    some (.amicableSplit m.trustedTicks 0, { m with state := .stopping })
  | _ => none

def sellerNoShow (m : Machine) : Settlement × Machine :=
  (.sellerNoShow 0 m.sellerBond, { m with state := .closed })

def buyerDispute (m : Machine) : Machine :=
  match m.state with
  | .streaming trusted pending => { m with state := .disputed trusted (pending - trusted) }
  | .disputed trusted contested =>
    { m with state := .disputed trusted (trusted + contested - trusted) }
  | _ => { m with state := .disputed 0 0 }

def releaseDispute (m : Machine) : Option (Settlement × Machine) :=
  match m.state with
  | .probe _ | .streaming _ _ | .disputed _ _ =>
    some (.amicableSplit m.trustedTicks 0, { m with state := .closed })
  | _ => none

def resolveDisputeTimeout (m : Machine) : Settlement × Machine :=
  (.burnBoth (contestedBurn m.bondShell m.bondShell), { m with state := .closed })

def close (m : Machine) : Machine := { m with state := .closed }

def onProbe (m : Machine) : Bool :=
  match m.state with
  | .probe _ => true
  | _ => false

/-! ## What the transitions do -/

variable {m n : Machine} {a b : ℕ}

theorem onClaim_streaming (h : m.state = .streaming a b) (c : ℕ) :
    m.onClaim c = if c < b then .error .decreasing
      else .ok { m with state := .streaming b c } := by
  unfold onClaim
  rw [h]
  dsimp only
  split
  · rfl
  · simp only [checkInvariant, if_neg (by assumption : ¬ c < b)]

theorem onPromote_streaming (h : m.state = .streaming a b) :
    m.onPromote = .ok { m with state := .streaming b b } := by
  unfold onPromote
  rw [h]
  simp only [checkInvariant, lt_irrefl, if_false]

end Machine

end StreamMachine
