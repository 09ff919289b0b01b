import Dexdo.TokenContractState

/-! # A deal as the client reads it

The typed answers of a TokenContract's getters and their strict decoders,
`crates/core/src/market/types.rs`. -/
namespace DealGetters

open TokenContractState

/-! ## JSON -/

inductive Value where
  | null
  | bool (b : Bool)
  | number (text : String)
  | string (s : String)
  | array (items : List Value)
  | object (fields : List (String × Value))

namespace Value

def asObject : Value → Option (List (String × Value))
  | object fields => some fields
  | _ => none

def asBool : Value → Option Bool
  | bool b => some b
  | _ => none

def asStr : Value → Option String
  | string s => some s
  | _ => none

end Value

/-- The refusals of the decoders, each with the figures its message prints. -/
inductive GetterError where
  | nonObject (getter : String)
  | fieldCount (getter : String) (returned expected : ℕ) (missing unexpected : List String)
  | missing (getter field : String)
  | notBool (getter field : String)
  | notDecimalString (getter field : String)
  | notUnsigned (getter field raw : String)
  | tooWide (getter field raw : String) (bits : ℕ)
  | unknownDealBits (unknown : ℕ)
  | contradictoryShape (dealFlags subWeeks : ℕ)
  | weekIndexExceeds (weekIndex subWeeks : ℕ)
  | tokensPaidExceeds (tokensPaid fundedTokens : ℕ)
  | weekBaseExceeds (weekBaseTokens fundedTokens : ℕ)
  | termNotCanonical (subWeeks : ℕ)
  | quotaOverflows
  | quotaNotFunded (tokensPerWeek subWeeks fundedTokens : ℕ)
  | ordinaryWeekly (weekIndex tokensPerWeek fundedTokens weekBaseTokens : ℕ)
  | notMonotonic (tokensFinal tokensPending : ℕ)
  | belowTwoTicks (minimum fundedTokens : ℕ)
  | sellerBondExceeds (held required : ℕ)
  | sellerBondUnfunded (held : ℕ)
  | openedUnfunded
  | openedUnbonded (funded : Bool) (held required : ℕ)
  | buyerRequiredShape (required sellerRequired : ℕ) (subscription : Bool)
  | buyerBondExceeds (held sellerRequired : ℕ)
  | subscriptionUnbonded (held required : ℕ)
  deriving DecidableEq, Repr

def refuse (p : Prop) [Decidable p] (e : GetterError) : Except GetterError Unit :=
  if p then .error e else .ok ()

theorem refuse_of_not {p : Prop} [Decidable p] (h : ¬ p) (e : GetterError) :
    refuse p e = .ok () := if_neg h

theorem refuse_bind_ok {p : Prop} [Decidable p] {e : GetterError} {α : Type}
    {f : Unit → Except GetterError α} {t : α} :
    (refuse p e >>= f) = .ok t ↔ ¬ p ∧ f () = .ok t := by
  by_cases h : p <;> simp [refuse, h, bind, Except.bind]

def getterExactObject (value : Value) (getter : String) (expected : List String) :
    Except GetterError (List (String × Value)) :=
  match value.asObject with
  | none => .error (.nonObject getter)
  | some object =>
    let missing := expected.filter fun f => !(object.map Prod.fst).contains f
    let unexpected := ((object.map Prod.fst).filter fun f => !expected.contains f).mergeSort (· ≤ ·)
    if missing ≠ [] ∨ unexpected ≠ [] ∨ object.length ≠ expected.length then
      .error (.fieldCount getter object.length expected.length missing unexpected)
    else .ok object

def getterField (value : Value) (getter field : String) : Except GetterError Value :=
  match value.asObject with
  | none => .error (.nonObject getter)
  | some object =>
    match object.lookup field with
    | none => .error (.missing getter field)
    | some v => .ok v

def getterBool (value : Value) (getter field : String) : Except GetterError Bool := do
  let v ← getterField value getter field
  match v.asBool with
  | none => .error (.notBool getter field)
  | some b => .ok b

def getterDecimal (value : Value) (getter field : String) : Except GetterError String := do
  let v ← getterField value getter field
  match v.asStr with
  | none => .error (.notDecimalString getter field)
  | some raw =>
    if raw.toList = [] ∨ raw.toList.all Char.isDigit = false then
      .error (.notUnsigned getter field raw)
    else .ok raw

/-- `getter_u8`, `getter_u64`, `getter_u128`: `parse` on a string of digits fails on width only. -/
def getterUint (bits : ℕ) (value : Value) (getter field : String) : Except GetterError ℕ := do
  let raw ← getterDecimal value getter field
  let n := Nat.ofDigitChars 10 raw.toList 0
  if n < 2 ^ bits then .ok n else .error (.tooWide getter field raw bits)

def getterU8 : Value → String → String → Except GetterError ℕ := getterUint 8
def getterU64 : Value → String → String → Except GetterError ℕ := getterUint 64
def getterU128 : Value → String → String → Except GetterError ℕ := getterUint 128

/-! ## `getState()` -/

structure DealChainState where
  funded : Bool
  opened : Bool
  probeAccepted : Bool
  disputed : Bool
  deposit : ℕ
  finalizedOwed : ℕ
  tokensFinal : ℕ
  tokensPending : ℕ
  probeTick : ℕ
  fundedTime : Option ℕ
  probeTime : ℕ
  lastClaimTime : ℕ
  disputeTime : ℕ
  deriving DecidableEq, Repr

namespace DealChainState

def isStopped (s : DealChainState) : Bool :=
  s.funded && !s.opened && !s.disputed && s.deposit == 0 && s.probeTick == 0

def getStateFields : List String :=
  ["funded", "opened", "probeAccepted", "disputed", "deposit", "probeTick", "finalizedOwed",
    "tokensFinal", "tokensPending", "probeTime", "lastClaimTime", "disputeTime", "fundedTime"]

def decodeGetter (value : Value) : Except GetterError DealChainState := do
  let getter := "getState()"
  let _ ← getterExactObject value getter getStateFields
  let fundedTime ← getterU64 value getter "fundedTime"
  let funded ← getterBool value getter "funded"
  let opened ← getterBool value getter "opened"
  let probeAccepted ← getterBool value getter "probeAccepted"
  let disputed ← getterBool value getter "disputed"
  let deposit ← getterU128 value getter "deposit"
  let probeTick ← getterU128 value getter "probeTick"
  let finalizedOwed ← getterU128 value getter "finalizedOwed"
  let tokensFinal ← getterU128 value getter "tokensFinal"
  let tokensPending ← getterU128 value getter "tokensPending"
  let probeTime ← getterU64 value getter "probeTime"
  let lastClaimTime ← getterU64 value getter "lastClaimTime"
  let disputeTime ← getterU64 value getter "disputeTime"
  refuse (tokensFinal > tokensPending) (.notMonotonic tokensFinal tokensPending)
  return { funded, opened, probeAccepted, disputed, deposit, finalizedOwed, tokensFinal,
           tokensPending, probeTick, probeTime, lastClaimTime, disputeTime
           fundedTime := if fundedTime ≠ 0 then some fundedTime else none }

end DealChainState

/-! ## `getSubscription()` -/

structure DealSubscription where
  dealFlags : ℕ
  subWeeks : ℕ
  weekIndex : ℕ
  tokensPerWeek : ℕ
  fundedTokens : ℕ
  tokensPaid : ℕ
  periodStart : ℕ
  weekBaseTokens : ℕ
  deriving DecidableEq, Repr

def subscriptionWeeks : ℕ := 4

def dealMask : ℕ := 0x10 ||| 0x40

namespace DealSubscription

def isSubscription (d : DealSubscription) : Bool := d.subWeeks != 0

def getSubscriptionFields : List String :=
  ["dealFlags", "subWeeks", "weekIndex", "tokensPerWeek", "fundedTokens", "tokensPaid",
    "periodStart", "weekBaseTokens"]

def unknownBits (d : DealSubscription) : ℕ := d.dealFlags &&& (0xff ^^^ dealMask)

def subscriptionFlag (d : DealSubscription) : Bool := d.dealFlags &&& flagSubscription != 0

/-- The quota of a subscription, of an ordinary deal the absence of one. -/
def checkWeekly (d : DealSubscription) : Except GetterError Unit :=
  if d.subscriptionFlag then do
    refuse (d.subWeeks ≠ subscriptionWeeks) (.termNotCanonical d.subWeeks)
    refuse (u128 ≤ d.tokensPerWeek * d.subWeeks) .quotaOverflows
    refuse (d.tokensPerWeek * d.subWeeks ≠ d.fundedTokens)
      (.quotaNotFunded d.tokensPerWeek d.subWeeks d.fundedTokens)
  else
    refuse (d.weekIndex ≠ 0 ∨ d.tokensPerWeek ≠ d.fundedTokens ∨ d.weekBaseTokens ≠ 0)
      (.ordinaryWeekly d.weekIndex d.tokensPerWeek d.fundedTokens d.weekBaseTokens)

/-- What `decode_getter` asks of the decoded figures. -/
def checkShape (d : DealSubscription) : Except GetterError Unit := do
  refuse (d.unknownBits ≠ 0) (.unknownDealBits d.unknownBits)
  refuse (d.subscriptionFlag ≠ (d.subWeeks != 0)) (.contradictoryShape d.dealFlags d.subWeeks)
  refuse (d.weekIndex > d.subWeeks) (.weekIndexExceeds d.weekIndex d.subWeeks)
  refuse (d.tokensPaid > d.fundedTokens) (.tokensPaidExceeds d.tokensPaid d.fundedTokens)
  refuse (d.weekBaseTokens > d.fundedTokens) (.weekBaseExceeds d.weekBaseTokens d.fundedTokens)
  checkWeekly d

def decodeGetter (value : Value) : Except GetterError DealSubscription := do
  let getter := "getSubscription()"
  let _ ← getterExactObject value getter getSubscriptionFields
  let dealFlags ← getterU8 value getter "dealFlags"
  let subWeeks ← getterU8 value getter "subWeeks"
  let weekIndex ← getterU8 value getter "weekIndex"
  let tokensPerWeek ← getterU128 value getter "tokensPerWeek"
  let fundedTokens ← getterU128 value getter "fundedTokens"
  let tokensPaid ← getterU128 value getter "tokensPaid"
  let periodStart ← getterU64 value getter "periodStart"
  let weekBaseTokens ← getterU128 value getter "weekBaseTokens"
  let decoded : DealSubscription :=
    { dealFlags, subWeeks, weekIndex, tokensPerWeek, fundedTokens, tokensPaid, periodStart,
      weekBaseTokens }
  checkShape decoded
  return decoded

end DealSubscription

/-! ## The two bonds -/

structure DealSellerBond where
  bondFunded : Bool
  bondHeld : ℕ
  bondRequired : ℕ
  deriving DecidableEq, Repr

def DealSellerBond.decodeGetter (value : Value) : Except GetterError DealSellerBond := do
  let getter := "getSellerBond()"
  let _ ← getterExactObject value getter ["bondFunded", "bondHeld", "bondRequired"]
  let bondFunded ← getterBool value getter "bondFunded"
  let bondHeld ← getterU128 value getter "bondHeld"
  let bondRequired ← getterU128 value getter "bondRequired"
  return { bondFunded, bondHeld, bondRequired }

structure DealBuyerBond where
  bondHeld : ℕ
  bondRequired : ℕ
  deriving DecidableEq, Repr

def DealBuyerBond.decodeGetter (value : Value) : Except GetterError DealBuyerBond := do
  let getter := "getBuyerBond()"
  let _ ← getterExactObject value getter ["bondHeld", "bondRequired"]
  let bondHeld ← getterU128 value getter "bondHeld"
  let bondRequired ← getterU128 value getter "bondRequired"
  return { bondHeld, bondRequired }

/-! ## One revision of the account -/

structure DealChainSnapshot where
  accountCodeHash : String
  accountBocHash : String
  state : DealChainState
  subscription : DealSubscription
  sellerBond : DealSellerBond
  buyerBond : DealBuyerBond
  deriving DecidableEq, Repr

namespace DealChainSnapshot

def expectedBuyerRequired (c : DealChainSnapshot) : ℕ :=
  if c.subscription.isSubscription then c.sellerBond.bondRequired else 0

def liveFunded (c : DealChainSnapshot) : Bool := c.state.funded && !c.state.isStopped

/-- The four relations between the getters, in the order the source checks them. -/
def validateCrossGetterInvariants (c : DealChainSnapshot) : Except GetterError Unit := do
  let seller := c.sellerBond
  let buyer := c.buyerBond
  refuse (c.state.funded = true ∧ c.subscription.fundedTokens < tickSize * 2)
    (.belowTwoTicks (tickSize * 2) c.subscription.fundedTokens)
  refuse (seller.bondHeld > seller.bondRequired)
    (.sellerBondExceeds seller.bondHeld seller.bondRequired)
  refuse (seller.bondFunded = false ∧ seller.bondHeld ≠ 0) (.sellerBondUnfunded seller.bondHeld)
  refuse (c.state.opened = true ∧ c.state.funded = false) .openedUnfunded
  refuse (c.state.opened = true ∧ (seller.bondFunded = false ∨ seller.bondRequired = 0 ∨
      seller.bondHeld ≠ seller.bondRequired))
    (.openedUnbonded seller.bondFunded seller.bondHeld seller.bondRequired)
  refuse (buyer.bondRequired ≠ c.expectedBuyerRequired)
    (.buyerRequiredShape buyer.bondRequired seller.bondRequired c.subscription.isSubscription)
  refuse (buyer.bondHeld > seller.bondRequired)
    (.buyerBondExceeds buyer.bondHeld seller.bondRequired)
  if !c.subscription.isSubscription then return ()
  refuse (c.liveFunded = true ∧ (buyer.bondRequired = 0 ∨ buyer.bondHeld ≠ buyer.bondRequired))
    (.subscriptionUnbonded buyer.bondHeld buyer.bondRequired)

end DealChainSnapshot

/-! ## What the decoders accept -/

def decimal (n : ℕ) : Value := .string n.repr

theorem getterUint_decimal {bits n : ℕ} {value : Value} {getter field : String}
    (hfield : getterField value getter field = .ok (decimal n)) (hlt : n < 2 ^ bits) :
    getterUint bits value getter field = .ok n := by
  have hdigits : n.repr.toList.all Char.isDigit = true := by
    rw [Nat.toList_repr, List.all_eq_true]
    intro c hc
    exact Nat.isDigit_of_mem_toDigits (by decide) (by decide) hc
  have hne : n.repr.toList ≠ [] := by
    rw [Nat.toList_repr]
    exact Nat.toDigits_ne_nil
  have hpass : ¬ (n.repr.toList = [] ∨ n.repr.toList.all Char.isDigit = false) := by
    rw [hdigits]
    exact fun h => h.elim hne (by simp)
  have hraw : getterDecimal value getter field = .ok n.repr := by
    simp only [getterDecimal, hfield, decimal, Value.asStr, bind, Except.bind, if_neg hpass]
  have hvalue : Nat.ofDigitChars 10 n.repr.toList 0 = n := by
    rw [Nat.toList_repr, Nat.ofDigitChars_ten_toDigits]
  simp only [getterUint, hraw, bind, Except.bind, hvalue, if_pos hlt]

theorem getterBool_bool {b : Bool} {value : Value} {getter field : String}
    (hfield : getterField value getter field = .ok (.bool b)) :
    getterBool value getter field = .ok b := by
  simp only [getterBool, hfield, bind, Except.bind, Value.asBool]

theorem getterExactObject_ok {fields : List (String × Value)} {expected : List String}
    (hkeys : fields.map Prod.fst = expected) (getter : String) :
    getterExactObject (.object fields) getter expected = .ok fields := by
  have hlen : fields.length = expected.length := by
    rw [← hkeys, List.length_map]
  have hnone : (expected.filter fun f => !expected.contains f) = [] := by
    rw [List.filter_eq_nil_iff]
    intro f hf
    simp [hf]
  simp only [getterExactObject, Value.asObject, hkeys, hnone, List.mergeSort_nil, ne_eq,
    not_true_eq_false, hlen, or_self, if_false]

end DealGetters
