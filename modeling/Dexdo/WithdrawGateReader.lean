import Dexdo.DealGetters
import Dexdo.TextNumbers

/-! # Which gate holds a note's money

`crates/core/src/note_withdraw_gate.rs`: the first of the eleven conditions of `withdrawTokens`
that one decoded storage snapshot does not meet. -/
namespace WithdrawGateReader

open DealGetters TextForms TextNumbers

/-- One condition, with the figure that does not meet it. -/
inductive WithdrawGate where
  | hasWithdrawn
  | busy (holder : Text)
  | stakes (count : ℕ)
  | debt (raw : ℕ)
  | lockedInOrders (tokenType locked : ℕ)
  | pendingPlaceBuyLock (raw : ℕ)
  | pendingBatchBuyLock (raw : ℕ)
  | openOrders (count : ℕ)
  | restingInference (count : ℕ)
  | pendingInference (count : ℕ)
  | liveDeals (count : ℕ)
  deriving DecidableEq, Repr

namespace WithdrawGate

def field : WithdrawGate → String
  | hasWithdrawn => "_hasWithdrawn"
  | busy _ => "_busy"
  | stakes _ => "_stakes"
  | debt _ => "_debt"
  | lockedInOrders _ _ => "_lockedInOrders"
  | pendingPlaceBuyLock _ => "_pendingPlaceBuyLock"
  | pendingBatchBuyLock _ => "_pendingBatchBuyLock"
  | openOrders _ => "_openOrderCount"
  | restingInference _ => "_restingInf"
  | pendingInference _ => "_pendingInf"
  | liveDeals _ => "_liveDeals"

def exitCode : WithdrawGate → ℕ
  | hasWithdrawn => 151
  | busy _ | stakes _ => 121
  | debt _ => 150
  | lockedInOrders _ _ | pendingPlaceBuyLock _ | pendingBatchBuyLock _ => 144
  | openOrders _ | restingInference _ | pendingInference _ | liveDeals _ => 167

end WithdrawGate

inductive NoteWithdrawGate where
  | clear
  | held (gate : WithdrawGate)
  | unreadable (field reason : String)
  deriving DecidableEq, Repr

/-! ## Single fields -/

def get (fields : Value) (name : String) : Option Value := fields.asObject.bind (·.lookup name)

def absent (name : String) : String := name ++ " is absent from the decoded storage"

def asU64 : Value → Option ℕ
  | .number text =>
    if text.toList ≠ [] ∧ text.toList.all Char.isDigit = true then
      (readDigits 10 text.toList).filter (· < 2 ^ 64)
    else none
  | _ => none

def amount (v : Value) : Option ℕ :=
  match asU64 v with
  | some n => some n
  | none => v.asStr.bind fun s => readUint 128 s.toList

def storageU128 (fields : Value) (name : String) : Except String ℕ :=
  match get fields name with
  | none => .error (absent name)
  | some raw =>
    match amount raw with
    | some n => .ok n
    | none =>
      match raw.asStr with
      | none => .error (name ++ " is not a number")
      | some text => .error (name ++ " does not parse as an integer: " ++
          String.ofList (trim text.toList))

def storageMapLen (fields : Value) (name : String) : Except String ℕ :=
  match get fields name with
  | none | some .null => .error (absent name)
  | some (.object entries) => .ok entries.length
  | some (.array entries) => .ok entries.length
  | some _ => .error (name ++ " is neither an object nor an array")

def tokenType (v : Value) : Option ℕ := (amount v).filter (· < 2 ^ 32)

def row : Value → Option Value × Option Value
  | .object fields =>
    ((fields.lookup "key").or (fields.lookup "0"), (fields.lookup "value").or (fields.lookup "1"))
  | .array [key, value] => (some key, some value)
  | _ => (none, none)

def lockedName : String := "_lockedInOrders"

/-- An entry of the object form. -/
def lockedEntry (entry : String × Value) : Except String (ℕ × ℕ) :=
  match tokenType (.string entry.1) with
  | none => .error (lockedName ++ " key " ++ entry.1 ++ " is not a token type")
  | some id =>
    match amount entry.2 with
    | none => .error (lockedName ++ "[" ++ entry.1 ++ "] is not an amount")
    | some locked => .ok (id, locked)

/-- An entry of the array form. -/
def lockedRow (entry : Value) : Except String (ℕ × ℕ) :=
  match row entry with
  | (none, _) => .error (lockedName ++ " row carries no key")
  | (some _, none) => .error (lockedName ++ " row carries no value")
  | (some key, some value) =>
    match tokenType key with
    | none => .error (lockedName ++ " key is not a token type")
    | some id =>
      match amount value with
      | none => .error (lockedName ++ " value is not an amount")
      | some locked => .ok (id, locked)

def lockedInOrders (fields : Value) : Except String (List (ℕ × ℕ)) :=
  match get fields lockedName with
  | none | some .null => .error (absent lockedName)
  | some (.object entries) => entries.mapM lockedEntry
  | some (.array entries) => entries.mapM lockedRow
  | some _ => .error (lockedName ++ " is neither an object nor an array")

def saysTrue (s : String) : Bool :=
  let text := lower (trim s.toList)
  text = "true".toList || text = "1".toList

def saysFalse (s : String) : Bool :=
  let text := lower (trim s.toList)
  text = "false".toList || text = "0".toList

def readHasWithdrawn (fields : Value) : Except String Bool :=
  match get fields "_hasWithdrawn" with
  | some (.bool value) => .ok value
  | some (.string text) =>
    if saysTrue text then .ok true
    else if saysFalse text then .ok false
    else .error ("_hasWithdrawn is not a bool: " ++ String.ofList (lower (trim text.toList)))
  | some _ => .error "_hasWithdrawn is not a bool"
  | none => .error (absent "_hasWithdrawn")

def addressText (s : String) : Option Text :=
  if trim s.toList = [] then none else some (trim s.toList)

def busyAddress (object : List (String × Value)) : Option Text :=
  (((object.lookup "value").or (object.lookup "0")).bind Value.asStr).bind addressText

def readBusy (fields : Value) : Except String (Option Text) :=
  match get fields "_busy" with
  | none => .error (absent "_busy")
  | some .null => .ok none
  | some (.string address) =>
    match addressText address with
    | none => .error "_busy decoded as an empty string"
    | some text => .ok (some text)
  | some (.object object) => .ok (busyAddress object)
  | some _ => .error "_busy is not an address"

/-! ## The eleven gates in their order -/

inductive Stop where
  | held (gate : WithdrawGate)
  | unreadable (field reason : String)
  deriving DecidableEq, Repr

def Stop.answer : Stop → NoteWithdrawGate
  | held gate => .held gate
  | unreadable field reason => .unreadable field reason

def reading {α : Type} (field : String) : Except String α → Except Stop α
  | .ok value => .ok value
  | .error reason => .error (.unreadable field reason)

def holdIf (p : Prop) [Decidable p] (gate : WithdrawGate) : Except Stop Unit :=
  if p then .error (.held gate) else .ok ()

def hasWithdrawnGate (fields : Value) : Except Stop Unit := do
  let hasWithdrawn ← reading "_hasWithdrawn" (readHasWithdrawn fields)
  holdIf (hasWithdrawn = true) .hasWithdrawn

def busyGate (fields : Value) : Except Stop Unit := do
  match ← reading "_busy" (readBusy fields) with
  | some holder => .error (.held (.busy holder))
  | none => .ok ()

def lockedGate (fields : Value) : Except Stop Unit := do
  let locked ← reading lockedName (lockedInOrders fields)
  match locked.find? fun entry => entry.2 != 0 with
  | some (tokenType, locked) => .error (.held (.lockedInOrders tokenType locked))
  | none => .ok ()

def mapGate (fields : Value) (name : String) (gate : ℕ → WithdrawGate) :
    Except Stop Unit := do
  let count ← reading name (storageMapLen fields name)
  holdIf (count > 0) (gate count)

def uintGate (fields : Value) (name : String) (gate : ℕ → WithdrawGate) :
    Except Stop Unit := do
  let raw ← reading name (storageU128 fields name)
  holdIf (raw ≠ 0) (gate raw)

def openOrders (raw : ℕ) : WithdrawGate := .openOrders (min raw (2 ^ 32 - 1))

def checkGates (fields : Value) : Except Stop Unit := do
  hasWithdrawnGate fields
  busyGate fields
  mapGate fields "_stakes" .stakes
  uintGate fields "_debt" .debt
  lockedGate fields
  uintGate fields "_pendingPlaceBuyLock" .pendingPlaceBuyLock
  uintGate fields "_pendingBatchBuyLock" .pendingBatchBuyLock
  uintGate fields "_openOrderCount" openOrders
  mapGate fields "_restingInf" .restingInference
  mapGate fields "_pendingInf" .pendingInference
  mapGate fields "_liveDeals" .liveDeals

def noteWithdrawGateFromStorage (fields : Value) : NoteWithdrawGate :=
  match checkGates fields with
  | .ok () => .clear
  | .error stop => stop.answer

/-! ## What a gate passes on -/

variable {fields v : Value} {name : String} {gate : ℕ → WithdrawGate} {n : ℕ}

theorem bind_unit_ok {ε : Type} {x y : Except ε Unit} :
    (x >>= fun _ => y) = .ok () ↔ x = .ok () ∧ y = .ok () := by
  cases x with
  | error e => exact ⟨nofun, fun h => nomatch h.1⟩
  | ok u => exact ⟨fun h => ⟨rfl, h⟩, fun h => h.2⟩

theorem storageU128_ok :
    storageU128 fields name = .ok n ↔ ∃ v, get fields name = some v ∧ amount v = some n := by
  unfold storageU128
  cases get fields name with
  | none => simp
  | some raw =>
    cases hraw : amount raw with
    | some k => simp [hraw]
    | none =>
      simp only [Option.some.injEq, exists_eq_left', hraw, reduceCtorEq, iff_false]
      split <;> simp

theorem uintGate_ok : uintGate fields name gate = .ok () ↔
    ∃ v, get fields name = some v ∧ amount v = some 0 := by
  rw [← storageU128_ok]
  unfold uintGate
  cases h : storageU128 fields name with
  | error e => exact ⟨nofun, nofun⟩
  | ok k =>
    simp only [reading, bind, Except.bind, holdIf]
    by_cases hk : k = 0
    · simp [hk]
    · simp [hk]

theorem mapGate_ok : mapGate fields name gate = .ok () ↔
    get fields name = some (.object []) ∨ get fields name = some (.array []) := by
  unfold mapGate storageMapLen
  cases get fields name with
  | none => simp [reading, bind, Except.bind]
  | some v =>
    cases v with
    | object entries => cases entries <;> simp [reading, bind, Except.bind, holdIf]
    | array entries => cases entries <;> simp [reading, bind, Except.bind, holdIf]
    | _ => simp [reading, bind, Except.bind]

theorem hasWithdrawnGate_ok : hasWithdrawnGate fields = .ok () ↔
    get fields "_hasWithdrawn" = some (.bool false) ∨
      ∃ s, get fields "_hasWithdrawn" = some (.string s) ∧ saysTrue s = false ∧
        saysFalse s = true := by
  unfold hasWithdrawnGate readHasWithdrawn
  cases get fields "_hasWithdrawn" with
  | none => simp [reading, bind, Except.bind]
  | some v =>
    cases v with
    | bool b => cases b <;> simp [reading, bind, Except.bind, holdIf]
    | string s =>
      cases ht : saysTrue s with
      | true => simp [reading, bind, Except.bind, holdIf, ht]
      | false => cases hf : saysFalse s <;> simp [reading, bind, Except.bind, holdIf, ht, hf]
    | _ => simp [reading, bind, Except.bind]

theorem busyGate_ok : busyGate fields = .ok () ↔ get fields "_busy" = some .null ∨
    ∃ object, get fields "_busy" = some (.object object) ∧ busyAddress object = none := by
  unfold busyGate readBusy
  cases get fields "_busy" with
  | none => simp [reading, bind, Except.bind]
  | some v =>
    cases v with
    | null => simp [reading, bind, Except.bind]
    | string s => cases h : addressText s <;> simp [reading, bind, Except.bind, h]
    | object o => cases h : busyAddress o <;> simp [reading, bind, Except.bind, h]
    | _ => simp [reading, bind, Except.bind]

theorem lockedGate_ok : lockedGate fields = .ok () ↔
    ∃ l, lockedInOrders fields = .ok l ∧ ∀ entry ∈ l, entry.2 = 0 := by
  unfold lockedGate
  cases lockedInOrders fields with
  | error e => simp [reading, bind, Except.bind]
  | ok l =>
    simp only [reading, bind, Except.bind, Except.ok.injEq, exists_eq_left']
    cases hfind : l.find? fun entry => entry.2 != 0 with
    | none =>
      rw [List.find?_eq_none] at hfind
      simpa using hfind
    | some entry =>
      have hmem := List.mem_of_find?_eq_some hfind
      have hne := List.find?_some hfind
      simp only [reduceCtorEq, false_iff, not_forall]
      exact ⟨entry, hmem, by simpa using hne⟩

theorem clear_iff : noteWithdrawGateFromStorage fields = .clear ↔ checkGates fields = .ok () := by
  unfold noteWithdrawGateFromStorage
  cases checkGates fields with
  | ok u => simp
  | error stop => cases stop <;> simp [Stop.answer]

end WithdrawGateReader
