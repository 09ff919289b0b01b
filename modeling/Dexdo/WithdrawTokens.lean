import Mathlib
import Dexdo.WithdrawGateReader

/-! # The gates of `withdrawTokens` and their reader

`PrivateNote.withdrawTokens` on one side, the reader of a decoded storage on the other. -/
namespace WithdrawTokens

open DealGetters TextForms TextNumbers WithdrawGateReader

/-! ## The contract -/

abbrev AddressText := { t : Text // trim t = t ∧ t ≠ [] }

/-- What the eleven conditions read. A mapping whose values they do not look at is the list of its
keys, and `lockedInOrders` lists its entries by ascending key, as the loop over it goes. -/
structure NoteStorage where
  hasWithdrawn : Bool
  busy : Option AddressText
  stakes : List ℕ
  debt : ℕ
  lockedInOrders : List (ℕ × ℕ)
  pendingPlaceBuyLock : ℕ
  pendingBatchBuyLock : ℕ
  openOrderCount : ℕ
  restingInf : List ℕ
  pendingInf : List ℕ
  liveDeals : List ℕ
  debt_lt : debt < 2 ^ 128
  ascending : (lockedInOrders.map Prod.fst).Pairwise (· < ·)
  tokenType_lt : ∀ e ∈ lockedInOrders, e.1 < 2 ^ 32
  locked_lt : ∀ e ∈ lockedInOrders, e.2 < 2 ^ 128
  placeLock_lt : pendingPlaceBuyLock < 2 ^ 128
  batchLock_lt : pendingBatchBuyLock < 2 ^ 128
  openOrders_lt : openOrderCount < 2 ^ 32

inductive Err where
  | invalidState
  | noteBusy
  | debtNonZero
  | nonZeroBalance
  | openOrdersExist
  deriving DecidableEq, Repr

/-- The numbers `onchain_diagnostics.rs` quotes from the contract's error table. -/
def Err.code : Err → ℕ
  | invalidState => 151
  | noteBusy => 121
  | debtNonZero => 150
  | nonZeroBalance => 144
  | openOrdersExist => 167

def require (p : Prop) [Decidable p] (e : Err) : Except Err Unit := if p then .ok () else .error e

/-- `withdrawTokens` up to its last condition. -/
def withdrawTokens (s : NoteStorage) : Except Err Unit := do
  require (s.hasWithdrawn = false) .invalidState
  require (s.busy = none) .noteBusy
  require (s.stakes = []) .noteBusy
  require (s.debt = 0) .debtNonZero
  forM s.lockedInOrders fun e => require (e.2 = 0) .nonZeroBalance
  require (s.pendingPlaceBuyLock = 0) .nonZeroBalance
  require (s.pendingBatchBuyLock = 0) .nonZeroBalance
  require (s.openOrderCount = 0) .openOrdersExist
  require (s.restingInf = []) .openOrdersExist
  require (s.pendingInf = []) .openOrdersExist
  require (s.liveDeals = []) .openOrdersExist

/-! ## The conditions as a list -/

structure Check where
  gate : WithdrawGate
  met : Bool
  error : Err

def lockedCheck (e : ℕ × ℕ) : Check := ⟨.lockedInOrders e.1 e.2, e.2 = 0, .nonZeroBalance⟩

def busyCheck : Option AddressText → Check
  | none => ⟨.busy [], true, .noteBusy⟩
  | some holder => ⟨.busy holder.1, false, .noteBusy⟩

/-- Every condition of `withdrawTokens`, one for each turn of its loop. -/
def checks (s : NoteStorage) : List Check :=
  [⟨.hasWithdrawn, s.hasWithdrawn = false, .invalidState⟩] ++ [busyCheck s.busy] ++
  [⟨.stakes s.stakes.length, s.stakes = [], .noteBusy⟩] ++
  [⟨.debt s.debt, s.debt = 0, .debtNonZero⟩] ++
  s.lockedInOrders.map lockedCheck ++
  [⟨.pendingPlaceBuyLock s.pendingPlaceBuyLock, s.pendingPlaceBuyLock = 0, .nonZeroBalance⟩] ++
  [⟨.pendingBatchBuyLock s.pendingBatchBuyLock, s.pendingBatchBuyLock = 0, .nonZeroBalance⟩] ++
  [⟨.openOrders s.openOrderCount, s.openOrderCount = 0, .openOrdersExist⟩] ++
  [⟨.restingInference s.restingInf.length, s.restingInf = [], .openOrdersExist⟩] ++
  [⟨.pendingInference s.pendingInf.length, s.pendingInf = [], .openOrdersExist⟩] ++
  [⟨.liveDeals s.liveDeals.length, s.liveDeals = [], .openOrdersExist⟩]

def firstFailing (s : NoteStorage) : Option Check := (checks s).find? fun c => !c.met

section Outcome

variable {ε : Type} (f : Check → ε)

def outcome (l : List Check) : Except ε Unit :=
  match l.find? fun c => !c.met with
  | none => .ok ()
  | some c => .error (f c)

theorem outcome_append (l l' : List Check) :
    outcome f (l ++ l') = (outcome f l >>= fun _ => outcome f l') := by
  unfold outcome
  rw [List.find?_append]
  cases l.find? fun c => !c.met <;> rfl

theorem outcome_single (c : Check) :
    outcome f [c] = if c.met = true then .ok () else .error (f c) := by
  cases h : c.met <;> simp [outcome, h]

end Outcome

theorem require_eq {p : Prop} [Decidable p] (gate : WithdrawGate) (e : Err) :
    require p e = outcome Check.error [⟨gate, p, e⟩] := by
  rw [outcome_single]
  simp [require]

theorem busy_eq (busy : Option AddressText) :
    require (busy = none) .noteBusy = outcome Check.error [busyCheck busy] := by
  cases busy <;> rfl

theorem locked_eq (l : List (ℕ × ℕ)) :
    (forM l fun e => require (e.2 = 0) .nonZeroBalance) =
      outcome Check.error (l.map lockedCheck) := by
  induction l with
  | nil => rfl
  | cons e l ih =>
    rw [List.forM_cons, ih, List.map_cons, ← List.singleton_append, outcome_append]
    rw [require_eq (.lockedInOrders e.1 e.2)]
    rfl

theorem withdrawTokens_eq (s : NoteStorage) :
    withdrawTokens s = outcome Check.error (checks s) := by
  unfold checks
  simp only [outcome_append, ← locked_eq, ← busy_eq, ← require_eq, bind_assoc]
  rfl

theorem checks_code (s : NoteStorage) : ∀ c ∈ checks s, c.gate.exitCode = c.error.code := by
  have hbusy : (busyCheck s.busy).gate.exitCode = (busyCheck s.busy).error.code := by
    cases s.busy <;> rfl
  unfold checks
  simp only [List.forall_mem_append, List.forall_mem_singleton, List.forall_mem_map]
  exact ⟨⟨⟨⟨⟨⟨⟨⟨⟨⟨rfl, hbusy⟩, rfl⟩, rfl⟩, fun _ _ => rfl⟩, rfl⟩, rfl⟩, rfl⟩, rfl⟩, rfl⟩, rfl⟩

/-! ## Renderings of a storage -/

inductive RendersBool : Value → Bool → Prop where
  | bool (b) : RendersBool (.bool b) b
  | yes {s} : saysTrue s = true → RendersBool (.string s) true
  | no {s} : saysFalse s = true → RendersBool (.string s) false

/-- A number, a decimal text or a hexadecimal one of any width. -/
inductive RendersUint : Value → ℕ → Prop where
  | number {n} : n < 2 ^ 64 → RendersUint (.number n.repr) n
  | decimal (n) : RendersUint (.string n.repr) n
  | hex {n} (width) : n < 16 ^ (width + 1) →
      RendersUint (.string (String.ofList ('0' :: 'x' :: hexText (width + 1) n))) n

inductive RendersOptional : Value → Option AddressText → Prop where
  | none : RendersOptional .null none
  | bare (holder : AddressText) : RendersOptional (.string (String.ofList holder.1)) (some holder)
  | value {object} (holder : AddressText) :
      object.lookup "value" = some (.string (String.ofList holder.1)) →
      RendersOptional (.object object) (some holder)
  | first {object} (holder : AddressText) : object.lookup "value" = none →
      object.lookup "0" = some (.string (String.ofList holder.1)) →
      RendersOptional (.object object) (some holder)

inductive RendersKeys : Value → List ℕ → Prop where
  | object {fields keys} : fields.length = keys.length → RendersKeys (.object fields) keys
  | array {items keys} : items.length = keys.length → RendersKeys (.array items) keys

def RendersRow (item : Value) (e : ℕ × ℕ) : Prop :=
  ∃ key value, row item = (some key, some value) ∧ RendersUint key e.1 ∧ RendersUint value e.2

/-- The entries in the dictionary's order. -/
inductive RendersEntries : Value → List (ℕ × ℕ) → Prop where
  | object {fields l} : List.Forall₂ (fun f e => RendersUint (.string f.1) e.1 ∧ RendersUint f.2 e.2)
      fields l → RendersEntries (.object fields) l
  | array {items l} : List.Forall₂ RendersRow items l → RendersEntries (.array items) l

def Has {α : Type} (R : Value → α → Prop) (fields : Value) (name : String) (a : α) : Prop :=
  ∃ v, get fields name = some v ∧ R v a

structure Rendered (s : NoteStorage) (fields : Value) : Prop where
  hasWithdrawn : Has RendersBool fields "_hasWithdrawn" s.hasWithdrawn
  busy : Has RendersOptional fields "_busy" s.busy
  stakes : Has RendersKeys fields "_stakes" s.stakes
  debt : Has RendersUint fields "_debt" s.debt
  lockedInOrders : Has RendersEntries fields "_lockedInOrders" s.lockedInOrders
  pendingPlaceBuyLock : Has RendersUint fields "_pendingPlaceBuyLock" s.pendingPlaceBuyLock
  pendingBatchBuyLock : Has RendersUint fields "_pendingBatchBuyLock" s.pendingBatchBuyLock
  openOrderCount : Has RendersUint fields "_openOrderCount" s.openOrderCount
  restingInf : Has RendersKeys fields "_restingInf" s.restingInf
  pendingInf : Has RendersKeys fields "_pendingInf" s.pendingInf
  liveDeals : Has RendersKeys fields "_liveDeals" s.liveDeals

/-! ## What the reader makes of a rendering -/

variable {s : NoteStorage} {fields v : Value} {name : String} {gate : ℕ → WithdrawGate} {n : ℕ}
  {b : Bool} {keys : List ℕ}

theorem amount_string (s : String) : amount (.string s) = readUint 128 s.toList := rfl

theorem amount_of_renders (h : RendersUint v n) (hlt : n < 2 ^ 128) : amount v = some n := by
  cases h with
  | number h64 =>
    have hdigits : n.repr.toList.all Char.isDigit = true :=
      List.all_eq_true.mpr (decimal_digits n)
    have hread : asU64 (.number n.repr) = some n := by
      simp only [asU64]
      rw [if_pos ⟨decimal_ne_nil n, hdigits⟩, readDigits_decimal]
      simpa [Option.filter] using h64
    unfold amount
    rw [hread]
  | decimal =>
    rw [amount_string]
    exact readUint_decimal hlt
  | hex width hwidth =>
    rw [amount_string, String.toList_ofList]
    exact readUint_hex width hwidth hlt

theorem uintGate_renders (h : Has RendersUint fields name n) (hlt : n < 2 ^ 128) (e : Err) :
    uintGate fields name gate = outcome (fun c => .held c.gate) [⟨gate n, n = 0, e⟩] := by
  obtain ⟨v, hget, hv⟩ := h
  have hread : storageU128 fields name = .ok n :=
    storageU128_ok.mpr ⟨v, hget, amount_of_renders hv hlt⟩
  rw [outcome_single]
  unfold uintGate
  rw [hread]
  by_cases hn : n = 0
  · simp [reading, bind, Except.bind, holdIf, hn]
  · simp [reading, bind, Except.bind, holdIf, hn]

theorem mapGate_renders (h : Has RendersKeys fields name keys) (e : Err) :
    mapGate fields name gate =
      outcome (fun c => .held c.gate) [⟨gate keys.length, keys = [], e⟩] := by
  obtain ⟨v, hget, hv⟩ := h
  have hread : storageMapLen fields name = .ok keys.length := by
    unfold storageMapLen
    rw [hget]
    cases hv with
    | object hlen => exact congrArg Except.ok hlen
    | array hlen => exact congrArg Except.ok hlen
  rw [outcome_single]
  unfold mapGate
  rw [hread]
  cases keys with
  | nil => rfl
  | cons k keys => simp [reading, bind, Except.bind, holdIf]

theorem saysFalse_not_true {t : String} (h : saysFalse t = true) : saysTrue t = false := by
  unfold saysFalse at h
  unfold saysTrue
  simp only [Bool.or_eq_true, decide_eq_true_eq] at h
  rcases h with h | h
  · rw [h]
    decide
  · rw [h]
    decide

theorem hasWithdrawnGate_renders (h : Has RendersBool fields "_hasWithdrawn" b) (e : Err) :
    hasWithdrawnGate fields =
      outcome (fun c => .held c.gate) [⟨.hasWithdrawn, b = false, e⟩] := by
  obtain ⟨v, hget, hv⟩ := h
  have hread : readHasWithdrawn fields = .ok b := by
    unfold readHasWithdrawn
    rw [hget]
    cases hv with
    | bool => rfl
    | yes h => simp only [h, if_true]
    | no h => simp only [h, saysFalse_not_true h, Bool.false_eq_true, if_false, if_true]
  rw [outcome_single]
  unfold hasWithdrawnGate
  rw [hread]
  cases b <;> rfl

theorem addressText_holder (holder : AddressText) :
    addressText (String.ofList holder.1) = some holder.1 := by
  unfold addressText
  rw [String.toList_ofList, holder.2.1, if_neg holder.2.2]

theorem busyGate_renders {busy : Option AddressText} (h : Has RendersOptional fields "_busy" busy) :
    busyGate fields = outcome (fun c => .held c.gate) [busyCheck busy] := by
  obtain ⟨v, hget, hv⟩ := h
  have hread : readBusy fields = .ok (busy.map (·.1)) := by
    unfold readBusy
    rw [hget]
    cases hv with
    | none => rfl
    | bare holder => simp only [addressText_holder, Option.map_some]
    | value holder hvalue =>
      simp only [busyAddress, hvalue, Option.some_or, Option.bind_some, Value.asStr,
        addressText_holder, Option.map_some]
    | first holder hvalue hfirst =>
      simp only [busyAddress, hvalue, hfirst, Option.none_or, Option.bind_some, Value.asStr,
        addressText_holder, Option.map_some]
  rw [outcome_single]
  unfold busyGate
  rw [hread]
  cases busy <;> rfl

theorem mapM_renders {α β ε : Type} {f : α → Except ε β} {xs : List α} {l : List β}
    (h : List.Forall₂ (fun x e => f x = .ok e) xs l) : xs.mapM f = .ok l := by
  induction h with
  | nil => rfl
  | cons hx _ ih =>
    rw [List.mapM_cons, hx, ih]
    rfl

theorem tokenType_of_renders (h : RendersUint v n) (hlt : n < 2 ^ 32) : tokenType v = some n := by
  unfold tokenType
  rw [amount_of_renders h (by omega)]
  simpa [Option.filter] using hlt

/-- The reader takes every entry, in the order it comes. -/
theorem lockedInOrders_renders (h : Has RendersEntries fields "_lockedInOrders" s.lockedInOrders) :
    lockedInOrders fields = .ok s.lockedInOrders := by
  obtain ⟨v, hget, hv⟩ := h
  have hkeys := s.tokenType_lt
  have hvalues := s.locked_lt
  unfold lockedInOrders lockedName
  rw [hget]
  clear hget
  generalize s.lockedInOrders = l at hv hkeys hvalues
  cases hv with
  | object hall =>
    apply mapM_renders
    induction hall with
    | nil => exact .nil
    | @cons f e fs l hrow _ ih =>
      obtain ⟨hkey, hvalue⟩ := hrow
      rw [List.forall_mem_cons] at hkeys hvalues
      refine .cons ?_ (ih hkeys.2 hvalues.2)
      simp only [lockedEntry, tokenType_of_renders hkey hkeys.1,
        amount_of_renders hvalue hvalues.1]
  | array hall =>
    apply mapM_renders
    induction hall with
    | nil => exact .nil
    | @cons item e items l hrow _ ih =>
      obtain ⟨key, value, hparts, hkey, hvalue⟩ := hrow
      rw [List.forall_mem_cons] at hkeys hvalues
      refine .cons ?_ (ih hkeys.2 hvalues.2)
      simp only [lockedRow, hparts, tokenType_of_renders hkey hkeys.1,
        amount_of_renders hvalue hvalues.1]

theorem lockedGate_renders (h : Has RendersEntries fields "_lockedInOrders" s.lockedInOrders) :
    lockedGate fields =
      outcome (fun c => .held c.gate) (s.lockedInOrders.map lockedCheck) := by
  unfold lockedGate outcome
  rw [lockedInOrders_renders h, List.find?_map]
  simp only [reading, bind, Except.bind]
  have hsame : (fun e : ℕ × ℕ => e.2 != 0) = (fun c => !c.met) ∘ lockedCheck := by
    funext e
    by_cases he : e.2 = 0 <;> simp [lockedCheck, he]
  rw [hsame]
  cases s.lockedInOrders.find? ((fun c => !c.met) ∘ lockedCheck) <;> rfl

/-- The reader stops where the contract does. -/
theorem checkGates_renders (h : Rendered s fields) :
    checkGates fields = outcome (fun c => .held c.gate) (checks s) := by
  have hwide : s.openOrderCount < 2 ^ 128 := s.openOrders_lt.trans (by decide)
  have hcount : openOrders s.openOrderCount = .openOrders s.openOrderCount := by
    have hlt := s.openOrders_lt
    unfold openOrders
    rw [min_eq_left (by omega)]
  unfold checkGates checks
  simp only [outcome_append, bind_assoc]
  rw [hasWithdrawnGate_renders h.hasWithdrawn .invalidState, busyGate_renders h.busy,
    mapGate_renders h.stakes .noteBusy, uintGate_renders h.debt s.debt_lt .debtNonZero,
    lockedGate_renders h.lockedInOrders,
    uintGate_renders h.pendingPlaceBuyLock s.placeLock_lt .nonZeroBalance,
    uintGate_renders h.pendingBatchBuyLock s.batchLock_lt .nonZeroBalance,
    uintGate_renders h.openOrderCount hwide .openOrdersExist, hcount,
    mapGate_renders h.restingInf .openOrdersExist, mapGate_renders h.pendingInf .openOrdersExist,
    mapGate_renders h.liveDeals .openOrdersExist]

theorem reading_exact (h : Rendered s fields) :
    noteWithdrawGateFromStorage fields =
      match firstFailing s with
      | none => .clear
      | some c => .held c.gate := by
  unfold noteWithdrawGateFromStorage
  rw [checkGates_renders h]
  unfold outcome firstFailing
  cases (checks s).find? fun c => !c.met <;> rfl

/-! ## What a clear reading rests on -/

def EmptyMap (fields : Value) (name : String) : Prop :=
  get fields name = some (.object []) ∨ get fields name = some (.array [])

def Zero (fields : Value) (name : String) : Prop :=
  ∃ v, get fields name = some v ∧ amount v = some 0

def Unwithdrawn (fields : Value) : Prop :=
  get fields "_hasWithdrawn" = some (.bool false) ∨
    ∃ t, get fields "_hasWithdrawn" = some (.string t) ∧ saysFalse t = true

/-- Every entry has a token type and the amount zero. -/
def Unlocked (fields : Value) : Prop :=
  (∃ entries, get fields lockedName = some (.object entries) ∧
    ∀ e ∈ entries, (tokenType (.string e.1)).isSome = true ∧ amount e.2 = some 0) ∨
  (∃ items, get fields lockedName = some (.array items) ∧
    ∀ item ∈ items, ∃ key value, row item = (some key, some value) ∧
      (tokenType key).isSome = true ∧ amount value = some 0)

/-- Each field but `_busy` is there and shows its condition met. -/
structure OthersClosed (fields : Value) : Prop where
  hasWithdrawn : Unwithdrawn fields
  stakes : EmptyMap fields "_stakes"
  debt : Zero fields "_debt"
  locked : Unlocked fields
  place : Zero fields "_pendingPlaceBuyLock"
  batch : Zero fields "_pendingBatchBuyLock"
  orders : Zero fields "_openOrderCount"
  resting : EmptyMap fields "_restingInf"
  pending : EmptyMap fields "_pendingInf"
  live : EmptyMap fields "_liveDeals"

structure Evident (fields : Value) : Prop extends OthersClosed fields where
  busy : get fields "_busy" = some .null

def Addressless (fields : Value) : Prop :=
  ∃ object, get fields "_busy" = some (.object object) ∧ busyAddress object = none

theorem mapM_all {α β ε : Type} {f : α → Except ε β} {P : β → Prop} (xs : List α) :
    (∃ l, xs.mapM f = .ok l ∧ ∀ e ∈ l, P e) ↔ ∀ x ∈ xs, ∃ e, f x = .ok e ∧ P e := by
  constructor
  · rintro ⟨l, hl, hP⟩
    induction xs generalizing l with
    | nil => simp
    | cons x xs ih =>
      rw [List.mapM_cons] at hl
      cases hx : f x with
      | error e =>
        rw [hx] at hl
        cases hl
      | ok e =>
        cases hxs : xs.mapM f with
        | error e' =>
          rw [hx, hxs] at hl
          cases hl
        | ok l' =>
          rw [hx, hxs] at hl
          cases hl
          rw [List.forall_mem_cons] at hP
          exact List.forall_mem_cons.mpr ⟨⟨e, hx, hP.1⟩, ih l' hxs hP.2⟩
  · intro h
    induction xs with
    | nil => exact ⟨[], rfl, by simp⟩
    | cons x xs ih =>
      obtain ⟨⟨e, hx, he⟩, hxs⟩ := List.forall_mem_cons.mp h
      obtain ⟨l, hl, hP⟩ := ih hxs
      refine ⟨e :: l, ?_, List.forall_mem_cons.mpr ⟨he, hP⟩⟩
      rw [List.mapM_cons, hx, hl]
      rfl

theorem lockedEntry_zero (f : String × Value) :
    (∃ e, lockedEntry f = .ok e ∧ e.2 = 0) ↔
      (tokenType (.string f.1)).isSome = true ∧ amount f.2 = some 0 := by
  unfold lockedEntry
  cases tokenType (.string f.1) with
  | none => simp
  | some id => cases amount f.2 <;> simp

theorem lockedRow_zero (item : Value) :
    (∃ e, lockedRow item = .ok e ∧ e.2 = 0) ↔ ∃ key value, row item = (some key, some value) ∧
      (tokenType key).isSome = true ∧ amount value = some 0 := by
  unfold lockedRow
  constructor
  · rintro ⟨e, he, hz⟩
    split at he
    · cases he
    · cases he
    · rename_i key value hrow
      split at he
      · cases he
      · rename_i id htype
        split at he
        · cases he
        · rename_i locked hamount
          cases he
          obtain rfl : locked = 0 := hz
          exact ⟨key, value, hrow, by rw [htype]; rfl, hamount⟩
  · rintro ⟨key, value, hrow, htype, hamount⟩
    obtain ⟨id, hid⟩ := Option.isSome_iff_exists.mp htype
    exact ⟨(id, 0), by simp only [hrow, hid, hamount], rfl⟩

theorem unlocked_iff : Unlocked fields ↔
    ∃ l, lockedInOrders fields = .ok l ∧ ∀ e ∈ l, e.2 = 0 := by
  unfold Unlocked lockedInOrders
  cases get fields lockedName with
  | none => simp
  | some v =>
    cases v with
    | object entries =>
      simp only [Option.some.injEq, Value.object.injEq, exists_eq_left', reduceCtorEq, false_and,
        exists_false, or_false]
      rw [mapM_all]
      exact forall₂_congr fun f _ => (lockedEntry_zero f).symm
    | array items =>
      simp only [Option.some.injEq, Value.array.injEq, exists_eq_left', reduceCtorEq, false_and,
        exists_false, false_or]
      rw [mapM_all]
      exact forall₂_congr fun item _ => (lockedRow_zero item).symm
    | _ => simp

theorem unwithdrawn_iff : Unwithdrawn fields ↔ hasWithdrawnGate fields = .ok () := by
  rw [hasWithdrawnGate_ok]
  unfold Unwithdrawn
  constructor
  · rintro (h | ⟨t, hget, hf⟩)
    · exact .inl h
    · exact .inr ⟨t, hget, saysFalse_not_true hf, hf⟩
  · rintro (h | ⟨t, hget, -, hf⟩)
    · exact .inl h
    · exact .inr ⟨t, hget, hf⟩

theorem clear_iff_closed : noteWithdrawGateFromStorage fields = .clear ↔
    OthersClosed fields ∧ (get fields "_busy" = some .null ∨ Addressless fields) := by
  rw [clear_iff]
  unfold checkGates
  simp only [bind_unit_ok, mapGate_ok, uintGate_ok, busyGate_ok, lockedGate_ok, ← unlocked_iff,
    ← unwithdrawn_iff]
  constructor
  · rintro ⟨h1, h2, h3, h4, h5, h6, h7, h8, h9, h10, h11⟩
    exact ⟨⟨h1, h3, h4, h5, h6, h7, h8, h9, h10, h11⟩, h2⟩
  · rintro ⟨h, h2⟩
    exact ⟨h.hasWithdrawn, h2, h.stakes, h.debt, h.locked, h.place, h.batch, h.orders, h.resting,
      h.pending, h.live⟩

/-! ## Sound and exact -/

/-- What is asked of the reading of one storage object: clear only on evidence for all eleven
conditions, and on a rendering of a state the contract's own answer. -/
structure Faithful (fields : Value) : Prop where
  sound : noteWithdrawGateFromStorage fields = .clear → Evident fields
  held : ∀ s, Rendered s fields → ∀ g, noteWithdrawGateFromStorage fields = .held g ↔
    ∃ c, firstFailing s = some c ∧ c.gate = g
  code : ∀ s, Rendered s fields → ∀ g, noteWithdrawGateFromStorage fields = .held g →
    ∃ e, withdrawTokens s = .error e ∧ g.exitCode = e.code
  clear : ∀ s, Rendered s fields →
    (noteWithdrawGateFromStorage fields = .clear ↔ withdrawTokens s = .ok ())

theorem rendered_exact (h : Rendered s fields) :
    (∀ g, noteWithdrawGateFromStorage fields = .held g ↔
      ∃ c, firstFailing s = some c ∧ c.gate = g) ∧
    (∀ g, noteWithdrawGateFromStorage fields = .held g →
      ∃ e, withdrawTokens s = .error e ∧ g.exitCode = e.code) ∧
    (noteWithdrawGateFromStorage fields = .clear ↔ withdrawTokens s = .ok ()) := by
  have hread := reading_exact h
  have hrun := withdrawTokens_eq s
  unfold outcome at hrun
  unfold firstFailing at hread ⊢
  cases hfind : (checks s).find? fun c => !c.met with
  | none =>
    simp only [hfind] at hread hrun
    simp [hread, hrun]
  | some c =>
    simp only [hfind] at hread hrun
    have hcode := checks_code s c (List.mem_of_find?_eq_some hfind)
    refine ⟨fun g => by simp [hread], fun g hg => ?_, by simp [hread, hrun]⟩
    rw [hread] at hg
    cases hg
    exact ⟨c.error, hrun, hcode⟩

/-- The reading is faithful unless a `_busy` object without an address stands beside ten fields that
hold nothing: the reader takes it for a latch that is open. -/
theorem faithful_iff (fields : Value) :
    Faithful fields ↔ ¬ (Addressless fields ∧ OthersClosed fields) := by
  constructor
  · rintro h ⟨haddr, hothers⟩
    have hnull := (h.sound (clear_iff_closed.mpr ⟨hothers, .inr haddr⟩)).busy
    obtain ⟨object, hget, -⟩ := haddr
    rw [hget] at hnull
    cases hnull
  · intro h
    refine ⟨fun hclear => ?_, fun s hs => (rendered_exact hs).1,
      fun s hs => (rendered_exact hs).2.1, fun s hs => (rendered_exact hs).2.2⟩
    obtain ⟨hothers, hbusy⟩ := clear_iff_closed.mp hclear
    exact { hothers with busy := hbusy.resolve_right fun haddr => h ⟨haddr, hothers⟩ }

/-- Eleven fields of a note that holds nothing, but for what `_busy` came as. -/
def closedBut (busy : Value) : Value :=
  .object [("_hasWithdrawn", .bool false), ("_busy", busy), ("_stakes", .object []),
    ("_debt", .string "0"), ("_lockedInOrders", .object [("2", .string "0")]),
    ("_pendingPlaceBuyLock", .string "0"), ("_pendingBatchBuyLock", .string "0"),
    ("_openOrderCount", .number "0"), ("_restingInf", .object []), ("_pendingInf", .object []),
    ("_liveDeals", .object [])]

example : Rendered ⟨false, none, [], 0, [(2, 0)], 0, 0, 0, [], [], [], by decide, by decide,
    by decide, by decide, by decide, by decide, by decide⟩ (closedBut .null) where
  hasWithdrawn := ⟨_, rfl, .bool false⟩
  busy := ⟨_, rfl, .none⟩
  stakes := ⟨_, rfl, .object rfl⟩
  debt := ⟨_, rfl, .decimal 0⟩
  lockedInOrders := ⟨_, rfl, .object (.cons ⟨.decimal 2, .decimal 0⟩ .nil)⟩
  pendingPlaceBuyLock := ⟨_, rfl, .decimal 0⟩
  pendingBatchBuyLock := ⟨_, rfl, .decimal 0⟩
  openOrderCount := ⟨_, rfl, RendersUint.number (n := 0) (by decide)⟩
  restingInf := ⟨_, rfl, .object rfl⟩
  pendingInf := ⟨_, rfl, .object rfl⟩
  liveDeals := ⟨_, rfl, .object rfl⟩

/-- The latch with its address under a name the reader does not know reads as open. -/
theorem unread_busy_is_clear : ¬ Faithful (closedBut (.object [("address", .string "0:22")])) := by
  intro h
  have hclear : noteWithdrawGateFromStorage (closedBut (.object [("address", .string "0:22")])) =
      .clear := by
    decide
  have hbusy := (h.sound hclear).busy
  simp [WithdrawGateReader.get, closedBut, Value.asObject, List.lookup] at hbusy

end WithdrawTokens
