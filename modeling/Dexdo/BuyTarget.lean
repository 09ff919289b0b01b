import Mathlib.Data.List.DropRight
import Mathlib.Data.String.Basic
import Dexdo.ExecutableQuote

/-! # The target of a buy

`crates/core/src/chain/backends.rs`: before it sends escrow the buyer's client picks, among the asks
of the model's book, the one its all-or-none BUY would cross, and refuses where there is none or
where that is not the deal the buyer named. -/
namespace BuyTarget

open TokenContractState (u128)
open ExecutableQuote

/-! ## Texts -/

def shellUnit : ℕ := 1000000000

def shellAmount (raw : ℕ) : String :=
  let whole := raw / shellUnit
  let rest := raw % shellUnit
  if rest = 0 then toString whole
  else
    let digits := (toString rest).toList
    let decimals := List.replicate (9 - digits.length) '0' ++ digits
    toString whole ++ "." ++ String.ofList (decimals.rdropWhile (· = '0'))

def priceCeilingShell (raw : ℕ) : ℕ := (raw + (shellUnit - 1)) / shellUnit

def expiredCounterpartyAskReason : String := "counterparty ask expired at"
def insufficientHeadAskReason : String := "refusing multi-ask fill:"
def emptyModelBookReason : String := "no resting asks in this model book"

/-! ## Expiry -/

structure LapsedAsk where
  deadline : ℕ
  now : ℕ
  deriving DecidableEq, Repr

def LapsedAsk.describe (l : LapsedAsk) : String :=
  "expired at unix " ++ toString l.deadline ++ ", " ++ toString (l.now - l.deadline) ++
    " seconds before this selection at unix " ++ toString l.now

def askExpiry (ask : OrderBookOrder) (now : ℕ) : Option LapsedAsk :=
  if ask.deadline ≠ 0 ∧ ask.deadline ≤ now then some ⟨ask.deadline, now⟩ else none

/-- `live_selection_candidates`: the live asks, and the lapsed ones with their deadlines. -/
def liveSelectionCandidates (asks : List OrderBookOrder) (now : ℕ) :
    List OrderBookOrder × List (OrderBookOrder × LapsedAsk) :=
  let resting := asks.filter OrderBookOrder.isRestingAsk
  (resting.filter fun ask => (askExpiry ask now).isNone,
    resting.filterMap fun ask => (askExpiry ask now).map (ask, ·))

section Client

variable (display : String → String)

def coalescedLiveCandidates (asks : List OrderBookOrder) (now : ℕ) :
    Except String (List OrderBookOrder × List (OrderBookOrder × LapsedAsk)) := do
  let (live, lapsed) := liveSelectionCandidates asks now
  return (← coalesceEquivalentRestingAsks display live, lapsed)

/-! ## The choice -/

/-- `min_by_key` on the price and the id of the ask of an item: the first of the least. -/
def leastBy {α : Type} (ask : α → OrderBookOrder) : List α → Option α
  | [] => none
  | a :: l =>
    match leastBy ask l with
    | none => some a
    | some b => if PriceTimeLe (ask a) (ask b) then some a else some b

def leastAsk : List OrderBookOrder → Option OrderBookOrder := leastBy id

def crossing (maxPricePerTick : ℕ) (asks : List OrderBookOrder) : List OrderBookOrder :=
  asks.filter fun ask => decide (ask.pricePerTick ≤ maxPricePerTick)

def nextMatchingAsk (asks : List OrderBookOrder) (maxPricePerTick ticks : ℕ) :
    Option OrderBookOrder :=
  leastAsk (asks.filter fun ask => decide (ask.pricePerTick ≤ maxPricePerTick ∧ ask.ticks ≥ ticks))

def shownTokenContract (ask : OrderBookOrder) : String :=
  match ask.tokenContract with
  | some tc => display tc
  | none => "<none>"

def describeBuyAsk (ask : OrderBookOrder) : String :=
  "order #" ++ toString ask.orderId ++ " tokenContract " ++ shownTokenContract display ask ++
    " (price " ++ toString ask.pricePerTick ++ ", ticks " ++ toString ask.ticks ++ ")"

/-! ## Refusals -/

def crossingExpiredAskReason (lapsed : List (OrderBookOrder × LapsedAsk))
    (maxPricePerTick ticks : ℕ) : Option String := do
  let (ask, expiry) ← leastBy Prod.fst
    (lapsed.filter fun x => decide (x.1.pricePerTick ≤ maxPricePerTick))
  return expiredCounterpartyAskReason ++ " " ++ toString expiry.deadline ++
    ": every ask crossing this buy is out of the book by its own deadline; nearest is " ++
    describeBuyAsk display ask ++ " which " ++ expiry.describe ++
    ". An expired ask cannot be matched, so no escrow was sent and a higher " ++
    "--max-price-per-tick would not help; wait for the seller to repost. Requested ticks " ++
    toString ticks ++ ", max_price_per_tick " ++ toString maxPricePerTick

def noMatchingAskReason (asks : List OrderBookOrder) (maxPricePerTick ticks : ℕ) : String :=
  let ceiling := shellAmount maxPricePerTick
  match leastAsk asks with
  | some best =>
    if best.pricePerTick > maxPricePerTick then
      "best ask price " ++ shellAmount best.pricePerTick ++ " is above buyer max_price_per_tick " ++
        ceiling ++ "; requested ticks " ++ toString ticks ++
        ". Raise --max-price-per-tick to at least " ++
        toString (priceCeilingShell best.pricePerTick) ++ " or wait for a cheaper ask"
    else
      "no matchable ask for max_price_per_tick " ++ ceiling ++ ", requested ticks " ++
        toString ticks ++ ". Best ask is order #" ++ toString best.orderId ++ " tokenContract " ++
        best.tokenContract.getD "<none>" ++ " (price " ++ shellAmount best.pricePerTick ++
        ", ticks " ++ toString best.ticks ++ ")"
  | none => emptyModelBookReason ++ " for max_price_per_tick " ++ ceiling ++ ", requested ticks " ++
      toString ticks

def noSelectableAskReason (live : List OrderBookOrder) (lapsed : List (OrderBookOrder × LapsedAsk))
    (maxPricePerTick ticks : ℕ) : String :=
  (crossingExpiredAskReason display lapsed maxPricePerTick ticks).getD
    (noMatchingAskReason live maxPricePerTick ticks)

def checkSingleHeadCapacity (ask : OrderBookOrder) (ticks : ℕ) : Except String Unit :=
  if ask.ticks ≥ ticks then .ok ()
  else .error (insufficientHeadAskReason ++ " order #" ++ toString ask.orderId ++
    " tokenContract " ++ ask.tokenContract.getD "<none>" ++ " has only " ++ toString ask.ticks ++
    " ticks, buyer requested " ++ toString ticks ++ ", and no other crossing ask carries the " ++
    "whole request either. The whole volume must come from one seller, so asks smaller than the " ++
    "request cannot be added together.")

def expectErr (r : Except String Unit) : String :=
  match r with
  | .ok _ => ""
  | .error e => e

def selectedModelBuyAsk (asks : List OrderBookOrder) (maxPricePerTick ticks now : ℕ) :
    Except String OrderBookOrder := do
  let (live, lapsed) ← coalescedLiveCandidates display asks now
  match nextMatchingAsk live maxPricePerTick ticks with
  | some best => return best
  | none =>
    match leastAsk (crossing maxPricePerTick live) with
    | some ask => throw (expectErr (checkSingleHeadCapacity ask ticks))
    | none => throw (noSelectableAskReason display live lapsed maxPricePerTick ticks)

def isExpected (tc : String) (ask : OrderBookOrder) : Bool :=
  match ask.tokenContract with
  | some t => t.toLower == tc.toLower
  | none => false

def checkExpectedBuyTarget (asks : List OrderBookOrder) (expectedTc : String)
    (maxPricePerTick ticks now : ℕ) : Except String Unit := do
  let shown := display expectedTc
  let (live, lapsed) ← coalescedLiveCandidates display asks now
  match lapsed.find? fun x => isExpected expectedTc x.1 with
  | some (ask, expiry) =>
    throw ("the expected ask " ++ describeBuyAsk display ask ++ " which " ++ expiry.describe ++
      ". An expired ask cannot be matched, so no escrow was sent")
  | none =>
    let expected := live.find? (isExpected expectedTc)
    match nextMatchingAsk live maxPricePerTick ticks with
    | none =>
      match expected with
      | some ask =>
        if ask.pricePerTick ≤ maxPricePerTick then
          throw (expectErr (checkSingleHeadCapacity ask ticks))
        else throw ("the expected ask exists but is not matchable by this buy: tokenContract " ++
          shownTokenContract display ask ++ ", price " ++ toString ask.pricePerTick ++ ", ticks " ++
          toString ask.ticks ++ ", buyer max_price_per_tick " ++ toString maxPricePerTick ++
          ", requested ticks " ++ toString ticks)
      | none =>
        match crossingExpiredAskReason display lapsed maxPricePerTick ticks with
        | some reason =>
          throw ("no resting ask for expected tokenContract " ++ shown ++ "; " ++ reason)
        | none =>
          throw ("no resting ask for expected tokenContract " ++ shown ++
            ", and no matchable ask for max_price_per_tick " ++ toString maxPricePerTick ++
            ", requested ticks " ++ toString ticks)
    | some best =>
      if isExpected expectedTc best then checkSingleHeadCapacity best ticks
      else
        match expected with
        | some ask => throw ("placeInferenceBuy cannot target a TokenContract; the shared model " ++
            "book would match order #" ++ toString best.orderId ++ " tokenContract " ++
            shownTokenContract display best ++ " (price " ++ toString best.pricePerTick ++
            ", ticks " ++ toString best.ticks ++ ") before expected tokenContract " ++
            shownTokenContract display ask ++ " (order #" ++ toString ask.orderId ++ ", price " ++
            toString ask.pricePerTick ++ ", ticks " ++ toString ask.ticks ++ "). Refusing to " ++
            "send escrow into the wrong deal; buy the best matching market or clear/cancel the " ++
            "earlier ask first")
        | none => throw ("no resting ask for expected tokenContract " ++ shown ++
            "; the shared model book would match order #" ++ toString best.orderId ++
            " tokenContract " ++ shownTokenContract display best ++ " (price " ++
            toString best.pricePerTick ++ ", ticks " ++ toString best.ticks ++
            ") instead. Refusing to send escrow into the wrong deal")

end Client

variable {display : String → String} {l m : List OrderBookOrder} {a b o : OrderBookOrder}
variable {g : String × List OrderBookOrder} {groups : List (String × List OrderBookOrder)}

/-! ## The least ask -/

theorem priceTime_refl (a : OrderBookOrder) : PriceTimeLe a a := .inr ⟨rfl, le_rfl⟩

theorem leastBy_some {α : Type} {f : α → OrderBookOrder} : ∀ {l : List α} {x : α},
    leastBy f l = some x → x ∈ l ∧ ∀ y ∈ l, PriceTimeLe (f x) (f y)
  | a :: l, x, h => by
    unfold leastBy at h
    cases hl : leastBy f l with
    | none =>
      rw [hl] at h
      obtain rfl := Option.some.inj h
      have hnil : l = [] := by
        cases l with
        | nil => rfl
        | cons b l =>
          unfold leastBy at hl
          split at hl
          · cases hl
          · split at hl <;> cases hl
      subst hnil
      refine ⟨List.mem_cons_self, fun y hy => ?_⟩
      obtain rfl := List.mem_singleton.mp hy
      exact priceTime_refl _
    | some b =>
      obtain ⟨hmem, hleast⟩ := leastBy_some hl
      rw [hl] at h
      dsimp only at h
      split at h
      · rename_i hle
        obtain rfl := Option.some.inj h
        refine ⟨List.mem_cons_self, fun y hy => ?_⟩
        rcases List.mem_cons.mp hy with rfl | hy
        · exact priceTime_refl _
        · have hby := hleast y hy
          unfold PriceTimeLe at hle hby ⊢
          omega
      · rename_i hgt
        obtain rfl := Option.some.inj h
        refine ⟨List.mem_cons_of_mem _ hmem, fun y hy => ?_⟩
        rcases List.mem_cons.mp hy with rfl | hy
        · unfold PriceTimeLe at hgt ⊢
          omega
        · exact hleast y hy

theorem leastBy_none {α : Type} {f : α → OrderBookOrder} {l : List α} (h : leastBy f l = none) :
    l = [] := by
  cases l with
  | nil => rfl
  | cons a l =>
    unfold leastBy at h
    split at h
    · cases h
    · split at h <;> cases h

/-! ## Groups of a TokenContract -/

/-- A map of the asks `l` by their keys. -/
structure Groups (l : List OrderBookOrder) (groups : List (String × List OrderBookOrder)) :
    Prop where
  sorted : (groups.map Prod.fst).Pairwise (· < ·)
  group : ∀ g ∈ groups, g.2 = l.filter fun o => tcKey o = g.1
  covers : ∀ o ∈ l, tcKey o ∈ groups.map Prod.fst
  inhabited : ∀ g ∈ groups, g.2 ≠ []

theorem entryPush_keys (key : String) (o : OrderBookOrder) : ∀ (m : List (String × List OrderBookOrder))
    (k : String), k ∈ (entryPush key o m).map Prod.fst ↔ k = key ∨ k ∈ m.map Prod.fst
  | [], k => by simp [entryPush]
  | (k', group) :: m, k => by
    have ih := entryPush_keys key o m k
    unfold entryPush
    split
    · rename_i hk
      simp [hk]
    split
    · simp
    · rw [List.map_cons, List.mem_cons, ih, List.map_cons, List.mem_cons]
      exact or_left_comm

theorem entryPush_sorted (key : String) (o : OrderBookOrder) :
    ∀ {m : List (String × List OrderBookOrder)}, (m.map Prod.fst).Pairwise (· < ·) →
      ((entryPush key o m).map Prod.fst).Pairwise (· < ·)
  | [], _ => List.pairwise_singleton _ _
  | (k', group) :: m, h => by
    obtain ⟨hfirst, hrest⟩ := List.pairwise_cons.mp h
    unfold entryPush
    split
    · exact h
    rename_i hne
    split
    · rename_i hlt
      refine List.pairwise_cons.mpr ⟨fun k hk => ?_, h⟩
      rcases List.mem_cons.mp hk with rfl | hk
      · exact hlt
      · exact hlt.trans (hfirst k hk)
    · rename_i hge
      refine List.pairwise_cons.mpr ⟨fun k hk => ?_, entryPush_sorted key o hrest⟩
      rcases (entryPush_keys key o m k).mp hk with rfl | hk
      · exact lt_of_le_of_ne (not_lt.mp hge) (Ne.symm hne)
      · exact hfirst k hk

/-- The pushed order joins the group of its key, and no other group changes. -/
theorem entryPush_mem (key : String) (o : OrderBookOrder) :
    ∀ {m : List (String × List OrderBookOrder)}, (m.map Prod.fst).Pairwise (· < ·) →
      ∀ g ∈ entryPush key o m, g.1 ≠ key ∧ g ∈ m ∨
        g.1 = key ∧ ∃ old, g.2 = old ++ [o] ∧ ((key, old) ∈ m ∨ old = [] ∧ key ∉ m.map Prod.fst)
  | [], _, g, hg => by
    obtain rfl := List.mem_singleton.mp hg
    exact .inr ⟨rfl, [], rfl, .inr ⟨rfl, List.not_mem_nil⟩⟩
  | (k', group) :: m, h, g, hg => by
    obtain ⟨hfirst, hrest⟩ := List.pairwise_cons.mp h
    have hlater : ∀ g ∈ m, g.1 ≠ k' := fun g hg heq =>
      lt_irrefl k' (heq ▸ hfirst g.1 (List.mem_map_of_mem hg))
    unfold entryPush at hg
    split at hg
    · rename_i hk
      subst hk
      rcases List.mem_cons.mp hg with rfl | hg
      · exact .inr ⟨rfl, group, rfl, .inl List.mem_cons_self⟩
      · exact .inl ⟨hlater g hg, List.mem_cons_of_mem _ hg⟩
    rename_i hne
    split at hg
    · rename_i hlt
      have hsmall : ∀ k ∈ ((k', group) :: m).map Prod.fst, key < k := by
        intro k hk
        rcases List.mem_cons.mp hk with rfl | hk
        · exact hlt
        · exact hlt.trans (hfirst k hk)
      rcases List.mem_cons.mp hg with rfl | hg
      · exact .inr ⟨rfl, [], rfl, .inr ⟨rfl, fun hk => lt_irrefl key (hsmall key hk)⟩⟩
      · exact .inl ⟨(hsmall g.1 (List.mem_map_of_mem hg)).ne', hg⟩
    · rcases List.mem_cons.mp hg with rfl | hg
      · exact .inl ⟨Ne.symm hne, List.mem_cons_self⟩
      rcases entryPush_mem key o hrest g hg with ⟨hk, hin⟩ | ⟨hk, old, hold, hin⟩
      · exact .inl ⟨hk, List.mem_cons_of_mem _ hin⟩
      · refine .inr ⟨hk, old, hold, ?_⟩
        rcases hin with hin | ⟨hnil, hno⟩
        · exact .inl (List.mem_cons_of_mem _ hin)
        · refine .inr ⟨hnil, fun hk => ?_⟩
          rcases List.mem_cons.mp hk with heq | hk
          · exact hne heq
          · exact hno hk

theorem Groups.push (h : Groups l groups) (ho : o.isRestingAsk = true) :
    Groups (l ++ [o]) (pushAsk groups o) := by
  have hpush : pushAsk groups o = entryPush (tcKey o) o groups := by
    unfold pushAsk tcKey
    cases htc : o.tokenContract with
    | none =>
      simp only [OrderBookOrder.isRestingAsk, htc] at ho
      simp at ho
    | some tc => rfl
  rw [hpush]
  refine ⟨entryPush_sorted _ _ h.sorted, fun g hg => ?_, fun x hx => ?_, fun g hg => ?_⟩
  · rcases entryPush_mem _ _ h.sorted g hg with ⟨hk, hin⟩ | ⟨hk, old, hold, hin⟩
    · rw [h.group g hin, List.filter_append, List.filter_singleton, decide_eq_false (Ne.symm hk)]
      exact (List.append_nil _).symm
    · have hprev : old = l.filter fun x => tcKey x = g.1 := by
        rcases hin with hin | ⟨rfl, hno⟩
        · rw [hk]
          exact h.group _ hin
        · symm
          rw [List.filter_eq_nil_iff]
          intro x hx hkey
          refine hno ?_
          rw [← hk, ← of_decide_eq_true hkey]
          exact h.covers x hx
      rw [hold, List.filter_append, List.filter_singleton, decide_eq_true hk.symm, ← hprev]
      rfl
  · rw [entryPush_keys]
    rcases List.mem_append.mp hx with hx | hx
    · exact .inr (h.covers x hx)
    · exact .inl (congrArg tcKey (List.mem_singleton.mp hx))
  · rcases entryPush_mem _ _ h.sorted g hg with ⟨-, hin⟩ | ⟨-, old, hold, -⟩
    · exact h.inhabited g hin
    · rw [hold]
      exact List.append_ne_nil_of_right_ne_nil _ (List.cons_ne_nil _ _)

theorem Groups.pushes : ∀ {m l : List OrderBookOrder} {groups : List (String × List OrderBookOrder)},
    Groups l groups → (∀ o ∈ m, o.isRestingAsk = true) → Groups (l ++ m) (m.foldl pushAsk groups)
  | [], l, groups, h, _ => by rwa [List.append_nil]
  | o :: m, l, groups, h, hm => by
    have hstep := (h.push (hm o List.mem_cons_self)).pushes fun x hx =>
      hm x (List.mem_cons_of_mem o hx)
    rwa [List.append_assoc] at hstep

/-! ## Coalescing -/

def Unambiguous (l : List OrderBookOrder) : Prop :=
  ∀ a ∈ l, ∀ b ∈ l, tcKey a = tcKey b → equivalentRestingAsk a b = true

theorem equivalent_terms (h : equivalentRestingAsk a b = true) :
    a.pricePerTick = b.pricePerTick ∧ a.ticks = b.ticks := by
  simp only [equivalentRestingAsk, Bool.and_eq_true, beq_iff_eq] at h
  exact ⟨h.1.1.1.1.2, h.1.1.1.2⟩

theorem equivalent_join (hb : equivalentRestingAsk o a = true)
    (hc : equivalentRestingAsk o b = true) : equivalentRestingAsk a b = true := by
  simp only [equivalentRestingAsk, Bool.and_eq_true, beq_iff_eq] at hb hc ⊢
  obtain ⟨⟨⟨⟨⟨h1, h2⟩, h3⟩, h4⟩, h5⟩, h6⟩ := hb
  rw [h1, h2, h3, h4, h5, h6] at hc
  exact hc

theorem equivalent_refl (a : OrderBookOrder) : equivalentRestingAsk a a = true := by
  simp [equivalentRestingAsk]

/-- The order a group is represented by: the one with the least number. -/
theorem coalesceGroup_ok (h : coalesceGroup display g = .ok o) :
    o ∈ g.2 ∧ ∀ a ∈ g.2, o.orderId ≤ a.orderId ∧ equivalentRestingAsk o a = true := by
  have hperm : (g.2.insertionSort fun a b => a.orderId ≤ b.orderId).Perm g.2 :=
    List.perm_insertionSort _ _
  have htotal : Std.Total fun a b : OrderBookOrder => a.orderId ≤ b.orderId :=
    ⟨fun a b => Nat.le_total _ _⟩
  have htrans : IsTrans OrderBookOrder fun a b => a.orderId ≤ b.orderId :=
    ⟨fun a b c => Nat.le_trans⟩
  have hsorted := List.pairwise_insertionSort (fun a b : OrderBookOrder => a.orderId ≤ b.orderId) g.2
  unfold coalesceGroup at h
  dsimp only at h
  obtain ⟨ids, hids⟩ : ∃ ids, ids = g.2.insertionSort fun a b : OrderBookOrder =>
    a.orderId ≤ b.orderId := ⟨_, rfl⟩
  rw [← hids] at h hperm hsorted
  cases ids with
  | nil => cases h
  | cons r others =>
    dsimp only at h
    split at h
    · rename_i hall
      obtain rfl := Except.ok.inj h
      rw [List.all_eq_true] at hall
      refine ⟨hperm.mem_iff.mp List.mem_cons_self, fun a ha => ?_⟩
      rcases List.mem_cons.mp (hperm.mem_iff.mpr ha) with rfl | ha
      · exact ⟨le_rfl, equivalent_refl _⟩
      · exact ⟨(List.pairwise_cons.mp hsorted).1 a ha, hall a ha⟩
    · cases h

theorem coalesceGroup_total (hne : g.2 ≠ [])
    (h : ∀ a ∈ g.2, ∀ b ∈ g.2, equivalentRestingAsk a b = true) :
    ∃ o, coalesceGroup display g = .ok o := by
  have hperm : (g.2.insertionSort fun a b => a.orderId ≤ b.orderId).Perm g.2 :=
    List.perm_insertionSort _ _
  unfold coalesceGroup
  dsimp only
  obtain ⟨ids, hids⟩ : ∃ ids, ids = g.2.insertionSort fun a b : OrderBookOrder =>
    a.orderId ≤ b.orderId := ⟨_, rfl⟩
  rw [← hids] at hperm ⊢
  cases ids with
  | nil => exact absurd hperm.symm.eq_nil hne
  | cons r others =>
    refine ⟨r, if_pos (List.all_eq_true.mpr fun a ha => ?_)⟩
    exact h r (hperm.mem_iff.mp List.mem_cons_self) a
      (hperm.mem_iff.mp (List.mem_cons_of_mem r ha))

theorem mapM_ok {α β : Type} {f : α → Except String β} : ∀ {l : List α} {c : List β},
    l.mapM f = .ok c → (∀ y ∈ c, ∃ x ∈ l, f x = .ok y) ∧ ∀ x ∈ l, ∃ y ∈ c, f x = .ok y
  | [], c, h => by
    obtain rfl := Except.ok.inj h
    exact ⟨fun y hy => absurd hy List.not_mem_nil, fun x hx => absurd hx List.not_mem_nil⟩
  | x :: l, c, h => by
    rw [List.mapM_cons] at h
    cases hx : f x with
    | error e =>
      rw [hx] at h
      cases h
    | ok y =>
      rw [hx] at h
      cases hl : l.mapM f with
      | error e =>
        rw [hl] at h
        cases h
      | ok c' =>
        rw [hl] at h
        obtain rfl := Except.ok.inj h
        obtain ⟨h1, h2⟩ := mapM_ok hl
        refine ⟨fun z hz => ?_, fun z hz => ?_⟩
        · rcases List.mem_cons.mp hz with rfl | hz
          · exact ⟨x, List.mem_cons_self, hx⟩
          · obtain ⟨x', hx', he⟩ := h1 z hz
            exact ⟨x', List.mem_cons_of_mem _ hx', he⟩
        · rcases List.mem_cons.mp hz with rfl | hz
          · exact ⟨y, List.mem_cons_self, hx⟩
          · obtain ⟨y', hy', he⟩ := h2 z hz
            exact ⟨y', List.mem_cons_of_mem _ hy', he⟩

theorem mapM_total {α β : Type} {f : α → Except String β} : ∀ {l : List α},
    (∀ x ∈ l, ∃ y, f x = .ok y) → ∃ c, l.mapM f = .ok c
  | [], _ => ⟨[], rfl⟩
  | x :: l, h => by
    obtain ⟨y, hy⟩ := h x List.mem_cons_self
    obtain ⟨c, hc⟩ := mapM_total fun z hz => h z (List.mem_cons_of_mem x hz)
    refine ⟨y :: c, ?_⟩
    rw [List.mapM_cons, hy, hc]
    rfl

structure Coalesced (l c : List OrderBookOrder) : Prop where
  sound : ∀ o ∈ c, o ∈ l ∧ ∀ a ∈ l, tcKey a = tcKey o →
    o.orderId ≤ a.orderId ∧ equivalentRestingAsk o a = true
  covers : ∀ a ∈ l, ∃ o ∈ c, tcKey o = tcKey a

theorem coalesce_groups (hrest : ∀ o ∈ l, o.isRestingAsk = true) :
    Groups l ((l.filter OrderBookOrder.isRestingAsk).foldl pushAsk []) := by
  have hnil : Groups [] [] :=
    ⟨List.Pairwise.nil, fun g hg => absurd hg List.not_mem_nil,
      fun o ho => absurd ho List.not_mem_nil, fun g hg => absurd hg List.not_mem_nil⟩
  rw [List.filter_eq_self.mpr hrest]
  exact hnil.pushes hrest

theorem coalesce_ok {c : List OrderBookOrder} (hrest : ∀ o ∈ l, o.isRestingAsk = true)
    (h : coalesceEquivalentRestingAsks display l = .ok c) : Coalesced l c ∧ Unambiguous l := by
  have hgroups := coalesce_groups hrest
  unfold coalesceEquivalentRestingAsks at h
  dsimp only at h
  generalize (l.filter OrderBookOrder.isRestingAsk).foldl pushAsk [] = groups at h hgroups
  cases hmap : groups.mapM (coalesceGroup display) with
  | error e =>
    rw [hmap] at h
    cases h
  | ok c' =>
    rw [hmap] at h
    obtain rfl : c'.insertionSort PriceTimeLe = c := Except.ok.inj h
    obtain ⟨h1, h2⟩ := mapM_ok hmap
    have hperm : (c'.insertionSort PriceTimeLe).Perm c' := List.perm_insertionSort _ _
    -- the representative of the group of a key
    have hrep : ∀ g ∈ groups, ∀ o, coalesceGroup display g = .ok o → tcKey o = g.1 ∧ o ∈ l ∧
        ∀ a ∈ l, tcKey a = g.1 → o.orderId ≤ a.orderId ∧ equivalentRestingAsk o a = true := by
      intro g hg o ho
      obtain ⟨hmem, hleast⟩ := coalesceGroup_ok ho
      rw [hgroups.group g hg] at hmem hleast
      obtain ⟨hin, hkey⟩ := List.mem_filter.mp hmem
      exact ⟨of_decide_eq_true hkey, hin, fun a ha hk =>
        hleast a (List.mem_filter.mpr ⟨ha, decide_eq_true hk⟩)⟩
    refine ⟨⟨fun o ho => ?_, fun a ha => ?_⟩, fun a ha b hb hab => ?_⟩
    · obtain ⟨g, hg, hgo⟩ := h1 o (hperm.mem_iff.mp ho)
      obtain ⟨hk, hin, hleast⟩ := hrep g hg o hgo
      exact ⟨hin, fun a ha hak => hleast a ha (hak.trans hk)⟩
    · obtain ⟨g, hg, hga⟩ := List.mem_map.mp (hgroups.covers a ha)
      obtain ⟨o, ho, hgo⟩ := h2 g hg
      exact ⟨o, hperm.mem_iff.mpr ho, (hrep g hg o hgo).1.trans hga⟩
    · obtain ⟨g, hg, hga⟩ := List.mem_map.mp (hgroups.covers a ha)
      obtain ⟨o, -, hgo⟩ := h2 g hg
      obtain ⟨-, -, hleast⟩ := hrep g hg o hgo
      exact equivalent_join (hleast a ha hga.symm).2 (hleast b hb (hab.symm.trans hga.symm)).2

theorem coalesce_total (display : String → String) (hrest : ∀ o ∈ l, o.isRestingAsk = true) (h : Unambiguous l) :
    ∃ c, coalesceEquivalentRestingAsks display l = .ok c := by
  have hgroups := coalesce_groups hrest
  unfold coalesceEquivalentRestingAsks
  dsimp only
  generalize (l.filter OrderBookOrder.isRestingAsk).foldl pushAsk [] = groups at hgroups ⊢
  obtain ⟨c, hc⟩ := mapM_total (l := groups) (f := coalesceGroup display) fun g hg => by
    refine coalesceGroup_total (hgroups.inhabited g hg) fun a ha b hb => ?_
    rw [hgroups.group g hg] at ha hb
    obtain ⟨ha, hka⟩ := List.mem_filter.mp ha
    obtain ⟨hb, hkb⟩ := List.mem_filter.mp hb
    exact h a ha b hb ((of_decide_eq_true hka).trans (of_decide_eq_true hkb).symm)
  rw [hc]
  exact ⟨_, rfl⟩

/-! ## The first ask that fits -/

variable {rows : List OrderBookOrder} {p n now : ℕ} {tc : String}

def Live (now : ℕ) (a : OrderBookOrder) : Prop :=
  a.isRestingAsk = true ∧ askExpiry a now = none

def liveAsks (rows : List OrderBookOrder) (now : ℕ) : List OrderBookOrder :=
  (liveSelectionCandidates rows now).1

theorem mem_liveAsks : a ∈ liveAsks rows now ↔ a ∈ rows ∧ Live now a := by
  unfold liveAsks liveSelectionCandidates Live
  dsimp only
  rw [List.mem_filter, List.mem_filter, Option.isNone_iff_eq_none, and_assoc]

def Fits (p n now : ℕ) (a : OrderBookOrder) : Prop :=
  Live now a ∧ a.pricePerTick ≤ p ∧ n ≤ a.ticks

structure First (rows : List OrderBookOrder) (p n now : ℕ) (a : OrderBookOrder) : Prop where
  mem : a ∈ rows
  fits : Fits p n now a
  least : ∀ b ∈ rows, Fits p n now b → PriceTimeLe a b

theorem First.unique (hids : (rows.map OrderBookOrder.orderId).Nodup) (ha : First rows p n now a)
    (hb : First rows p n now b) : a = b := by
  refine List.inj_on_of_nodup_map hids ha.mem hb.mem ?_
  have hab := ha.least b hb.mem hb.fits
  have hba := hb.least a ha.mem ha.fits
  unfold PriceTimeLe at hab hba
  omega

/-- Coalescing does not change which ask comes first. -/
theorem nextMatchingAsk_first {c : List OrderBookOrder}
    (hids : (rows.map OrderBookOrder.orderId).Nodup) (hc : Coalesced (liveAsks rows now) c) :
    nextMatchingAsk c p n = some a ↔ First rows p n now a := by
  have hfits : ∀ {o}, o ∈ c → o.pricePerTick ≤ p ∧ o.ticks ≥ n → o ∈ rows ∧ Fits p n now o := by
    intro o ho hpn
    obtain ⟨hin, hlive⟩ := mem_liveAsks.mp (hc.sound o ho).1
    exact ⟨hin, hlive, hpn⟩
  -- the representative of a fitting ask fits, and comes no later
  have hrep : ∀ {b}, b ∈ rows → Fits p n now b →
      ∃ o ∈ c, o.pricePerTick ≤ p ∧ o.ticks ≥ n ∧ PriceTimeLe o b := by
    rintro b hb ⟨hlive, hp, hn⟩
    have hbl := mem_liveAsks.mpr ⟨hb, hlive⟩
    obtain ⟨o, ho, hkey⟩ := hc.covers b hbl
    obtain ⟨hid, heq⟩ := (hc.sound o ho).2 b hbl hkey.symm
    obtain ⟨hprice, hticks⟩ := equivalent_terms heq
    exact ⟨o, ho, hprice ▸ hp, hticks ▸ hn, .inr ⟨hprice, hid⟩⟩
  have hsome : ∀ {x}, nextMatchingAsk c p n = some x → First rows p n now x := by
    intro x hx
    obtain ⟨hmem, hleast⟩ := leastBy_some hx
    obtain ⟨hxc, hpn⟩ := List.mem_filter.mp hmem
    obtain ⟨hin, hfit⟩ := hfits hxc (of_decide_eq_true hpn)
    refine ⟨hin, hfit, fun b hb hbfit => ?_⟩
    obtain ⟨o, ho, hp, hn, hle⟩ := hrep hb hbfit
    have hxo := hleast o (List.mem_filter.mpr ⟨ho, decide_eq_true ⟨hp, hn⟩⟩)
    simp only [id_eq] at hxo
    unfold PriceTimeLe at hxo hle ⊢
    omega
  refine ⟨hsome, fun ha => ?_⟩
  cases hx : nextMatchingAsk c p n with
  | some x => rw [(hsome hx).unique hids ha]
  | none =>
    obtain ⟨o, ho, hp, hn, -⟩ := hrep ha.mem ha.fits
    have hnil := leastBy_none hx
    rw [List.filter_eq_nil_iff] at hnil
    exact absurd (decide_eq_true (p := o.pricePerTick ≤ p ∧ o.ticks ≥ n) ⟨hp, hn⟩) (hnil o ho)

theorem live_resting : ∀ o ∈ liveAsks rows now, o.isRestingAsk = true :=
  fun _ ho => (mem_liveAsks.mp ho).2.1

theorem coalescedLiveCandidates_ok {c : List OrderBookOrder}
    {lapsed : List (OrderBookOrder × LapsedAsk)}
    (h : coalescedLiveCandidates display rows now = .ok (c, lapsed)) :
    Coalesced (liveAsks rows now) c ∧ Unambiguous (liveAsks rows now) ∧
      lapsed = (liveSelectionCandidates rows now).2 := by
  unfold coalescedLiveCandidates at h
  dsimp only at h
  cases hc : coalesceEquivalentRestingAsks display (liveSelectionCandidates rows now).1 with
  | error e =>
    rw [hc] at h
    cases h
  | ok c' =>
    rw [hc] at h
    obtain ⟨rfl, rfl⟩ := Prod.mk.inj (Except.ok.inj h)
    obtain ⟨h1, h2⟩ := coalesce_ok live_resting hc
    exact ⟨h1, h2, rfl⟩

theorem coalescedLiveCandidates_total (display : String → String) (h : Unambiguous (liveAsks rows now)) :
    ∃ x, coalescedLiveCandidates display rows now = .ok x := by
  obtain ⟨c, hc⟩ := coalesce_total display live_resting h
  unfold liveAsks at hc
  unfold coalescedLiveCandidates
  dsimp only
  rw [hc]
  exact ⟨_, rfl⟩

/-- The client picks the first fitting ask, unless the live asks of some TokenContract differ. -/
theorem selectedModelBuyAsk_iff (hids : (rows.map OrderBookOrder.orderId).Nodup) :
    selectedModelBuyAsk display rows p n now = .ok a ↔
      Unambiguous (liveAsks rows now) ∧ First rows p n now a := by
  unfold selectedModelBuyAsk
  cases hx : coalescedLiveCandidates display rows now with
  | error e =>
    refine iff_of_false (by rintro ⟨⟩) ?_
    rintro ⟨hu, -⟩
    obtain ⟨x, hx'⟩ := coalescedLiveCandidates_total display hu
    rw [hx] at hx'
    cases hx'
  | ok x =>
    obtain ⟨c, lapsed⟩ := x
    obtain ⟨hc, hu, -⟩ := coalescedLiveCandidates_ok hx
    have hfirst := nextMatchingAsk_first (p := p) (n := n) (a := a) hids hc
    rw [← hfirst]
    change (match nextMatchingAsk c p n with
      | some best => Except.ok best
      | none => _) = Except.ok a ↔ _
    cases nextMatchingAsk c p n with
    | some best => exact ⟨fun h => ⟨hu, congrArg some (Except.ok.inj h)⟩,
        fun h => congrArg Except.ok (Option.some.inj h.2)⟩
    | none =>
      refine iff_of_false (fun h => ?_) fun h => by cases h.2
      dsimp only at h
      split at h <;> cases h

def Current (rows : List OrderBookOrder) (now : ℕ) (tc : String) : Prop :=
  ∀ a ∈ rows, a.isRestingAsk = true → isExpected tc a = true → askExpiry a now = none

theorem lapsed_none : ((liveSelectionCandidates rows now).2.find? fun x => isExpected tc x.1) = none ↔
    Current rows now tc := by
  unfold Current liveSelectionCandidates
  dsimp only
  rw [List.find?_eq_none]
  constructor
  · intro h a ha hrest htc
    by_contra hne
    obtain ⟨l, hl⟩ := Option.ne_none_iff_exists'.mp hne
    refine h (a, l) (List.mem_filterMap.mpr ⟨a, List.mem_filter.mpr ⟨ha, hrest⟩, ?_⟩) htc
    rw [hl]
    rfl
  · intro h x hx htc
    obtain ⟨a, ha, hax⟩ := List.mem_filterMap.mp hx
    obtain ⟨ha, hrest⟩ := List.mem_filter.mp ha
    obtain ⟨l, hl, rfl⟩ := Option.map_eq_some_iff.mp hax
    have hnone := h a ha hrest htc
    rw [hl] at hnone
    cases hnone

/-- The client lets a buy of the named deal through when its ask is the first that fits, and the
deal has no lapsed ask beside it. -/
theorem checkExpectedBuyTarget_iff (hids : (rows.map OrderBookOrder.orderId).Nodup) :
    checkExpectedBuyTarget display rows tc p n now = .ok () ↔
      Unambiguous (liveAsks rows now) ∧ Current rows now tc ∧
        ∃ a, First rows p n now a ∧ isExpected tc a = true := by
  unfold checkExpectedBuyTarget
  cases hx : coalescedLiveCandidates display rows now with
  | error e =>
    refine iff_of_false (by rintro ⟨⟩) ?_
    rintro ⟨hu, -⟩
    obtain ⟨x, hx'⟩ := coalescedLiveCandidates_total display hu
    rw [hx] at hx'
    cases hx'
  | ok x =>
    obtain ⟨c, lapsed⟩ := x
    obtain ⟨hc, hu, hlapsed⟩ := coalescedLiveCandidates_ok hx
    have hcurrent : (lapsed.find? fun x => isExpected tc x.1) = none ↔ Current rows now tc := by
      rw [hlapsed]
      exact lapsed_none
    change (match lapsed.find? fun x => isExpected tc x.1 with
      | some (ask, expiry) => _
      | none => _) = Except.ok () ↔ _
    cases hf : lapsed.find? fun x => isExpected tc x.1 with
    | some x =>
      refine iff_of_false (by rintro ⟨⟩) ?_
      rintro ⟨-, hcur, -⟩
      rw [hcurrent.mpr hcur] at hf
      cases hf
    | none =>
      have hcur := hcurrent.mp hf
      dsimp only
      cases hbest : nextMatchingAsk c p n with
      | none =>
        refine iff_of_false (fun h => ?_) ?_
        · dsimp only at h
          split at h
          · split at h <;> cases h
          · split at h <;> cases h
        · rintro ⟨-, -, a, ha, -⟩
          rw [(nextMatchingAsk_first hids hc).mpr ha] at hbest
          cases hbest
      | some best =>
        have hfirst := (nextMatchingAsk_first hids hc).mp hbest
        dsimp only
        by_cases hexp : isExpected tc best = true
        · rw [if_pos hexp]
          unfold checkSingleHeadCapacity
          rw [if_pos hfirst.fits.2.2]
          exact iff_of_true rfl ⟨hu, hcur, best, hfirst, hexp⟩
        · rw [if_neg hexp]
          refine iff_of_false (fun h => ?_) ?_
          · split at h <;> cases h
          · rintro ⟨-, -, a, ha, htc⟩
            rw [ha.unique hids hfirst] at htc
            exact hexp htc

end BuyTarget
