import Dexdo.TextForms

/-! Addresses in the two spellings of `crates/core/src/address.rs`, and the two spellings a file
field goes through: written in the public form, read back in the workchain form. -/
namespace Addresses

open TextForms

structure CanonicalAddress where
  dappId : Text
  accountId : Text
  deriving DecidableEq, Repr

def dexdoDappId : Text := List.replicate 63 '0' ++ ['4']

def colons : Text := [':', ':']

def workchain : Text := ['0', ':']

def parse (s : Text) : Option CanonicalAddress :=
  let s := trim s
  match splitOnce colons s with
  | some (dapp, account) =>
    let dapp := trim dapp
    let account := trim account
    if isHex64 dapp && isHex64 account then some ⟨lower dapp, lower account⟩ else none
  | none =>
    match stripPrefix workchain s with
    | some account => if isHex64 account then some ⟨dexdoDappId, lower account⟩ else none
    | none => none

def CanonicalAddress.legacy (a : CanonicalAddress) : Text := workchain ++ a.accountId

def CanonicalAddress.toText (a : CanonicalAddress) : Text := a.dappId ++ colons ++ a.accountId

def display (s : Text) : Text :=
  match parse s with
  | some a => a.toText
  | none => trim s

def containsColons (s : Text) : Bool := (splitOnce colons s).isSome

def displaySelfDapp (s : Text) : Text :=
  let raw := trim s
  match parse raw with
  | some a => if containsColons raw then a.toText else a.accountId ++ colons ++ a.accountId
  | none => raw

def normalizeWalletAddress (s : Text) : Option Text := (parse s).map (·.legacy)

def deserialized (s : Text) : Text :=
  match parse s with
  | some a => a.legacy
  | none => s

/-! ## What the spellings parse to -/

structure CanonicalAddress.Normal (a : CanonicalAddress) : Prop where
  dapp : isHex64 a.dappId = true
  account : isHex64 a.accountId = true
  dappLower : lower a.dappId = a.dappId
  accountLower : lower a.accountId = a.accountId

theorem dexdoDappId_hex : isHex64 dexdoDappId = true := by decide

theorem dexdoDappId_lower : lower dexdoDappId = dexdoDappId := by decide

theorem parse_normal {s : Text} {a : CanonicalAddress} (h : parse s = some a) : a.Normal := by
  simp only [parse] at h
  split at h
  · rename_i dapp account _
    split at h
    · rename_i hhex
      rw [Bool.and_eq_true] at hhex
      cases h
      exact ⟨isHex64_lower hhex.1, isHex64_lower hhex.2, lower_lower hhex.1, lower_lower hhex.2⟩
    · cases h
  · split at h
    · split at h
      · rename_i hhex
        cases h
        exact ⟨dexdoDappId_hex, isHex64_lower hhex, dexdoDappId_lower, lower_lower hhex⟩
      · cases h
    · cases h

theorem no_colon {s : Text} (h : isHex64 s = true) : ':' ∉ s :=
  fun hc => (hexDigits_plain _ (isHex64_mem h _ hc)).2.1 rfl

theorem noSpace_append {s t : Text} (hs : ∀ c ∈ s, isSpace c = false)
    (ht : ∀ c ∈ t, isSpace c = false) : ∀ c ∈ s ++ t, isSpace c = false :=
  fun c hc => (List.mem_append.mp hc).elim (hs c) (ht c)

theorem noSpace_of_any {s : Text} (h : s.any isSpace = false) : ∀ c ∈ s, isSpace c = false :=
  fun c hc => Bool.eq_false_iff.mpr (List.any_eq_false.mp h c hc)

theorem noSpace_hex {s : Text} (h : isHex64 s = true) : ∀ c ∈ s, isSpace c = false :=
  fun c hc => (hexDigits_plain c (isHex64_mem h c hc)).1

variable {a : CanonicalAddress} {s t : Text}

theorem splitOnce_toText (h : a.Normal) :
    splitOnce colons a.toText = some (a.dappId, a.accountId) :=
  splitOnce_append (no_colon h.dapp)

theorem trim_toText (h : a.Normal) : trim a.toText = a.toText :=
  trim_of_none (noSpace_append (noSpace_append (noSpace_hex h.dapp) (noSpace_of_any (by decide)))
    (noSpace_hex h.account))

theorem parse_toText (h : a.Normal) : parse a.toText = some a := by
  simp only [parse, trim_toText h, splitOnce_toText h, trim_isHex64 h.dapp,
    trim_isHex64 h.account, h.dapp, h.account, h.dappLower, h.accountLower, Bool.and_self,
    if_true]

theorem trim_legacy (h : a.Normal) : trim a.legacy = a.legacy :=
  trim_of_none (noSpace_append (noSpace_of_any (by decide)) (noSpace_hex h.account))

theorem splitOnce_legacy (h : a.Normal) : splitOnce colons a.legacy = none := by
  have hno : List.count ':' a.accountId = 0 := List.count_eq_zero.mpr (no_colon h.account)
  refine splitOnce_none fun l r hlr => ?_
  have hcount := congrArg (List.count ':') hlr
  have hone : List.count ':' workchain = 1 := by decide
  have htwo : List.count ':' (':' :: [':']) = 2 := by decide
  simp only [CanonicalAddress.legacy, List.count_append, hno, hone, htwo] at hcount
  omega

theorem parse_legacy (h : a.Normal) : parse a.legacy = some ⟨dexdoDappId, a.accountId⟩ := by
  have hstrip : stripPrefix workchain a.legacy = some a.accountId := by
    simp [stripPrefix, CanonicalAddress.legacy, workchain]
  simp only [parse, trim_legacy h, splitOnce_legacy h, hstrip, h.account, h.accountLower, if_true]

@[simp] theorem parse_trim (s : Text) : parse (trim s) = parse s := by
  simp only [parse, trim_trim]

/-! ## Writing a field and reading it back -/

theorem display_of_parse (h : parse s = some a) : display s = a.toText := by
  simp only [display, h]

theorem deserialized_of_parse (h : parse s = some a) : deserialized s = a.legacy := by
  simp only [deserialized, h]

def settled (s : Text) : Text := deserialized (display s)

theorem settled_of_parse (h : parse s = some a) : settled s = a.legacy := by
  rw [settled, display_of_parse h, deserialized_of_parse (parse_toText (parse_normal h))]

theorem settled_of_none (h : parse s = none) : settled s = trim s := by
  simp only [settled, display, deserialized, h, parse_trim]

@[simp] theorem settled_settled (s : Text) : settled (settled s) = settled s := by
  cases hs : parse s with
  | some a =>
    have hl := parse_legacy (parse_normal hs)
    rw [settled_of_parse hs, settled_of_parse hl]
    rfl
  | none =>
    rw [settled_of_none hs, settled_of_none (by rw [parse_trim, hs]), trim_trim]

@[simp] theorem settled_display (s : Text) : settled (display s) = settled s := by
  cases hs : parse s with
  | some a =>
    have ht := parse_toText (parse_normal hs)
    rw [display_of_parse hs, settled_of_parse hs, settled_of_parse ht]
  | none =>
    rw [display, hs, settled_of_none hs, settled_of_none (by rw [parse_trim, hs]), trim_trim]

theorem settled_of_normalizeWalletAddress
    (h : normalizeWalletAddress s = normalizeWalletAddress t)
    (hs : normalizeWalletAddress s ≠ none) : settled s = settled t := by
  simp only [normalizeWalletAddress] at h hs
  cases hps : parse s with
  | none => simp [hps] at hs
  | some a =>
    cases hpt : parse t with
    | none => simp [hps, hpt] at h
    | some b =>
      rw [settled_of_parse hps, settled_of_parse hpt]
      simpa [hps, hpt] using h

theorem displaySelfDapp_legacy (h : a.Normal) :
    displaySelfDapp a.legacy = (CanonicalAddress.mk a.accountId a.accountId).toText := by
  simp only [displaySelfDapp, trim_legacy h, parse_legacy h, containsColons, splitOnce_legacy h,
    Option.isSome_none, if_false, Bool.false_eq_true]
  rfl

theorem displaySelfDapp_toText (h : a.Normal) : displaySelfDapp a.toText = a.toText := by
  simp only [displaySelfDapp, trim_toText h, parse_toText h, containsColons, splitOnce_toText h,
    Option.isSome_some, if_true]

theorem deserialized_displaySelfDapp (s : Text) : deserialized (displaySelfDapp s) = settled s := by
  cases hs : parse s with
  | some a =>
    have ha := parse_normal hs
    have hself : CanonicalAddress.Normal ⟨a.accountId, a.accountId⟩ :=
      ⟨ha.account, ha.account, ha.accountLower, ha.accountLower⟩
    rw [settled_of_parse hs, displaySelfDapp, parse_trim, hs]
    dsimp only
    split_ifs
    · exact deserialized_of_parse (parse_toText ha)
    · have hparse := parse_toText hself
      exact (deserialized_of_parse hparse).trans rfl
  | none =>
    rw [settled_of_none hs, displaySelfDapp, parse_trim, hs]
    simp only [deserialized, parse_trim, hs]

theorem workchain_legacy (a : CanonicalAddress) : workchain <+: a.legacy :=
  List.prefix_append ..

theorem not_workchain_toText (h : a.Normal) : ¬ workchain <+: a.toText := by
  rintro ⟨rest, hrest⟩
  have hlen := isHex64_length h.dapp
  match hd : a.dappId with
  | [] => simp [hd] at hlen
  | [_] => simp [hd] at hlen
  | x :: y :: dapp =>
    simp only [CanonicalAddress.toText, hd, workchain, List.cons_append] at hrest
    have hy : ':' = y := (List.cons.inj (List.cons.inj hrest).2).1
    exact no_colon h.dapp (by simp [hd, ← hy])

end Addresses
