import Dexdo.Addresses

/-! # What the client writes it reads back

The command line, the serde modules of address fields and the handover of a deal: whatever spelling
goes out, the same account comes in. -/
namespace AddressRoundTrips

open TextForms Addresses

/-! ## The command line -/

def quoted (s : Text) : Text := ['\x60'] ++ s ++ ['\x60']

/-- The refusal of `parse`. -/
def parseError (s : Text) : Text :=
  let s := trim s
  "invalid address ".toList ++ quoted s ++
    if containsColons s then
      ": canonical ".toList ++ quoted "<dapp_id>::<account_id>".toList ++
        " takes two 64-hex (256-bit) halves".toList
    else if (stripPrefix workchain s).isSome then
      ": the legacy ".toList ++ quoted "0:<hex>".toList ++
        " account must be exactly 64 hex chars".toList
    else
      ": expected canonical ".toList ++ quoted "<dapp_id>::<account_id>".toList ++
        " (64-hex halves) or legacy ".toList ++ quoted "0:<64 hex>".toList

def toCanonical (s : Text) : Except Text Text :=
  match parse s with
  | some a => .ok a.toText
  | none => .error (parseError s)

def toChainParam (s : Text) : Except Text Text :=
  match parse s with
  | some a => .ok a.legacy
  | none => .error (parseError s)

def argToChainParam (raw : Text) : Except Text Text :=
  let raw := trim raw
  if containsColons raw then toChainParam raw
  else
    match splitOnce [':'] raw with
    | some (first, rest) =>
      let first := trim first
      let rest := trim rest
      if isHex64 first then
        if !isHex64 rest then
          .error ("invalid address ".toList ++ quoted raw ++ ": ".toList ++ quoted first ++
            " is a DApp id, not a workchain, and ".toList ++ quoted rest ++
            " is not a 64-hex account id; the canonical form joins two 64-hex halves with ".toList ++
            quoted colons)
        else
          .error ("invalid address ".toList ++ quoted raw ++ ": ".toList ++ quoted first ++
            " is a DApp id, not a workchain; the canonical form joins the two halves with ".toList ++
            quoted colons ++ ", so this address is ".toList ++ quoted (first ++ colons ++ rest))
      else .ok raw
    | none => .ok raw

variable {s t : Text} {a b : CanonicalAddress}

theorem toChainParam_of_parse (h : parse s = some a) : toChainParam s = .ok a.legacy := by
  simp only [toChainParam, h]

theorem argToChainParam_toText (h : a.Normal) : argToChainParam a.toText = .ok a.legacy := by
  have hcolons : containsColons a.toText = true := by
    rw [containsColons, splitOnce_toText h]
    rfl
  simp only [argToChainParam, trim_toText h, hcolons, if_true]
  exact toChainParam_of_parse (parse_toText h)

theorem displaySelfDapp_of_parse (h : parse s = some a) :
    ∃ b : CanonicalAddress, b.Normal ∧ b.accountId = a.accountId ∧ displaySelfDapp s = b.toText := by
  have ha := parse_normal h
  rw [displaySelfDapp, parse_trim, h]
  dsimp only
  split_ifs
  · exact ⟨a, ha, rfl, rfl⟩
  · exact ⟨⟨a.accountId, a.accountId⟩,
      ⟨ha.account, ha.account, ha.accountLower, ha.accountLower⟩, rfl, rfl⟩

theorem legacy_account (h : b.accountId = a.accountId) : b.legacy = a.legacy := by
  rw [CanonicalAddress.legacy, CanonicalAddress.legacy, h]

theorem argToChainParam_printed (h : parse s = some a) :
    argToChainParam (display s) = toChainParam s ∧
      argToChainParam (displaySelfDapp s) = toChainParam s := by
  rw [toChainParam_of_parse h, display_of_parse h]
  refine ⟨argToChainParam_toText (parse_normal h), ?_⟩
  obtain ⟨b, hb, hacc, hshow⟩ := displaySelfDapp_of_parse h
  rw [hshow, argToChainParam_toText hb, legacy_account hacc]

theorem toCanonical_idempotent (h : toCanonical s = .ok t) : toCanonical t = .ok t := by
  cases hs : parse s with
  | none => simp [toCanonical, hs] at h
  | some a =>
    simp only [toCanonical, hs, Except.ok.injEq] at h
    subst h
    simp only [toCanonical, parse_toText (parse_normal hs)]

/-! ## The serde modules -/

inductive Spelling where
  | canonical
  | selfDapp
  deriving DecidableEq, Repr

def Spelling.serialize : Spelling → Text → Text
  | canonical => display
  | selfDapp => displaySelfDapp

def Spelling.reread (m : Spelling) (s : Text) : Text := deserialized (m.serialize s)

def Spelling.serializeOpt (m : Spelling) (s : Option Text) : Option Text := s.map m.serialize

def deserializedOpt (s : Option Text) : Option Text := s.map deserialized

def Spelling.rereadOpt (m : Spelling) (s : Option Text) : Option Text :=
  deserializedOpt (m.serializeOpt s)

def serializeVec (l : List Text) : List Text := l.map displaySelfDapp

def deserializedVec (l : List Text) : List Text := l.map deserialized

def rereadVec (l : List Text) : List Text := deserializedVec (serializeVec l)

theorem reread_settled (m : Spelling) (s : Text) : m.reread s = settled s := by
  cases m with
  | canonical => rfl
  | selfDapp => exact deserialized_displaySelfDapp s

theorem reread_reread (m : Spelling) (s : Text) : m.reread (m.reread s) = m.reread s := by
  simp only [reread_settled, settled_settled]

theorem rereadOpt_map (m : Spelling) (s : Option Text) : m.rereadOpt s = s.map m.reread := by
  cases s <;> rfl

theorem rereadVec_map (l : List Text) : rereadVec l = l.map Spelling.selfDapp.reread := by
  have hone : Spelling.selfDapp.reread = fun s => deserialized (displaySelfDapp s) := rfl
  rw [rereadVec, deserializedVec, serializeVec, List.map_map, hone, Function.comp_def]

theorem reread_of_parse (m : Spelling) (h : parse s = some a) :
    toChainParam s = .ok (m.reread s) := by
  rw [toChainParam_of_parse h, reread_settled, settled_of_parse h]

theorem reread_distinct (m k : Spelling) (hs : parse s = some a) (ht : parse t = some b)
    (hne : a.accountId ≠ b.accountId) : m.reread s ≠ k.reread t := by
  rw [reread_settled, reread_settled, settled_of_parse hs, settled_of_parse ht]
  intro h
  exact hne (List.append_cancel_left h)

/-! ## The handover -/

structure Handover where
  endpoint : Text
  tlsFingerprint : Text
  deriving DecidableEq, Repr

structure DealBoundHandover where
  handover : Handover
  tokenContract : Option Text

inductive Json where
  | null
  | string (s : Text)
  | other
  deriving DecidableEq, Repr

abbrev Document := List (String × Json)

def optional : Option Text → Json
  | none => .null
  | some s => .string s

/-- The object of a deal-bound handover, its fields flattened. -/
def DealBoundHandover.document (b : DealBoundHandover) : Document :=
  [("endpoint", .string b.handover.endpoint), ("tls_fingerprint", .string b.handover.tlsFingerprint),
    ("token_contract", optional (Spelling.selfDapp.serializeOpt b.tokenContract))]

def field (d : Document) (name : String) : Option Text :=
  match d.lookup name with
  | some (.string s) => some s
  | _ => none

/-- `none` where the object is no deal-bound handover. -/
def dealBound (d : Document) : Option DealBoundHandover := do
  let endpoint ← field d "endpoint"
  let tlsFingerprint ← field d "tls_fingerprint"
  match d.lookup "token_contract" with
  | none => some ⟨⟨endpoint, tlsFingerprint⟩, none⟩
  | some .null => some ⟨⟨endpoint, tlsFingerprint⟩, none⟩
  | some (.string s) => some ⟨⟨endpoint, tlsFingerprint⟩, deserializedOpt (some s)⟩
  | some .other => none

inductive HandoverDealError where
  | payload
  | unattributed
  | otherDeal (writtenFor readFrom : Text)
  deriving DecidableEq, Repr

section Bytes

variable {Bytes : Type} (toVec : Document → Bytes) (fromSlice : Bytes → Option Document)

def Handover.toDealBytes (h : Handover) (tokenContract : Text) : Bytes :=
  toVec (DealBoundHandover.document ⟨h, some tokenContract⟩)

/-- `serde_json::from_slice` reads it. -/
def Handover.fromDealBytes (bytes : Bytes) (tokenContract : Text) :
    Except HandoverDealError Handover :=
  match (fromSlice bytes).bind dealBound with
  | none => .error .payload
  | some bound =>
    match bound.tokenContract with
    | some writtenFor =>
      if lower writtenFor = lower tokenContract then .ok bound.handover
      else .error (.otherDeal writtenFor tokenContract)
    | none => .error .unattributed

def WorkchainForm (t account : Text) : Prop := t = workchain ++ account ∧ isHex64 account = true

theorem lower_legacy (ha : a.Normal) : lower a.legacy = a.legacy := by
  have hw : lower workchain = workchain := by decide
  have happ : lower a.legacy = lower workchain ++ lower a.accountId := List.map_append
  rw [happ, hw, ha.accountLower]
  rfl

theorem lower_workchain (account : Text) :
    lower (workchain ++ account) = workchain ++ lower account := by
  have hw : lower workchain = workchain := by decide
  have happ : lower (workchain ++ account) = lower workchain ++ lower account := List.map_append
  rw [happ, hw]

theorem dealBound_document (h : Handover) (tc : Text) :
    dealBound (DealBoundHandover.document ⟨h, some tc⟩) =
      some ⟨h, some (Spelling.selfDapp.reread tc)⟩ := rfl

theorem fromDealBytes_iff (h : Handover) {tc tc' account : Text} (ha : parse tc = some a)
    (hform : WorkchainForm tc' account)
    (hjson : fromSlice (h.toDealBytes toVec tc) =
      some (DealBoundHandover.document ⟨h, some tc⟩)) :
    Handover.fromDealBytes fromSlice (h.toDealBytes toVec tc) tc' = .ok h ↔
      a.accountId = lower account := by
  obtain ⟨rfl, -⟩ := hform
  unfold Handover.fromDealBytes
  rw [hjson, Option.bind_some, dealBound_document, reread_settled, settled_of_parse ha]
  dsimp only
  rw [lower_legacy (parse_normal ha), lower_workchain]
  have hcancel : a.legacy = workchain ++ lower account ↔ a.accountId = lower account :=
    List.append_right_inj workchain
  by_cases heq : a.accountId = lower account
  · rw [if_pos (hcancel.mpr heq)]
    exact iff_of_true rfl heq
  · rw [if_neg (mt hcancel.mp heq)]
    exact iff_of_false nofun heq

/-- Whatever the client prints or stores is read back as the same account. -/
theorem addresses_read_back :
    (∀ s a, parse s = some a → argToChainParam (display s) = toChainParam s ∧
      argToChainParam (displaySelfDapp s) = toChainParam s) ∧
    (∀ s a, parse s = some a → parse a.toText = some a) ∧
    (∀ s t, toCanonical s = .ok t → toCanonical t = .ok t) ∧
    (∀ (m : Spelling) (s : Text), (∀ a, parse s = some a → toChainParam s = .ok (m.reread s)) ∧
      m.reread (m.reread s) = m.reread s) ∧
    (∀ (m : Spelling) (o : Option Text), m.rereadOpt o = o.map m.reread ∧
      m.rereadOpt (m.rereadOpt o) = m.rereadOpt o) ∧
    (∀ l : List Text, rereadVec l = l.map Spelling.selfDapp.reread ∧
      rereadVec (rereadVec l) = rereadVec l) ∧
    (∀ (m k : Spelling) s t a b, parse s = some a → parse t = some b →
      a.accountId ≠ b.accountId → m.reread s ≠ k.reread t) ∧
    (∀ (h : Handover) tc tc' account a, parse tc = some a → WorkchainForm tc' account →
      fromSlice (h.toDealBytes toVec tc) = some (DealBoundHandover.document ⟨h, some tc⟩) →
      (Handover.fromDealBytes fromSlice (h.toDealBytes toVec tc) tc' = .ok h ↔
        a.accountId = lower account)) := by
  refine ⟨fun s a h => argToChainParam_printed h, fun s a h => parse_toText (parse_normal h),
    fun s t h => toCanonical_idempotent h, fun m s => ⟨fun a h => reread_of_parse m h,
      reread_reread m s⟩, fun m o => ⟨rereadOpt_map m o, ?_⟩, fun l => ⟨rereadVec_map l, ?_⟩,
    fun m k s t a b hs ht hne => reread_distinct m k hs ht hne,
    fun h tc tc' account a ha hform hjson => fromDealBytes_iff toVec fromSlice h ha hform hjson⟩
  · cases o with
    | none => rfl
    | some s => simp only [rereadOpt_map, Option.map_some, reread_reread]
  · simp only [rereadVec_map, List.map_map, Function.comp_def, reread_reread]

end Bytes

section Example

def gateway : Handover := ⟨"https://gw.example:8443".toList, "aa:bb".toList⟩

def dealAddress : Text := workchain ++ List.replicate 64 'a'

def dealDocument : Document := DealBoundHandover.document ⟨gateway, some dealAddress⟩

def fieldText : String × Json → Text
  | (name, .null) => ['"'] ++ name.toList ++ "\":null".toList
  | (name, .string s) => ['"'] ++ name.toList ++ "\":\"".toList ++ s ++ ['"']
  | (name, .other) => ['"'] ++ name.toList ++ "\":0".toList

def objectText (d : Document) : Text :=
  ['\x7b'] ++ [','].intercalate (d.map fieldText) ++ ['\x7d']

def readExample (bytes : Text) : Option Document :=
  if bytes = objectText dealDocument then some dealDocument else none

theorem handover_opens_its_deal :
    Handover.fromDealBytes readExample (gateway.toDealBytes objectText dealAddress)
      (workchain ++ List.replicate 64 'A') = .ok gateway ∧
    argToChainParam (displaySelfDapp dealAddress) = toChainParam dealAddress := by
  have hparse : parse dealAddress = some ⟨dexdoDappId, List.replicate 64 'a'⟩ := by
    decide
  have hread : readExample (gateway.toDealBytes objectText dealAddress) = some dealDocument := by
    unfold readExample Handover.toDealBytes dealDocument
    rw [if_pos rfl]
  have hform : WorkchainForm (workchain ++ List.replicate 64 'A') (List.replicate 64 'A') :=
    ⟨rfl, by decide⟩
  obtain ⟨hprint, -, -, -, -, -, -, hopen⟩ := addresses_read_back objectText readExample
  exact ⟨(hopen gateway dealAddress _ _ _ hparse hform hread).mpr (by decide),
    (hprint _ _ hparse).2⟩

end Example

end AddressRoundTrips
