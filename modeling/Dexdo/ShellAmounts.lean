import Dexdo.BuyTarget
import Dexdo.FallibleSteps
import Dexdo.TextNumbers
import Mathlib.Algebra.Order.Field.Rat
import Mathlib.Tactic.FieldSimp
import Mathlib.Tactic.Ring

/-! # Amounts of SHELL as text

`crates/core/src/params.rs`: the printer of every SHELL figure and the one reader of SHELL
arguments, against the numerals the reader is there to take. -/
namespace ShellAmounts

open TextForms TextNumbers FallibleSteps
open BuyTarget (shellUnit shellAmount)

/-! ## The reader -/

def byteLength (s : Text) : ℕ := (s.map Char.utf8Size).sum

def checked (x : ℕ) : Option ℕ := if x < 2 ^ 128 then some x else none

def half (s : Text) (refusal : String) : Except String ℕ :=
  if s = [] then .ok 0
  else
    match fromStrRadix 128 10 s with
    | some n => .ok n
    | none => .error refusal

def scaled (whole decimals places : ℕ) : Option ℕ := do
  let raw ← checked (whole * shellUnit)
  let part ← checked (decimals * 10 ^ (9 - places))
  checked (raw + part)

def parts (t : Text) : Text × Text := (splitOnce ['.'] t).getD (t, [])

/-- The reader after trimming. -/
def readAmount (t : Text) : Except String ℕ :=
  let named := "amount " ++ String.ofList t ++ " SHELL "
  let bad := fun what => named ++ "is not a number: " ++ what
  if t = [] then .error "amount is empty; state it in SHELL, for example 6.15"
  else if byteLength (parts t).2 > 9 then
    .error (named ++ "is finer than one raw ECC[2] unit (0.000000001 SHELL); nine decimals is " ++
      "the whole of a SHELL")
  -- the integer parser alone would take a leading `+` in either half
  else if '+' ∈ t then .error (bad "a sign has no place in an amount")
  else do
    let whole ← half (parts t).1 (bad "the part before the point")
    let decimals ← half (parts t).2 (bad "the part after the point")
    match scaled whole decimals (byteLength (parts t).2) with
    | some raw => .ok raw
    | none => .error (named ++ "is beyond the range of an amount")

def shellAmountRaw (text : String) : Except String ℕ := readAmount (trim text.toList)

/-! ## Numerals -/

def digitsValue (s : Text) : ℕ := Nat.ofDigitChars 10 s 0

/-- The text `s` names the number `v` in decimal: digits with at most one point among them. -/
structure Numeral (s : Text) (v : ℚ) : Prop where
  halves : ∃ whole fraction, (s = whole ∧ fraction = [] ∨ s = whole ++ '.' :: fraction) ∧
    (∀ c ∈ whole ++ fraction, c.isDigit = true) ∧ whole ++ fraction ≠ [] ∧
    fraction.length ≤ 9 ∧ v = digitsValue whole + digitsValue fraction / 10 ^ fraction.length

def States (text : String) (raw : ℕ) : Prop :=
  ∃ v, Numeral (trim text.toList) v ∧ (raw : ℚ) = v * 10 ^ 9 ∧ raw < 2 ^ 128

/-- The reader takes the text for an amount just where it states one, and tells it from another
spelling just where they are different numbers. -/
structure ReadsExactly (text : String) : Prop where
  reads : ∀ raw, shellAmountRaw text = .ok raw ↔ States text raw
  tells : ∀ other v w raw, Numeral (trim text.toList) v → Numeral (trim other.toList) w →
    shellAmountRaw text = .ok raw → (shellAmountRaw other = .ok raw ↔ v = w)

variable {s t w d whole fraction : Text} {text refusal : String} {raw n : ℕ} {v : ℚ}

/-! ## Halves -/

theorem isDigit_of_toDigit {c : Char} {k : ℕ} (h : toDigit 10 c = some k) : c.isDigit = true := by
  by_contra hdigit
  unfold toDigit at h
  rw [if_neg hdigit] at h
  obtain ⟨hvalue, hsmall⟩ := Option.filter_eq_some_iff.mp h
  have hten := of_decide_eq_true hsmall
  have hlow : 'a'.toNat = 97 := rfl
  have hcap : 'A'.toNat = 65 := rfl
  split at hvalue
  · have := Option.some.inj hvalue
    omega
  · split at hvalue
    · have := Option.some.inj hvalue
      omega
    · cases hvalue

theorem digits_of_foldlM (s : Text) (n : ℕ) (h : (s.foldlM (pushDigit 10) n).isSome = true) :
    ∀ c ∈ s, c.isDigit = true := by
  induction s generalizing n with
  | nil => simp
  | cons c s ih =>
    rw [List.foldlM_cons] at h
    cases hpush : pushDigit 10 n c with
    | none =>
      rw [hpush] at h
      cases h
    | some m =>
      rw [hpush] at h
      obtain ⟨k, hk, -⟩ := Option.map_eq_some_iff.mp hpush
      exact List.forall_mem_cons.mpr ⟨isDigit_of_toDigit hk, ih m h⟩

theorem fromStrRadix_iff (hsign : '+' ∉ s) (hne : s ≠ []) :
    fromStrRadix 128 10 s = some n ↔
      (∀ c ∈ s, c.isDigit = true) ∧ n = digitsValue s ∧ n < 2 ^ 128 := by
  have hplain : unsigned s = s := unsigned_of_head fun c hc heq => hsign (heq ▸ hc)
  unfold fromStrRadix readDigits
  rw [hplain, if_neg hne, Option.filter_eq_some_iff]
  constructor
  · rintro ⟨hread, hlt⟩
    have hdigits := digits_of_foldlM s 0 (by rw [hread]; rfl)
    rw [foldlM_decimal s hdigits] at hread
    exact ⟨hdigits, (Option.some.inj hread).symm, of_decide_eq_true hlt⟩
  · rintro ⟨hdigits, rfl, hlt⟩
    exact ⟨foldlM_decimal s hdigits 0, decide_eq_true hlt⟩

theorem half_iff (hsign : '+' ∉ s) :
    half s refusal = .ok n ↔
      (∀ c ∈ s, c.isDigit = true) ∧ n = digitsValue s ∧ n < 2 ^ 128 := by
  unfold half
  by_cases hne : s = []
  · subst hne
    have hzero : digitsValue [] = 0 := rfl
    rw [if_pos rfl, hzero, Except.ok.injEq]
    constructor
    · rintro rfl
      exact ⟨by simp, rfl, by decide⟩
    · rintro ⟨-, rfl, -⟩
      rfl
  · rw [if_neg hne, ← fromStrRadix_iff hsign hne]
    cases fromStrRadix 128 10 s with
    | none => simp
    | some m => simp

/-! ## The point -/

theorem parts_point (h : '.' ∉ w) : parts (w ++ '.' :: d) = (w, d) := by
  have hsplit : splitOnce ['.'] (w ++ ['.'] ++ d) = some (w, d) := splitOnce_append h
  simp only [List.append_assoc, List.cons_append, List.nil_append] at hsplit
  unfold parts
  rw [hsplit]
  rfl

theorem parts_plain (h : '.' ∉ t) : parts t = (t, []) := by
  unfold parts
  rw [splitOnce_none]
  · rfl
  · rintro l r rfl
    simp at h

theorem parts_spec (t : Text) :
    t = (parts t).1 ∧ (parts t).2 = [] ∨ t = (parts t).1 ++ '.' :: (parts t).2 := by
  by_cases h : '.' ∈ t
  · obtain ⟨l, r, rfl, hl⟩ := List.eq_append_cons_of_mem h
    rw [parts_point hl]
    exact .inr rfl
  · rw [parts_plain h]
    exact .inl ⟨rfl, rfl⟩

theorem point_not_digit (h : ∀ c ∈ s, c.isDigit = true) : '.' ∉ s := by
  intro hmem
  have := h '.' hmem
  revert this
  decide

theorem numeral_iff : Numeral t v ↔
    (∀ c ∈ (parts t).1 ++ (parts t).2, c.isDigit = true) ∧ (parts t).1 ++ (parts t).2 ≠ [] ∧
      (parts t).2.length ≤ 9 ∧
      v = digitsValue (parts t).1 + digitsValue (parts t).2 / 10 ^ (parts t).2.length := by
  constructor
  · rintro ⟨whole, fraction, hshape, hdigits, hrest⟩
    have hwhole : '.' ∉ whole :=
      point_not_digit fun c hc => hdigits c (List.mem_append_left _ hc)
    have hparts : parts t = (whole, fraction) := by
      rcases hshape with ⟨rfl, rfl⟩ | rfl
      · exact parts_plain hwhole
      · exact parts_point hwhole
    rw [hparts]
    exact ⟨hdigits, hrest⟩
  · intro h
    exact ⟨_, _, parts_spec t, h⟩

/-! ## The reader takes what its numeral states -/

theorem checked_iff {x y : ℕ} : checked x = some y ↔ x = y ∧ y < 2 ^ 128 := by
  unfold checked
  by_cases h : x < 2 ^ 128
  · rw [if_pos h, Option.some.injEq]
    constructor
    · rintro rfl
      exact ⟨rfl, h⟩
    · exact And.left
  · rw [if_neg h]
    constructor
    · intro hnone
      cases hnone
    · rintro ⟨rfl, hlt⟩
      exact absurd hlt h

theorem scaled_iff {whole decimals places : ℕ} :
    scaled whole decimals places = some raw ↔
      raw = whole * shellUnit + decimals * 10 ^ (9 - places) ∧ raw < 2 ^ 128 := by
  unfold scaled
  simp only [Option.bind_eq_bind, Option.bind_eq_some_iff, checked_iff]
  constructor
  · rintro ⟨_, ⟨rfl, -⟩, _, ⟨rfl, -⟩, rfl, hlt⟩
    exact ⟨rfl, hlt⟩
  · rintro ⟨rfl, hlt⟩
    exact ⟨_, ⟨rfl, by omega⟩, _, ⟨rfl, by omega⟩, rfl, hlt⟩

theorem utf8Size_digit {c : Char} (h : c.isDigit = true) : c.utf8Size = 1 := by
  rw [Char.utf8Size_eq_one_iff]
  simp only [Char.isDigit, Bool.and_eq_true, decide_eq_true_eq] at h
  exact UInt32.le_trans h.2 (by decide)

theorem byteLength_digits (h : ∀ c ∈ s, c.isDigit = true) : byteLength s = s.length := by
  induction s with
  | nil => rfl
  | cons c s ih =>
    obtain ⟨hc, hs⟩ := List.forall_mem_cons.mp h
    have htail := ih hs
    unfold byteLength at htail ⊢
    rw [List.map_cons, List.sum_cons, utf8Size_digit hc, htail, List.length_cons, Nat.add_comm]

theorem sign_not_digit (h : ∀ c ∈ s, c.isDigit = true) : '+' ∉ s :=
  fun hmem => (isDigit_plain (h '+' hmem)).2.1 rfl

theorem sign_of_parts : '+' ∈ t ↔ '+' ∈ (parts t).1 ++ (parts t).2 := by
  have hspec := parts_spec t
  generalize parts t = p at hspec ⊢
  obtain ⟨w, d⟩ := p
  rcases hspec with ⟨rfl, hd⟩ | rfl
  · simp_all
  · simp

def amountOf (t : Text) : ℕ :=
  digitsValue (parts t).1 * shellUnit + digitsValue (parts t).2 * 10 ^ (9 - (parts t).2.length)

theorem taken_ok {x : Option ℕ} :
    (match x with
      | some raw => .ok raw
      | none => .error refusal : Except String ℕ) = .ok raw ↔ x = some raw := by
  cases x with
  | none => exact ⟨nofun, nofun⟩
  | some m => exact ⟨fun h => congrArg some (Except.ok.inj h), fun h => Option.some.inj h ▸ rfl⟩

/-- Exactly what is taken for an amount. -/
theorem readAmount_iff : readAmount t = .ok raw ↔
    t ≠ [] ∧ (∀ c ∈ (parts t).1 ++ (parts t).2, c.isDigit = true) ∧ (parts t).2.length ≤ 9 ∧
      raw = amountOf t ∧ raw < 2 ^ 128 := by
  have hsign := sign_of_parts (t := t)
  unfold readAmount amountOf
  simp only [refuse_ok, bind_ok, taken_ok, scaled_iff]
  generalize parts t = p at hsign ⊢
  obtain ⟨w, d⟩ := p
  constructor
  · rintro ⟨hne, hlong, hplus, whole, hwhole, decimals, hdecimals, hraw⟩
    have hmem := List.mem_append.not.mp (hsign.not.mp hplus)
    obtain ⟨hw, rfl, -⟩ := (half_iff (not_or.mp hmem).1).mp hwhole
    obtain ⟨hd, rfl, -⟩ := (half_iff (not_or.mp hmem).2).mp hdecimals
    rw [byteLength_digits hd] at hlong hraw
    exact ⟨hne, List.forall_mem_append.mpr ⟨hw, hd⟩, Nat.le_of_not_lt hlong, hraw⟩
  · rintro ⟨hne, hdigits, hlong, rfl, hlt⟩
    have hbound : digitsValue w * shellUnit + digitsValue d * 10 ^ (9 - d.length) < 2 ^ 128 := hlt
    obtain ⟨hw, hd⟩ := List.forall_mem_append.mp hdigits
    have hwhole : digitsValue w ≤ digitsValue w * shellUnit := Nat.le_mul_of_pos_right _ (by decide)
    have hpart : digitsValue d ≤ digitsValue d * 10 ^ (9 - d.length) :=
      Nat.le_mul_of_pos_right _ (by positivity)
    have hwlt : digitsValue w < 2 ^ 128 := by omega
    have hdlt : digitsValue d < 2 ^ 128 := by omega
    have hplus := sign_not_digit hdigits
    have hmem := List.mem_append.not.mp hplus
    rw [byteLength_digits hd]
    exact ⟨hne, Nat.not_lt.mpr hlong, hsign.not.mpr hplus,
      _, (half_iff (not_or.mp hmem).1).mpr ⟨hw, rfl, hwlt⟩,
      _, (half_iff (not_or.mp hmem).2).mpr ⟨hd, rfl, hdlt⟩, rfl, hlt⟩

theorem Numeral.value_unique {u : ℚ} (hu : Numeral t u) (hv : Numeral t v) : u = v :=
  (numeral_iff.mp hu).2.2.2.trans (numeral_iff.mp hv).2.2.2.symm

theorem amountOf_value (h : (parts t).2.length ≤ 9) : (amountOf t : ℚ) =
    (digitsValue (parts t).1 + digitsValue (parts t).2 / 10 ^ (parts t).2.length) * 10 ^ 9 := by
  have hunit : (shellUnit : ℚ) = 10 ^ 9 := by
    unfold shellUnit
    norm_num
  have hscale : (10 : ℚ) ^ 9 = 10 ^ (9 - (parts t).2.length) * 10 ^ (parts t).2.length := by
    rw [← pow_add, Nat.sub_add_cancel h]
  have hten : (10 : ℚ) ^ (parts t).2.length ≠ 0 := pow_ne_zero _ (by norm_num)
  unfold amountOf
  push_cast
  rw [hunit, add_mul, hscale]
  field_simp

theorem readAmount_numeral (h : t ≠ ['.']) :
    readAmount t = .ok raw ↔ ∃ v, Numeral t v ∧ (raw : ℚ) = v * 10 ^ 9 ∧ raw < 2 ^ 128 := by
  have hshape := parts_spec t
  rw [readAmount_iff]
  constructor
  · rintro ⟨hne, hdigits, hlong, rfl, hlt⟩
    refine ⟨_, numeral_iff.mpr ⟨hdigits, ?_, hlong, rfl⟩, amountOf_value hlong, hlt⟩
    intro hnil
    obtain ⟨hw, hd⟩ := List.append_eq_nil_iff.mp hnil
    rw [hw, hd] at hshape
    rcases hshape with ⟨ht, -⟩ | ht
    · exact hne ht
    · exact h ht
  · rintro ⟨v, hv, hraw, hlt⟩
    obtain ⟨hdigits, hne, hlong, rfl⟩ := numeral_iff.mp hv
    rw [← amountOf_value hlong] at hraw
    refine ⟨?_, hdigits, hlong, Nat.cast_injective hraw, hlt⟩
    rintro rfl
    exact hne rfl

theorem lone_point_read : readAmount ['.'] = .ok 0 := by
  rw [readAmount_iff]
  exact ⟨by decide, nofun, by decide, rfl, by decide⟩

theorem lone_point_no_numeral : ¬ Numeral ['.'] v :=
  fun h => (numeral_iff.mp h).2.1 rfl

/-! ## The printer -/

theorem padded_value (rest : ℕ) (k : ℕ) :
    digitsValue (List.replicate k '0' ++ (toString rest).toList) = rest := by
  unfold digitsValue
  rw [Nat.ofDigitChars_append, Nat.ofDigitChars_replicate_zero, Nat.mul_zero, Nat.toString_eq_repr,
    Nat.toList_repr, Nat.ofDigitChars_ten_toDigits]

theorem stripped_value (s : Text) : ∃ k, s.length = (s.rdropWhile (· = '0')).length + k ∧
    digitsValue s = digitsValue (s.rdropWhile (· = '0')) * 10 ^ k := by
  induction s using List.reverseRecOn with
  | nil => exact ⟨0, rfl, rfl⟩
  | append_singleton s c ih =>
    by_cases hc : c = '0'
    · subst hc
      obtain ⟨k, hlength, hvalue⟩ := ih
      rw [List.rdropWhile_concat_pos _ _ _ (by simp)]
      refine ⟨k + 1, by rw [List.length_append, hlength]; rfl, ?_⟩
      unfold digitsValue at hvalue ⊢
      rw [Nat.ofDigitChars_append, hvalue, pow_succ]
      simp [Nat.ofDigitChars_cons]
      ring
    · rw [List.rdropWhile_concat_neg _ _ _ (by simpa using hc)]
      exact ⟨0, rfl, by simp⟩

theorem stripped_digits (h : ∀ c ∈ s, c.isDigit = true) :
    ∀ c ∈ s.rdropWhile (· = '0'), c.isDigit = true :=
  fun c hc => h c ((List.rdropWhile_prefix _ s).subset hc)

theorem padded_digits (rest k : ℕ) :
    ∀ c ∈ List.replicate k '0' ++ (toString rest).toList, c.isDigit = true := by
  intro c hc
  rcases List.mem_append.mp hc with hc | hc
  · obtain rfl := List.eq_of_mem_replicate hc
    decide
  · exact decimal_digits rest c hc

theorem padded_length {rest : ℕ} (h : rest < 10 ^ 9) :
    (List.replicate (9 - (toString rest).toList.length) '0' ++ (toString rest).toList).length = 9 := by
  have hshort : (toString rest).toList.length ≤ 9 := by
    rw [Nat.toString_eq_repr, Nat.toList_repr, Nat.length_toDigits_le_iff (by decide) (by decide)]
    exact h
  rw [List.length_append, List.length_replicate]
  omega

theorem trim_digits (h : ∀ c ∈ s, c.isDigit = true ∨ c = '.') : trim s = s := by
  apply trim_of_none
  intro c hc
  rcases h c hc with hdigit | rfl
  · exact (isDigit_plain hdigit).1
  · decide

theorem readAmount_parts (hw : ∀ c ∈ w, c.isDigit = true) (hd : ∀ c ∈ d, c.isDigit = true)
    (hlong : d.length ≤ 9) (hparts : parts t = (w, d)) (ht : t ≠ []) :
    readAmount t = .ok raw ↔
      raw = digitsValue w * shellUnit + digitsValue d * 10 ^ (9 - d.length) ∧ raw < 2 ^ 128 := by
  rw [readAmount_iff]
  unfold amountOf
  rw [hparts]
  exact ⟨fun h => h.2.2.2, fun h => ⟨ht, List.forall_mem_append.mpr ⟨hw, hd⟩, hlong, h⟩⟩

theorem shellAmount_reads (raw : ℕ) :
    shellAmountRaw (shellAmount raw) = .ok raw ↔ raw < 2 ^ 128 := by
  have hwhole : ∀ c ∈ (toString (raw / shellUnit)).toList, c.isDigit = true :=
    decimal_digits (raw / shellUnit)
  have hvalue : digitsValue (toString (raw / shellUnit)).toList = raw / shellUnit :=
    padded_value (raw / shellUnit) 0
  have hpoint := point_not_digit hwhole
  have hsum : raw = raw / shellUnit * shellUnit + raw % shellUnit := by
    rw [Nat.mul_comm]
    exact (Nat.div_add_mod raw shellUnit).symm
  unfold shellAmountRaw shellAmount
  by_cases hrest : raw % shellUnit = 0
  · simp only [hrest, if_true]
    rw [trim_digits fun c hc => .inl (hwhole c hc),
      readAmount_parts hwhole (by simp) (by simp) (parts_plain hpoint) (decimal_ne_nil _), hvalue]
    have hnone : digitsValue [] * 10 ^ (9 - ([] : Text).length) = raw % shellUnit := by
      rw [hrest]
      rfl
    rw [hnone, ← hsum]
    exact and_iff_right rfl
  · have hsmall : raw % shellUnit < 10 ^ 9 := Nat.mod_lt _ (by decide)
    have hpadded := padded_digits (raw % shellUnit) (9 - (toString (raw % shellUnit)).toList.length)
    have hlength := padded_length hsmall
    have hrow := padded_value (raw % shellUnit) (9 - (toString (raw % shellUnit)).toList.length)
    simp only [hrest, if_false]
    generalize List.replicate (9 - (toString (raw % shellUnit)).toList.length) '0' ++
      (toString (raw % shellUnit)).toList = padded at hpadded hlength hrow ⊢
    obtain ⟨k, hk, hstripped⟩ := stripped_value padded
    have hd := stripped_digits hpadded
    generalize padded.rdropWhile (· = '0') = d at hk hstripped hd ⊢
    have hplaces : 9 - d.length = k := by omega
    have htext : (toString (raw / shellUnit) ++ "." ++ String.ofList d).toList =
        (toString (raw / shellUnit)).toList ++ '.' :: d := by
      simp [String.toList_append]
    have hspaces : ∀ c ∈ (toString (raw / shellUnit)).toList ++ '.' :: d,
        c.isDigit = true ∨ c = '.' := by
      intro c hc
      rcases List.mem_append.mp hc with hc | hc
      · exact .inl (hwhole c hc)
      · exact (List.mem_cons.mp hc).symm.imp_left (hd c)
    rw [htext, trim_digits hspaces, readAmount_parts hwhole hd (by omega) (parts_point hpoint)
      (by simp), hvalue, hplaces, ← hstripped, hrow, ← hsum]
    exact and_iff_right rfl

/-! ## Both directions -/

/-- Every figure of the printer is read back, and the reader takes numerals for the amounts they
state, and only numerals, unless the text is a lone point. -/
theorem amounts_exact_iff (raw : ℕ) (text : String) :
    (shellAmountRaw (shellAmount raw) = .ok raw ↔ raw < 2 ^ 128) ∧
      (ReadsExactly text ↔ trim text.toList ≠ ['.']) := by
  refine ⟨shellAmount_reads raw, ?_, ?_⟩
  · intro hexact hpoint
    have hzero : shellAmountRaw text = .ok 0 := by
      unfold shellAmountRaw
      rw [hpoint, lone_point_read]
    obtain ⟨v, hv, -⟩ := (hexact.reads 0).mp hzero
    exact lone_point_no_numeral (hpoint ▸ hv)
  · intro hpoint
    refine ⟨fun raw => readAmount_numeral hpoint, ?_⟩
    intro other v w raw hv hw htext
    have hother : trim other.toList ≠ ['.'] := fun h => lone_point_no_numeral (h ▸ hw)
    obtain ⟨u, hu, hraw, hlt⟩ := (readAmount_numeral hpoint).mp htext
    obtain rfl := hu.value_unique hv
    refine (readAmount_numeral hother).trans ⟨?_, ?_⟩
    · rintro ⟨u', hu', hraw', -⟩
      obtain rfl := hu'.value_unique hw
      exact mul_right_cancel₀ (by norm_num) (hraw.symm.trans hraw')
    · rintro rfl
      exact ⟨_, hw, hraw, hlt⟩

/-- A lone point reads as nothing at all. -/
theorem lone_point_is_an_amount :
    shellAmountRaw "." = .ok 0 ∧ ¬ ∃ raw, States "." raw := by
  refine ⟨by decide, ?_⟩
  rintro ⟨raw, v, hv, -⟩
  exact lone_point_no_numeral hv

end ShellAmounts
