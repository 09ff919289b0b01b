import Dexdo.TextForms
import Mathlib.Data.Nat.Digits.Defs

/-! # Unsigned integers as text

What a reader of a fixed width makes of a text of digits in a radix, and the two usual renderings
it takes back: the shortest decimal one and a hexadecimal one of any width. -/
namespace TextNumbers

open TextForms

def toDigit (radix : ℕ) (c : Char) : Option ℕ :=
  let value :=
    if c.isDigit then some (c.toNat - 48)
    else if 'a'.toNat ≤ c.toNat ∧ c.toNat ≤ 'f'.toNat then some (c.toNat - 87)
    else if 'A'.toNat ≤ c.toNat ∧ c.toNat ≤ 'F'.toNat then some (c.toNat - 55)
    else none
  value.filter (· < radix)

def pushDigit (radix n : ℕ) (c : Char) : Option ℕ := (toDigit radix c).map (radix * n + ·)

def readDigits (radix : ℕ) (s : Text) : Option ℕ := s.foldlM (pushDigit radix) 0

def unsigned (s : Text) : Text :=
  match s with
  | '+' :: rest => rest
  | _ => s

def fromStrRadix (bits radix : ℕ) (s : Text) : Option ℕ :=
  if unsigned s = [] then none
  else (readDigits radix (unsigned s)).filter (· < 2 ^ bits)

/-- Decimal, or hexadecimal behind `0x` or `0X`, with spaces around it. -/
def readUint (bits : ℕ) (s : Text) : Option ℕ :=
  match (stripPrefix ['0', 'x'] (trim s)).or (stripPrefix ['0', 'X'] (trim s)) with
  | some hex => fromStrRadix bits 16 hex
  | none => fromStrRadix bits 10 (trim s)

variable {bits radix n k : ℕ} {s : Text} {c : Char}

theorem readDigits_append (radix : ℕ) (s t : Text) :
    readDigits radix (s ++ t) = (readDigits radix s).bind fun n => t.foldlM (pushDigit radix) n := by
  unfold readDigits
  rw [List.foldlM_append]
  rfl

/-! ## Hexadecimal -/

theorem hexDigit_mem : ∀ k < 16, hexDigits.getD k '0' ∈ hexDigits := by
  decide

theorem toDigit_hex : ∀ k < 16, toDigit 16 (hexDigits.getD k '0') = some k := by
  decide

theorem hexText_digits (width n : ℕ) : ∀ c ∈ hexText width n, c ∈ hexDigits := by
  induction width generalizing n with
  | zero => simp [hexText]
  | succ width ih =>
    intro c hc
    rcases List.mem_append.mp hc with hc | hc
    · exact ih (n / 16) c hc
    · rw [List.mem_singleton] at hc
      rw [hc]
      exact hexDigit_mem _ (Nat.mod_lt n (by decide))

theorem readDigits_hexText (width : ℕ) : ∀ n, n < 16 ^ width →
    readDigits 16 (hexText width n) = some n := by
  induction width with
  | zero =>
    intro n hn
    obtain rfl : n = 0 := by omega
    rfl
  | succ width ih =>
    intro n hn
    have hdiv : n / 16 < 16 ^ width := by
      rw [Nat.div_lt_iff_lt_mul (by decide)]
      rwa [pow_succ] at hn
    have hsplit : 16 * (n / 16) + n % 16 = n := Nat.div_add_mod n 16
    have hlast := toDigit_hex _ (Nat.mod_lt n (by decide : 0 < 16))
    unfold hexText
    rw [readDigits_append, ih _ hdiv, Option.bind_some, List.foldlM_cons, pushDigit, hlast,
      Option.map_some, hsplit]
    rfl

/-! ## Decimal -/

theorem toDigit_decimal (h : c.isDigit = true) : toDigit 10 c = some (c.toNat - '0'.toNat) := by
  have hrange : c.toNat ≤ 57 := by
    simp only [Char.isDigit, Bool.and_eq_true, decide_eq_true_eq] at h
    exact h.2
  have hlt : c.toNat - 48 < 10 := by omega
  simp [toDigit, h, Option.filter, hlt]

theorem foldlM_decimal (s : Text) (h : ∀ c ∈ s, c.isDigit = true) (n : ℕ) :
    s.foldlM (pushDigit 10) n = some (Nat.ofDigitChars 10 s n) := by
  induction s generalizing n with
  | nil => rfl
  | cons c s ih =>
    obtain ⟨hc, hs⟩ := List.forall_mem_cons.mp h
    rw [List.foldlM_cons, Nat.ofDigitChars_cons]
    simp only [pushDigit, toDigit_decimal hc, Option.map_some, Option.bind_eq_bind,
      Option.bind_some]
    exact ih hs _

theorem decimal_digits (n : ℕ) : ∀ c ∈ n.repr.toList, c.isDigit = true := by
  rw [Nat.toList_repr]
  intro c hc
  exact Nat.isDigit_of_mem_toDigits (by decide) (by decide) hc

theorem decimal_ne_nil (n : ℕ) : n.repr.toList ≠ [] := by
  rw [Nat.toList_repr]
  exact Nat.toDigits_ne_nil

theorem readDigits_decimal (n : ℕ) : readDigits 10 n.repr.toList = some n := by
  unfold readDigits
  rw [foldlM_decimal _ (decimal_digits n), Nat.toList_repr, Nat.ofDigitChars_ten_toDigits]

/-! ## What the reader takes -/

theorem unsigned_of_head (h : ∀ c ∈ s, c ≠ '+') : unsigned s = s := by
  unfold unsigned
  split
  · exact absurd rfl (h '+' List.mem_cons_self)
  · rfl

theorem fromStrRadix_digits (hne : s ≠ []) (hplus : ∀ c ∈ s, c ≠ '+')
    (hread : readDigits radix s = some n) (hlt : n < 2 ^ bits) :
    fromStrRadix bits radix s = some n := by
  unfold fromStrRadix
  rw [unsigned_of_head hplus, if_neg hne, hread]
  simp [Option.filter, hlt]

theorem isDigit_plain (h : c.isDigit = true) : isSpace c = false ∧ c ≠ '+' ∧ c ≠ 'x' ∧ c ≠ 'X' := by
  have hrange : 48 ≤ c.toNat ∧ c.toNat ≤ 57 := by
    simp only [Char.isDigit, Bool.and_eq_true, decide_eq_true_eq] at h
    exact h
  refine ⟨?_, ?_, ?_, ?_⟩
  · simp only [isSpace]
    generalize c.toNat = k at hrange
    simp
    omega
  all_goals
    rintro rfl
    revert hrange
    decide

theorem readUint_decimal (hlt : n < 2 ^ bits) : readUint bits n.repr.toList = some n := by
  have hdigits := decimal_digits n
  have htrim : trim n.repr.toList = n.repr.toList :=
    trim_of_none fun c hc => (isDigit_plain (hdigits c hc)).1
  have hnone : ∀ x, x = 'x' ∨ x = 'X' → stripPrefix ['0', x] n.repr.toList = none := by
    intro x hx
    unfold stripPrefix
    rw [if_neg]
    intro hpre
    have hmem : x ∈ n.repr.toList := hpre.subset (by simp)
    have hplain := isDigit_plain (hdigits x hmem)
    rcases hx with rfl | rfl
    · exact hplain.2.2.1 rfl
    · exact hplain.2.2.2 rfl
  unfold readUint
  rw [htrim, hnone 'x' (.inl rfl), hnone 'X' (.inr rfl)]
  exact fromStrRadix_digits (decimal_ne_nil n) (fun c hc => (isDigit_plain (hdigits c hc)).2.1)
    (readDigits_decimal n) hlt

theorem hexDigits_no_plus : ∀ c ∈ hexDigits, c ≠ '+' := by
  have hall : hexDigits.all (fun c => decide (c ≠ '+')) = true := by decide
  exact fun c hc => of_decide_eq_true (List.all_eq_true.mp hall c hc)

theorem readUint_hex (width : ℕ) (hwidth : n < 16 ^ (width + 1)) (hlt : n < 2 ^ bits) :
    readUint bits ('0' :: 'x' :: hexText (width + 1) n) = some n := by
  have hdigits := hexText_digits (width + 1) n
  have htrim : trim ('0' :: 'x' :: hexText (width + 1) n) = '0' :: 'x' :: hexText (width + 1) n := by
    apply trim_of_none
    intro c hc
    rcases List.mem_cons.mp hc with rfl | hc
    · decide
    rcases List.mem_cons.mp hc with rfl | hc
    · decide
    · exact (hexDigits_plain c (hdigits c hc)).1
  have hstrip : stripPrefix ['0', 'x'] ('0' :: 'x' :: hexText (width + 1) n) =
      some (hexText (width + 1) n) := by
    unfold stripPrefix
    rw [if_pos ⟨hexText (width + 1) n, rfl⟩]
    rfl
  have hne : hexText (width + 1) n ≠ [] := by simp [hexText]
  unfold readUint
  rw [htrim, hstrip]
  exact fromStrRadix_digits hne (fun c hc => hexDigits_no_plus c (hdigits c hc))
    (readDigits_hexText _ _ hwidth) hlt

end TextNumbers
