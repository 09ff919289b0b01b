import Mathlib.Data.List.DropRight

/-! Texts as lists of characters, with the string operations a reader of hand-written fields
uses: trimming, prefixes, splitting at the first separator, fixed-width hexadecimal. -/
namespace TextForms

abbrev Text := List Char

def isSpace (c : Char) : Bool :=
  let n := c.toNat
  (9 ≤ n && n ≤ 13) || n == 32 || n == 0x85 || n == 0xA0 || n == 0x1680 ||
    (0x2000 ≤ n && n ≤ 0x200A) || n == 0x2028 || n == 0x2029 || n == 0x202F || n == 0x205F ||
    n == 0x3000

def trim (s : Text) : Text := (s.dropWhile isSpace).rdropWhile isSpace

def stripPrefix (p s : Text) : Option Text :=
  if p <+: s then some (s.drop p.length) else none

/-- Every copy of a prefix taken off; `fuel` bounds the copies by the length. -/
def trimStartMatchesAux (p : Text) : ℕ → Text → Text
  | 0, s => s
  | fuel + 1, s =>
    match stripPrefix p s with
    | some rest => trimStartMatchesAux p fuel rest
    | none => s

def trimStartMatches (p s : Text) : Text := trimStartMatchesAux p s.length s

/-- The parts before and after the first occurrence of `sep`. -/
def splitOnce (sep : Text) : Text → Option (Text × Text)
  | [] => if sep = [] then some ([], []) else none
  | c :: s =>
    if sep <+: c :: s then some ([], (c :: s).drop sep.length)
    else (splitOnce sep s).map fun parts => (c :: parts.1, parts.2)

def hexDigits : List Char :=
  ['0', '1', '2', '3', '4', '5', '6', '7', '8', '9', 'a', 'b', 'c', 'd', 'e', 'f',
    'A', 'B', 'C', 'D', 'E', 'F']

def lower (s : Text) : Text := s.map Char.toLower

def isHex64 (s : Text) : Bool := s.length == 64 && s.all hexDigits.contains

def hexText : (width : ℕ) → ℕ → Text
  | 0, _ => []
  | width + 1, n => hexText width (n / 16) ++ [hexDigits.getD (n % 16) '0']

/-! ## Trimming -/

theorem trim_of_none {s : Text} (h : ∀ c ∈ s, isSpace c = false) : trim s = s := by
  have hstart : s.dropWhile isSpace = s := by
    rw [List.dropWhile_eq_self_iff]
    intro hl
    simp [h _ (List.getElem_mem hl)]
  have hend : s.rdropWhile isSpace = s := by
    rw [List.rdropWhile_eq_self_iff]
    intro hl
    simp [h _ (List.getLast_mem hl)]
  rw [trim, hstart, hend]

@[simp] theorem trim_trim (s : Text) : trim (trim s) = trim s := by
  have hstart : (trim s).dropWhile isSpace = trim s := by
    rw [List.dropWhile_eq_self_iff]
    intro hl
    obtain ⟨rest, hrest⟩ : trim s <+: s.dropWhile isSpace := List.rdropWhile_prefix ..
    have hlong : 0 < (s.dropWhile isSpace).length := by
      rw [← hrest, List.length_append]
      omega
    have hhead := List.dropWhile_get_zero_not isSpace s hlong
    simpa [List.get_eq_getElem, ← hrest, List.getElem_append_left hl] using hhead
  calc trim (trim s) = (trim s).rdropWhile isSpace := by rw [trim, hstart]
    _ = trim s := List.rdropWhile_idempotent ..

/-! ## Hexadecimal -/

theorem hexDigits_plain : ∀ c ∈ hexDigits,
    isSpace c = false ∧ c ≠ ':' ∧ Char.toLower c ∈ hexDigits ∧
      Char.toLower (Char.toLower c) = Char.toLower c := by
  have hall : hexDigits.all (fun c => decide (isSpace c = false ∧ c ≠ ':' ∧
      Char.toLower c ∈ hexDigits ∧ Char.toLower (Char.toLower c) = Char.toLower c)) = true := by
    decide
  exact fun c hc => of_decide_eq_true (List.all_eq_true.mp hall c hc)

theorem isHex64_mem {s : Text} (h : isHex64 s = true) : ∀ c ∈ s, c ∈ hexDigits := by
  simp only [isHex64, Bool.and_eq_true, List.all_eq_true, List.contains_iff_mem] at h
  exact h.2

theorem isHex64_length {s : Text} (h : isHex64 s = true) : s.length = 64 := by
  simp only [isHex64, Bool.and_eq_true, beq_iff_eq] at h
  exact h.1

theorem isHex64_lower {s : Text} (h : isHex64 s = true) : isHex64 (lower s) = true := by
  simp only [isHex64, Bool.and_eq_true, beq_iff_eq, List.all_eq_true, List.contains_iff_mem]
  refine ⟨by simpa [lower] using isHex64_length h, ?_⟩
  intro c hc
  obtain ⟨d, hd, rfl⟩ := List.mem_map.mp hc
  exact (hexDigits_plain d (isHex64_mem h d hd)).2.2.1

theorem lower_lower {s : Text} (h : isHex64 s = true) : lower (lower s) = lower s := by
  simp only [lower, List.map_map]
  refine List.map_congr_left fun c hc => ?_
  exact (hexDigits_plain c (isHex64_mem h c hc)).2.2.2

theorem trim_isHex64 {s : Text} (h : isHex64 s = true) : trim s = s :=
  trim_of_none fun c hc => (hexDigits_plain c (isHex64_mem h c hc)).1

/-! ## Splitting -/

theorem splitOnce_append {x : Char} {sep s t : Text} (h : x ∉ s) :
    splitOnce (x :: sep) (s ++ (x :: sep) ++ t) = some (s, t) := by
  induction s with
  | nil => simp [splitOnce]
  | cons c s ih =>
    obtain ⟨hx, hs⟩ := not_or.mp (List.mem_cons.not.mp h)
    have hno : ¬ (x :: sep) <+: c :: (s ++ (x :: sep) ++ t) := by
      intro hp
      exact hx (List.cons_prefix_cons.mp hp).1
    simp only [List.cons_append, splitOnce]
    rw [if_neg (by simpa using hno)]
    have := ih hs
    simp only [List.append_assoc, List.cons_append] at this ⊢
    rw [this]
    rfl

theorem splitOnce_none {x : Char} {sep s : Text} (h : ∀ l r, s ≠ l ++ (x :: sep) ++ r) :
    splitOnce (x :: sep) s = none := by
  induction s with
  | nil => simp [splitOnce]
  | cons c s ih =>
    simp only [splitOnce]
    rw [if_neg, ih]
    · rfl
    · intro l r hs
      exact h (c :: l) r (by rw [hs]; rfl)
    · rintro ⟨r, hr⟩
      exact h [] r (by simpa using hr.symm)

end TextForms
