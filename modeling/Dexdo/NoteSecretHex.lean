import Mathlib.Data.Vector.Basic
import Mathlib.Tactic.IntervalCases
import Dexdo.TextNumbers

/-! # A note from a key in hexadecimal

`note.rs`: the text of `--note-key` is cut by its bytes, two at a time, and each cut is read by an
integer parser. A cut inside a character stops the program. -/
namespace NoteSecretHex

open TextForms TextNumbers

/-! ## Bytes of a text -/

def byteLen (s : Text) : ℕ := (s.map Char.utf8Size).sum

@[simp] theorem byteLen_nil : byteLen [] = 0 := rfl

@[simp] theorem byteLen_cons (c : Char) (s : Text) : byteLen (c :: s) = c.utf8Size + byteLen s :=
  List.sum_cons

@[simp] theorem byteLen_append (s t : Text) : byteLen (s ++ t) = byteLen s + byteLen t := by
  simp [byteLen]

/-- A text cut after so many bytes; `none` when that is inside a character, or past the end. -/
def splitAtByte : ℕ → Text → Option (Text × Text)
  | 0, s => some ([], s)
  | _ + 1, [] => none
  | n + 1, c :: s =>
    if c.utf8Size ≤ n + 1 then
      (splitAtByte (n + 1 - c.utf8Size) s).map fun parts => (c :: parts.1, parts.2)
    else none
termination_by structural _ s => s

def slice (s : Text) (start stop : ℕ) : Option Text := do
  let (_, rest) ← splitAtByte start s
  let (found, _) ← splitAtByte (stop - start) rest
  return found

/-! ## The key -/

abbrev Seed := List.Vector UInt8 32

inductive NoteError where
  | decrypt | malformed | badKey
  deriving DecidableEq

structure LocalNote (X E : Type) where
  xSecret : X
  edSigning : E
  seed : Option Seed

section Keys

variable {X E : Type} (hkdf : Seed → X) (signingKey : Seed → E)

def fromSeed (seed : Seed) : LocalNote X E where
  xSecret := hkdf seed
  edSigning := signingKey seed
  seed := some seed

/-- The bytes from pair `i` on; the outer `none` is a stop. -/
def readBytes (s : Text) (i : ℕ) : (n : ℕ) → Option (Except NoteError (List.Vector UInt8 n))
  | 0 => some (.ok .nil)
  | n + 1 => do
    let pair ← slice s (2 * i) (2 * i + 2)
    match fromStrRadix 8 16 pair with
    | none => return .error .badKey
    | some byte =>
      let rest ← readBytes s (i + 1) n
      return rest.map fun bytes => UInt8.ofNat byte ::ᵥ bytes

def keyText (hex : Text) : Text := (stripPrefix ['0', 'x'] (trim hex)).getD (trim hex)

def fromSecretHex (hex : Text) : Option (Except NoteError (LocalNote X E)) :=
  let s := keyText hex
  if byteLen s ≠ 64 then some (.error .badKey)
  else (readBytes s 0 32).map fun seed => seed.map (fromSeed hkdf signingKey)

end Keys

/-! ## Cuts -/

variable {s t p r u : Text} {n i : ℕ} {c : Char}

theorem splitAtByte_some : splitAtByte n s = some (p, r) ↔ s = p ++ r ∧ byteLen p = n := by
  induction s generalizing n p r with
  | nil =>
    cases n with
    | zero =>
      rw [splitAtByte]
      constructor
      · rintro ⟨⟩
        exact ⟨rfl, rfl⟩
      · rintro ⟨hs, -⟩
        obtain ⟨rfl, rfl⟩ := List.nil_eq_append_iff.mp hs
        rfl
    | succ n =>
      rw [splitAtByte]
      constructor
      · nofun
      · rintro ⟨hs, hlen⟩
        obtain ⟨rfl, rfl⟩ := List.nil_eq_append_iff.mp hs
        cases hlen
  | cons c s ih =>
    have hpos : 0 < c.utf8Size := c.utf8Size_pos
    cases n with
    | zero =>
      rw [splitAtByte]
      constructor
      · rintro ⟨⟩
        exact ⟨rfl, rfl⟩
      · rintro ⟨hs, hlen⟩
        cases p with
        | nil => rw [hs, List.nil_append]
        | cons x q =>
          obtain ⟨rfl, -⟩ := List.cons.inj hs
          rw [byteLen_cons] at hlen
          omega
    | succ n =>
      rw [splitAtByte]
      constructor
      · intro h
        split at h
        · rename_i hle
          obtain ⟨⟨q, r'⟩, hq, heq⟩ := Option.map_eq_some_iff.mp h
          obtain ⟨rfl, rfl⟩ := Prod.mk.inj heq
          obtain ⟨hs, hlen⟩ := ih.mp hq
          refine ⟨by rw [hs, List.cons_append], ?_⟩
          rw [byteLen_cons, hlen]
          omega
        · cases h
      · rintro ⟨hs, hlen⟩
        cases p with
        | nil => cases hlen
        | cons x q =>
          obtain ⟨rfl, hrest⟩ := List.cons.inj hs
          rw [byteLen_cons] at hlen
          rw [if_pos (by omega), ih.mpr ⟨hrest, by omega⟩]
          rfl

theorem slice_at {stop : ℕ} (hp : byteLen p = n) :
    slice (p ++ r) n stop = (splitAtByte (stop - n) r).map fun parts => parts.1 := by
  unfold slice
  rw [splitAtByte_some.mpr ⟨rfl, hp⟩]
  change (splitAtByte (stop - n) r).bind (fun parts => some parts.1) = _
  cases splitAtByte (stop - n) r <;> rfl

/-! ## Two bytes -/

def IsByte (u : Text) : Prop :=
  ∃ hi lo, u = [hi, lo] ∧ (hi ∈ hexDigits ∨ hi = '+') ∧ lo ∈ hexDigits

theorem toDigit_some (hc : c ∈ hexDigits) : ∃ k < 16, toDigit 16 c = some k := by
  have hall : hexDigits.all (fun c => (toDigit 16 c).any (· < 16)) = true := by
    decide
  obtain ⟨k, hk, hlt⟩ := (Option.any_eq_true _ _).mp (List.all_eq_true.mp hall c hc)
  exact ⟨k, of_decide_eq_true hlt, hk⟩

theorem toDigit_mem {k : ℕ} (h : toDigit 16 c = some k) : c ∈ hexDigits := by
  have hrange : (48 ≤ c.toNat ∧ c.toNat ≤ 57) ∨ (97 ≤ c.toNat ∧ c.toNat ≤ 102) ∨
      (65 ≤ c.toNat ∧ c.toNat ≤ 70) := by
    unfold toDigit at h
    dsimp only at h
    split_ifs at h with hd ha hA
    · simp only [Char.isDigit, Bool.and_eq_true, decide_eq_true_eq] at hd
      exact .inl hd
    · exact .inr (.inl ha)
    · exact .inr (.inr hA)
    · cases h
  have hchar : c = Char.ofNat c.toNat := (Char.ofNat_toNat c).symm
  rw [hchar]
  generalize c.toNat = m at hrange
  rcases hrange with ⟨h1, h2⟩ | ⟨h1, h2⟩ | ⟨h1, h2⟩
  all_goals
    interval_cases m <;> decide

theorem hexDigit_size : ∀ c ∈ hexDigits, c.utf8Size = 1 := by
  have hall : hexDigits.all (fun c => decide (c.utf8Size = 1)) = true := by
    decide
  exact fun c hc => of_decide_eq_true (List.all_eq_true.mp hall c hc)

theorem IsByte.byteLen (h : IsByte u) : byteLen u = 2 := by
  obtain ⟨hi, lo, rfl, hhi, hlo⟩ := h
  have hfirst : hi.utf8Size = 1 := by
    rcases hhi with hhi | rfl
    · exact hexDigit_size hi hhi
    · rfl
  simp [hfirst, hexDigit_size lo hlo]

theorem read_pair {hi lo : Char} {a b : ℕ} (hhi : toDigit 16 hi = some a) (ha : a < 16)
    (hlo : toDigit 16 lo = some b) (hb : b < 16) : fromStrRadix 8 16 [hi, lo] = some (16 * a + b) := by
  have hplus : hi ≠ '+' := fun h => hexDigits_no_plus hi (toDigit_mem hhi) h
  have hun : unsigned [hi, lo] = [hi, lo] := by
    unfold unsigned
    split
    · rename_i rest heq
      exact absurd (List.cons.inj heq).1 hplus
    · rfl
  have hread : readDigits 16 [hi, lo] = some (16 * a + b) := by
    simp [readDigits, pushDigit, hhi, hlo]
  rw [fromStrRadix, hun, if_neg (by simp), hread, Option.filter_some, if_pos]
  exact decide_eq_true (by omega)

theorem read_signed {lo : Char} {b : ℕ} (hlo : toDigit 16 lo = some b) (hb : b < 16) :
    fromStrRadix 8 16 ['+', lo] = some b := by
  have hread : readDigits 16 [lo] = some b := by
    simp [readDigits, pushDigit, hlo]
  rw [fromStrRadix, show unsigned ['+', lo] = [lo] from rfl, if_neg (by simp), hread,
    Option.filter_some, if_pos]
  exact decide_eq_true (by omega)

/-- The parser reads two bytes just when they are digits, or a sign and a digit. -/
theorem fromStrRadix_isSome (hu : byteLen u = 2) : (fromStrRadix 8 16 u).isSome ↔ IsByte u := by
  constructor
  · intro h
    obtain ⟨n, hn⟩ := Option.isSome_iff_exists.mp h
    rw [fromStrRadix] at hn
    split at hn
    · cases hn
    rename_i hne
    obtain ⟨hn, -⟩ := Option.filter_eq_some_iff.mp hn
    have hdigit : ∀ (l : Text) (x n : ℕ), l.foldlM (pushDigit 16) x = some n →
        ∀ c ∈ l, c ∈ hexDigits := by
      intro l
      induction l with
      | nil => exact fun _ _ _ _ hc => nomatch hc
      | cons d l ih =>
        intro x n hl c hc
        rw [List.foldlM_cons] at hl
        obtain ⟨y, hy, hl⟩ := Option.bind_eq_some_iff.mp hl
        obtain ⟨k, hk, -⟩ := Option.map_eq_some_iff.mp hy
        rcases List.mem_cons.mp hc with rfl | hc
        · exact toDigit_mem hk
        · exact ih y n hl c hc
    have hall := hdigit _ _ _ hn
    cases u with
    | nil => exact absurd rfl hne
    | cons a u =>
      by_cases hsign : a = '+'
      · subst hsign
        change u ≠ [] at hne
        change ∀ c ∈ u, c ∈ hexDigits at hall
        cases u with
        | nil => exact absurd rfl hne
        | cons b u =>
          have hb := hexDigit_size b (hall b (by simp))
          have hrest : u = [] := by
            cases u with
            | nil => rfl
            | cons d u =>
              have hd := d.utf8Size_pos
              simp only [byteLen_cons, hb] at hu
              have hplus : '+'.utf8Size = 1 := rfl
              omega
          subst hrest
          exact ⟨'+', b, rfl, .inr rfl, hall b (by simp)⟩
      · have hun : unsigned (a :: u) = a :: u := by
          unfold unsigned
          split
          · rename_i rest heq
            exact absurd (List.cons.inj heq).1 hsign
          · rfl
        rw [hun] at hall
        have ha := hexDigit_size a (hall a (by simp))
        cases u with
        | nil => simp [ha] at hu
        | cons b u =>
          have hb := hexDigit_size b (hall b (by simp))
          have hrest : u = [] := by
            cases u with
            | nil => rfl
            | cons d u =>
              have hd := d.utf8Size_pos
              simp only [byteLen_cons, ha, hb] at hu
              omega
          subst hrest
          exact ⟨a, b, rfl, .inl (hall a (by simp)), hall b (by simp)⟩
  · rintro ⟨hi, lo, rfl, hhi, hlo⟩
    obtain ⟨b, hb, hlo⟩ := toDigit_some hlo
    rcases hhi with hhi | rfl
    · obtain ⟨a, ha, hhi⟩ := toDigit_some hhi
      rw [read_pair hhi ha hlo hb]
      rfl
    · rw [read_signed hlo hb]
      rfl

/-! ## The whole text -/

def byteValue (u : Text) : UInt8 := UInt8.ofNat ((fromStrRadix 8 16 u).getD 0)

def Units (r : Text) (units : List Text) : Prop := r = units.flatten ∧ ∀ u ∈ units, IsByte u

def Stops (r : Text) : Prop :=
  ∃ (units : List Text) (u rest : Text), r = units.flatten ++ u ++ rest ∧ (∀ x ∈ units, IsByte x) ∧ byteLen u = 2 ∧
    ¬IsByte u

theorem cut_unique {u' rest rest' : Text} (h : u ++ rest = u' ++ rest')
    (hlen : byteLen u = byteLen u') : u = u' ∧ rest = rest' := by
  have h1 : splitAtByte (byteLen u) (u ++ rest) = some (u, rest) := splitAtByte_some.mpr ⟨rfl, rfl⟩
  have h2 : splitAtByte (byteLen u) (u ++ rest) = some (u', rest') :=
    splitAtByte_some.mpr ⟨h, hlen.symm⟩
  rw [h1] at h2
  exact Prod.mk.inj (Option.some.inj h2)

theorem units_cut {rest : Text} {units : List Text} (hu : byteLen u = 2) :
    Units (u ++ rest) units ↔ ∃ us, units = u :: us ∧ IsByte u ∧ Units rest us := by
  constructor
  · rintro ⟨hflat, hall⟩
    cases units with
    | nil =>
      have hnil := congrArg byteLen hflat
      simp [hu] at hnil
    | cons x us =>
      have hx := hall x List.mem_cons_self
      obtain ⟨rfl, rfl⟩ := cut_unique (hflat.trans List.flatten_cons) (hu.trans hx.byteLen.symm)
      exact ⟨us, rfl, hx, rfl, fun y hy => hall y (List.mem_cons_of_mem _ hy)⟩
  · rintro ⟨us, rfl, hbyte, rfl, hall⟩
    refine ⟨rfl, ?_⟩
    intro x hx
    rcases List.mem_cons.mp hx with rfl | hx
    · exact hbyte
    · exact hall x hx

theorem stops_cut {rest : Text} (hu : byteLen u = 2) :
    Stops (u ++ rest) ↔ ¬IsByte u ∨ Stops rest := by
  constructor
  · rintro ⟨units, x, tail, hflat, hall, hx, hnot⟩
    cases units with
    | nil =>
      have hcut : u ++ rest = x ++ tail := by simpa using hflat
      obtain ⟨rfl, -⟩ := cut_unique hcut (hu.trans hx.symm)
      exact .inl hnot
    | cons y us =>
      have hy := hall y List.mem_cons_self
      have hcut : u ++ rest = y ++ (us.flatten ++ x ++ tail) := by
        rw [hflat]
        simp
      obtain ⟨rfl, rfl⟩ := cut_unique hcut (hu.trans hy.byteLen.symm)
      exact .inr ⟨us, x, tail, rfl, fun z hz => hall z (List.mem_cons_of_mem _ hz), hx, hnot⟩
  · intro h
    by_cases hbyte : IsByte u
    · obtain ⟨us, x, tail, rfl, hall, hx, hnot⟩ := h.resolve_left (not_not.mpr hbyte)
      refine ⟨u :: us, x, tail, by simp, ?_, hx, hnot⟩
      intro z hz
      rcases List.mem_cons.mp hz with rfl | hz
      · exact hbyte
      · exact hall z hz
    · exact ⟨[], u, rest, by simp, nofun, hu, hbyte⟩

theorem uncut (h : splitAtByte 2 r = none) : ¬Stops r ∧ ∀ units, Units r units → units = [] := by
  have hcut : ∀ u rest, byteLen u = 2 → r ≠ u ++ rest := by
    rintro u rest hu rfl
    rw [splitAtByte_some.mpr ⟨rfl, hu⟩] at h
    cases h
  constructor
  · rintro ⟨units, x, tail, hflat, hall, hx, -⟩
    cases units with
    | nil => exact hcut x tail hx (by simpa using hflat)
    | cons y us =>
      exact hcut y (us.flatten ++ x ++ tail) (hall y List.mem_cons_self).byteLen (by simp [hflat])
  · rintro units ⟨hflat, hall⟩
    cases units with
    | nil => rfl
    | cons y us => exact absurd hflat (hcut y us.flatten (hall y List.mem_cons_self).byteLen)

/-- What the loop makes of the rest of the text. -/
structure LoopReads (r : Text) {n : ℕ} (result : Option (Except NoteError (List.Vector UInt8 n))) :
    Prop where
  ok : ∀ v, result = some (.ok v) ↔ ∃ units, Units r units ∧ v.toList = units.map byteValue
  error : ∀ e, result = some (.error e) ↔ e = .badKey ∧ Stops r

theorem readBytes_reads (s : Text) (n i : ℕ) (p r : Text) (hs : s = p ++ r) (hp : byteLen p = 2 * i)
    (hr : byteLen r = 2 * n) : LoopReads r (readBytes s i n) := by
  induction n generalizing i p r with
  | zero =>
    have hnil : r = [] := by
      cases r with
      | nil => rfl
      | cons c r =>
        have hc := c.utf8Size_pos
        rw [byteLen_cons] at hr
        omega
    subst hnil
    have hnone := uncut (r := []) rfl
    constructor
    · intro v
      refine iff_of_true ?_ ⟨[], ⟨rfl, nofun⟩, ?_⟩
      · rw [readBytes, List.Vector.eq_nil v]
      · rw [List.Vector.eq_nil v]
        rfl
    · intro e
      exact iff_of_false nofun fun h => hnone.1 h.2
  | succ n ih =>
    have hslice : slice s (2 * i) (2 * i + 2) = (splitAtByte 2 r).map fun parts => parts.1 := by
      rw [hs, slice_at hp, Nat.add_sub_cancel_left]
    cases hsplit : splitAtByte 2 r with
    | none =>
      have hresult : readBytes s i (n + 1) = none := by
        rw [readBytes, hslice, hsplit]
        rfl
      obtain ⟨hstops, hunits⟩ := uncut hsplit
      constructor
      · intro v
        refine iff_of_false (by rw [hresult]; nofun) ?_
        rintro ⟨units, h, -⟩
        obtain rfl := hunits units h
        rw [h.1] at hr
        cases hr
      · exact fun e => iff_of_false (by rw [hresult]; nofun) fun h => hstops h.2
    | some parts =>
      obtain ⟨u, rest⟩ := parts
      obtain ⟨rfl, hu⟩ := splitAtByte_some.mp hsplit
      rw [byteLen_append, hu] at hr
      have hrest := ih (i + 1) (p ++ u) rest (by simp [hs]) (by rw [byteLen_append]; omega)
        (by omega)
      cases hparse : fromStrRadix 8 16 u with
      | none =>
        have hnot : ¬IsByte u := by
          rw [← fromStrRadix_isSome hu, hparse]
          exact Bool.false_ne_true
        have hresult : readBytes s i (n + 1) = some (.error .badKey) := by
          rw [readBytes, hslice, hsplit]
          change (match fromStrRadix 8 16 u with | none => _ | some byte => _) = _
          rw [hparse]
          rfl
        constructor
        · intro v
          refine iff_of_false (by rw [hresult]; nofun) ?_
          rintro ⟨units, h, -⟩
          obtain ⟨-, -, hbyte, -⟩ := (units_cut hu).mp h
          exact hnot hbyte
        · intro e
          rw [hresult, stops_cut hu]
          simp [hnot, eq_comm]
      | some byte =>
        have hbyte : IsByte u := (fromStrRadix_isSome hu).mp (by rw [hparse]; rfl)
        have hvalue : byteValue u = UInt8.ofNat byte := by
          rw [byteValue, hparse]
          rfl
        have hresult : readBytes s i (n + 1) =
            (readBytes s (i + 1) n).map fun rest => rest.map fun bytes => UInt8.ofNat byte ::ᵥ bytes := by
          rw [readBytes, hslice, hsplit]
          change (match fromStrRadix 8 16 u with | none => _ | some byte => _) = _
          rw [hparse]
          cases readBytes s (i + 1) n <;> rfl
        constructor
        · intro v
          rw [hresult]
          constructor
          · intro h
            obtain ⟨result, hres, h⟩ := Option.map_eq_some_iff.mp h
            cases result with
            | error e => cases h
            | ok w =>
              cases h
              obtain ⟨us, hus, hw⟩ := (hrest.ok w).mp hres
              refine ⟨u :: us, (units_cut hu).mpr ⟨us, rfl, hbyte, hus⟩, ?_⟩
              rw [List.Vector.toList_cons, List.map_cons, hw, hvalue]
          · rintro ⟨units, h, hv⟩
            obtain ⟨us, rfl, -, hus⟩ := (units_cut hu).mp h
            obtain ⟨b, w, rfl⟩ := v.exists_eq_cons
            rw [List.Vector.toList_cons, List.map_cons, hvalue] at hv
            obtain ⟨rfl, hw⟩ := List.cons.inj hv
            rw [(hrest.ok w).mpr ⟨us, hus, hw⟩]
            rfl
        · intro e
          rw [hresult, stops_cut hu]
          constructor
          · intro h
            obtain ⟨result, hres, h⟩ := Option.map_eq_some_iff.mp h
            cases result with
            | ok w => cases h
            | error e' =>
              cases h
              obtain ⟨he, hstops⟩ := (hrest.error e).mp hres
              exact ⟨he, .inr hstops⟩
          · rintro ⟨he, hstops⟩
            rw [(hrest.error e).mpr ⟨he, hstops.resolve_left (not_not.mpr hbyte)⟩]
            rfl

/-! ## The grammar of a key -/

def digitValue (c : Char) : ℕ := (toDigit 16 c).getD 0

def spell : Text → List UInt8
  | hi :: lo :: rest => UInt8.ofNat (16 * digitValue hi + digitValue lo) :: spell rest
  | _ => []

theorem hex_units (n : ℕ) (t : Text) (hlen : t.length = 2 * n) (hall : ∀ c ∈ t, c ∈ hexDigits) :
    ∃ units, Units t units ∧ units.length = n ∧ units.map byteValue = spell t := by
  induction n generalizing t with
  | zero =>
    obtain rfl := List.length_eq_zero_iff.mp hlen
    exact ⟨[], ⟨rfl, nofun⟩, rfl, rfl⟩
  | succ n ih =>
    match t with
    | [] => cases hlen
    | [_] =>
      rw [List.length_singleton] at hlen
      omega
    | hi :: lo :: rest =>
      have hhi := hall hi (by simp)
      have hlo := hall lo (by simp)
      obtain ⟨units, ⟨hflat, hbytes⟩, hcount, hmap⟩ := ih rest
        (by simp only [List.length_cons] at hlen; omega)
        fun c hc => hall c (List.mem_cons_of_mem _ (List.mem_cons_of_mem _ hc))
      obtain ⟨a, ha, hdhi⟩ := toDigit_some hhi
      obtain ⟨b, hb, hdlo⟩ := toDigit_some hlo
      refine ⟨[hi, lo] :: units, ⟨by simp [hflat], ?_⟩, by simp [hcount], ?_⟩
      · intro u hu
        rcases List.mem_cons.mp hu with rfl | hu
        · exact ⟨hi, lo, rfl, .inl hhi, hlo⟩
        · exact hbytes u hu
      · rw [List.map_cons, hmap, spell, byteValue, read_pair hdhi ha hdlo hb, digitValue, digitValue,
          hdhi, hdlo]
        rfl

theorem hex_byteLen (h : isHex64 t = true) : byteLen t = 64 := by
  have hall := isHex64_mem h
  rw [← isHex64_length h]
  clear h
  induction t with
  | nil => rfl
  | cons c t ih =>
    rw [byteLen_cons, List.length_cons, ih fun d hd => hall d (List.mem_cons_of_mem _ hd),
      hexDigit_size c (hall c List.mem_cons_self)]
    omega

def Spells (t : Text) (seed : Seed) : Prop := isHex64 t = true ∧ seed.toList = spell t

variable {X E : Type} {hkdf : Seed → X} {signingKey : Seed → E}

variable (hkdf signingKey) in
/-- The reader takes a key of the grammar for its bytes, and answers every other text. -/
structure ReadsGrammar (hex : Text) : Prop where
  accepted : ∀ note, fromSecretHex hkdf signingKey hex = some (.ok note) ↔
    ∃ seed, Spells (keyText hex) seed ∧ note = fromSeed hkdf signingKey seed
  refused : isHex64 (keyText hex) ≠ true →
    fromSecretHex hkdf signingKey hex = some (.error .badKey)

def Answered (hex : Text) : Prop :=
  byteLen (keyText hex) ≠ 64 ∨ isHex64 (keyText hex) = true ∨ Stops (keyText hex)

theorem readBytes_whole {hex : Text} (hlen : byteLen (keyText hex) = 64) :
    LoopReads (keyText hex) (readBytes (keyText hex) 0 32) :=
  readBytes_reads _ 32 0 [] _ rfl rfl hlen

theorem readBytes_hex {hex : Text} (h : isHex64 (keyText hex) = true) :
    ∃ seed, Spells (keyText hex) seed ∧ readBytes (keyText hex) 0 32 = some (.ok seed) := by
  obtain ⟨units, hunits, hcount, hmap⟩ := hex_units 32 _ (isHex64_length h) (isHex64_mem h)
  let seed : Seed := ⟨spell (keyText hex), by rw [← hmap, List.length_map, hcount]⟩
  exact ⟨seed, ⟨h, rfl⟩, ((readBytes_whole (hex_byteLen h)).ok seed).mpr ⟨units, hunits, hmap.symm⟩⟩

theorem readsGrammar_iff (hex : Text) : ReadsGrammar hkdf signingKey hex ↔ Answered hex := by
  by_cases hlen : byteLen (keyText hex) = 64
  · have hloop := readBytes_whole hlen
    have hwhole : fromSecretHex hkdf signingKey hex =
        (readBytes (keyText hex) 0 32).map fun seed => seed.map (fromSeed hkdf signingKey) := by
      unfold fromSecretHex
      exact if_neg (not_not.mpr hlen)
    constructor
    · intro h
      by_cases hhex : isHex64 (keyText hex) = true
      · exact .inr (.inl hhex)
      · have herror := h.refused hhex
        rw [hwhole] at herror
        obtain ⟨result, hresult, hmap⟩ := Option.map_eq_some_iff.mp herror
        cases result with
        | ok seed => cases hmap
        | error e => exact .inr (.inr ((hloop.error e).mp hresult).2)
    · intro h
      rcases h.resolve_left (not_not.mpr hlen) with hhex | hstops
      · obtain ⟨seed, hspells, hread⟩ := readBytes_hex hhex
        rw [hread] at hwhole
        refine ⟨fun note => ?_, fun hnot => absurd hhex hnot⟩
        rw [hwhole]
        constructor
        · rintro ⟨⟩
          exact ⟨seed, hspells, rfl⟩
        · rintro ⟨seed', hspells', rfl⟩
          rw [List.Vector.eq seed seed' (hspells.2.trans hspells'.2.symm)]
          rfl
      · have hread := (hloop.error .badKey).mpr ⟨rfl, hstops⟩
        have hnot : isHex64 (keyText hex) ≠ true := by
          intro hhex
          obtain ⟨seed, -, hok⟩ := readBytes_hex hhex
          rw [hread] at hok
          cases hok
        rw [hread] at hwhole
        refine ⟨fun note => ?_, fun _ => hwhole⟩
        rw [hwhole]
        refine iff_of_false nofun ?_
        rintro ⟨seed, hspells, -⟩
        exact hnot hspells.1
  · have hbad : fromSecretHex hkdf signingKey hex = some (.error .badKey) := if_pos hlen
    refine iff_of_true ⟨fun note => ?_, fun _ => hbad⟩ (.inl hlen)
    rw [hbad]
    refine iff_of_false nofun ?_
    rintro ⟨seed, hspells, -⟩
    exact hlen (hex_byteLen hspells.1)

/-- A key is read by its grammar just when its text is not of 64 bytes, or of 64 digits, or comes to
two bytes of whole characters that the parser refuses; and two keys read so give one note just when
they spell the same bytes. -/
theorem secret_hex_iff (hkdf : Seed → X) (signingKey : Seed → E) :
    (∀ hex, ReadsGrammar hkdf signingKey hex ↔ Answered hex) ∧
    ∀ hex hex' note note', Answered hex → Answered hex' →
      fromSecretHex hkdf signingKey hex = some (.ok note) →
      fromSecretHex hkdf signingKey hex' = some (.ok note') →
      (note = note' ↔ spell (keyText hex) = spell (keyText hex')) := by
  refine ⟨readsGrammar_iff, ?_⟩
  intro hex hex' note note' h h' hnote hnote'
  obtain ⟨seed, ⟨-, hseed⟩, rfl⟩ := ((readsGrammar_iff hex).mpr h).accepted note |>.mp hnote
  obtain ⟨seed', ⟨-, hseed'⟩, rfl⟩ := ((readsGrammar_iff hex').mpr h').accepted note' |>.mp hnote'
  rw [← hseed, ← hseed']
  constructor
  · intro heq
    have hsame : seed = seed' := Option.some.inj (congrArg LocalNote.seed heq)
    rw [hsame]
  · intro heq
    rw [List.Vector.eq seed seed' heq]

/-- The key of zeros, with its marker and without. -/
theorem zero_key_same : ∃ note note' : LocalNote Unit Unit,
    fromSecretHex (fun _ => ()) (fun _ => ()) (List.replicate 64 '0') = some (.ok note) ∧
    fromSecretHex (fun _ => ()) (fun _ => ()) ('0' :: 'x' :: List.replicate 64 '0') =
      some (.ok note') ∧ note = note' := by
  have h : Answered (List.replicate 64 '0') := .inr (.inl (by decide))
  have h' : Answered ('0' :: 'x' :: List.replicate 64 '0') := .inr (.inl (by decide))
  let seed : Seed := ⟨List.replicate 32 0, rfl⟩
  have hread := (((secret_hex_iff (fun _ => ()) (fun _ => ())).1 _).mpr h).accepted
    (fromSeed _ _ seed) |>.mpr ⟨seed, ⟨by decide, by decide⟩, rfl⟩
  have hread' := (((secret_hex_iff (fun _ => ()) (fun _ => ())).1 _).mpr h').accepted
    (fromSeed _ _ seed) |>.mpr ⟨seed, ⟨by decide, by decide⟩, rfl⟩
  exact ⟨_, _, hread, hread',
    ((secret_hex_iff _ _).2 _ _ _ _ h h' hread hread').mpr (by decide)⟩

/-- A sign before the last digit is taken for a zero. -/
theorem signed_key_accepted : ¬ ∀ hex, ReadsGrammar (fun _ => ()) (fun _ => ()) hex := by
  intro h
  have hrefused := (h (List.replicate 62 '0' ++ ['+', '1'])).refused (by decide)
  have haccepted : (fromSecretHex (fun _ => ()) (fun _ => ())
      (List.replicate 62 '0' ++ ['+', '1'])).any (fun result => result.toOption.isSome) = true := by
    decide +kernel
  rw [hrefused] at haccepted
  cases haccepted

/-- A cut inside a character. -/
example : (fromSecretHex (fun _ => ()) (fun _ => ())
    ('0' :: 'é' :: List.replicate 61 '0')).isNone = true := by
  decide

end NoteSecretHex
