import Mathlib
import Dexdo.ExchangeSort
import Dexdo.RecentRing

/-! # The reference price of the inference order book

Deals report how many ticks they have finalized, and the book keeps the value and the volume of the
last eight days with trades in a ring. -/
namespace ReferencePrice

open ExchangeSort RecentRing

abbrev Address := ℕ

def secsPerDay : ℕ := 86400

def minLiquidity : ℕ := 1

def errNoLiquidity : ℕ := 334

structure DayData where
  day : ℕ
  priceVolSum : ℕ
  volSum : ℕ
  deriving DecidableEq, Repr

def DayData.zero : DayData := ⟨0, 0, 0⟩

structure Stats where
  daily : ℕ → DayData
  curSlot : ℕ
  finalizedSeen : Address → ℕ

def start : Stats := ⟨fun _ => .zero, 0, fun _ => 0⟩

def dayOf (timestamp : ℕ) : ℕ := timestamp / secsPerDay

/-- The slot of a new day is opened, unless the current one is already that day's. -/
def Stats.openDay (s : Stats) (day : ℕ) : Stats :=
  let cur := s.daily s.curSlot
  if cur.day ≠ day then
    let slot := if cur.day ≠ 0 ∨ cur.volSum ≠ 0 then (s.curSlot + 1) % 8 else s.curSlot
    { s with curSlot := slot, daily := Function.update s.daily slot ⟨day, 0, 0⟩ }
  else s

/-- `_recordTrade`, which fails where the sum of prices passes `uint256`. The sum of ticks, of
which a report adds fewer than `2 ^ 128`, is kept unbounded. -/
def Stats.recordTrade (s : Stats) (now price ticks : ℕ) : Option Stats :=
  let s := s.openDay (dayOf now)
  let d := s.daily s.curSlot
  let grown : DayData := ⟨d.day, d.priceVolSum + price * ticks, d.volSum + ticks⟩
  if grown.priceVolSum < 2 ^ 256 then
    some { s with daily := Function.update s.daily s.curSlot grown }
  else none

structure Call where
  now : ℕ
  sender : Address
  sellerPubkey : ℕ
  nonce : ℕ
  pricePerTick : ℕ
  cumulativeFinalized : ℕ
  deriving DecidableEq, Repr

section Contract

variable (tokenContractAddr : ℕ → ℕ → Address)

def Call.canonical (c : Call) : Bool := c.sender == tokenContractAddr c.sellerPubkey c.nonce

def reportFinalized (s : Stats) (c : Call) : Option Stats :=
  if !c.canonical tokenContractAddr then some s
  else
    let seen := s.finalizedSeen c.sender
    if c.cumulativeFinalized ≤ seen then some s
    else
      Stats.recordTrade
        { s with
          finalizedSeen := Function.update s.finalizedSeen c.sender c.cumulativeFinalized }
        c.now c.pricePerTick (c.cumulativeFinalized - seen)

def book : List Call → Stats
  | [] => start
  | c :: h => (reportFinalized tokenContractAddr (book h) c).getD (book h)

def taken : List Call → List Call
  | [] => []
  | c :: h =>
    if c.canonical tokenContractAddr &&
        (reportFinalized tokenContractAddr (book tokenContractAddr h) c).isSome then c :: taken h
    else taken h

end Contract

def DayData.counts (minDay nowDay : ℕ) (d : DayData) : Bool :=
  d.volSum != 0 && minDay ≤ d.day && d.day ≤ nowDay

def weeklyMedian (s : Stats) (now : ℕ) : Except ℕ ℕ :=
  let nowDay := dayOf now
  let minDay := if 6 ≤ nowDay then nowDay - 6 else 0
  let kept := ((List.range 8).map s.daily).filter (DayData.counts minDay nowDay)
  let totalVol := (kept.map (·.volSum)).sum
  if minLiquidity ≤ totalVol then
    .ok (middle (exchangeSort (kept.map fun d => d.priceVolSum / d.volSum)))
  else .error errNoLiquidity

/-! ## What the price stands for

The reports of a history, newest first, taken as they are: a report adds what it says beyond the
largest earlier one of its deal, at its own price, to its own day. -/

def highest (h : List Call) (deal : Address) : ℕ :=
  ((h.filter (·.sender = deal)).map (·.cumulativeFinalized)).foldr max 0

def contribution (h : List Call) (c : Call) : ℕ := c.cumulativeFinalized - highest h c.sender

def dayVolume : List Call → ℕ → ℕ
  | [], _ => 0
  | c :: h, d => dayVolume h d + if dayOf c.now = d then contribution h c else 0

def dayValue : List Call → ℕ → ℕ
  | [], _ => 0
  | c :: h, d => dayValue h d + if dayOf c.now = d then c.pricePerTick * contribution h c else 0

def dayPrice (h : List Call) (d : ℕ) : ℕ := dayValue h d / dayVolume h d

/-- The days of the week that ends at `now` on which volume was recorded. -/
def tradedDays (h : List Call) (now : ℕ) : Finset ℕ :=
  (Finset.Icc (dayOf now - 6) (dayOf now)).filter fun d => 0 < dayVolume h d

def referencePrice (h : List Call) (now : ℕ) : Option ℕ :=
  median ((tradedDays h now).val.map (dayPrice h))

def dayData (h : List Call) (d : ℕ) : DayData := ⟨d, dayValue h d, dayVolume h d⟩

variable {h : List Call} {c : Call} {s s' : Stats} {days : List ℕ} {d : ℕ}

theorem highest_cons (deal : Address) :
    highest (c :: h) deal =
      if c.sender = deal then max c.cumulativeFinalized (highest h deal) else highest h deal := by
  by_cases hd : c.sender = deal <;> simp [highest, hd]

theorem dayValue_zero (hz : dayVolume h d = 0) : dayValue h d = 0 := by
  induction h with
  | nil => rfl
  | cons c h ih =>
    simp only [dayVolume, Nat.add_eq_zero_iff] at hz
    simp only [dayValue, ih hz.1, Nat.zero_add]
    by_cases hd : dayOf c.now = d
    · have hc := hz.2
      rw [if_pos hd] at hc
      rw [if_pos hd, hc, Nat.mul_zero]
    · rw [if_neg hd]

theorem dayData_untraded (hz : dayVolume h d = 0) : dayData h d = ⟨d, 0, 0⟩ := by
  rw [dayData, hz, dayValue_zero hz]

theorem dayData_other (hd : dayOf c.now ≠ d) : dayData (c :: h) d = dayData h d := by
  simp [dayData, dayValue, dayVolume, hd]

theorem dayData_self : dayData (c :: h) (dayOf c.now) =
    ⟨dayOf c.now, dayValue h (dayOf c.now) + c.pricePerTick * contribution h c,
      dayVolume h (dayOf c.now) + contribution h c⟩ := by
  simp [dayData, dayValue, dayVolume]

theorem dayData_stale (hc : contribution h c = 0) (d : ℕ) :
    dayData (c :: h) d = dayData h d := by
  simp [dayData, dayValue, dayVolume, hc]

theorem dayVolume_traded (hd : d ∈ days) (hv : ∀ d, d ∈ days ↔ 0 < dayVolume h d) :
    (dayData h d).volSum ≠ 0 := ((hv d).mp hd).ne'

/-- The ring holds the days with volume, newest first, each with the value and the volume that
the history gives it. -/
structure Tracks (h : List Call) (s : Stats) (days : List ℕ) : Prop where
  seen : ∀ deal, s.finalizedSeen deal = highest h deal
  ring : Holds 8 .zero s.daily s.curSlot (days.map (dayData h))
  descending : days.Pairwise (· > ·)
  traded : ∀ d, d ∈ days ↔ 0 < dayVolume h d

theorem Tracks.start : Tracks [] start [] :=
  ⟨fun _ => rfl, Holds.empty (by decide), .nil, by simp [dayVolume]⟩

theorem Tracks.stale (ht : Tracks h s days)
    (hc : c.cumulativeFinalized ≤ s.finalizedSeen c.sender) : Tracks (c :: h) s days := by
  rw [ht.seen] at hc
  have hzero : contribution h c = 0 := Nat.sub_eq_zero_of_le hc
  have hdata : dayData (c :: h) = dayData h := funext (dayData_stale hzero)
  refine ⟨fun deal => ?_, ?_, ht.descending, fun d => ?_⟩
  · rw [highest_cons, ht.seen]
    split
    · rename_i hd
      rw [← hd, max_eq_right hc]
    · rfl
  · rw [hdata]
    exact ht.ring
  · rw [ht.traded d]
    simp [dayVolume, hzero]

/-- After a day is opened its slot is the current one, and holds what the day had so far. -/
theorem Tracks.openDay (ht : Tracks h s days) {today : ℕ} (hlast : ∀ d ∈ days, d ≤ today) :
    ∃ rest, (today :: rest).Pairwise (· > ·) ∧ (∀ d, d ≠ today → (d ∈ days ↔ d ∈ rest)) ∧
      Holds 8 .zero (s.openDay today).daily (s.openDay today).curSlot
        ((today :: rest).map (dayData h)) := by
  have hring := ht.ring
  have hcur := hring.current
  unfold Stats.openDay
  cases days with
  | nil =>
    have hzero : dayData h today = ⟨today, 0, 0⟩ := by
      refine dayData_untraded (Nat.eq_zero_of_not_pos fun hpos => ?_)
      simpa using (ht.traded today).mpr hpos
    have hblank : s.daily s.curSlot = .zero := hcur
    refine ⟨[], List.pairwise_singleton _ _, by simp, ?_⟩
    simp only [hblank, List.map_cons, List.map_nil, hzero]
    by_cases hd : DayData.zero.day = today
    · rw [if_neg (not_not.mpr hd)]
      have hitem : (⟨today, 0, 0⟩ : DayData) = .zero := by rw [← hd]; rfl
      have hfirst := hring.first DayData.zero
      rw [← hblank, Function.update_eq_self, hblank] at hfirst
      rwa [hitem]
    · rw [if_pos hd]
      exact hring.first _
  | cons newest rest =>
    have hhead : s.daily s.curSlot = dayData h newest := hcur
    have hpos : (dayData h newest).volSum ≠ 0 :=
      dayVolume_traded List.mem_cons_self ht.traded
    by_cases hd : newest = today
    · subst hd
      refine ⟨rest, ht.descending, fun d hd => ?_, ?_⟩
      · rw [List.mem_cons]
        exact or_iff_right hd
      · rw [hhead]
        simpa [dayData] using hring
    · have hnot : today ∉ newest :: rest := by
        intro hm
        rcases List.mem_cons.mp hm with heq | hm
        · exact hd heq.symm
        · have hbelow := List.rel_of_pairwise_cons ht.descending hm
          have hle := hlast newest List.mem_cons_self
          omega
      have hzero : dayData h today = ⟨today, 0, 0⟩ :=
        dayData_untraded (Nat.eq_zero_of_not_pos fun hp => hnot ((ht.traded today).mpr hp))
      refine ⟨newest :: rest, ?_, fun _ _ => Iff.rfl, ?_⟩
      · refine List.pairwise_cons.mpr ⟨fun d hm => ?_, ht.descending⟩
        have hle := hlast d hm
        have hne : d ≠ today := by
          rintro rfl
          exact hnot hm
        omega
      · have hday : (dayData h newest).day ≠ today := hd
        simp only [hhead]
        rw [if_pos hday, if_pos (.inr hpos)]
        simp only [List.map_cons, hzero]
        exact hring.push _

theorem openDay_marks (s : Stats) (marks : Address → ℕ) (today : ℕ) :
    ({ s with finalizedSeen := marks } : Stats).openDay today =
      { s.openDay today with finalizedSeen := marks } := by
  unfold Stats.openDay
  simp only
  split <;> rfl

/-- A report beyond the mark is added to the value and the volume of its day. -/
theorem Tracks.record (ht : Tracks h s days) (hlast : ∀ d ∈ days, d ≤ dayOf c.now)
    (hc : s.finalizedSeen c.sender < c.cumulativeFinalized)
    (hs : Stats.recordTrade
      { s with finalizedSeen := Function.update s.finalizedSeen c.sender c.cumulativeFinalized }
      c.now c.pricePerTick (c.cumulativeFinalized - s.finalizedSeen c.sender) = some s') :
    ∃ days', Tracks (c :: h) s' days' ∧ ∀ d ∈ days', d ≤ dayOf c.now := by
  have hticks : c.cumulativeFinalized - s.finalizedSeen c.sender = contribution h c := by
    rw [ht.seen, contribution]
  have hpos : 0 < contribution h c := by omega
  obtain ⟨rest, hdesc, hsame, hring⟩ := ht.openDay hlast
  have hhead : (s.openDay (dayOf c.now)).daily (s.openDay (dayOf c.now)).curSlot =
      dayData h (dayOf c.now) := hring.current
  rw [Stats.recordTrade, openDay_marks] at hs
  simp only [hhead, hticks] at hs
  split at hs
  · obtain rfl := (Option.some.inj hs).symm
    have hrest : rest.map (dayData (c :: h)) = rest.map (dayData h) := by
      refine List.map_congr_left fun d hd => dayData_other ?_
      exact (List.rel_of_pairwise_cons hdesc hd).ne'
    refine ⟨dayOf c.now :: rest, ⟨fun deal => ?_, ?_, hdesc, fun d => ?_⟩, fun d hd => ?_⟩
    · simp only
      rw [highest_cons, Function.update_apply, ht.seen]
      by_cases hd : c.sender = deal
      · subst hd
        rw [ht.seen] at hc
        rw [if_pos rfl, if_pos rfl, max_eq_left hc.le]
      · rw [if_neg hd, if_neg (Ne.symm hd)]
    · rw [List.map_cons, hrest, dayData_self]
      exact hring.replace _
    · by_cases hd : d = dayOf c.now
      · subst hd
        refine iff_of_true List.mem_cons_self ?_
        simp only [dayVolume, if_true]
        omega
      · have hne : dayOf c.now ≠ d := Ne.symm hd
        simp only [dayVolume, if_neg hne, Nat.add_zero]
        rw [List.mem_cons, or_iff_right hd, ← hsame d hd, ht.traded d]
    · rcases List.mem_cons.mp hd with rfl | hd
      · exact Nat.le_refl _
      · exact (List.rel_of_pairwise_cons hdesc hd).le
  · cases hs

section Runs

variable (tokenContractAddr : ℕ → ℕ → Address)

theorem Tracks.step (ht : Tracks h s days) (hlast : ∀ d ∈ days, d ≤ dayOf c.now)
    (hc : c.canonical tokenContractAddr = true)
    (hs : reportFinalized tokenContractAddr s c = some s') :
    ∃ days', Tracks (c :: h) s' days' ∧ ∀ d ∈ days', d ≤ dayOf c.now := by
  simp only [reportFinalized, hc, Bool.not_true, Bool.false_eq_true, if_false] at hs
  split at hs
  · rename_i hle
    obtain rfl := Option.some.inj hs
    exact ⟨days, ht.stale hle, hlast⟩
  · rename_i hgt
    exact ht.record hlast (Nat.not_le.mp hgt) hs

theorem reportFinalized_foreign (hc : c.canonical tokenContractAddr = false) :
    reportFinalized tokenContractAddr s c = some s := by
  simp [reportFinalized, hc]

/-- After any history of calls at times that do not decrease, the ring holds what the calls that
were taken stand for. -/
theorem book_tracks (calls : List Call) (hord : calls.Pairwise fun a b => b.now ≤ a.now) :
    ∃ days, Tracks (taken tokenContractAddr calls) (book tokenContractAddr calls) days ∧
      ∀ now, (∀ c ∈ calls, c.now ≤ now) → ∀ d ∈ days, d ≤ dayOf now := by
  induction calls with
  | nil => exact ⟨[], .start, by simp⟩
  | cons c calls ih =>
    obtain ⟨hbefore, hord⟩ := List.pairwise_cons.mp hord
    obtain ⟨days, ht, hdays⟩ := ih hord
    have hlast : ∀ d ∈ days, d ≤ dayOf c.now := hdays c.now hbefore
    have hkeep : ∀ now, (∀ b ∈ c :: calls, b.now ≤ now) → ∀ d ∈ days, d ≤ dayOf now :=
      fun now hnow => hdays now fun b hb => hnow b (List.mem_cons_of_mem c hb)
    simp only [book, taken]
    cases hc : c.canonical tokenContractAddr with
    | false =>
      rw [reportFinalized_foreign tokenContractAddr hc]
      exact ⟨days, by simpa using ht, hkeep⟩
    | true =>
      cases hs : reportFinalized tokenContractAddr (book tokenContractAddr calls) c with
      | none => exact ⟨days, by simpa using ht, hkeep⟩
      | some s' =>
        obtain ⟨days', ht', hlast'⟩ := ht.step tokenContractAddr hlast hc hs
        refine ⟨days', by simpa using ht', fun now hnow d hd => (hlast' d hd).trans ?_⟩
        exact Nat.div_le_div_right (hnow c List.mem_cons_self)

end Runs

/-! ## The week -/

theorem drop_le {bound : ℕ} : ∀ (n k : ℕ) (l : List ℕ), l.Pairwise (· > ·) →
    (∀ d ∈ l, d + k ≤ bound) → ∀ d ∈ l.drop n, d + k + n ≤ bound := by
  intro n
  induction n with
  | zero =>
    intro k l _ hl d hd
    exact hl d hd
  | succ n ih =>
    intro k l hdesc hl d hd
    cases l with
    | nil => simp at hd
    | cons newest rest =>
      obtain ⟨hbelow, hrest⟩ := List.pairwise_cons.mp hdesc
      have hnewest := hl newest List.mem_cons_self
      have hnext := ih (k + 1) rest hrest (fun e he => by
        have hlt := hbelow e he
        omega) d hd
      omega

variable {now : ℕ}

theorem Tracks.nodup (ht : Tracks h s days) : days.Nodup :=
  ht.descending.imp fun hlt => hlt.ne'

theorem Tracks.week_held (ht : Tracks h s days) (hlast : ∀ d ∈ days, d ≤ dayOf now)
    (hd : d ∈ days) (hweek : dayOf now - 6 ≤ d) : d ∈ days.take 8 := by
  rw [← List.take_append_drop 8 days] at hd
  rcases List.mem_append.mp hd with hd | hd
  · exact hd
  · have hold := drop_le 8 0 days ht.descending (fun e he => hlast e he) d hd
    omega

/-- The slots that the week counts are the data of the days it counts, in some order. -/
theorem Tracks.week_perm (ht : Tracks h s days) (hlast : ∀ d ∈ days, d ≤ dayOf now) :
    (((List.range 8).map s.daily).filter (DayData.counts (dayOf now - 6) (dayOf now))).Perm
      ((days.filter (dayOf now - 6 ≤ ·)).map (dayData h)) := by
  have hcounts : ∀ d ∈ days, DayData.counts (dayOf now - 6) (dayOf now) (dayData h d) =
      decide (dayOf now - 6 ≤ d) := by
    intro d hd
    have hvol : dayVolume h d ≠ 0 := ((ht.traded d).mp hd).ne'
    simp [DayData.counts, dayData, hvol, hlast d hd]
  have hfilter := ht.ring.filter_perm (p := DayData.counts (dayOf now - 6) (dayOf now)) rfl (by
    intro x hx
    rw [← List.map_drop] at hx
    obtain ⟨d, hd, rfl⟩ := List.mem_map.mp hx
    rw [hcounts d (List.mem_of_mem_drop hd)]
    have hold := drop_le 8 0 days ht.descending (fun e he => hlast e he) d hd
    exact decide_eq_false (by omega))
  have hdays : (days.map (dayData h)).filter (DayData.counts (dayOf now - 6) (dayOf now)) =
      (days.filter (dayOf now - 6 ≤ ·)).map (dayData h) := by
    rw [List.filter_map]
    exact congrArg _ (List.filter_congr hcounts)
  rwa [hdays] at hfilter

theorem Tracks.tradedDays (ht : Tracks h s days) (hlast : ∀ d ∈ days, d ≤ dayOf now) :
    (tradedDays h now).val = (days.filter (dayOf now - 6 ≤ ·) : List ℕ) := by
  refine Multiset.Nodup.ext (Finset.nodup _) (Multiset.coe_nodup.mpr (ht.nodup.filter _)) |>.mpr
    fun d => ?_
  rw [Finset.mem_val, Multiset.mem_coe, ReferencePrice.tradedDays, Finset.mem_filter,
    Finset.mem_Icc, List.mem_filter, ht.traded d, decide_eq_true_iff]
  constructor
  · rintro ⟨⟨hmin, -⟩, hv⟩
    exact ⟨hv, hmin⟩
  · rintro ⟨hv, hmin⟩
    exact ⟨⟨hmin, hlast d ((ht.traded d).mpr hv)⟩, hv⟩

/-- The price of the week, or the refusal where the week has no volume. -/
theorem Tracks.weeklyMedian (ht : Tracks h s days) (hlast : ∀ d ∈ days, d ≤ dayOf now) :
    weeklyMedian s now =
      match referencePrice h now with
      | some price => .ok price
      | none => .error errNoLiquidity := by
  have hmin : (if 6 ≤ dayOf now then dayOf now - 6 else 0) = dayOf now - 6 := by
    split <;> omega
  have hperm := ht.week_perm hlast
  have hprices : referencePrice h now = median
      (((((List.range 8).map s.daily).filter (DayData.counts (dayOf now - 6) (dayOf now))).map
        fun d => d.priceVolSum / d.volSum : List ℕ) : Multiset ℕ) := by
    have hmap := hperm.map fun d : DayData => d.priceVolSum / d.volSum
    rw [List.map_map] at hmap
    rw [referencePrice, ht.tradedDays hlast, Multiset.map_coe, Multiset.coe_eq_coe.mpr hmap]
    rfl
  unfold ReferencePrice.weeklyMedian
  simp only [hmin]
  rw [hprices]
  generalize hkept : ((List.range 8).map s.daily).filter
    (DayData.counts (dayOf now - 6) (dayOf now)) = kept
  cases kept with
  | nil => simp [median_zero, minLiquidity]
  | cons d rest =>
    have hd : d ∈ ((List.range 8).map s.daily).filter
        (DayData.counts (dayOf now - 6) (dayOf now)) := by
      rw [hkept]
      exact List.mem_cons_self
    have hvol : d.volSum ≠ 0 := by
      have hc := (List.mem_filter.mp hd).2
      simp only [DayData.counts, Bool.and_eq_true, bne_iff_ne] at hc
      exact hc.1.1
    have htotal : minLiquidity ≤ ((d :: rest).map (·.volSum)).sum := by
      simp only [List.map_cons, List.sum_cons, minLiquidity]
      omega
    rw [if_pos htotal, middle_exchangeSort (by simp)]

theorem Tracks.day_slot (ht : Tracks h s days) (hlast : ∀ d ∈ days, d ≤ dayOf now)
    (hd : d ∈ ReferencePrice.tradedDays h now) : ∃! i, i < 8 ∧ s.daily i = dayData h d := by
  rw [ReferencePrice.tradedDays, Finset.mem_filter, Finset.mem_Icc] at hd
  obtain ⟨⟨hweek, -⟩, hv⟩ := hd
  have hmem : d ∈ days := (ht.traded d).mpr hv
  have htake : dayData h d ∈ (days.map (dayData h)).take 8 := by
    rw [← List.map_take]
    exact List.mem_map_of_mem (ht.week_held hlast hmem hweek)
  have hnodup : (days.map (dayData h)).Nodup :=
    ht.nodup.map_on fun a _ b _ heq => congrArg DayData.day heq
  obtain ⟨i, hi, heq⟩ := ht.ring.held htake
  refine ⟨i, ⟨hi, heq⟩, fun j hj => ?_⟩
  refine ht.ring.slot_injective hnodup hj.1 hi (fun hblank => ?_) (hj.2.trans heq.symm)
  have hvol := congrArg DayData.volSum (hj.2.symm.trans hblank)
  simp only [dayData, DayData.zero] at hvol
  omega

theorem Tracks.slot_day (ht : Tracks h s days) {i : ℕ} (hi : i < 8)
    (hv : (s.daily i).volSum ≠ 0) : s.daily i = dayData h (s.daily i).day := by
  rcases ht.ring.slot_mem hi with hm | hblank
  · obtain ⟨d, -, heq⟩ := List.mem_map.mp hm
    rw [← heq]
    rfl
  · rw [hblank] at hv
    exact absurd rfl hv

section Taken

variable (tokenContractAddr : ℕ → ℕ → Address)

theorem Tracks.accepts (ht : Tracks h s days) (hlast : ∀ d ∈ days, d ≤ dayOf c.now)
    (hfit : dayValue (c :: h) (dayOf c.now) < 2 ^ 256) :
    (reportFinalized tokenContractAddr s c).isSome = true := by
  unfold reportFinalized
  split
  · rfl
  · simp only
    split
    · rfl
    · obtain ⟨rest, -, -, hring⟩ := ht.openDay hlast
      have hhead : (s.openDay (dayOf c.now)).daily (s.openDay (dayOf c.now)).curSlot =
          dayData h (dayOf c.now) := hring.current
      rw [Stats.recordTrade, openDay_marks]
      simp only [hhead, ht.seen]
      simp only [dayValue, if_true] at hfit
      have hroom : (dayData h (dayOf c.now)).priceVolSum +
          c.pricePerTick * (c.cumulativeFinalized - highest h c.sender) < 2 ^ 256 := hfit
      rw [if_pos hroom]
      rfl

theorem dayValue_mono (c : Call) (h : List Call) (d : ℕ) : dayValue h d ≤ dayValue (c :: h) d :=
  Nat.le_add_right _ _

theorem taken_all (calls : List Call) (hord : calls.Pairwise fun a b => b.now ≤ a.now)
    (hfit : ∀ d, dayValue (calls.filter (·.canonical tokenContractAddr)) d < 2 ^ 256) :
    taken tokenContractAddr calls = calls.filter (·.canonical tokenContractAddr) := by
  induction calls with
  | nil => rfl
  | cons c calls ih =>
    obtain ⟨hbefore, hord⟩ := List.pairwise_cons.mp hord
    cases hc : c.canonical tokenContractAddr with
    | false =>
      simp only [List.filter_cons, hc, Bool.false_eq_true, if_false] at hfit ⊢
      simpa [taken, hc] using ih hord hfit
    | true =>
      simp only [List.filter_cons, hc, if_true] at hfit ⊢
      have hrest := ih hord fun d => (dayValue_mono c _ d).trans_lt (hfit d)
      obtain ⟨days, ht, hdays⟩ := book_tracks tokenContractAddr calls hord
      have hsome := ht.accepts tokenContractAddr (hdays c.now hbefore)
        (by rw [hrest]; exact hfit _)
      simp [taken, hc, hsome, hrest]

end Taken

/-- The price that the book answers is the median of the daily prices of the week; the ring
keeps every day of the week, each in a slot of its own; and every call counts while the values
fit in `uint256`. -/
theorem weekly_median_reference (tokenContractAddr : ℕ → ℕ → Address) (calls : List Call)
    (now : ℕ) (hord : calls.Pairwise fun a b => b.now ≤ a.now) (hnow : ∀ c ∈ calls, c.now ≤ now) :
    (weeklyMedian (book tokenContractAddr calls) now =
      match referencePrice (taken tokenContractAddr calls) now with
      | some price => .ok price
      | none => .error errNoLiquidity) ∧
    (∀ d ∈ tradedDays (taken tokenContractAddr calls) now, ∃! i, i < 8 ∧
      (book tokenContractAddr calls).daily i = dayData (taken tokenContractAddr calls) d) ∧
    (∀ i < 8, ((book tokenContractAddr calls).daily i).volSum ≠ 0 →
      (book tokenContractAddr calls).daily i =
        dayData (taken tokenContractAddr calls) ((book tokenContractAddr calls).daily i).day) ∧
    ((∀ d, dayValue (calls.filter (·.canonical tokenContractAddr)) d < 2 ^ 256) →
      taken tokenContractAddr calls = calls.filter (·.canonical tokenContractAddr)) := by
  obtain ⟨days, ht, hdays⟩ := book_tracks tokenContractAddr calls hord
  have hlast := hdays now hnow
  exact ⟨ht.weeklyMedian hlast, fun d hd => ht.day_slot hlast hd,
    fun i hi hv => ht.slot_day hi hv, taken_all tokenContractAddr calls hord⟩

def dealAddress (sellerPubkey nonce : ℕ) : Address := 100 * sellerPubkey + nonce

def twoDays : List Call :=
  [⟨2 * 86400 + 9, 201, 2, 1, 6, 7⟩, ⟨2 * 86400, 201, 2, 1, 6, 7⟩, ⟨86400, 101, 1, 1, 3, 4⟩]

theorem two_days_priced : weeklyMedian (book dealAddress twoDays) (3 * 86400) = .ok 4 ∧
    referencePrice (taken dealAddress twoDays) (3 * 86400) = some 4 := by
  have hprice : weeklyMedian (book dealAddress twoDays) (3 * 86400) = .ok 4 := by rfl
  have h := (weekly_median_reference dealAddress twoDays (3 * 86400) (by decide)
    (by decide)).1
  refine ⟨hprice, ?_⟩
  rw [hprice] at h
  split at h
  · rename_i price heq
    rw [heq, Except.ok.inj h]
  · cases h

end ReferencePrice
