import Dexdo.Addresses
import Mathlib.Data.Char
import Mathlib.Data.List.Destutter
import Mathlib.Data.List.Sort

/-! # The cursor of the match watcher

`crates/core/src/market/types.rs`, `MatchWatchCursor`: which fills of a source a watcher has consumed,
kept as the newest second and the TokenContracts consumed in it. -/
namespace MatchWatch

open TextForms Addresses

structure MatchWatchCursor where
  sinceUnix : ℤ
  lastSeenCreatedAt : Option ℤ
  seenTokenContractsAtLastSeen : List Text
  deriving DecidableEq

abbrev Event := ℤ × Text

def SameName (a b : Text) : Prop := lower a = lower b

instance (a b : Text) : Decidable (SameName a b) := inferInstanceAs (Decidable (_ = _))

def Listed (names : List Text) (name : Text) : Prop := ∃ n ∈ names, SameName n name

instance (names : List Text) (name : Text) : Decidable (Listed names name) :=
  inferInstanceAs (Decidable (∃ n ∈ names, SameName n name))

namespace MatchWatchCursor

def fresh (since : ℤ) : MatchWatchCursor := ⟨since, none, []⟩

def hasSeen (c : MatchWatchCursor) (e : Event) : Bool :=
  if e.1 < c.sinceUnix then true
  else
    match c.lastSeenCreatedAt with
    | some last =>
      if e.1 < last then true
      else if e.1 = last then decide (Listed c.seenTokenContractsAtLastSeen e.2)
      else false
    | none => false

/-- The two variables of the loop in `record_seen_batch`: `max_seen` and `at_max`. -/
abbrev Seen := Option ℤ × List Text

/-- One round of the loop. -/
def observe (since : ℤ) (seen : Seen) (e : Event) : Seen :=
  if e.1 < since then seen
  else
    match seen.1 with
    | some newest =>
      if e.1 < newest then seen
      else if e.1 = newest then
        if Listed seen.2 e.2 then seen else (some newest, seen.2 ++ [e.2])
      else (some e.1, [e.2])
    | none => (some e.1, [e.2])

def opening (c : MatchWatchCursor) : Seen :=
  (c.lastSeenCreatedAt,
    if c.lastSeenCreatedAt.isSome then c.seenTokenContractsAtLastSeen else [])

def tidied (names : List Text) : List Text :=
  (names.insertionSort (· ≤ ·)).destutter fun a b => ¬ SameName a b

def close (c : MatchWatchCursor) (seen : Seen) : MatchWatchCursor :=
  match seen.1 with
  | some newest =>
    { c with lastSeenCreatedAt := some newest, seenTokenContractsAtLastSeen := tidied seen.2 }
  | none => c

def recordSeenBatch (c : MatchWatchCursor) (events : List Event) : MatchWatchCursor :=
  c.close (events.foldl (observe c.sinceUnix) c.opening)

def reloaded (c : MatchWatchCursor) : MatchWatchCursor :=
  { c with seenTokenContractsAtLastSeen :=
      c.seenTokenContractsAtLastSeen.map fun name => deserialized (displaySelfDapp name) }

def Distinct (c : MatchWatchCursor) : Prop :=
  c.lastSeenCreatedAt.isSome → (c.seenTokenContractsAtLastSeen.map lower).Nodup

end MatchWatchCursor

open MatchWatchCursor

variable {c : MatchWatchCursor} {seen seen' : Seen} {e f : Event} {events more : List Event}
  {names names' : List Text} {name : Text} {since newest last : ℤ}

/-! ## Names -/

theorem listed_append : Listed (names ++ names') name ↔ Listed names name ∨ Listed names' name := by
  simp only [Listed, List.mem_append, or_and_right, exists_or]

theorem listed_singleton {n : Text} : Listed [n] name ↔ SameName n name := by
  simp only [Listed, List.mem_singleton, exists_eq_left]

theorem listed_perm (h : names.Perm names') : Listed names name ↔ Listed names' name := by
  simp only [Listed, h.mem_iff]

theorem listed_destutter' (a : Text) (l : List Text) :
    Listed (l.destutter' (fun a b => ¬ SameName a b) a) name ↔ Listed (a :: l) name := by
  induction l generalizing a with
  | nil => rfl
  | cons b l ih =>
    rw [List.destutter'_cons]
    by_cases h : SameName a b
    · rw [if_neg (not_not_intro h), ih]
      simp only [Listed, List.mem_cons, exists_eq_or_imp]
      constructor
      · rintro (ha | hl)
        · exact .inl ha
        · exact .inr (.inr hl)
      · rintro (ha | hb | hl)
        · exact .inl ha
        · exact .inl (h.trans hb)
        · exact .inr hl
    · rw [if_pos h]
      simp only [Listed, List.mem_cons, exists_eq_or_imp]
      have := ih b
      simp only [Listed, List.mem_cons, exists_eq_or_imp] at this
      rw [this]

theorem listed_tidied : Listed (tidied names) name ↔ Listed names name := by
  unfold tidied
  rw [← listed_perm (List.perm_insertionSort (· ≤ ·) names)]
  cases names.insertionSort (· ≤ ·) with
  | nil => rfl
  | cons a l => exact listed_destutter' a l

theorem tidied_of_nodup (h : (names.map lower).Nodup) :
    tidied names = names.insertionSort (· ≤ ·) := by
  have hsorted : ((names.insertionSort (· ≤ ·)).map lower).Nodup :=
    (((List.perm_insertionSort (· ≤ ·) names).map lower).nodup_iff).mpr h
  apply List.destutter_of_isChain
  apply List.Pairwise.isChain
  exact List.pairwise_map.mp hsorted

theorem tidied_perm (h : names.Perm names') (hn : (names.map lower).Nodup) :
    tidied names = tidied names' := by
  rw [tidied_of_nodup hn, tidied_of_nodup (((h.map lower).nodup_iff).mp hn)]
  exact (((List.perm_insertionSort _ _).trans h).trans
    (List.perm_insertionSort _ _).symm).eq_of_pairwise'
      (List.pairwise_insertionSort _ _) (List.pairwise_insertionSort _ _)

/-! ## One round of the loop -/

theorem observe_some (he : ¬ e.1 < since) :
    observe since (some newest, names) e =
      if e.1 < newest then (some newest, names)
      else if e.1 = newest then
        if Listed names e.2 then (some newest, names) else (some newest, names ++ [e.2])
      else (some e.1, [e.2]) := by
  simp only [observe, he, if_false]

theorem observe_old (he : e.1 < since) : observe since seen e = seen := by
  simp only [observe, he, if_true]

theorem observe_none (he : ¬ e.1 < since) : observe since (none, names) e = (some e.1, [e.2]) := by
  simp only [observe, he, if_false]

theorem observe_perm (hmax : seen.1 = seen'.1) (h : seen.2.Perm seen'.2) :
    (observe since seen e).1 = (observe since seen' e).1 ∧
      (observe since seen e).2.Perm (observe since seen' e).2 := by
  obtain ⟨m, l⟩ := seen
  obtain ⟨m', l'⟩ := seen'
  obtain rfl : m = m' := hmax
  by_cases he : e.1 < since
  · rw [observe_old he, observe_old he]
    exact ⟨rfl, h⟩
  cases m with
  | none =>
    rw [observe_none he, observe_none he]
    exact ⟨rfl, .refl _⟩
  | some newest =>
    rw [observe_some he, observe_some he]
    simp only [listed_perm h]
    split_ifs
    · exact ⟨rfl, h⟩
    · exact ⟨rfl, h⟩
    · exact ⟨rfl, h.append_right _⟩
    · exact ⟨rfl, .refl _⟩

theorem foldl_observe_perm (hmax : seen.1 = seen'.1) (h : seen.2.Perm seen'.2) :
    (events.foldl (observe since) seen).1 = (events.foldl (observe since) seen').1 ∧
      (events.foldl (observe since) seen).2.Perm (events.foldl (observe since) seen').2 := by
  induction events generalizing seen seen' with
  | nil => exact ⟨hmax, h⟩
  | cons e events ih =>
    exact ih (observe_perm hmax h).1 (observe_perm hmax h).2

theorem observe_listed (hmax : seen.1 = seen'.1)
    (h : ∀ name, Listed seen.2 name ↔ Listed seen'.2 name) :
    (observe since seen e).1 = (observe since seen' e).1 ∧
      ∀ name, Listed (observe since seen e).2 name ↔ Listed (observe since seen' e).2 name := by
  obtain ⟨m, l⟩ := seen
  obtain ⟨m', l'⟩ := seen'
  obtain rfl : m = m' := hmax
  by_cases he : e.1 < since
  · rw [observe_old he, observe_old he]
    exact ⟨rfl, h⟩
  cases m with
  | none =>
    rw [observe_none he, observe_none he]
    exact ⟨rfl, fun _ => Iff.rfl⟩
  | some newest =>
    rw [observe_some he, observe_some he]
    simp only [h e.2]
    split_ifs
    · exact ⟨rfl, h⟩
    · exact ⟨rfl, h⟩
    · refine ⟨rfl, fun name => ?_⟩
      simp only [listed_append]
      rw [h name]
    · exact ⟨rfl, fun _ => Iff.rfl⟩

theorem foldl_observe_listed (hmax : seen.1 = seen'.1)
    (h : ∀ name, Listed seen.2 name ↔ Listed seen'.2 name) :
    (events.foldl (observe since) seen).1 = (events.foldl (observe since) seen').1 ∧
      ∀ name, Listed (events.foldl (observe since) seen).2 name ↔
        Listed (events.foldl (observe since) seen').2 name := by
  induction events generalizing seen seen' with
  | nil => exact ⟨hmax, h⟩
  | cons e events ih =>
    exact ih (observe_listed hmax h).1 (observe_listed hmax h).2

theorem observe_nodup (h : (seen.2.map lower).Nodup) :
    ((observe since seen e).2.map lower).Nodup := by
  obtain ⟨m, l⟩ := seen
  by_cases he : e.1 < since
  · rwa [observe_old he]
  cases m with
  | none =>
    rw [observe_none he]
    exact List.nodup_singleton _
  | some newest =>
    rw [observe_some he]
    split_ifs with _ _ hl
    · exact h
    · exact h
    · rw [List.map_append, List.nodup_append]
      refine ⟨h, List.nodup_singleton _, ?_⟩
      intro a ha b hb hab
      obtain ⟨n, hn, rfl⟩ := List.mem_map.mp ha
      rw [List.map_singleton, List.mem_singleton] at hb
      exact hl ⟨n, hn, hab.trans hb⟩
    · exact List.nodup_singleton _

theorem foldl_observe_nodup (h : (seen.2.map lower).Nodup) :
    ((events.foldl (observe since) seen).2.map lower).Nodup := by
  induction events generalizing seen with
  | nil => exact h
  | cons e events ih => exact ih (observe_nodup h)

theorem observe_eq_none (h : (observe since seen e).1 = none) : observe since seen e = seen := by
  obtain ⟨m, l⟩ := seen
  by_cases he : e.1 < since
  · exact observe_old he
  cases m with
  | none =>
    rw [observe_none he] at h
    cases h
  | some newest =>
    rw [observe_some he] at h
    split_ifs at h

theorem foldl_observe_eq_none (h : (events.foldl (observe since) seen).1 = none) :
    events.foldl (observe since) seen = seen := by
  induction events generalizing seen with
  | nil => rfl
  | cons e events ih =>
    have htail : events.foldl (observe since) (observe since seen e) = observe since seen e := ih h
    rw [List.foldl_cons] at h ⊢
    rw [htail] at h ⊢
    exact observe_eq_none h

theorem foldl_observe_isSome (h : seen.1.isSome) :
    (events.foldl (observe since) seen).1.isSome := by
  cases hm : (events.foldl (observe since) seen).1 with
  | none => rw [foldl_observe_eq_none hm] at hm; rw [hm] at h; exact h
  | some newest => rfl

/-! ## Batches -/

theorem opening_nodup (h : c.Distinct) : (c.opening.2.map lower).Nodup := by
  unfold MatchWatchCursor.opening
  cases hl : c.lastSeenCreatedAt with
  | none => exact List.nodup_nil
  | some last => exact h (by rw [hl]; rfl)

theorem record_none (h : (events.foldl (observe c.sinceUnix) c.opening).1 = none) :
    c.recordSeenBatch events = c := by
  rw [recordSeenBatch, MatchWatchCursor.close, h]

theorem record_some (h : (events.foldl (observe c.sinceUnix) c.opening).1 = some newest) :
    c.recordSeenBatch events = { c with
      lastSeenCreatedAt := some newest
      seenTokenContractsAtLastSeen :=
        tidied (events.foldl (observe c.sinceUnix) c.opening).2 } := by
  rw [recordSeenBatch, MatchWatchCursor.close, h]

@[simp] theorem record_since (c : MatchWatchCursor) (events : List Event) :
    (c.recordSeenBatch events).sinceUnix = c.sinceUnix := by
  cases h : (events.foldl (observe c.sinceUnix) c.opening).1 with
  | none => rw [record_none h]
  | some newest => rw [record_some h]

theorem record_distinct (h : c.Distinct) : (c.recordSeenBatch events).Distinct := by
  cases hm : (events.foldl (observe c.sinceUnix) c.opening).1 with
  | none => rwa [record_none hm]
  | some newest =>
    have hn : ((events.foldl (observe c.sinceUnix) c.opening).2.map lower).Nodup :=
      foldl_observe_nodup (opening_nodup h)
    rw [record_some hm]
    intro _
    dsimp only
    rw [tidied_of_nodup hn]
    exact (((List.perm_insertionSort _ _).map lower).nodup_iff).mpr hn

/-- Two batches one after the other leave what both at once leave. -/
theorem record_append (h : c.Distinct) :
    (c.recordSeenBatch events).recordSeenBatch more = c.recordSeenBatch (events ++ more) := by
  cases hm : (events.foldl (observe c.sinceUnix) c.opening).1 with
  | none =>
    rw [record_none hm]
    unfold recordSeenBatch
    rw [List.foldl_append, foldl_observe_eq_none hm]
  | some newest =>
    have hn : ((events.foldl (observe c.sinceUnix) c.opening).2.map lower).Nodup :=
      foldl_observe_nodup (opening_nodup h)
    generalize hst : events.foldl (observe c.sinceUnix) c.opening = st at hm hn
    obtain ⟨m, l⟩ := st
    obtain rfl : m = some newest := hm
    have hfirst : c.recordSeenBatch events = { c with
        lastSeenCreatedAt := some newest, seenTokenContractsAtLastSeen := tidied l } := by
      have hmax : (events.foldl (observe c.sinceUnix) c.opening).1 = some newest := by rw [hst]
      rw [record_some hmax, hst]
    -- the second loop starts on the same names in another order
    have hsorted : (tidied l).Perm l := by
      rw [tidied_of_nodup hn]
      exact List.perm_insertionSort _ _
    obtain ⟨hmax, hperm⟩ :
        (more.foldl (observe c.sinceUnix) (some newest, tidied l)).1 =
          (more.foldl (observe c.sinceUnix) (some newest, l)).1 ∧
        (more.foldl (observe c.sinceUnix) (some newest, tidied l)).2.Perm
          (more.foldl (observe c.sinceUnix) (some newest, l)).2 :=
      foldl_observe_perm rfl hsorted
    have hn' : ((more.foldl (observe c.sinceUnix) (some newest, tidied l)).2.map lower).Nodup :=
      foldl_observe_nodup (((hsorted.map lower).nodup_iff).mpr hn)
    have hlast : (more.foldl (observe c.sinceUnix) (some newest, tidied l)).1.isSome :=
      foldl_observe_isSome rfl
    obtain ⟨latest, hlatest⟩ := Option.isSome_iff_exists.mp hlast
    rw [hfirst]
    unfold recordSeenBatch
    rw [List.foldl_append, hst]
    simp only [MatchWatchCursor.opening, Option.isSome_some, if_true, MatchWatchCursor.close]
    rw [← hmax, hlatest, tidied_perm hperm hn']

/-! ## What counts as seen -/

def seenBy (since : ℤ) (seen : Seen) (e : Event) : Prop :=
  e.1 < since ∨ ∃ newest, seen.1 = some newest ∧
    (e.1 < newest ∨ e.1 = newest ∧ Listed seen.2 e.2)

theorem hasSeen_iff :
    c.hasSeen e = true ↔ e.1 < c.sinceUnix ∨ ∃ last, c.lastSeenCreatedAt = some last ∧
      (e.1 < last ∨ e.1 = last ∧ Listed c.seenTokenContractsAtLastSeen e.2) := by
  unfold hasSeen
  by_cases hold : e.1 < c.sinceUnix
  · simp [hold]
  cases c.lastSeenCreatedAt with
  | none => simp [hold]
  | some last =>
    by_cases hlt : e.1 < last
    · simp [hlt]
    · by_cases heq : e.1 = last
      · simp [heq]
      · simp [hold, hlt, heq]

theorem hasSeen_opening : c.hasSeen e = true ↔ seenBy c.sinceUnix c.opening e := by
  rw [hasSeen_iff]
  unfold seenBy MatchWatchCursor.opening
  cases c.lastSeenCreatedAt with
  | none => simp
  | some last => simp

theorem hasSeen_record :
    (c.recordSeenBatch events).hasSeen e = true ↔
      seenBy c.sinceUnix (events.foldl (observe c.sinceUnix) c.opening) e := by
  cases hm : (events.foldl (observe c.sinceUnix) c.opening).1 with
  | none =>
    rw [record_none hm, hasSeen_opening, foldl_observe_eq_none hm]
  | some newest =>
    rw [record_some hm, hasSeen_iff]
    simp only [seenBy, hm, listed_tidied]

theorem seenBy_congr (hmax : seen.1 = seen'.1)
    (h : ∀ name, Listed seen.2 name ↔ Listed seen'.2 name) :
    seenBy since seen e ↔ seenBy since seen' e := by
  simp only [seenBy, hmax, h]

theorem seenBy_observe_self : seenBy since (observe since seen e) e := by
  obtain ⟨m, l⟩ := seen
  by_cases he : e.1 < since
  · exact .inl he
  have hself : Listed [e.2] e.2 := listed_singleton.mpr rfl
  cases m with
  | none =>
    rw [observe_none he]
    exact .inr ⟨_, rfl, .inr ⟨rfl, hself⟩⟩
  | some newest =>
    rw [observe_some he]
    split_ifs with h1 h2 h3
    · exact .inr ⟨_, rfl, .inl h1⟩
    · exact .inr ⟨_, rfl, .inr ⟨h2, h3⟩⟩
    · exact .inr ⟨_, rfl, .inr ⟨h2, listed_append.mpr (.inr hself)⟩⟩
    · exact .inr ⟨_, rfl, .inr ⟨rfl, hself⟩⟩

theorem seenBy_observe (h : seenBy since seen f) : seenBy since (observe since seen e) f := by
  obtain hold | ⟨newest, hm, hseen⟩ := h
  · exact .inl hold
  obtain ⟨m, l⟩ := seen
  obtain rfl : m = some newest := hm
  by_cases he : e.1 < since
  · rw [observe_old he]
    exact .inr ⟨newest, rfl, hseen⟩
  rw [observe_some he]
  split_ifs with h1 h2 h3
  · exact .inr ⟨_, rfl, hseen⟩
  · exact .inr ⟨_, rfl, hseen⟩
  · exact .inr ⟨_, rfl, hseen.imp id fun ⟨hf, hl⟩ => ⟨hf, listed_append.mpr (.inl hl)⟩⟩
  · exact .inr ⟨_, rfl, .inl (by omega)⟩

theorem seenBy_foldl (h : seenBy since seen f) :
    seenBy since (events.foldl (observe since) seen) f := by
  induction events generalizing seen with
  | nil => exact h
  | cons e events ih => exact ih (seenBy_observe h)

theorem seenBy_foldl_of_mem (h : e ∈ events) :
    seenBy since (events.foldl (observe since) seen) e := by
  induction events generalizing seen with
  | nil => cases h
  | cons a events ih =>
    rw [List.foldl_cons]
    obtain rfl | h := List.mem_cons.mp h
    · exact seenBy_foldl seenBy_observe_self
    · exact ih h

theorem hasSeen_record_of_hasSeen (h : c.hasSeen e = true) :
    (c.recordSeenBatch events).hasSeen e = true :=
  hasSeen_record.mpr (seenBy_foldl (hasSeen_opening.mp h))

theorem hasSeen_record_of_mem (h : e ∈ events) : (c.recordSeenBatch events).hasSeen e = true :=
  hasSeen_record.mpr (seenBy_foldl_of_mem h)

theorem hasSeen_record_append :
    ((c.recordSeenBatch events).recordSeenBatch more).hasSeen e =
      (c.recordSeenBatch (events ++ more)).hasSeen e := by
  rw [Bool.eq_iff_iff, hasSeen_record, hasSeen_record, record_since]
  cases hm : (events.foldl (observe c.sinceUnix) c.opening).1 with
  | none => rw [record_none hm, List.foldl_append, foldl_observe_eq_none hm]
  | some newest =>
    rw [record_some hm, List.foldl_append]
    generalize events.foldl (observe c.sinceUnix) c.opening = seen at hm ⊢
    obtain ⟨hmax, hlist⟩ :
        (more.foldl (observe c.sinceUnix) (some newest, tidied seen.2)).1 =
          (more.foldl (observe c.sinceUnix) seen).1 ∧
        ∀ name, Listed (more.foldl (observe c.sinceUnix) (some newest, tidied seen.2)).2 name ↔
          Listed (more.foldl (observe c.sinceUnix) seen).2 name :=
      foldl_observe_listed hm.symm (fun _ => listed_tidied)
    exact seenBy_congr hmax hlist

end MatchWatch
