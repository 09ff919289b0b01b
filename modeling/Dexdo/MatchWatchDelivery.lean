import Dexdo.MatchWatchCursor

/-! # What a watcher delivers

A watcher that polls its source, delivers what its cursor has not seen, records it, and now and then
starts again from the cursor in its file. -/
namespace MatchWatch

open TextForms Addresses MatchWatchCursor

structure Watcher where
  cursor : MatchWatchCursor
  /-- How much of the source the polls have shown. -/
  polled : ℕ
  delivered : List Event

def Watcher.poll (w : Watcher) (shown : List Event) (upTo : ℕ) : Watcher :=
  let news := shown.filter fun e => !w.cursor.hasSeen e
  ⟨w.cursor.recordSeenBatch news, upTo, w.delivered ++ news⟩

/-- Every poll shows the source from somewhere in what was shown before, or from its end, up to
where the source has got; a restart may come between any two. -/
inductive Reached (source : List Event) (since : ℤ) : Watcher → Prop where
  | start : Reached source since ⟨.fresh since, 0, []⟩
  | poll {w} (start upTo : ℕ) : Reached source since w → start ≤ w.polled → w.polled ≤ upTo →
      Reached source since (w.poll ((source.take upTo).drop start) upTo)
  | restart {w} : Reached source since w →
      Reached source since { w with cursor := w.cursor.reloaded }

def InOrder (source : List Event) : Prop := source.Pairwise fun e f => e.1 ≤ f.1

def OneEach (source : List Event) : Prop :=
  source.Pairwise fun e f => ¬ (e.1 = f.1 ∧ SameName e.2 f.2)

def Kept (source : List Event) : Prop :=
  ∀ e ∈ source, SameName (deserialized (displaySelfDapp e.2)) e.2

variable {source told : List Event} {since newest : ℤ} {w : Watcher} {c : MatchWatchCursor}
  {e f : Event} {events : List Event} {seen : Seen} {name : Text}

theorem OneEach.nodup (h : OneEach source) : source.Nodup := by
  refine List.Pairwise.imp ?_ h
  rintro e f hne rfl
  exact hne ⟨rfl, rfl⟩

def From (told : List Event) (newest : ℤ) (name : Text) : Prop :=
  ∃ f ∈ told, f.1 = newest ∧ (name = f.2 ∨ name = settled f.2)

def Grounded (told : List Event) (seen : Seen) : Prop :=
  ∀ newest, seen.1 = some newest →
    (∃ f ∈ told, f.1 = newest) ∧ ∀ name ∈ seen.2, From told newest name

theorem Grounded.observe (h : Grounded told seen) (he : e ∈ told) :
    Grounded told (observe since seen e) := by
  obtain ⟨m, l⟩ := seen
  by_cases hold : e.1 < since
  · rwa [observe_old hold]
  have hself : Grounded told (some e.1, [e.2]) := by
    rintro newest ⟨⟩
    refine ⟨⟨e, he, rfl⟩, fun name hn => ?_⟩
    obtain rfl := List.mem_singleton.mp hn
    exact ⟨e, he, rfl, .inl rfl⟩
  cases m with
  | none => rwa [observe_none hold]
  | some newest =>
    rw [observe_some hold]
    split_ifs with hlt heq hl
    · exact h
    · exact h
    · rintro newest' ⟨⟩
      obtain ⟨hmax, hnames⟩ := h newest rfl
      refine ⟨hmax, fun name hn => ?_⟩
      obtain hn | hn := List.mem_append.mp hn
      · exact hnames name hn
      · obtain rfl := List.mem_singleton.mp hn
        exact ⟨e, he, heq, .inl rfl⟩
    · exact hself

theorem Grounded.foldl (h : Grounded told seen) (he : ∀ e ∈ events, e ∈ told) :
    Grounded told (events.foldl (MatchWatchCursor.observe since) seen) := by
  induction events generalizing seen with
  | nil => exact h
  | cons e events ih =>
    exact ih (h.observe (he e List.mem_cons_self)) fun f hf => he f (List.mem_cons_of_mem _ hf)

theorem mem_of_mem_tidied {names : List Text} (h : name ∈ tidied names) : name ∈ names :=
  (List.mem_insertionSort (· ≤ ·)).mp ((List.destutter_sublist _ _).mem h)

/-- The cursor knows every event told, and nothing that is not. -/
structure Follows (source : List Event) (since : ℤ) (w : Watcher) : Prop where
  sinceUnix : w.cursor.sinceUnix = since
  grounded : Grounded (source.take w.polled)
    (w.cursor.lastSeenCreatedAt, w.cursor.seenTokenContractsAtLastSeen)
  complete : ∀ e ∈ source.take w.polled, w.cursor.hasSeen e = true
  delivered : w.delivered = (source.take w.polled).filter fun e => decide (since ≤ e.1)

theorem Follows.unseen (h : Follows source since w) (hsorted : InOrder source)
    (hone : OneEach source) (hkept : Kept source) (he : e ∈ source.drop w.polled) :
    w.cursor.hasSeen e = true ↔ e.1 < since := by
  rw [hasSeen_iff, h.sinceUnix]
  refine ⟨?_, .inl⟩
  rintro (hold | ⟨last, hlast, hseen⟩)
  · exact hold
  rw [← List.take_append_drop w.polled source] at hsorted hone
  obtain ⟨-, -, horder⟩ := List.pairwise_append.mp hsorted
  obtain ⟨-, -, hapart⟩ := List.pairwise_append.mp hone
  obtain ⟨⟨f, hf, rfl⟩, hnames⟩ := h.grounded last hlast
  have hfe := horder f hf e he
  obtain hlt | ⟨heq, n, hn, hsame⟩ := hseen
  · omega
  obtain ⟨g, hg, hgt, hname⟩ := hnames n hn
  have hgn : SameName g.2 n := by
    obtain rfl | rfl := hname
    · rfl
    · have := hkept g (List.mem_of_mem_take hg)
      rw [deserialized_displaySelfDapp] at this
      exact this.symm
  exact absurd ⟨by omega, hgn.trans hsame⟩ (hapart g hg e he)

theorem shown_split {start polled upTo : ℕ} (hstart : start ≤ polled) (hup : polled ≤ upTo) :
    (source.take upTo).drop start =
      (source.take polled).drop start ++ (source.take upTo).drop polled := by
  have hold : (source.take upTo).take polled = source.take polled := by
    rw [List.take_take, min_eq_left hup]
  calc (source.take upTo).drop start
      = ((source.take upTo).take polled ++ (source.take upTo).drop polled).drop start := by
        rw [List.take_append_drop]
    _ = _ := by
      rw [hold, List.drop_append, List.append_cancel_left_eq]
      rcases Nat.lt_or_ge source.length polled with hlen | hlen
      · have hnone : (source.take upTo).drop polled = [] :=
          List.drop_eq_nil_of_le (by rw [List.length_take]; omega)
        rw [hnone, List.drop_nil]
      · rw [List.length_take, min_eq_left hlen, Nat.sub_eq_zero_of_le hstart, List.drop_zero]

theorem Follows.poll (h : Follows source since w) (hsorted : InOrder source)
    (hone : OneEach source) (hkept : Kept source) {start upTo : ℕ} (hstart : start ≤ w.polled)
    (hup : w.polled ≤ upTo) :
    Follows source since (w.poll ((source.take upTo).drop start) upTo) := by
  have hall : source.take upTo = source.take w.polled ++ (source.take upTo).drop w.polled := by
    conv_lhs => rw [← List.take_append_drop w.polled (source.take upTo)]
    rw [List.take_take, min_eq_left hup]
  have hahead : ∀ e ∈ (source.take upTo).drop w.polled, w.cursor.hasSeen e = true ↔ e.1 < since := by
    intro e he
    have hdrop := (List.take_sublist upTo source).drop w.polled
    exact h.unseen hsorted hone hkept (hdrop.mem he)
  -- what is delivered is what had not been shown, from the starting time on
  have hnews : (((source.take upTo).drop start).filter fun e => !w.cursor.hasSeen e) =
      ((source.take upTo).drop w.polled).filter fun e => decide (since ≤ e.1) := by
    rw [shown_split hstart hup, List.filter_append, List.filter_eq_nil_iff.mpr, List.nil_append]
    · refine List.filter_congr fun e he => ?_
      have hiff := hahead e he
      by_cases hold : e.1 < since
      · simp [hiff.mpr hold, hold]
      · have hfalse : w.cursor.hasSeen e = false := by
          rw [← Bool.not_eq_true, hiff]
          exact hold
        simp [hfalse, not_lt.mp hold]
    · intro e he
      simp [h.complete e (List.mem_of_mem_drop he)]
  have hmem : ∀ e ∈ source.take w.polled, e ∈ source.take upTo := by
    intro e he
    rw [hall]
    exact List.mem_append_left _ he
  refine ⟨?_, ?_, ?_, ?_⟩
  · simp only [Watcher.poll, record_since, h.sinceUnix]
  · have hground : Grounded (source.take upTo)
        (w.cursor.lastSeenCreatedAt, w.cursor.seenTokenContractsAtLastSeen) := by
      intro newest hnewest
      obtain ⟨⟨f, hf, hft⟩, hnames⟩ := h.grounded newest hnewest
      refine ⟨⟨f, hmem f hf, hft⟩, fun name hn => ?_⟩
      obtain ⟨g, hg, hgt, hname⟩ := hnames name hn
      exact ⟨g, hmem g hg, hgt, hname⟩
    simp only [Watcher.poll]
    generalize hbatch : (((source.take upTo).drop start).filter fun e => !w.cursor.hasSeen e) = news
    have hin : ∀ e ∈ news, e ∈ source.take upTo := by
      intro e he
      rw [← hbatch] at he
      exact List.mem_of_mem_drop (List.mem_of_mem_filter he)
    cases hm : (news.foldl (observe w.cursor.sinceUnix) w.cursor.opening).1 with
    | none =>
      rw [record_none hm]
      exact hground
    | some newest =>
      have hopening : Grounded (source.take upTo) w.cursor.opening := by
        intro newest hnewest
        obtain ⟨hmax, hnames⟩ := hground newest hnewest
        refine ⟨hmax, fun name hn => hnames name ?_⟩
        simp only [MatchWatchCursor.opening] at hn
        split_ifs at hn
        · exact hn
        · cases hn
      have hfold : Grounded (source.take upTo)
          (news.foldl (observe w.cursor.sinceUnix) w.cursor.opening) := hopening.foldl hin
      rw [record_some hm]
      rintro newest' ⟨⟩
      obtain ⟨hmax, hnames⟩ := hfold newest hm
      exact ⟨hmax, fun name hn => hnames name (mem_of_mem_tidied hn)⟩
  · intro e he
    simp only [Watcher.poll] at he ⊢
    rw [hall] at he
    cases hseen : w.cursor.hasSeen e with
    | true => exact hasSeen_record_of_hasSeen hseen
    | false =>
      obtain hold | hnew := List.mem_append.mp he
      · rw [h.complete e hold] at hseen
        cases hseen
      · apply hasSeen_record_of_mem
        rw [shown_split hstart hup, List.filter_append]
        refine List.mem_append_right _ (List.mem_filter.mpr ⟨hnew, ?_⟩)
        rw [hseen]
        rfl
  · simp only [Watcher.poll]
    rw [hnews, h.delivered, ← List.filter_append, ← hall]

/-- The file may respell the names of the newest second, not what has been seen. -/
theorem Follows.restart (h : Follows source since w) (hkept : Kept source) :
    Follows source since { w with cursor := w.cursor.reloaded } := by
  have hnames : ∀ last, w.cursor.lastSeenCreatedAt = some last →
      ∀ n ∈ w.cursor.seenTokenContractsAtLastSeen,
        SameName (deserialized (displaySelfDapp n)) n := by
    intro last hlast n hn
    obtain ⟨-, hfrom⟩ := h.grounded last hlast
    obtain ⟨g, hg, -, hname⟩ := hfrom n hn
    obtain rfl | rfl := hname
    · exact hkept g (List.mem_of_mem_take hg)
    · rw [deserialized_displaySelfDapp, settled_settled]
      rfl
  refine ⟨h.sinceUnix, ?_, ?_, h.delivered⟩
  · intro newest hnewest
    obtain ⟨hmax, hfrom⟩ := h.grounded newest hnewest
    refine ⟨hmax, fun name hname => ?_⟩
    obtain ⟨n, hn, rfl⟩ := List.mem_map.mp hname
    obtain ⟨g, hg, hgt, hname⟩ := hfrom n hn
    refine ⟨g, hg, hgt, .inr ?_⟩
    obtain rfl | rfl := hname
    · rw [deserialized_displaySelfDapp]
    · rw [deserialized_displaySelfDapp, settled_settled]
  · intro e he
    have hseen := h.complete e he
    rw [hasSeen_iff] at hseen ⊢
    obtain hold | ⟨last, hlast, hnew⟩ := hseen
    · exact .inl hold
    refine .inr ⟨last, hlast, hnew.imp id ?_⟩
    rintro ⟨ht, n, hn, hsame⟩
    exact ⟨ht, _, List.mem_map_of_mem hn, (hnames last hlast n hn).trans hsame⟩

theorem Reached.follows (hsorted : InOrder source) (hone : OneEach source) (hkept : Kept source)
    (h : Reached source since w) : Follows source since w := by
  induction h with
  | start =>
    refine ⟨rfl, ?_, fun e he => ?_, rfl⟩
    · rintro newest ⟨⟩
    · cases he
  | poll start upTo _ hstart hup ih => exact ih.poll hsorted hone hkept hstart hup
  | restart _ ih => exact ih.restart hkept

/-! ## Exactly once -/

/-- The three readings of the cursor: one batch or two, seen for good, and delivered exactly once. -/
theorem cursor_delivers_exactly_once :
    (∀ since, (MatchWatchCursor.fresh since).Distinct) ∧
    (∀ (c : MatchWatchCursor) (events : List Event), c.Distinct →
      (c.recordSeenBatch events).Distinct) ∧
    (∀ (c : MatchWatchCursor) (events more : List Event), c.Distinct →
      (c.recordSeenBatch events).recordSeenBatch more = c.recordSeenBatch (events ++ more)) ∧
    (∀ (c : MatchWatchCursor) (events more : List Event) (e : Event),
      ((c.recordSeenBatch events).recordSeenBatch more).hasSeen e =
        (c.recordSeenBatch (events ++ more)).hasSeen e) ∧
    (∀ (c : MatchWatchCursor) (events : List Event), ∀ e ∈ events,
      (c.recordSeenBatch events).hasSeen e = true) ∧
    (∀ (c : MatchWatchCursor) (events : List Event) (e : Event), c.hasSeen e = true →
      (c.recordSeenBatch events).hasSeen e = true) ∧
    ∀ (source : List Event) (since : ℤ) (w : Watcher), InOrder source → OneEach source →
      Kept source → Reached source since w →
        (∀ e ∈ w.delivered, e ∈ source.take w.polled ∧ since ≤ e.1) ∧
        ∀ e ∈ source.take w.polled, since ≤ e.1 → w.delivered.count e = 1 := by
  refine ⟨fun since hsome => ?_, fun c events => record_distinct, fun c events more => record_append,
    fun c events more e => hasSeen_record_append, fun c events e => hasSeen_record_of_mem,
    fun c events e => hasSeen_record_of_hasSeen, ?_⟩
  · cases hsome
  intro source since w hsorted hone hkept hreach
  have hdelivered := (hreach.follows hsorted hone hkept).delivered
  refine ⟨fun e he => ?_, fun e he hsince => ?_⟩
  · rw [hdelivered] at he
    obtain ⟨hmem, hsince⟩ := List.mem_filter.mp he
    exact ⟨hmem, of_decide_eq_true hsince⟩
  · rw [hdelivered]
    apply List.count_eq_one_of_mem
    · exact ((hone.nodup.sublist (List.take_sublist _ _))).filter _
    · exact List.mem_filter.mpr ⟨he, decide_eq_true hsince⟩

/-- Without the provisos: names that agree up to case among the first ones make one batch differ from
two; of two events of one second that agree up to case the later one is lost when a poll comes between
them; and a name the file respells is delivered again after a restart. -/
theorem cursor_without_provisos :
    (∃ (c : MatchWatchCursor) (events more : List Event),
      (c.recordSeenBatch events).recordSeenBatch more ≠ c.recordSeenBatch (events ++ more)) ∧
    (∃ (source : List Event) (w : Watcher), InOrder source ∧ source.Nodup ∧ Kept source ∧
      Reached source 0 w ∧ w.polled = source.length ∧
      ∃ e ∈ source, 0 ≤ e.1 ∧ w.delivered.count e = 0) ∧
    ∃ (source : List Event) (w : Watcher), InOrder source ∧ OneEach source ∧
      Reached source 0 w ∧ ∃ e ∈ source, w.delivered.count e = 2 := by
  refine ⟨⟨⟨0, some 5, ["AB".toList, "aB".toList]⟩, [], [(5, "B".toList)], by decide⟩,
    ⟨[(5, "AB".toList), (5, "ab".toList)], _, by simp [InOrder], by decide, ?_,
      .poll 1 2 (.poll 0 1 .start (Nat.le_refl 0) (by decide)) (by decide)
        (by decide), by decide,
      (5, "ab".toList), by decide, by decide, by decide⟩,
    ⟨[(5, dexdoDappId ++ colons ++ dexdoDappId)], _, by simp [InOrder], by simp [OneEach],
      .poll 0 1 (.restart (.poll 0 1 .start (Nat.le_refl 0) (by decide))) (by decide) (by decide),
      _, List.mem_singleton_self _, by decide⟩⟩
  unfold Kept
  decide

end MatchWatch
