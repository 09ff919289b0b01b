import Mathlib.Data.List.Sort
import Mathlib.Data.String.Basic
import Mathlib.Data.Prod.Lex
import Mathlib.Data.Finset.Basic
import Dexdo.BookEvents
import Dexdo.CursorWalk

/-! # Reading the book's events page by page

`fold_book_event_pages`: pages come newest first and may overlap, the messages are put back in
order, and a fold that was read before goes on after the last message it saw. -/
namespace BookEventPages

open BookEvents CursorWalk

structure BookEventMessage (β : Type) where
  id : String
  createdAt : ℕ
  cursor : String
  body : β
  deriving DecidableEq

structure BookEventPage (β : Type) where
  messages : List (BookEventMessage β) := []
  previousCursor : Option String := none

abbrev PageSource (β : Type) := Option String → Except String (BookEventPage β)

structure Resumable where
  fold : BookEventFold := {}
  lastSeenId : Option String := none

variable {β : Type}

/-! ## The paging loop -/

structure Reading (β : Type) where
  before : Option String := none
  foundSince : Bool := false
  seenIds : Finset String := ∅
  messages : List (BookEventMessage β) := []

def observe (sinceId : Option String) (r : Reading β) (m : BookEventMessage β) : Reading β :=
  let found := r.foundSince || decide (sinceId = some m.id)
  if m.id ∈ r.seenIds then { r with foundSince := found }
  else { r with
    foundSince := found
    seenIds := insert m.id r.seenIds
    messages := r.messages ++ [m] }

inductive Turn (β : Type) where
  | stop (r : Reading β)
  | next (r : Reading β)

def noProgress : String := "order-book ext-out pagination made no progress"

/-- One iteration. -/
def turn (source : PageSource β) (sinceId : Option String) (r : Reading β) :
    Except String (Turn β) := do
  let page ← source r.before
  let r := page.messages.foldl (observe sinceId) r
  if sinceId.isSome && r.foundSince then .ok (.stop r)
  else
    match page.previousCursor with
    | none => .ok (.stop r)
    | some previous =>
      if r.before = some previous then .error noProgress
      else .ok (.next { r with before := some previous })

/-- The loop, given so many iterations; `none` when they do not suffice. -/
def readPages (source : PageSource β) (sinceId : Option String) :
    ℕ → Reading β → Option (Except String (Reading β))
  | 0, _ => none
  | n + 1, r =>
    match turn source sinceId r with
    | .error e => some (.error e)
    | .ok (.stop r) => some (.ok r)
    | .ok (.next r) => readPages source sinceId n r

/-! ## Folding what was read -/

def key (m : BookEventMessage β) : ℕ ×ₗ String := toLex (m.createdAt, m.cursor)

def sorted (l : List (BookEventMessage β)) : List (BookEventMessage β) :=
  l.insertionSort fun a b => key a ≤ key b

def start (sinceId : Option String) (l : List (BookEventMessage β)) : ℕ :=
  match sinceId with
  | none => 0
  | some id =>
    match l.findIdx? fun m => m.id = id with
    | none => 0
    | some position => position + 1

section Folding

variable (decode : β → Except String (Option BookEvent))

def applyMessage (f : BookEventFold) (m : BookEventMessage β) : Except String BookEventFold := do
  match ← decode m.body with
  | some event => return f.apply event
  | none => return f

def noLongerContains (sinceId : Option String) : String :=
  "order-book ext-out history no longer contains last-seen id " ++ sinceId.getD ""

/-- What follows the loop. -/
def finish (f : Resumable) (r : Reading β) : Except String Resumable := do
  if f.lastSeenId.isSome && !r.foundSince then .error (noLongerContains f.lastSeenId)
  else
    let messages := sorted r.messages
    let fold ← (messages.drop (start f.lastSeenId messages)).foldlM (applyMessage decode) f.fold
    return ⟨fold, (messages.getLast?.map (·.id)).or f.lastSeenId⟩

def foldBookEventPages (source : PageSource β) (f : Resumable) (n : ℕ) :
    Option (Except String Resumable) :=
  (readPages source f.lastSeenId n {}).map fun read => do
    let r ← read
    finish decode f r

def resume (f : Resumable) (l : List (BookEventMessage β)) : Except String Resumable := do
  let fold ← l.foldlM (applyMessage decode) f.fold
  return ⟨fold, (l.getLast?.map (·.id)).or f.lastSeenId⟩

end Folding

/-! ## Histories and the sources that serve them -/

structure History (l : List (BookEventMessage β)) : Prop where
  distinct : (l.map (·.id)).Nodup
  ordered : l.Pairwise fun a b => key a < key b

/-- The pages of a source from a cursor on, down to one that names none. -/
inductive Delivers (source : PageSource β) : Option String → List (BookEventPage β) → Prop where
  | last {before page} : source before = .ok page → page.previousCursor = none →
      Delivers source before [page]
  | more {before page previous pages} : source before = .ok page →
      page.previousCursor = some previous → before ≠ some previous →
      Delivers source (some previous) pages → Delivers source before (page :: pages)

def shown (pages : List (BookEventPage β)) : List (BookEventMessage β) :=
  pages.flatMap (·.messages)

/-- The source serves the history newest to oldest: whatever its first pages show, they show
everything newer, and all of them show all. -/
structure Serves (source : PageSource β) (l : List (BookEventMessage β))
    (pages : List (BookEventPage β)) : Prop where
  delivers : Delivers source none pages
  within : ∀ m ∈ shown pages, m ∈ l
  whole : ∀ m ∈ l, m ∈ shown pages
  newest : ∀ first, first <+: pages → ∀ m ∈ shown first, ∀ m' ∈ l, key m < key m' → m' ∈ shown first

/-! ## What the loop collects -/

variable {source : PageSource β} {sinceId : Option String} {r : Reading β}
  {l shown' : List (BookEventMessage β)} {m : BookEventMessage β} {pages : List (BookEventPage β)}

/-- The loop has collected each id of the messages shown to it once. -/
structure Collected (sinceId : Option String) (l : List (BookEventMessage β)) (r : Reading β) :
    Prop where
  once : (r.messages.map (·.id)).Nodup
  ids : ∀ id, id ∈ r.seenIds ↔ id ∈ r.messages.map (·.id)
  sound : ∀ m ∈ r.messages, m ∈ l
  complete : ∀ m ∈ l, m.id ∈ r.seenIds
  found : r.foundSince = true ↔ ∃ m ∈ l, sinceId = some m.id

theorem Collected.nil : Collected sinceId ([] : List (BookEventMessage β)) {} := by
  constructor
  · exact List.nodup_nil
  · simp
  · simp
  · simp
  · simp

theorem Collected.observe (h : Collected sinceId l r) :
    Collected sinceId (l ++ [m]) (observe sinceId r m) := by
  have hfound : (r.foundSince || decide (sinceId = some m.id)) = true ↔
      ∃ x ∈ l ++ [m], sinceId = some x.id := by
    rw [Bool.or_eq_true, h.found, decide_eq_true_iff]
    simp only [List.mem_append, List.mem_singleton, or_and_right, exists_or, exists_eq_left]
  unfold BookEventPages.observe
  by_cases hm : m.id ∈ r.seenIds
  · simp only [hm, if_true]
    refine ⟨h.once, h.ids, fun x hx => List.mem_append_left _ (h.sound x hx), fun x hx => ?_, hfound⟩
    rcases List.mem_append.mp hx with hx | hx
    · exact h.complete x hx
    · rw [List.mem_singleton.mp hx]
      exact hm
  · simp only [hm, if_false]
    have hnew : m.id ∉ r.messages.map (·.id) := fun hin => hm ((h.ids m.id).mpr hin)
    refine ⟨?_, fun id => ?_, fun x hx => ?_, fun x hx => ?_, hfound⟩
    · rw [List.map_append, List.nodup_append]
      refine ⟨h.once, List.nodup_singleton _, ?_⟩
      intro a ha b hb hab
      rw [List.map_singleton, List.mem_singleton] at hb
      rw [hab, hb] at ha
      exact hnew ha
    · rw [Finset.mem_insert, h.ids, List.map_append, List.mem_append, List.map_singleton,
        List.mem_singleton, or_comm]
    · rcases List.mem_append.mp hx with hx | hx
      · exact List.mem_append_left _ (h.sound x hx)
      · exact List.mem_append_right _ hx
    · rcases List.mem_append.mp hx with hx | hx
      · exact Finset.mem_insert_of_mem (h.complete x hx)
      · rw [List.mem_singleton.mp hx]
        exact Finset.mem_insert_self _ _

theorem Collected.page (h : Collected sinceId l r) (more : List (BookEventMessage β)) :
    Collected sinceId (l ++ more) (more.foldl (BookEventPages.observe sinceId) r) := by
  induction more generalizing l r with
  | nil => rwa [List.append_nil]
  | cons m more ih =>
    rw [List.append_cons]
    exact ih h.observe

theorem Collected.asking (h : Collected sinceId l r) (before : Option String) :
    Collected sinceId l { r with before := before } :=
  ⟨h.once, h.ids, h.sound, h.complete, h.found⟩

theorem observe_before : (BookEventPages.observe sinceId r m).before = r.before := by
  unfold BookEventPages.observe
  dsimp only
  split <;> rfl

theorem page_before (sinceId : Option String) (more : List (BookEventMessage β)) :
    (more.foldl (BookEventPages.observe sinceId) r).before = r.before := by
  induction more generalizing r with
  | nil => rfl
  | cons m more ih => exact ih.trans observe_before

/-- Over a source that delivers its pages the loop stops at the last one or at the last-seen id. -/
theorem readPages_delivers (sinceId : Option String) {before : Option String}
    (h : Delivers source before pages) :
    ∀ {l} {r : Reading β}, r.before = before → Collected sinceId l r →
    ∃ first r', first <+: pages ∧ Collected sinceId (l ++ shown first) r' ∧
      (first = pages ∨ sinceId.isSome = true ∧ r'.foundSince = true) ∧
      ∀ n, pages.length ≤ n → readPages source sinceId n r = some (.ok r') := by
  induction h with
  | @last before page hpage hprev =>
    intro l r hr hc
    refine ⟨[page], page.messages.foldl (BookEventPages.observe sinceId) r, List.prefix_rfl, ?_,
      .inl rfl, ?_⟩
    · simpa [shown] using hc.page page.messages
    · intro n hn
      obtain ⟨n, rfl⟩ := Nat.exists_eq_add_of_le' hn
      change readPages source sinceId (n + 1) r = _
      have hturn : turn source sinceId r =
          .ok (.stop (page.messages.foldl (BookEventPages.observe sinceId) r)) := by
        simp only [turn, hr, hpage, hprev, bind, Except.bind]
        split <;> rfl
      simp only [readPages, hturn]
  | @more before page previous pages hpage hprev hne hrest ih =>
    intro l r hr hc
    have hread := hc.page page.messages
    generalize hr' : page.messages.foldl (BookEventPages.observe sinceId) r = r' at hread
    have hbefore : r'.before = before := by rw [← hr', page_before, hr]
    by_cases hfound : (sinceId.isSome && r'.foundSince) = true
    · refine ⟨[page], r', ⟨pages, rfl⟩, ?_, .inr ?_, ?_⟩
      · simpa [shown] using hread
      · simpa using hfound
      · intro n hn
        obtain ⟨n, rfl⟩ := Nat.exists_eq_add_of_le' hn
        have hturn : turn source sinceId r = .ok (.stop r') := by
          simp only [turn, hr, hpage, bind, Except.bind, hr', hfound, if_true]
        change readPages source sinceId (n + pages.length + 1) r = _
        simp only [readPages, hturn]
    · obtain ⟨first, r'', hfirst, hcoll, hend, hfuel⟩ :=
        ih (r := { r' with before := some previous }) rfl (hread.asking (some previous))
      refine ⟨page :: first, r'', List.prefix_cons_inj _ |>.mpr hfirst, ?_, ?_, ?_⟩
      · simpa [shown, List.append_assoc] using hcoll
      · exact hend.imp (congrArg _) id
      · intro n hn
        obtain ⟨n, rfl⟩ := Nat.exists_eq_add_of_le' hn
        have hturn : turn source sinceId r = .ok (.next { r' with before := some previous }) := by
          simp only [turn, hr, hpage, bind, Except.bind, hr', hfound, hprev, hbefore, hne, if_false]
          rfl
        change readPages source sinceId (n + pages.length + 1) r = _
        simp only [readPages, hturn]
        exact hfuel _ (Nat.le_add_left _ _)

/-! ## Putting the messages back in order -/

theorem History.same_id {a b : BookEventMessage β} (h : History l) (ha : a ∈ l) (hb : b ∈ l)
    (hid : a.id = b.id) : a = b :=
  List.inj_on_of_nodup_map h.distinct ha hb hid

theorem History.same_key {a b : BookEventMessage β} (h : History l) (ha : a ∈ l) (hb : b ∈ l)
    (hkey : key a = key b) : a = b := by
  have hnodup : (l.map key).Nodup := List.pairwise_map.mpr (h.ordered.imp ne_of_lt)
  exact List.inj_on_of_nodup_map hnodup ha hb hkey

theorem sorted_perm (l : List (BookEventMessage β)) : (sorted l).Perm l :=
  List.perm_insertionSort _ l

theorem sorted_ordered (l : List (BookEventMessage β)) :
    (sorted l).Pairwise fun a b => key a ≤ key b := by
  have : Std.Total (fun a b : BookEventMessage β => key a ≤ key b) := ⟨fun a b => le_total _ _⟩
  have : IsTrans (BookEventMessage β) (fun a b => key a ≤ key b) := ⟨fun _ _ _ => le_trans⟩
  exact List.pairwise_insertionSort _ l

/-- What was collected of a history, put back in order, is that part of the history. -/
theorem sorted_collected (h : History l) (hc : Collected sinceId shown' r)
    (hin : ∀ m ∈ shown', m ∈ l) :
    sorted r.messages = l.filter fun m => decide (m.id ∈ r.seenIds) := by
  have hmem : ∀ m, m ∈ r.messages ↔ m ∈ l.filter fun m => decide (m.id ∈ r.seenIds) := by
    intro m
    rw [List.mem_filter, decide_eq_true_iff]
    constructor
    · intro hm
      exact ⟨hin m (hc.sound m hm), (hc.ids m.id).mpr (List.mem_map_of_mem hm)⟩
    · rintro ⟨hm, hid⟩
      obtain ⟨m', hm', hsame⟩ := List.mem_map.mp ((hc.ids m.id).mp hid)
      rwa [← h.same_id (hin m' (hc.sound m' hm')) hm hsame]
  have hperm : r.messages.Perm (l.filter fun m => decide (m.id ∈ r.seenIds)) :=
    (List.perm_ext_iff_of_nodup (List.Nodup.of_map _ hc.once)
      (List.Nodup.filter _ (List.Nodup.of_map _ h.distinct))).mpr hmem
  refine List.Perm.eq_of_pairwise ?_ (sorted_ordered _) ((h.ordered.filter _).imp le_of_lt)
    ((sorted_perm _).trans hperm)
  intro a b ha hb hab hba
  have ha' : a ∈ l := hin a (hc.sound a ((sorted_perm _).mem_iff.mp ha))
  exact h.same_key ha' (List.mem_of_mem_filter hb) (le_antisymm hab hba)

theorem start_after {before after : List (BookEventMessage β)}
    (hnot : ∀ x ∈ before, x.id ≠ m.id) :
    start (some m.id) (before ++ m :: after) = before.length + 1 := by
  have hnone : before.findIdx? (fun x => decide (x.id = m.id)) = none := by
    rw [List.findIdx?_eq_none_iff]
    intro x hx
    exact decide_eq_false (hnot x hx)
  have hhead : (m :: after).findIdx? (fun x => decide (x.id = m.id)) = some 0 := by
    simp [List.findIdx?_cons]
  simp only [start, List.findIdx?_append, hnone, hhead, Option.none_or, Option.map_some,
    Nat.zero_add]

/-! ## The fold of what was read -/

variable {decode : β → Except String (Option BookEvent)} {f : Resumable}
  {old new : List (BookEventMessage β)}

theorem fold_of_read {r : Reading β} {n : ℕ}
    (h : readPages source f.lastSeenId n {} = some (.ok r)) :
    foldBookEventPages decode source f n = some (finish decode f r) := by
  unfold foldBookEventPages
  rw [h]
  rfl

theorem fold_fresh (hf : f.lastSeenId = none) (h : History l) (hs : Serves source l pages) {n : ℕ}
    (hn : pages.length ≤ n) :
    foldBookEventPages decode source f n = some (resume decode f l) := by
  obtain ⟨first, r, -, hc, hend, hread⟩ :=
    readPages_delivers f.lastSeenId hs.delivers rfl .nil
  rw [fold_of_read (hread n hn)]
  have hall : first = pages := by
    rcases hend with hall | ⟨hsome, -⟩
    · exact hall
    · rw [hf] at hsome
      cases hsome
  rw [hall, List.nil_append] at hc
  have hsorted : sorted r.messages = l := by
    rw [sorted_collected h hc hs.within]
    apply List.filter_eq_self.mpr
    intro m hm
    exact decide_eq_true (hc.complete m (hs.whole m hm))
  unfold finish resume
  simp only [hf, Option.isSome_none, Bool.false_and, Bool.false_eq_true, if_false, hsorted]
  rfl

theorem fold_missing {id : String} (hf : f.lastSeenId = some id) (hs : Serves source l pages)
    (hnot : id ∉ l.map (·.id)) {n : ℕ} (hn : pages.length ≤ n) :
    foldBookEventPages decode source f n = some (.error (noLongerContains (some id))) := by
  obtain ⟨first, r, hfirst, hc, -, hread⟩ :=
    readPages_delivers f.lastSeenId hs.delivers rfl .nil
  rw [fold_of_read (hread n hn)]
  have hfound : r.foundSince = false := by
    rw [Bool.eq_false_iff]
    intro htrue
    obtain ⟨m, hm, hid⟩ := hc.found.mp htrue
    rw [hf, Option.some.injEq] at hid
    have hshown : m ∈ shown pages := by
      obtain ⟨rest, rfl⟩ := hfirst
      rw [List.nil_append] at hm
      unfold shown at hm ⊢
      rw [List.flatMap_append]
      exact List.mem_append_left _ hm
    exact hnot (List.mem_map.mpr ⟨m, hs.within m hshown, hid.symm⟩)
  unfold finish
  simp only [hf, hfound, Option.isSome_some, Bool.not_false, Bool.and_self, if_true]

theorem drop_after (before after : List (BookEventMessage β)) (m : BookEventMessage β) :
    (before ++ m :: after).drop (before.length + 1) = after := by
  rw [List.append_cons]
  exact List.drop_left' (by simp)

theorem last_id (old new : List (BookEventMessage β)) (id : Option String) :
    ((old ++ new).getLast?.map (·.id)).or id =
      (new.getLast?.map (·.id)).or ((old.getLast?.map (·.id)).or id) := by
  cases h : new.getLast? with
  | none =>
    rw [List.getLast?_eq_none_iff.mp h, List.append_nil]
    rfl
  | some x =>
    rw [List.getLast?_append, h]
    rfl

/-- From a last-seen id on, the messages after it are folded and no others. -/
theorem fold_resumed (hf : f.lastSeenId = some m.id) (h : History (old ++ m :: new))
    (hs : Serves source (old ++ m :: new) pages) {n : ℕ} (hn : pages.length ≤ n) :
    foldBookEventPages decode source f n = some (resume decode f new) := by
  obtain ⟨first, r, hfirst, hc, hend, hread⟩ :=
    readPages_delivers f.lastSeenId hs.delivers rfl .nil
  rw [fold_of_read (hread n hn)]
  rw [List.nil_append] at hc
  have hin : ∀ x ∈ shown first, x ∈ old ++ m :: new := by
    intro x hx
    obtain ⟨rest, rfl⟩ := hfirst
    apply hs.within x
    unfold shown at hx ⊢
    rw [List.flatMap_append]
    exact List.mem_append_left _ hx
  have hmem : m ∈ old ++ m :: new := List.mem_append_right _ List.mem_cons_self
  -- whichever way the loop stopped, the last-seen message was shown
  have hshown : m ∈ shown first := by
    rcases hend with rfl | ⟨-, hfound⟩
    · exact hs.whole m hmem
    · obtain ⟨x, hx, hid⟩ := hc.found.mp hfound
      rw [hf, Option.some.injEq] at hid
      rwa [h.same_id hmem (hin x hx) hid]
  have hfound : r.foundSince = true := hc.found.mpr ⟨m, hshown, hf⟩
  have hseen : m.id ∈ r.seenIds := hc.complete m hshown
  have hlater : ∀ x ∈ new, x.id ∈ r.seenIds := by
    intro x hx
    apply hc.complete
    apply hs.newest first hfirst m hshown x
    · exact List.mem_append_right _ (List.mem_cons_of_mem _ hx)
    · exact (List.pairwise_cons.mp (List.pairwise_append.mp h.ordered).2.1).1 x hx
  have hsorted : sorted r.messages =
      (old.filter fun x => decide (x.id ∈ r.seenIds)) ++ m :: new := by
    have hall : (m :: new).filter (fun x => decide (x.id ∈ r.seenIds)) = m :: new := by
      apply List.filter_eq_self.mpr
      intro x hx
      rcases List.mem_cons.mp hx with rfl | hx
      · exact decide_eq_true hseen
      · exact decide_eq_true (hlater x hx)
    rw [sorted_collected h hc hin, List.filter_append, hall]
  have hnot : ∀ x ∈ old.filter (fun x => decide (x.id ∈ r.seenIds)), x.id ≠ m.id := by
    intro x hx
    have hold := List.mem_of_mem_filter hx
    have hdistinct := h.distinct
    rw [List.map_append, List.nodup_append] at hdistinct
    exact hdistinct.2.2 x.id (List.mem_map_of_mem hold) m.id (by simp)
  have hdrop : (sorted r.messages).drop (start f.lastSeenId (sorted r.messages)) = new := by
    rw [hf, hsorted, start_after hnot]
    exact drop_after _ _ _
  have hlast : ((sorted r.messages).getLast?.map (·.id)).or f.lastSeenId =
      (new.getLast?.map (·.id)).or f.lastSeenId := by
    rw [hsorted, hf, List.append_cons, last_id, List.getLast?_concat]
    rfl
  unfold finish resume
  simp only [hfound, Bool.not_true, Bool.and_false, Bool.false_eq_true, if_false, hdrop, hlast]

theorem resume_append (f : Resumable) (old new : List (BookEventMessage β)) :
    resume decode f (old ++ new) = (resume decode f old >>= fun g => resume decode g new) := by
  unfold resume
  rw [List.foldlM_append]
  cases hold : old.foldlM (applyMessage decode) f.fold with
  | error e => rfl
  | ok g =>
    rw [last_id]
    rfl

theorem resume_last {g : Resumable} (h : resume decode f l = .ok g) :
    g.lastSeenId = (l.getLast?.map (·.id)).or f.lastSeenId := by
  unfold resume at h
  cases hold : l.foldlM (applyMessage decode) f.fold with
  | error e =>
    rw [hold] at h
    cases h
  | ok x =>
    rw [hold] at h
    cases h
    rfl

/-! ## When the loop ends -/

/-- The cursor the loop asks for after a page, if it asks for another. -/
def nextCursor (source : PageSource β) (sinceId before : Option String) : Option (Option String) :=
  match source before with
  | .error _ => none
  | .ok page =>
    if page.messages.any fun m => decide (sinceId = some m.id) then none
    else
      match page.previousCursor with
      | none => none
      | some previous => if before = some previous then none else some (some previous)

def named (source : PageSource β) : Set String :=
  {c | ∃ before page, source before = .ok page ∧ page.previousCursor = some c}

theorem observe_found : (BookEventPages.observe sinceId r m).foundSince =
    (r.foundSince || decide (sinceId = some m.id)) := by
  unfold BookEventPages.observe
  dsimp only
  split <;> rfl

theorem page_found (sinceId : Option String) (more : List (BookEventMessage β)) :
    (more.foldl (BookEventPages.observe sinceId) r).foundSince =
      (r.foundSince || more.any fun m => decide (sinceId = some m.id)) := by
  induction more generalizing r with
  | nil => simp
  | cons m more ih => rw [List.foldl_cons, ih, observe_found, List.any_cons, Bool.or_assoc]

/-- Whether the loop ends does not depend on what it collects. -/
theorem readPages_ends (source : PageSource β) (sinceId : Option String) (n : ℕ) :
    ∀ r : Reading β, r.foundSince = false →
      (readPages source sinceId n r).isSome = ends (nextCursor source sinceId) n r.before := by
  induction n with
  | zero => exact fun _ _ => rfl
  | succ n ih =>
    intro r hr
    cases hpage : source r.before with
    | error e =>
      have hturn : turn source sinceId r = .error e := by
        simp only [turn, hpage, bind, Except.bind]
      have hnext : nextCursor source sinceId r.before = none := by
        simp only [nextCursor, hpage]
      rw [ends_stop hnext]
      simp only [readPages, hturn, Option.isSome_some]
    | ok page =>
      have hfound := page_found sinceId (r := r) page.messages
      rw [hr, Bool.false_or] at hfound
      have hbefore := page_before sinceId (r := r) page.messages
      generalize hr' : page.messages.foldl (BookEventPages.observe sinceId) r = r' at hfound hbefore
      by_cases hany : (page.messages.any fun m => decide (sinceId = some m.id)) = true
      · have hsince : sinceId.isSome = true := by
          obtain ⟨m, -, hm⟩ := List.any_eq_true.mp hany
          rw [of_decide_eq_true hm]
          rfl
        have hturn : turn source sinceId r = .ok (.stop r') := by
          simp only [turn, hpage, bind, Except.bind, hr', hfound, hany, hsince, Bool.and_self,
            if_true]
        have hnext : nextCursor source sinceId r.before = none := by
          simp only [nextCursor, hpage, hany, if_true]
        rw [ends_stop hnext]
        simp only [readPages, hturn, Option.isSome_some]
      · rw [Bool.not_eq_true] at hany
        rw [hany] at hfound
        cases hprev : page.previousCursor with
        | none =>
          have hturn : turn source sinceId r = .ok (.stop r') := by
            simp only [turn, hpage, bind, Except.bind, hr', hfound, hprev, Bool.and_false,
              Bool.false_eq_true, if_false]
          have hnext : nextCursor source sinceId r.before = none := by
            simp only [nextCursor, hpage, hany, hprev, Bool.false_eq_true, if_false]
          rw [ends_stop hnext]
          simp only [readPages, hturn, Option.isSome_some]
        | some previous =>
          by_cases hsame : r.before = some previous
          · have hturn : turn source sinceId r = .error noProgress := by
              simp only [turn, hpage, bind, Except.bind, hr', hfound, hprev, hbefore,
                Bool.and_false, Bool.false_eq_true, if_false]
              exact if_pos hsame
            have hnext : nextCursor source sinceId r.before = none := by
              simp only [nextCursor, hpage, hany, hprev, Bool.false_eq_true, if_false]
              exact if_pos hsame
            rw [ends_stop hnext]
            simp only [readPages, hturn, Option.isSome_some]
          · have hturn : turn source sinceId r = .ok (.next { r' with before := some previous }) := by
              simp only [turn, hpage, bind, Except.bind, hr', hfound, hprev, hbefore, hsame,
                Bool.and_false, Bool.false_eq_true, if_false]
            have hnext : Follows (nextCursor source sinceId) r.before (some previous) := by
              simp only [Follows, nextCursor, hpage, hany, hprev, Bool.false_eq_true, if_false,
                hsame]
            rw [ends_follows hnext]
            simp only [readPages, hturn]
            exact ih _ hfound

theorem reached_named (source : PageSource β) (sinceId : Option String) {c : Option String}
    (h : Relation.ReflTransGen (Follows (nextCursor source sinceId)) none c) :
    c = none ∨ ∃ x ∈ named source, some x = c := by
  cases h with
  | refl => exact .inl rfl
  | @tail b _ _ h =>
    right
    unfold Follows nextCursor at h
    split at h
    · cases h
    · rename_i page hpage
      split at h
      · cases h
      split at h
      · cases h
      · rename_i previous hprev
        split at h
        · cases h
        · cases h
          exact ⟨previous, ⟨b, page, hpage, hprev⟩, rfl⟩

theorem fold_ends (hfin : (named source).Finite) :
    (∃ n, (foldBookEventPages decode source f n).isSome = true) ↔
      ¬ Circles (nextCursor source f.lastSeenId) none := by
  have hreach : {c | Relation.ReflTransGen
      (Follows (nextCursor source f.lastSeenId)) none c}.Finite := by
    refine ((hfin.image some).insert none).subset fun c hc => ?_
    rcases reached_named source f.lastSeenId hc with rfl | ⟨x, hx, rfl⟩
    · exact Set.mem_insert _ _
    · exact Set.mem_insert_of_mem _ (Set.mem_image_of_mem _ hx)
  rw [← ends_iff hreach]
  unfold Ends foldBookEventPages
  simp only [Option.isSome_map]
  constructor
  · rintro ⟨n, hn⟩
    exact ⟨n, (readPages_ends source _ n {} rfl).symm.trans hn⟩
  · rintro ⟨n, hn⟩
    exact ⟨n, (readPages_ends source _ n {} rfl).trans hn⟩

/-! ## Incremental reading -/

/-- What is asked of a read from the fold `f` over a source: whenever the source serves a history,
going on from the fold of a prefix is the full replay, and is the fold of the rest; a last-seen id
the history lacks is an error; and the loop ends if the source names finitely many cursors. -/
structure Incremental (decode : β → Except String (Option BookEvent)) (source : PageSource β)
    (f : Resumable) : Prop where
  resumed : ∀ old new pages, History (old ++ new) → Serves source (old ++ new) pages →
    resume decode {} old = .ok f → ∀ n, pages.length ≤ n →
      foldBookEventPages decode source f n = some (resume decode f new) ∧
      foldBookEventPages decode source {} n = some (resume decode f new)
  missing : ∀ l pages id, f.lastSeenId = some id → Serves source l pages → id ∉ l.map (·.id) →
    ∀ n, pages.length ≤ n →
      foldBookEventPages decode source f n = some (.error (noLongerContains (some id)))
  ends : (named source).Finite → ∃ n, (foldBookEventPages decode source f n).isSome = true

theorem fold_prefix {old new : List (BookEventMessage β)} (h : History (old ++ new))
    (hs : Serves source (old ++ new) pages) (hold : resume decode {} old = .ok f) {n : ℕ}
    (hn : pages.length ≤ n) :
    foldBookEventPages decode source f n = some (resume decode f new) ∧
      foldBookEventPages decode source {} n = some (resume decode f new) := by
  have hfull : resume decode {} (old ++ new) = resume decode f new := by
    rw [resume_append, hold]
    rfl
  refine ⟨?_, (fold_fresh rfl h hs hn).trans (congrArg some hfull)⟩
  have hlast := resume_last hold
  cases old using List.reverseRecOn with
  | nil =>
    cases hold
    exact fold_fresh rfl h hs hn
  | append_singleton l m =>
    rw [List.getLast?_concat] at hlast
    rw [List.append_assoc] at h hs
    exact fold_resumed hlast h hs hn

/-- A read is incremental exactly when the cursors do not lead in a circle of two or more: the
progress check only compares a page's cursor with the one it was asked by. -/
theorem incremental_iff (decode : β → Except String (Option BookEvent)) (source : PageSource β)
    (f : Resumable) : Incremental decode source f ↔
      ((named source).Finite → ¬ Circles (nextCursor source f.lastSeenId) none) := by
  constructor
  · intro h hfin
    exact (fold_ends hfin).mp (h.ends hfin)
  · intro h
    exact {
      resumed := fun _ _ _ hist hs hold _ hn => fold_prefix hist hs hold hn
      missing := fun _ _ _ hf hs hnot _ hn => fold_missing hf hs hnot hn
      ends := fun hfin => (fold_ends hfin).mpr (h hfin) }

def circling : PageSource InferenceOrderBookState.Out := fun before =>
  .ok { previousCursor := some (if before = some "1" then "2" else "1") }

/-- The full read of such a source never returns. -/
theorem circling_read_not_incremental : ¬ Incremental decodeBookEvent circling {} := by
  intro h
  have hfin : (named circling).Finite := by
    refine Set.Finite.subset (Set.toFinite {"1", "2"}) ?_
    rintro c ⟨before, page, hpage, hprev⟩
    cases hpage
    cases hprev
    split
    · exact Set.mem_insert_of_mem _ rfl
    · exact Set.mem_insert _ _
  refine (fold_ends hfin).mp (h.ends hfin) ⟨some "1", ?_, ?_⟩
  · exact .single (show nextCursor circling none none = some (some "1") by decide)
  · exact .tail
      (.single (show nextCursor circling none (some "1") = some (some "2") by decide))
      (show nextCursor circling none (some "2") = some (some "1") by decide)

end BookEventPages
