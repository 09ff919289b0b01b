import Dexdo.PoolWriteLock

/-! # Mutual exclusion of the pool write lock

What each caller relies on, in the order of its calls; what a call of one caller leaves to the
others; and from both an invariant of every run in which no read-back takes the claim of another
caller for its own. -/
namespace PoolWriteLock

variable {δ υ : Type} {env : Host δ υ} {s t : State δ υ} {c d i j p q : ℕ} {job : Job υ}
variable {recorded : Option Holder} {took : Option ℕ} {way : Way} {pc : Pc δ υ} {f : Inode → Inode}

/-! ## Reading a changed state -/

@[simp] theorem goto_alive : (s.goto c pc).alive = s.alive := rfl
@[simp] theorem goto_used : (s.goto c pc).used = s.used := rfl
@[simp] theorem goto_path : (s.goto c pc).path = s.path := rfl
@[simp] theorem goto_inode : (s.goto c pc).inode = s.inode := rfl
@[simp] theorem goto_fresh : (s.goto c pc).fresh = s.fresh := rfl
@[simp] theorem goto_file : (s.goto c pc).file = s.file := rfl
@[simp] theorem goto_log : (s.goto c pc).log = s.log := rfl
@[simp] theorem goto_self : (s.goto c pc).pc c = pc := Function.update_self ..
theorem goto_other (h : d ≠ c) : (s.goto c pc).pc d = s.pc d := Function.update_of_ne h ..

@[simp] theorem edit_alive : (s.edit i f).alive = s.alive := rfl
@[simp] theorem edit_used : (s.edit i f).used = s.used := rfl
@[simp] theorem edit_path : (s.edit i f).path = s.path := rfl
@[simp] theorem edit_fresh : (s.edit i f).fresh = s.fresh := rfl
@[simp] theorem edit_file : (s.edit i f).file = s.file := rfl
@[simp] theorem edit_log : (s.edit i f).log = s.log := rfl
@[simp] theorem edit_pc : (s.edit i f).pc = s.pc := rfl
@[simp] theorem edit_self : (s.edit i f).inode i = f (s.inode i) := Function.update_self ..
theorem edit_other (h : j ≠ i) : (s.edit i f).inode j = s.inode j := Function.update_of_ne h ..

@[simp] theorem unlink_path : s.unlink.path = none := rfl
@[simp] theorem unlink_inode : s.unlink.inode = s.inode := rfl

/-! ## What a caller relies on -/

def Gone (s : State δ υ) (q : ℕ) : Prop := q ∈ s.used ∧ q ∉ s.alive

def SomeGone (s : State δ υ) (took : Option ℕ) : Prop := ∃ q, took = some q ∧ Gone s q

/-- The sentinel this caller has created stands, and nobody has begun to take it over. -/
structure Creates (env : Host δ υ) (s : State δ υ) (c i : ℕ) : Prop where
  path : s.path = some i
  bound : i < s.fresh
  creator : (s.inode i).creator = some c
  unclaimed : (s.inode i).claimed = false
  owner : (s.inode i).owner = none ∨ (s.inode i).owner = some (env.process c)

structure Locks (s : State δ υ) (c i : ℕ) : Prop where
  lock : (s.inode i).lock = some c
  bound : i < s.fresh

/-- The sentinel it holds stands. -/
structure Stands (s : State δ υ) (c i : ℕ) (way : Way) : Prop extends Locks s c i where
  path : s.path = some i
  way : match way with
    | .created => (s.inode i).creator = some c
    | .reclaimed took => (s.inode i).claimed = true ∧ SomeGone s took

def Recent (s : State δ υ) (i : ℕ) (recorded : Option Holder) : Prop :=
  (s.inode i).claimed = false → recorded = none ∨
    recorded = parsePoolWriteLockHolder (s.inode i).text

def Relies (env : Host δ υ) (s : State δ υ) (c : ℕ) : Prop :=
  match s.pc c with
  | .reading _ i => i < s.fresh
  | .locking _ i recorded => i < s.fresh ∧ Recent s i recorded
  | .probing _ i recorded => Locks s c i ∧ Recent s i recorded
  | .truncating _ i _ => Locks s c i ∧ (∃ q, (s.inode i).owner = some q) ∧
      (s.path = some i → SomeGone s (s.inode i).owner)
  | .writing _ i _ took => Locks s c i ∧ (s.inode i).claimed = true ∧ (s.inode i).owner = took ∧
      (s.path = some i → SomeGone s took)
  | .confirming _ i recorded took => Locks s c i ∧ (s.inode i).claimed = true ∧
      (s.inode i).text = ours env c recorded ∧ (s.path = some i → SomeGone s took)
  | .recording _ i => Creates env s c i ∧ (s.inode i).text = .nothing ∧ (s.inode i).owner = none
  | .securing _ i => Creates env s c i
  | .failing i => Creates env s c i
  | .holding _ i way seen => Stands s c i way ∧ ∀ x, seen = some x → x = s.file
  | .unlinking i way => Stands s c i way
  | .closing _ unlinked => unlinked = true
  | .unlinkingAgain => False
  | _ => True

def Pc.busyOn : Pc δ υ → Option ℕ
  | .confirming _ i _ _ => some i
  | .holding _ i _ _ => some i
  | .unlinking i _ => some i
  | _ => none

def Busy (s : State δ υ) (c i : ℕ) : Prop := (s.pc c).busyOn = some i

theorem not_busy (hpc : s.pc c = pc) (hnone : pc.busyOn = none) (i : ℕ) : ¬ Busy s c i := by
  unfold Busy
  rw [hpc, hnone]
  nofun

structure Sound (env : Host δ υ) (s : State δ υ) : Prop where
  relies : ∀ c, env.process c ∈ s.alive → Relies env s c
  unborn : ∀ c, env.process c ∉ s.used → s.pc c = .idle
  bound : ∀ i, s.path = some i → i < s.fresh
  alive : s.alive ⊆ s.used
  owner : ∀ i q, i < s.fresh → (s.inode i).owner = some q → q ∈ s.used
  recorded : ∀ i h, i < s.fresh → (s.inode i).claimed = false →
    parsePoolWriteLockHolder (s.inode i).text = some h →
    ∃ q, (s.inode i).owner = some q ∧ env.pid q = h.pid
  named : ∀ i, i < s.fresh → (s.inode i).claimed = true → ∃ q, (s.inode i).owner = some q
  busy : ∀ i q, s.path = some i → (s.inode i).claimed = true → (s.inode i).owner = some q →
    q ∈ s.alive → ∃ c, env.process c = q ∧ (s.inode i).lock = some c ∧ Busy s c i
  file : s.file = s.log.foldl (fun d u => env.apply u d) env.first

/-! ## One owner of the path -/

def Answers (env : Host δ υ) (s : State δ υ) (c i : ℕ) : Prop :=
  Creates env s c i ∨ ∃ way, Stands s c i way

theorem Answers.path (h : Answers env s c i) : s.path = some i := by
  rcases h with h | ⟨way, h⟩
  · exact h.path
  · exact h.path

theorem Stands.not_creates (h : Stands s c i way) (h' : Creates env s d i) : c = d := by
  cases way with
  | created => exact Option.some.inj (h.way.symm.trans h'.creator)
  | reclaimed took => exact absurd (h.way.1.symm.trans h'.unclaimed) (by decide)

theorem Stands.unique {way' : Way} (h : Stands s c i way) (h' : Stands s d j way') : c = d := by
  obtain rfl : i = j := Option.some.inj (h.path.symm.trans h'.path)
  exact Option.some.inj (h.lock.symm.trans h'.lock)

theorem Answers.unique (h : Answers env s c i) (h' : Answers env s d j) : c = d := by
  obtain rfl : i = j := Option.some.inj (h.path.symm.trans h'.path)
  rcases h with h | ⟨way, h⟩ <;> rcases h' with h' | ⟨way', h'⟩
  · exact Option.some.inj (h.creator.symm.trans h'.creator)
  · exact (h'.not_creates h).symm
  · exact h.not_creates h'
  · exact h.unique h'

/-! ## What a call leaves to the others -/

/-- The change of an inode by the caller `c`: none, a write under its lock, or the record of its
creator. -/
inductive Changed (env : Host δ υ) (s t : State δ υ) (c i : ℕ) : Prop where
  | same : (t.inode i).text = (s.inode i).text → (t.inode i).owner = (s.inode i).owner →
      (t.inode i).claimed = (s.inode i).claimed → Changed env s t c i
  | truncate : (s.inode i).lock = some c → (∃ q, (s.inode i).owner = some q) →
      (s.path = some i → SomeGone s (s.inode i).owner) →
      (t.inode i).claimed = true → (t.inode i).owner = (s.inode i).owner → Changed env s t c i
  | write : (s.inode i).lock = some c → (s.inode i).claimed = true → (t.inode i).claimed = true →
      (t.inode i).owner = some (env.process c) → (t.inode i).lock = some c → Busy t c i →
      Changed env s t c i
  | record : Creates env s c i → (s.inode i).text = .nothing → (s.inode i).owner = none →
      (t.inode i).claimed = false → (t.inode i).owner = some (env.process c) →
      (∀ h, parsePoolWriteLockHolder (t.inode i).text = some h →
        env.pid (env.process c) = h.pid) → Changed env s t c i

def Grown (s t : State δ υ) (c : ℕ) : Prop :=
  t.fresh = s.fresh ∨ t.fresh = s.fresh + 1 ∧ t.inode s.fresh = { creator := some c }

structure Leaves (env : Host δ υ) (s t : State δ υ) (c : ℕ) : Prop where
  alive : t.alive = s.alive
  used : t.used = s.used
  grown : Grown s t c
  others : ∀ d, d ≠ c → t.pc d = s.pc d
  creator : ∀ i < s.fresh, (t.inode i).creator = (s.inode i).creator
  lock : ∀ i < s.fresh, ∀ d, d ≠ c → (s.inode i).lock = some d → (t.inode i).lock = some d
  inode : ∀ i < s.fresh, Changed env s t c i
  path : t.path = s.path ∨ s.path = none ∧ t.path = some s.fresh ∧ t.fresh = s.fresh + 1 ∨
    t.path = none ∧ ∃ i, Answers env s c i
  file : t.file = s.file ∨ ∃ i way, Stands s c i way

section Stable

variable (h : Leaves env s t c) (hne : d ≠ c)
include h

theorem Leaves.fresh : s.fresh ≤ t.fresh := by
  rcases h.grown with heq | ⟨heq, -⟩
  · exact heq.ge
  · omega

theorem Leaves.gone (hq : Gone s q) : Gone t q := by
  unfold Gone
  rw [h.alive, h.used]
  exact hq

theorem Leaves.someGone (hq : SomeGone s took) : SomeGone t took := by
  obtain ⟨q, rfl, hq⟩ := hq
  exact ⟨q, rfl, h.gone hq⟩

theorem Leaves.path_back (hi : i < s.fresh) (ht : t.path = some i) : s.path = some i := by
  rcases h.path with heq | ⟨-, hnew, -⟩ | ⟨hnone, -⟩
  · rwa [heq] at ht
  · rw [hnew] at ht
    obtain rfl := Option.some.inj ht
    exact absurd hi (lt_irrefl _)
  · rw [hnone] at ht
    cases ht

include hne

theorem Leaves.path_kept (ha : Answers env s d i) : t.path = some i := by
  rcases h.path with heq | ⟨hnone, -⟩ | ⟨-, j, hj⟩
  · rw [heq, ha.path]
  · rw [ha.path] at hnone
    cases hnone
  · exact absurd (ha.unique hj) hne

theorem Leaves.locks (hk : Locks s d i) : Locks t d i :=
  ⟨h.lock i hk.bound d hne hk.lock, hk.bound.trans_le h.fresh⟩

theorem Leaves.kept (hk : Locks s d i)
    (hno : Creates env s c i → (s.inode i).owner = none → False) :
    (t.inode i).text = (s.inode i).text ∧ (t.inode i).owner = (s.inode i).owner ∧
      (t.inode i).claimed = (s.inode i).claimed := by
  cases h.inode i hk.bound with
  | same h1 h2 h3 => exact ⟨h1, h2, h3⟩
  | truncate hlock => exact absurd (Option.some.inj (hk.lock.symm.trans hlock)) hne
  | write hlock => exact absurd (Option.some.inj (hk.lock.symm.trans hlock)) hne
  | record hcr _ hnone => exact absurd hnone (hno hcr)

theorem Leaves.stands (hs : Stands s d i way) : Stands t d i way := by
  have hk : Locks s d i := hs.toLocks
  refine ⟨h.locks hne hk, h.path_kept hne (.inr ⟨way, hs⟩), ?_⟩
  have hway := hs.way
  cases way with
  | created => exact (h.creator i hk.bound).trans hway
  | reclaimed took =>
    obtain ⟨hclaimed, hgone⟩ := hway
    obtain ⟨-, -, hsame⟩ := h.kept hne hk fun hcr _ => absurd (hs.not_creates hcr) hne
    exact ⟨hsame.trans hclaimed, h.someGone hgone⟩

theorem Leaves.creates (hlive : env.process d ∈ s.alive) (hc : Creates env s d i) :
    Creates env t d i ∧ (t.inode i).text = (s.inode i).text ∧
      (t.inode i).owner = (s.inode i).owner := by
  have hsame : (t.inode i).text = (s.inode i).text ∧ (t.inode i).owner = (s.inode i).owner ∧
      (t.inode i).claimed = (s.inode i).claimed := by
    cases h.inode i hc.bound with
    | same h1 h2 h3 => exact ⟨h1, h2, h3⟩
    | truncate _ _ hgone =>
      -- the process of the creator lives, so nobody can have found it gone
      exfalso
      obtain ⟨q, hq, -, hdead⟩ := hgone hc.path
      rcases hc.owner with ho | ho <;> rw [ho] at hq
      · cases hq
      · obtain rfl := Option.some.inj hq
        exact hdead hlive
    | write _ hclaimed => exact absurd (hclaimed.symm.trans hc.unclaimed) (by decide)
    | record hcr =>
      exact absurd (Option.some.inj (hc.creator.symm.trans hcr.creator)) hne
  obtain ⟨h1, h2, h3⟩ := hsame
  refine ⟨⟨h.path_kept hne (.inl hc), hc.bound.trans_le h.fresh,
    (h.creator i hc.bound).trans hc.creator, h3.trans hc.unclaimed, ?_⟩, h1, h2⟩
  rw [h2]
  exact hc.owner

omit hne in
theorem Leaves.recent (hi : i < s.fresh) (hr : Recent s i recorded) : Recent t i recorded := by
  intro hno
  cases h.inode i hi with
  | same h1 _ h3 =>
    rw [h1]
    exact hr (h3.symm.trans hno)
  | truncate _ _ _ hyes => exact absurd (hyes.symm.trans hno) (by decide)
  | write _ _ hyes => exact absurd (hyes.symm.trans hno) (by decide)
  | record hcr htext =>
    left
    rcases hr hcr.unclaimed with hnone | heq
    · exact hnone
    · rw [heq, htext]
      rfl

/-- What one caller relies on survives the calls of the others. -/
theorem Leaves.relies (hlive : env.process d ∈ s.alive) (hr : Relies env s d) :
    Relies env t d := by
  unfold Relies at hr ⊢
  rw [h.others d hne]
  cases hpc : s.pc d with
  | idle => trivial
  | inspecting => trivial
  | opening => trivial
  | reading job i =>
    rw [hpc] at hr
    exact hr.trans_le h.fresh
  | locking job i recorded =>
    rw [hpc] at hr
    exact ⟨hr.1.trans_le h.fresh, h.recent hr.1 hr.2⟩
  | probing job i recorded =>
    rw [hpc] at hr
    exact ⟨h.locks hne hr.1, h.recent hr.1.bound hr.2⟩
  | truncating job i recorded =>
    rw [hpc] at hr
    obtain ⟨hk, hsome, hgone⟩ := hr
    have hno : Creates env s c i → (s.inode i).owner = none → False := by
      intro hcr hnone
      obtain ⟨q, hq⟩ := hsome
      rw [hnone] at hq
      cases hq
    obtain ⟨-, howner, -⟩ := h.kept hne hk hno
    dsimp only
    rw [howner]
    refine ⟨h.locks hne hk, hsome, fun hp => ?_⟩
    exact h.someGone (hgone (h.path_back hk.bound hp))
  | writing job i recorded took =>
    rw [hpc] at hr
    obtain ⟨hk, hclaimed, howner, hgone⟩ := hr
    obtain ⟨-, h2, h3⟩ := h.kept hne hk fun hcr _ =>
      absurd (hclaimed.symm.trans hcr.unclaimed) (by decide)
    exact ⟨h.locks hne hk, h3.trans hclaimed, h2.trans howner,
      fun hp => h.someGone (hgone (h.path_back hk.bound hp))⟩
  | confirming job i recorded took =>
    rw [hpc] at hr
    obtain ⟨hk, hclaimed, htext, hgone⟩ := hr
    obtain ⟨h1, -, h3⟩ := h.kept hne hk fun hcr _ =>
      absurd (hclaimed.symm.trans hcr.unclaimed) (by decide)
    exact ⟨h.locks hne hk, h3.trans hclaimed, h1.trans htext,
      fun hp => h.someGone (hgone (h.path_back hk.bound hp))⟩
  | refusing => trivial
  | creating => trivial
  | recording job i =>
    rw [hpc] at hr
    obtain ⟨hcr, htext, hnone⟩ := hr
    obtain ⟨hcr', h1, h2⟩ := h.creates hne hlive hcr
    exact ⟨hcr', h1.trans htext, h2.trans hnone⟩
  | securing job i =>
    rw [hpc] at hr
    exact (h.creates hne hlive hr).1
  | failing i =>
    rw [hpc] at hr
    exact (h.creates hne hlive hr).1
  | occupied => trivial
  | holding job i way seen =>
    rw [hpc] at hr
    refine ⟨h.stands hne hr.1, fun x hx => ?_⟩
    rcases h.file with heq | ⟨j, way', hj⟩
    · rw [heq]
      exact hr.2 x hx
    · exact absurd (hr.1.unique hj) hne
  | unlinking i way =>
    rw [hpc] at hr
    exact h.stands hne hr
  | closing i unlinked =>
    rw [hpc] at hr
    exact hr
  | unlinkingAgain =>
    rw [hpc] at hr
    exact hr

end Stable

/-! ## One call -/

/-- A call keeps what every run relies on, if it leaves its own caller with what that relies on. -/
theorem Sound.step (hs : Sound env s) (hlive : env.process c ∈ s.alive) (h : Leaves env s t c)
    (hown : Relies env t c)
    (hbusy : ∀ i, t.path = some i → Busy s c i → (s.inode i).lock = some c →
      Busy t c i ∧ (t.inode i).lock = some c)
    (hfile : t.file = t.log.foldl (fun d u => env.apply u d) env.first) : Sound env t := by
  have hsplit : ∀ {i}, i < t.fresh → i < s.fresh ∨ t.inode i = { creator := some c } := by
    intro i hi
    rcases h.grown with heq | ⟨heq, hnew⟩
    · exact .inl (heq ▸ hi)
    · rcases Nat.lt_succ_iff_lt_or_eq.mp (heq ▸ hi) with hlt | rfl
      · exact .inl hlt
      · exact .inr hnew
  have hbound : ∀ i, t.path = some i → i < t.fresh := by
    intro i hi
    rcases h.path with heq | ⟨-, hnew, hgrown⟩ | ⟨hnone, -⟩
    · exact (hs.bound i (heq ▸ hi)).trans_le h.fresh
    · rw [hnew] at hi
      obtain rfl := Option.some.inj hi
      omega
    · rw [hnone] at hi
      cases hi
  refine ⟨fun d hd => ?_, fun d hd => ?_, hbound, ?_, fun i q hi hq => ?_,
    fun i r hi hno hr => ?_, fun i hi hclaimed => ?_, fun i q hp hclaimed hq hqlive => ?_, hfile⟩
  · by_cases hdc : d = c
    · rw [hdc]
      exact hown
    · rw [h.alive] at hd
      exact h.relies hdc hd (hs.relies d hd)
  · rw [h.used] at hd
    have hdc : d ≠ c := by
      rintro rfl
      exact hd (hs.alive hlive)
    rw [h.others d hdc]
    exact hs.unborn d hd
  · rw [h.alive, h.used]
    exact hs.alive
  · rw [h.used]
    rcases hsplit hi with hi | hnew
    · cases h.inode i hi with
      | same _ howner => exact hs.owner i q hi (howner ▸ hq)
      | truncate _ _ _ _ howner => exact hs.owner i q hi (howner ▸ hq)
      | write _ _ _ howner =>
        obtain rfl := Option.some.inj (howner.symm.trans hq)
        exact hs.alive hlive
      | record _ _ _ _ howner =>
        obtain rfl := Option.some.inj (howner.symm.trans hq)
        exact hs.alive hlive
    · rw [hnew] at hq
      cases hq
  · rcases hsplit hi with hi | hnew
    · cases h.inode i hi with
      | same htext howner hclaimed =>
        rw [howner]
        exact hs.recorded i r hi (hclaimed ▸ hno) (htext ▸ hr)
      | truncate _ _ _ hyes => exact absurd (hyes.symm.trans hno) (by decide)
      | write _ _ hyes => exact absurd (hyes.symm.trans hno) (by decide)
      | record _ _ _ _ howner hpid => exact ⟨_, howner, hpid r hr⟩
    · rw [hnew] at hr
      cases hr
  · rcases hsplit hi with hi | hnew
    · cases h.inode i hi with
      | same _ howner hsame =>
        rw [howner]
        exact hs.named i hi (hsame ▸ hclaimed)
      | truncate _ hsome _ _ howner =>
        rw [howner]
        exact hsome
      | write _ _ _ howner => exact ⟨_, howner⟩
      | record _ _ _ hno => exact absurd (hclaimed.symm.trans hno) (by decide)
    · rw [hnew] at hclaimed
      cases hclaimed
  · rcases hsplit (hbound i hp) with hi | hnew
    · cases h.inode i hi with
      | same _ howner hsame =>
        rw [howner] at hq
        rw [hsame] at hclaimed
        rw [h.alive] at hqlive
        obtain ⟨d, hd, hlock, hdbusy⟩ := hs.busy i q (h.path_back hi hp) hclaimed hq hqlive
        by_cases hdc : d = c
        · subst hdc
          obtain ⟨h1, h2⟩ := hbusy i hp hdbusy hlock
          exact ⟨d, hd, h2, h1⟩
        · refine ⟨d, hd, h.lock i hi d hdc hlock, ?_⟩
          unfold Busy
          rw [h.others d hdc]
          exact hdbusy
      | truncate _ _ hgone _ howner =>
        obtain ⟨q', hq', -, hdead⟩ := hgone (h.path_back hi hp)
        rw [howner, hq'] at hq
        obtain rfl := Option.some.inj hq
        rw [h.alive] at hqlive
        exact absurd hqlive hdead
      | write _ _ _ howner hlock hb =>
        exact ⟨c, Option.some.inj (howner.symm.trans hq), hlock, hb⟩
      | record _ _ _ hno => exact absurd (hclaimed.symm.trans hno) (by decide)
    · rw [hnew] at hq
      cases hq

theorem leaves_goto : Leaves env s (s.goto c pc) c :=
  ⟨rfl, rfl, .inl rfl, fun _ hd => goto_other hd, fun _ _ => rfl, fun _ _ _ _ h => h,
    fun _ _ => .same rfl rfl rfl, .inl rfl, .inl rfl⟩

theorem Sound.goto (hs : Sound env s) (hlive : env.process c ∈ s.alive)
    (hown : Relies env (s.goto c pc) c)
    (hbusy : ∀ i, s.path = some i → Busy s c i → Busy (s.goto c pc) c i) :
    Sound env (s.goto c pc) :=
  hs.step hlive leaves_goto hown (fun i hp hb hlock => ⟨hbusy i hp hb, hlock⟩) hs.file

theorem leaves_edit (hcreator : (f (s.inode i)).creator = (s.inode i).creator)
    (hlock : ∀ d, d ≠ c → (s.inode i).lock = some d → (f (s.inode i)).lock = some d)
    (hchanged : Changed env s ((s.edit i f).goto c pc) c i) :
    Leaves env s ((s.edit i f).goto c pc) c := by
  have hedit : ∀ j, j ≠ i → ((s.edit i f).goto c pc).inode j = s.inode j := fun j hj => edit_other hj
  have hself : ((s.edit i f).goto c pc).inode i = f (s.inode i) := edit_self
  refine ⟨rfl, rfl, .inl rfl, fun _ hd => goto_other hd, fun j _ => ?_, fun j _ d hd hj => ?_,
    fun j _ => ?_, .inl rfl, .inl rfl⟩
  · by_cases hji : j = i
    · subst hji
      rw [hself, hcreator]
    · rw [hedit j hji]
  · by_cases hji : j = i
    · subst hji
      rw [hself]
      exact hlock d hd hj
    · rw [hedit j hji]
      exact hj
  · by_cases hji : j = i
    · rw [hji]
      exact hchanged
    · refine .same ?_ ?_ ?_ <;> rw [hedit j hji]

theorem leaves_lock (htext : (f (s.inode i)).text = (s.inode i).text)
    (howner : (f (s.inode i)).owner = (s.inode i).owner)
    (hclaimed : (f (s.inode i)).claimed = (s.inode i).claimed)
    (hcreator : (f (s.inode i)).creator = (s.inode i).creator)
    (hlock : ∀ d, d ≠ c → (s.inode i).lock = some d → (f (s.inode i)).lock = some d) :
    Leaves env s ((s.edit i f).goto c pc) c := by
  refine leaves_edit hcreator hlock (.same ?_ ?_ ?_)
  · rw [goto_inode, edit_self, htext]
  · rw [goto_inode, edit_self, howner]
  · rw [goto_inode, edit_self, hclaimed]

theorem leaves_close : Leaves env s ((s.edit i (Inode.close c)).goto c pc) c := by
  refine leaves_lock rfl rfl rfl rfl fun d hd hlock => ?_
  unfold Inode.close
  dsimp only
  rw [hlock, if_neg fun heq => hd (Option.some.inj heq)]

theorem leaves_unlink (ha : Answers env s c i) : Leaves env s (s.unlink.goto c pc) c :=
  ⟨rfl, rfl, .inl rfl, fun _ hd => goto_other hd, fun _ _ => rfl, fun _ _ _ _ h => h,
    fun _ _ => .same rfl rfl rfl, .inr (.inr ⟨rfl, i, ha⟩), .inl rfl⟩

theorem Sound.unlinks (hs : Sound env s) (hlive : env.process c ∈ s.alive)
    (ha : Answers env s c i) (hown : Relies env (s.unlink.goto c pc) c) :
    Sound env (s.unlink.goto c pc) :=
  hs.step hlive (leaves_unlink ha) hown (fun j hp _ _ => by cases hp) hs.file

section Calls

variable (hs : Sound env s) (hlive : env.process c ∈ s.alive)
include hs hlive

theorem Sound.takes (hfree : (s.inode i).lock = none)
    (hown : Relies env ((s.edit i fun n => { n with lock := some c }).goto c pc) c)
    (hidle : ∀ j, ¬ Busy s c j) :
    Sound env ((s.edit i fun n => { n with lock := some c }).goto c pc) := by
  refine hs.step hlive (leaves_lock rfl rfl rfl rfl fun d _ hlock => ?_) hown
    (fun j _ hb _ => absurd hb (hidle j)) hs.file
  rw [hfree] at hlock
  cases hlock

theorem Sound.closes (hown : Relies env ((s.edit i (Inode.close c)).goto c pc) c)
    (hidle : ∀ j, ¬ Busy s c j) : Sound env ((s.edit i (Inode.close c)).goto c pc) :=
  hs.step hlive leaves_close hown (fun j _ hb _ => absurd hb (hidle j)) hs.file

omit hlive in
/-- The probe passes only on a sentinel whose process is gone, as long as it stands. -/
theorem Sound.probe (hk : Locks s c i) (hr : Recent s i recorded)
    (hpc : s.pc c = .probing job i recorded)
    (hgone : (recorded.bind fun h => recordedHolderIsRunning env s h.pid) = some false) :
    (∃ q, (s.inode i).owner = some q) ∧ (s.path = some i → SomeGone s (s.inode i).owner) := by
  obtain ⟨h, rfl, hrun⟩ := Option.bind_eq_some_iff.mp hgone
  unfold recordedHolderIsRunning at hrun
  split at hrun
  · cases hrun
  have hno : ¬ ∃ q ∈ s.alive, env.pid q = h.pid := of_decide_eq_false (Option.some.inj hrun)
  cases hclaimed : (s.inode i).claimed with
  | false =>
    rcases hr hclaimed with hnone | heq
    · cases hnone
    obtain ⟨q, hq, hpid⟩ := hs.recorded i h hk.bound hclaimed heq.symm
    exact ⟨⟨q, hq⟩, fun _ => ⟨q, hq, hs.owner i q hk.bound hq, fun hqlive => hno ⟨q, hqlive, hpid⟩⟩⟩
  | true =>
    -- whoever recorded itself in a take-over and lives has the lock
    obtain ⟨q, hq⟩ := hs.named i hk.bound hclaimed
    refine ⟨⟨q, hq⟩, fun hp => ⟨q, hq, hs.owner i q hk.bound hq, fun hqlive => ?_⟩⟩
    obtain ⟨d, -, hlock, hbusy⟩ := hs.busy i q hp hclaimed hq hqlive
    obtain rfl := Option.some.inj (hk.lock.symm.trans hlock)
    exact absurd hbusy (not_busy hpc rfl i)

theorem Sound.truncates (hk : Locks s c i) (hsome : ∃ q, (s.inode i).owner = some q)
    (hgone : s.path = some i → SomeGone s (s.inode i).owner) (hidle : ∀ j, ¬ Busy s c j) :
    Sound env ((s.edit i fun n => { n with
      text := .nothing
      claimed := true }).goto c (.writing job i recorded (s.inode i).owner)) := by
  refine hs.step hlive (leaves_edit rfl (fun _ _ hlock => hlock)
    (.truncate hk.lock hsome hgone ?_ ?_)) ?_ (fun j _ hb _ => absurd hb (hidle j)) hs.file
  · rw [goto_inode, edit_self]
  · rw [goto_inode, edit_self]
  · unfold Relies
    rw [goto_self]
    dsimp only
    rw [goto_inode, edit_self]
    refine ⟨⟨?_, hk.bound⟩, rfl, rfl, hgone⟩
    rw [goto_inode, edit_self]
    exact hk.lock

theorem Sound.claims (hk : Locks s c i) (hclaimed : (s.inode i).claimed = true)
    (hgone : s.path = some i → SomeGone s took) (hidle : ∀ j, ¬ Busy s c j) :
    Sound env ((s.edit i fun n => { n with
      text := ours env c recorded
      owner := some (env.process c) }).goto c (.confirming job i recorded took)) := by
  have hself : ((s.edit i fun n => { n with
      text := ours env c recorded
      owner := some (env.process c) }).goto c (.confirming job i recorded took)).inode i =
      { s.inode i with
        text := ours env c recorded
        owner := some (env.process c) } := by rw [goto_inode, edit_self]
  refine hs.step hlive (leaves_edit rfl (fun _ _ hlock => hlock)
    (.write hk.lock hclaimed ?_ ?_ ?_ ?_)) ?_ (fun j _ hb _ => absurd hb (hidle j)) hs.file
  · rw [hself]
    exact hclaimed
  · rw [hself]
  · rw [hself]
    exact hk.lock
  · unfold Busy
    rw [goto_self]
    rfl
  · unfold Relies
    rw [goto_self]
    dsimp only
    rw [hself]
    refine ⟨⟨?_, hk.bound⟩, hclaimed, rfl, hgone⟩
    rw [hself]
    exact hk.lock

/-- A new sentinel is created. -/
theorem Sound.creates (hnone : s.path = none) (hidle : ∀ j, ¬ Busy s c j) :
    Sound env (State.goto { s with
      path := some s.fresh
      inode := Function.update s.inode s.fresh { creator := some c }
      fresh := s.fresh + 1 } c (.recording job s.fresh)) := by
  have hnew : Function.update s.inode s.fresh { creator := some c } s.fresh =
      { creator := some c } := Function.update_self ..
  have hold : ∀ j < s.fresh, Function.update s.inode s.fresh { creator := some c } j = s.inode j :=
    fun j hj => Function.update_of_ne hj.ne ..
  refine hs.step hlive ⟨rfl, rfl, .inr ⟨rfl, hnew⟩, fun _ hd => goto_other hd, fun j hj => ?_,
    fun j hj d _ hlock => ?_, fun j hj => ?_, .inr (.inl ⟨hnone, rfl, rfl⟩), .inl rfl⟩ ?_
    (fun j _ hb _ => absurd hb (hidle j)) hs.file
  · rw [goto_inode]
    dsimp only
    rw [hold j hj]
  · rw [goto_inode]
    dsimp only
    rw [hold j hj]
    exact hlock
  · refine .same ?_ ?_ ?_ <;> rw [goto_inode] <;> dsimp only <;> rw [hold j hj]
  · unfold Relies
    rw [goto_self]
    dsimp only
    rw [goto_inode]
    dsimp only
    rw [hnew]
    refine ⟨⟨rfl, Nat.lt_succ_self _, ?_, ?_, .inl ?_⟩, rfl, rfl⟩ <;> rw [goto_inode] <;>
      dsimp only <;> rw [hnew]

/-- The creator records itself. -/
theorem Sound.records {host : String} (hc : Creates env s c i)
    (htext : (s.inode i).text = .nothing) (hnone : (s.inode i).owner = none)
    (hidle : ∀ j, ¬ Busy s c j) :
    Sound env ((s.edit i fun n => { n with
      text := .holder (.hostAware (env.pid (env.process c)) host)
      owner := some (env.process c) }).goto c (.securing job i)) := by
  have hself : ((s.edit i fun n => { n with
      text := .holder (.hostAware (env.pid (env.process c)) host)
      owner := some (env.process c) }).goto c (.securing job i)).inode i =
      { s.inode i with
        text := .holder (.hostAware (env.pid (env.process c)) host)
        owner := some (env.process c) } := by rw [goto_inode, edit_self]
  refine hs.step hlive (leaves_edit rfl (fun _ _ hlock => hlock)
    (.record hc htext hnone ?_ ?_ fun h hh => ?_)) ?_ (fun j _ hb _ => absurd hb (hidle j)) hs.file
  · rw [hself]
    exact hc.unclaimed
  · rw [hself]
  · rw [hself] at hh
    unfold parsePoolWriteLockHolder at hh
    dsimp only at hh
    split at hh
    · cases hh
    · obtain rfl := Option.some.inj hh
      rfl
  · unfold Relies
    rw [goto_self]
    refine ⟨hc.path, hc.bound, ?_, ?_, .inr ?_⟩ <;> rw [hself]
    · exact hc.creator
    · exact hc.unclaimed

end Calls

theorem relies_otherwise : Relies env (s.goto c job.otherwise) c := by
  unfold Relies
  rw [goto_self]
  cases job <;> trivial

section Advance

variable (hs : Sound env s) (hlive : env.process c ∈ s.alive)
include hs hlive

theorem Sound.moves (hown : Relies env (s.goto c pc) c) (hno : ∀ i, s.path = some i → ¬ Busy s c i) :
    Sound env (s.goto c pc) :=
  hs.goto hlive hown fun i hp hb => absurd hb (hno i hp)

theorem Sound.rests (hpc : s.pc c = pc) (hnone : pc.busyOn = none) {next : Pc δ υ}
    (hown : Relies env (s.goto c next) c) : Sound env (s.goto c next) :=
  hs.moves hlive hown fun i _ => not_busy hpc hnone i

theorem Sound.refuses (hno : ∀ i, s.path = some i → ¬ Busy s c i) :
    Sound env (s.goto c (.refusing job j)) := by
  refine hs.moves hlive ?_ hno
  unfold Relies
  rw [goto_self]
  trivial

theorem Sound.reads (hpc : s.pc c = .reading job i) (hi : i < s.fresh) :
    Sound env (s.goto c (.locking job i (parsePoolWriteLockHolder (s.inode i).text))) := by
  refine hs.moves hlive ?_ fun j _ => not_busy hpc rfl j
  unfold Relies
  rw [goto_self]
  exact ⟨hi, fun _ => .inr rfl⟩

theorem Sound.locks (hpc : s.pc c = .locking job i recorded) (hi : i < s.fresh)
    (hr : Recent s i recorded) (hfree : (s.inode i).lock = none) :
    Sound env ((s.edit i fun n => { n with lock := some c }).goto c (.probing job i recorded)) := by
  refine hs.takes hlive hfree ?_ (not_busy hpc rfl)
  unfold Relies
  rw [goto_self]
  dsimp only
  unfold Recent
  refine ⟨⟨?_, hi⟩, ?_⟩
  · rw [goto_inode, edit_self]
  · rw [goto_inode, edit_self]
    exact hr

theorem Sound.confirms (hpc : s.pc c = .confirming job i recorded took) (hk : Locks s c i)
    (hclaimed : (s.inode i).claimed = true) (hgone : s.path = some i → SomeGone s took)
    (hp : s.path = some i) : Sound env (s.goto c (.holding job i (.reclaimed took) none)) := by
  refine hs.goto hlive ?_ fun j _ hb => ?_
  · unfold Relies
    rw [goto_self]
    exact ⟨⟨⟨hk.lock, hk.bound⟩, hp, hclaimed, hgone hp⟩, nofun⟩
  · unfold Busy at hb ⊢
    rw [hpc] at hb
    rw [goto_self]
    exact hb

theorem Sound.fails (hpc : s.pc c = pc) (hnone : pc.busyOn = none) (hc : Creates env s c i) :
    Sound env (s.goto c (.failing i)) := by
  refine hs.rests hlive hpc hnone ?_
  unfold Relies
  rw [goto_self]
  exact ⟨hc.path, hc.bound, hc.creator, hc.unclaimed, hc.owner⟩

theorem Sound.secures (hpc : s.pc c = .securing job i) (hc : Creates env s c i)
    (hfree : (s.inode i).lock = none) :
    Sound env ((s.edit i fun n => { n with lock := some c }).goto c
      (.holding job i .created none)) := by
  refine hs.takes hlive hfree ?_ (not_busy hpc rfl)
  unfold Relies
  rw [goto_self]
  refine ⟨⟨⟨?_, hc.bound⟩, hc.path, ?_⟩, nofun⟩
  · rw [goto_inode, edit_self]
  · dsimp only
    rw [goto_inode, edit_self]
    exact hc.creator

theorem Sound.proceeds {seen : Option δ} (hpc : s.pc c = .holding job i way seen)
    (hown : Relies env (s.goto c pc) c) (hbusy : pc.busyOn = some i) : Sound env (s.goto c pc) := by
  refine hs.goto hlive hown fun j _ hb => ?_
  unfold Busy at hb ⊢
  rw [hpc] at hb
  rw [goto_self, hbusy]
  exact hb

theorem Sound.releases {seen : Option δ} (hpc : s.pc c = .holding job i way seen)
    (hst : Stands s c i way) : Sound env (s.goto c (.unlinking i way)) := by
  refine hs.proceeds hlive hpc ?_ rfl
  unfold Relies
  rw [goto_self]
  exact ⟨⟨hst.lock, hst.bound⟩, hst.path, hst.way⟩

theorem Sound.writes {u : υ} {x : δ} (hpc : s.pc c = .holding (.update u) i way (some x))
    (hst : Stands s c i way) (hx : x = s.file) :
    Sound env (State.goto { s with
      file := env.apply u x
      log := s.log ++ [u] } c (.unlinking i way)) := by
  refine hs.step hlive ⟨rfl, rfl, .inl rfl, fun _ hd => goto_other hd, fun _ _ => rfl,
    fun _ _ _ _ h => h, fun _ _ => .same rfl rfl rfl, .inl rfl, .inr ⟨i, way, hst⟩⟩ ?_
    (fun j _ hb hlock => ⟨?_, hlock⟩) ?_
  · unfold Relies
    rw [goto_self]
    exact ⟨⟨hst.lock, hst.bound⟩, hst.path, hst.way⟩
  · unfold Busy at hb ⊢
    rw [hpc] at hb
    rw [goto_self]
    exact hb
  · rw [goto_file, goto_log]
    dsimp only
    rw [List.foldl_append, ← hs.file, hx]
    rfl

end Advance

/-- Every call keeps what the runs rely on, as long as a read-back tells the claims apart. -/
theorem advance_sound (hs : Sound env s) (hlive : env.process c ∈ s.alive)
    (htold : ToldApart env s (.advance c)) : Sound env (advance env c s) := by
  have hr := hs.relies c hlive
  have hother : ∀ {job}, (∀ j, ¬ Busy s c j) → Sound env (s.goto c (Job.otherwise job)) :=
    fun hno => hs.moves hlive relies_otherwise fun j _ => hno j
  unfold Relies at hr
  unfold advance
  cases hpc : s.pc c with
  | idle => exact hs
  | inspecting job =>
    dsimp only
    split
    · exact hother (not_busy hpc rfl)
    · refine hs.rests hlive hpc rfl ?_
      unfold Relies
      rw [goto_self]
      trivial
  | opening job =>
    dsimp only
    split
    · exact hother (not_busy hpc rfl)
    · rename_i i hp
      refine hs.rests hlive hpc rfl ?_
      unfold Relies
      rw [goto_self]
      exact hs.bound i hp
  | reading job i =>
    rw [hpc] at hr
    dsimp only
    split
    · exact hs.refuses hlive fun j _ => not_busy hpc rfl j
    · exact hs.reads hlive hpc hr
  | locking job i recorded =>
    rw [hpc] at hr
    dsimp only
    split
    · rename_i hfree
      exact hs.locks hlive hpc hr.1 hr.2 hfree
    · exact hs.refuses hlive fun j _ => not_busy hpc rfl j
  | probing job i recorded =>
    rw [hpc] at hr
    dsimp only
    split
    · rename_i hgone
      obtain ⟨h1, h2⟩ := hs.probe hr.1 hr.2 hpc hgone
      refine hs.rests hlive hpc rfl ?_
      unfold Relies
      rw [goto_self]
      exact ⟨⟨hr.1.lock, hr.1.bound⟩, h1, h2⟩
    · exact hs.refuses hlive fun j _ => not_busy hpc rfl j
  | truncating job i recorded =>
    rw [hpc] at hr
    exact hs.truncates hlive hr.1 hr.2.1 hr.2.2 (not_busy hpc rfl)
  | writing job i recorded took =>
    rw [hpc] at hr
    exact hs.claims hlive hr.1 hr.2.1 hr.2.2.2 (not_busy hpc rfl)
  | confirming job i recorded took =>
    rw [hpc] at hr
    obtain ⟨hk, hclaimed, htext, hgone⟩ := hr
    -- the inode of this caller says what it wrote, so a mismatch means it does not stand
    have hbusy : ∀ j, Busy s c j → j = i := fun j hb => by
      unfold Busy at hb
      rw [hpc] at hb
      exact (Option.some.inj hb).symm
    dsimp only
    cases hp : s.path with
    | none =>
      refine hs.refuses hlive fun j hj => ?_
      rw [hp] at hj
      cases hj
    | some j =>
      have htold' : (s.inode j).text = ours env c recorded → j = i := by
        simpa only [ToldApart, toldApart, hpc, hp, decide_eq_true_eq] using htold
      dsimp only
      by_cases heq : (s.inode j).text = ours env c recorded
      · rw [if_pos heq]
        obtain rfl := htold' heq
        exact hs.confirms hlive hpc hk hclaimed hgone hp
      · rw [if_neg heq]
        refine hs.refuses hlive fun j' hj' hb => heq ?_
        obtain rfl := hbusy j' hb
        obtain rfl := Option.some.inj (hp.symm.trans hj')
        exact htext
  | refusing job i => exact hs.closes hlive relies_otherwise (not_busy hpc rfl)
  | creating job =>
    dsimp only
    split
    · rename_i hnone
      exact hs.creates hlive hnone (not_busy hpc rfl)
    · refine hs.rests hlive hpc rfl ?_
      unfold Relies
      rw [goto_self]
      trivial
  | recording job i =>
    rw [hpc] at hr
    dsimp only
    split
    · exact hs.fails hlive hpc rfl hr.1
    · exact hs.records hlive hr.1 hr.2.1 hr.2.2 (not_busy hpc rfl)
  | securing job i =>
    rw [hpc] at hr
    dsimp only
    split
    · rename_i hfree
      exact hs.secures hlive hpc hr hfree
    · exact hs.fails hlive hpc rfl hr
  | failing i =>
    rw [hpc] at hr
    refine hs.unlinks hlive (.inl hr) ?_
    unfold Relies
    rw [goto_self]
    trivial
  | occupied job =>
    have hfree : ∀ next : Pc δ υ, next = .creating job ∨ next = .idle → Sound env (s.goto c next) := by
      intro next hnext
      refine hs.rests hlive hpc rfl ?_
      unfold Relies
      rw [goto_self]
      rcases hnext with rfl | rfl <;> trivial
    dsimp only
    split
    · exact hfree _ (.inl rfl)
    · split
      · exact hfree _ (.inl rfl)
      · exact hfree _ (.inr rfl)
  | holding job i way seen =>
    rw [hpc] at hr
    obtain ⟨hst, hseen⟩ := hr
    have hrelease := hs.releases hlive hpc hst
    cases job with
    | tryAcquire => exact hrelease
    | acquire => exact hrelease
    | reclaim => exact hrelease
    | update u =>
      cases seen with
      | some x => exact hs.writes hlive hpc hst (hseen x rfl)
      | none =>
        refine hs.proceeds hlive hpc ?_ rfl
        unfold Relies
        rw [goto_self]
        exact ⟨⟨⟨hst.lock, hst.bound⟩, hst.path, hst.way⟩, fun x hx => (Option.some.inj hx).symm⟩
  | unlinking i way =>
    rw [hpc] at hr
    refine hs.unlinks hlive (.inr ⟨way, hr⟩) ?_
    unfold Relies
    rw [goto_self, hr.path]
    rfl
  | closing i unlinked =>
    rw [hpc] at hr
    subst hr
    refine hs.closes hlive ?_ (not_busy hpc rfl)
    unfold Relies
    rw [goto_self]
    trivial
  | unlinkingAgain =>
    rw [hpc] at hr
    exact hr.elim

/-! ## Processes -/

/-- Processes come and go: nothing changes for a caller but what of the others is gone. -/
structure Quiet (s t : State δ υ) (d : ℕ) : Prop where
  path : t.path = s.path
  fresh : t.fresh = s.fresh
  file : t.file = s.file
  pc : t.pc d = s.pc d
  text : ∀ i, (t.inode i).text = (s.inode i).text
  owner : ∀ i, (t.inode i).owner = (s.inode i).owner
  claimed : ∀ i, (t.inode i).claimed = (s.inode i).claimed
  creator : ∀ i, (t.inode i).creator = (s.inode i).creator
  lock : ∀ i, (s.inode i).lock = some d → (t.inode i).lock = some d
  gone : ∀ q, Gone s q → Gone t q

section Quiet

variable (h : Quiet s t d)
include h

theorem Quiet.someGone (hq : SomeGone s took) : SomeGone t took := by
  obtain ⟨q, rfl, hq⟩ := hq
  exact ⟨q, rfl, h.gone q hq⟩

theorem Quiet.locks (hk : Locks s d i) : Locks t d i :=
  ⟨h.lock i hk.lock, h.fresh ▸ hk.bound⟩

theorem Quiet.creates (hc : Creates env s d i) : Creates env t d i :=
  ⟨h.path ▸ hc.path, h.fresh ▸ hc.bound, (h.creator i).trans hc.creator,
    (h.claimed i).trans hc.unclaimed, (h.owner i).symm ▸ hc.owner⟩

theorem Quiet.stands (hs : Stands s d i way) : Stands t d i way := by
  refine ⟨h.locks hs.toLocks, h.path ▸ hs.path, ?_⟩
  have hway := hs.way
  cases way with
  | created => exact (h.creator i).trans hway
  | reclaimed took => exact ⟨(h.claimed i).trans hway.1, h.someGone hway.2⟩

theorem Quiet.recent (hr : Recent s i recorded) : Recent t i recorded := by
  intro hno
  rw [h.text]
  exact hr ((h.claimed i).symm.trans hno)

theorem Quiet.relies (hr : Relies env s d) : Relies env t d := by
  unfold Relies at hr ⊢
  rw [h.pc]
  cases hpc : s.pc d <;> rw [hpc] at hr
  case reading => exact h.fresh ▸ hr
  case locking => exact ⟨h.fresh ▸ hr.1, h.recent hr.2⟩
  case probing => exact ⟨h.locks hr.1, h.recent hr.2⟩
  case truncating job i recorded =>
    dsimp only
    rw [h.owner, h.path]
    exact ⟨h.locks hr.1, hr.2.1, fun hp => h.someGone (hr.2.2 hp)⟩
  case writing job i recorded took =>
    dsimp only
    rw [h.owner, h.path, h.claimed]
    exact ⟨h.locks hr.1, hr.2.1, hr.2.2.1, fun hp => h.someGone (hr.2.2.2 hp)⟩
  case confirming job i recorded took =>
    dsimp only
    rw [h.text, h.path, h.claimed]
    exact ⟨h.locks hr.1, hr.2.1, hr.2.2.1, fun hp => h.someGone (hr.2.2.2 hp)⟩
  case recording job i =>
    dsimp only
    rw [h.text, h.owner]
    exact ⟨h.creates hr.1, hr.2⟩
  case securing => exact h.creates hr
  case failing => exact h.creates hr
  case holding =>
    dsimp only
    rw [h.file]
    exact ⟨h.stands hr.1, hr.2⟩
  case unlinking => exact h.stands hr
  case closing => exact hr
  case unlinkingAgain => exact hr
  all_goals trivial

end Quiet

theorem killed_quiet (hne : env.process d ≠ p) : Quiet s (killed env p s) d := by
  refine ⟨rfl, rfl, rfl, rfl, fun _ => rfl, fun _ => rfl, fun _ => rfl, fun _ => rfl,
    fun i hi => ?_, fun q hq => ⟨hq.1, fun h => hq.2 (Finset.mem_of_mem_erase h)⟩⟩
  unfold killed
  dsimp only
  rw [hi, Option.filter_some, if_pos (decide_eq_true hne)]

theorem kill_sound (hs : Sound env s) (p : ℕ) : Sound env (killed env p s) := by
  refine ⟨fun d hd => ?_, hs.unborn, hs.bound, (Finset.erase_subset _ _).trans hs.alive, hs.owner,
    hs.recorded, hs.named, fun i q hp hclaimed hq hqlive => ?_, hs.file⟩
  · obtain ⟨hne, hlive⟩ := Finset.mem_erase.mp hd
    exact (killed_quiet hne).relies (hs.relies d hlive)
  · obtain ⟨hne, hlive⟩ := Finset.mem_erase.mp hqlive
    obtain ⟨c, hc, hlock, hbusy⟩ := hs.busy i q hp hclaimed hq hlive
    exact ⟨c, hc, (killed_quiet (hc ▸ hne)).lock i hlock, hbusy⟩

theorem spawn_sound (hs : Sound env s) (hp : p ∉ s.used) : Sound env (spawned p s) := by
  have hgone : ∀ q, Gone s q → Gone (spawned p s) q := by
    rintro q ⟨hused, hdead⟩
    refine ⟨Finset.mem_insert_of_mem hused, fun hin => ?_⟩
    rcases Finset.mem_insert.mp hin with rfl | hin
    · exact hp hused
    · exact hdead hin
  refine ⟨fun d hd => ?_, fun d hd => ?_, hs.bound, Finset.insert_subset_insert _ hs.alive,
    fun i q hi hq => Finset.mem_insert_of_mem (hs.owner i q hi hq), hs.recorded, hs.named,
    fun i q hpath hclaimed hq hqlive => ?_, hs.file⟩
  · rcases Finset.mem_insert.mp hd with heq | hlive
    · have hidle := hs.unborn d (heq ▸ hp)
      unfold Relies
      rw [show (spawned p s).pc d = .idle from hidle]
      trivial
    · have hquiet : Quiet s (spawned p s) d := ⟨rfl, rfl, rfl, rfl, fun _ => rfl, fun _ => rfl, fun _ => rfl,
        fun _ => rfl, fun _ h => h, hgone⟩
      exact hquiet.relies (hs.relies d hlive)
  · exact hs.unborn d fun hin => hd (Finset.mem_insert_of_mem hin)
  · rcases Finset.mem_insert.mp hqlive with rfl | hlive
    · exact absurd (hs.owner i q (hs.bound i hpath) hq) hp
    · exact hs.busy i q hpath hclaimed hq hlive

/-! ## Whole runs -/

def Reachable (env : Host δ υ) (Φ : State δ υ → Action υ → Prop) : State δ υ → Prop :=
  TransactionSystem.Reachable (Initial env) (exec env) Φ

theorem initial_sound (h : Initial env s) : Sound env s := by
  refine ⟨fun c _ => ?_, fun c _ => h.idle c, h.path, h.alive, fun i q _ => h.owner i q,
    fun i r _ _ => h.recorded i r, fun i _ hclaimed => ?_, fun i q _ hclaimed => ?_, ?_⟩
  · unfold Relies
    rw [h.idle c]
    trivial
  · exact absurd (hclaimed.symm.trans (h.unlocked i).2) (by decide)
  · exact absurd (hclaimed.symm.trans (h.unlocked i).2) (by decide)
  · rw [h.file.1, h.file.2]
    rfl

theorem exec_sound {a : Action υ} (hs : Sound env s) (htold : ToldApart env s a)
    (hx : exec env a s = .ok t) : Sound env t := by
  unfold exec at hx
  cases a with
  | spawn p =>
    dsimp only at hx
    split at hx
    · cases hx
    · rename_i hno
      obtain rfl := Except.ok.inj hx
      exact spawn_sound hs (not_or.mp hno).1
  | kill p =>
    dsimp only at hx
    split at hx
    · obtain rfl := Except.ok.inj hx
      exact kill_sound hs p
    · cases hx
  | start c job =>
    dsimp only at hx
    split at hx
    · rename_i hlive
      split at hx
      · rename_i hpc
        obtain rfl := Except.ok.inj hx
        refine hs.rests hlive hpc rfl ?_
        unfold Relies
        rw [goto_self]
        cases job <;> trivial
      · cases hx
    · cases hx
  | advance c =>
    dsimp only at hx
    split at hx
    · rename_i hlive
      obtain rfl := Except.ok.inj hx
      exact advance_sound hs hlive htold
    · cases hx
  | giveUp c =>
    dsimp only at hx
    split at hx
    · rename_i hlive
      have hr := hs.relies c hlive
      unfold Relies at hr
      split at hx
      · rename_i hpc
        obtain rfl := Except.ok.inj hx
        refine hs.rests hlive hpc rfl ?_
        unfold Relies
        rw [goto_self]
        trivial
      · rename_i hpc
        obtain rfl := Except.ok.inj hx
        rw [hpc] at hr
        exact hs.releases hlive hpc hr.1
      · cases hx
    · cases hx

theorem reachable_sound (h : Reachable env (ToldApart env) s) : Sound env s :=
  h.invariant (fun _ => initial_sound) fun _ _ _ hs htold hx => exec_sound hs htold hx

theorem Sound.holds (hs : Sound env s) (h : HoldsOn env s c i) : ∃ way, Stands s c i way := by
  obtain ⟨hlive, hpc⟩ := h
  have hr := hs.relies c hlive
  unfold Relies at hr
  split at hpc
  · rename_i heq
    rw [heq] at hr
    exact ⟨_, hpc ▸ hr.1⟩
  · rename_i heq
    rw [heq] at hr
    exact ⟨_, hpc ▸ hr⟩
  · exact hpc.elim

theorem Sound.tookOver (hs : Sound env s) (h : TookOver env s c took) : SomeGone s took := by
  obtain ⟨hlive, hpc⟩ := h
  have hr := hs.relies c hlive
  unfold Relies at hr
  split at hpc
  · rename_i heq
    rw [heq] at hr
    have hway := hr.1.way
    rw [hpc] at hway
    exact hway.2
  · rename_i heq
    rw [heq] at hr
    have hway := hr.way
    rw [hpc] at hway
    exact hway.2
  · exact hpc.elim

/-- The lock excludes: no two live callers hold it; nobody but its holder unlinks the sentinel it
holds; every update is made on the result of the one before; and what was taken over had been left
by a process that is gone. -/
structure Exclusive (env : Host δ υ) (s : State δ υ) : Prop where
  holder : ∀ c d i j, HoldsOn env s c i → HoldsOn env s d j → c = d
  sentinel : ∀ a t c i, exec env a s = .ok t → HoldsOn env s c i → a ≠ .advance c → t.path = some i
  updates : s.file = s.log.foldl (fun d u => env.apply u d) env.first
  reclaimed : ∀ c took, TookOver env s c took → ∃ q, took = some q ∧ q ∈ s.used ∧ q ∉ s.alive

theorem Sound.unlinked (hs : Sound env s) (hlive : env.process d ∈ s.alive)
    (hne : (advance env d s).path ≠ s.path) : s.path = none ∨ ∃ j, Answers env s d j := by
  have hr := hs.relies d hlive
  unfold Relies at hr
  cases hpc : s.pc d with
  | creating job =>
    left
    by_contra hsome
    obtain ⟨i, hi⟩ := Option.ne_none_iff_exists'.mp hsome
    refine hne ?_
    unfold advance
    rw [hpc]
    dsimp only
    rw [hi]
    exact hi
  | failing i =>
    rw [hpc] at hr
    exact .inr ⟨i, .inl hr⟩
  | unlinking i way =>
    rw [hpc] at hr
    exact .inr ⟨i, .inr ⟨way, hr⟩⟩
  | unlinkingAgain =>
    rw [hpc] at hr
    exact hr.elim
  | idle =>
    unfold advance at hne
    rw [hpc] at hne
    exact absurd rfl hne
  | _ =>
    refine absurd ?_ hne
    unfold advance
    rw [hpc]
    dsimp only
    repeat' first | rfl | split

theorem Sound.exclusive (hs : Sound env s) : Exclusive env s := by
  refine ⟨fun c d i j hi hj => ?_, fun a t c i hx hi hne => ?_, hs.file, fun c took h => ?_⟩
  · obtain ⟨way, hway⟩ := hs.holds hi
    obtain ⟨way', hway'⟩ := hs.holds hj
    exact hway.unique hway'
  · obtain ⟨way, hway⟩ := hs.holds hi
    have hp : s.path = some i := hway.path
    have hsame : t.path = s.path := by
      unfold exec at hx
      cases a with
      | advance d =>
        dsimp only at hx
        split at hx
        · rename_i hlive
          obtain rfl := Except.ok.inj hx
          by_contra hchanged
          rcases hs.unlinked hlive hchanged with hnone | ⟨j, hj⟩
          · rw [hp] at hnone
            cases hnone
          · exact hne (congrArg Action.advance (hj.unique (.inr ⟨way, hway⟩)))
        · cases hx
      | _ =>
        dsimp only at hx
        repeat' split at hx
        all_goals first | (obtain rfl := Except.ok.inj hx; rfl) | cases hx
    rw [hsame, hp]
  · obtain ⟨q, hq, hused, hdead⟩ := hs.tookOver h
    exact ⟨q, hq, hused, hdead⟩

/-- In every run whose read-backs tell the claims apart the lock excludes. -/
theorem pool_write_lock_exclusive (env : Host δ υ) (s : State δ υ)
    (h : Reachable env (ToldApart env) s) : Exclusive env s :=
  (reachable_sound h).exclusive

/-! ## Callers of one process -/

def sampleHost : Host ℕ ℕ where
  identity := some "host"
  process c := c / 10
  pid p := p
  first := 0
  apply u d := d + u

def sampleStart : State ℕ ℕ :=
  { alive := ∅, used := ∅, path := none, inode := fun _ => {}, fresh := 0, pc := fun _ => .idle
    file := 0, log := [] }

theorem sampleStart_initial : Initial sampleHost sampleStart :=
  ⟨fun _ => rfl, nofun, fun _ h => h, fun _ => ⟨rfl, rfl⟩, nofun, nofun, rfl, rfl⟩

def calls (c n : ℕ) : List (Action ℕ) := List.replicate n (.advance c)

def sampleCrash : List (Action ℕ) :=
  [Action.spawn 1, .spawn 2, .spawn 3, .start 30 .tryAcquire] ++ calls 30 3 ++ [Action.kill 3]

def sampleRace : List (Action ℕ) :=
  sampleCrash ++ .start 10 (.update 7) :: calls 10 3 ++ .start 20 .reclaim :: calls 20 11 ++
    .start 11 (.update 5) :: calls 11 5 ++ calls 10 7 ++ calls 11 1

/-- Both hold the lock, and the first of their updates is lost. -/
theorem one_process_two_holders : ∃ s,
    Reachable sampleHost (fun _ _ => True) s ∧ HoldsOn sampleHost s 10 0 ∧
    HoldsOn sampleHost s 11 1 ∧ s.log = [7, 5] ∧ s.file = 5 ∧ ¬ Exclusive sampleHost s := by
  have hplay : (TransactionSystem.play (exec sampleHost) (fun _ _ => True) sampleRace sampleStart).any
      (fun s => decide (1 ∈ s.alive) && decide (s.pc 10 = .unlinking 0 (.reclaimed (some 2))) &&
        decide (s.pc 11 = .unlinking 1 .created) && decide (s.log = [7, 5]) &&
        decide (s.file = 5)) = true := by
    decide
  obtain ⟨s, hs, hp⟩ := (Option.any_eq_true _ _).mp hplay
  simp only [Bool.and_eq_true, decide_eq_true_eq] at hp
  obtain ⟨⟨⟨⟨hlive, h10⟩, h11⟩, hlog⟩, hfile⟩ := hp
  have hfirst : HoldsOn sampleHost s 10 0 := by
    refine ⟨hlive, ?_⟩
    rw [h10]
  have hsecond : HoldsOn sampleHost s 11 1 := by
    refine ⟨hlive, ?_⟩
    rw [h11]
  refine ⟨s, TransactionSystem.Reachable.play (.start sampleStart_initial) hs, hfirst, hsecond, hlog,
    hfile, fun h => ?_⟩
  exact absurd (h.holder 10 11 0 1 hfirst hsecond) (by decide)

/-- Taken over and released, and then created anew. -/
theorem taken_over_in_turn : ∃ s, Reachable sampleHost (ToldApart sampleHost) s ∧ s.log = [7, 5] ∧
    s.file = 12 ∧ Exclusive sampleHost s := by
  have hplay : (TransactionSystem.play (exec sampleHost) (ToldApart sampleHost)
      (sampleCrash ++ .start 10 (.update 7) :: calls 10 12 ++ .start 20 (.update 5) :: calls 20 6)
      sampleStart).any (fun s => decide (s.log = [7, 5]) && decide (s.file = 12)) = true := by
    decide
  obtain ⟨s, hs, hp⟩ := (Option.any_eq_true _ _).mp hplay
  simp only [Bool.and_eq_true, decide_eq_true_eq] at hp
  have hreach : Reachable sampleHost (ToldApart sampleHost) s :=
    TransactionSystem.Reachable.play (.start sampleStart_initial) hs
  exact ⟨s, hreach, hp.1, hp.2, pool_write_lock_exclusive sampleHost s hreach⟩

end PoolWriteLock
