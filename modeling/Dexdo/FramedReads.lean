import Mathlib.Data.List.Basic
import Mathlib.Data.List.Flatten

/-! # Frames out of reads

A body of bytes comes in reads of any size, its frames stand between blank lines, and a reader
takes the complete frames of the buffer after every read: all of them are decoded before the first
is looked at. -/
namespace FramedReads

abbrev Bytes := List UInt8

def newline : UInt8 := 10

/-! ## Splitting -/

def splitFrame : Bytes → Option (Bytes × Bytes)
  | a :: b :: rest =>
    if a = newline ∧ b = newline then some ([], rest)
    else (splitFrame (b :: rest)).map fun parts => (a :: parts.1, parts.2)
  | _ => none

def framesAux : ℕ → Bytes → List Bytes × Bytes
  | 0, buf => ([], buf)
  | fuel + 1, buf =>
    match splitFrame buf with
    | none => ([], buf)
    | some (frame, rest) => (frame :: (framesAux fuel rest).1, (framesAux fuel rest).2)

def frames (buf : Bytes) : List Bytes × Bytes := framesAux buf.length buf

def framed (fs : List Bytes) : Bytes := fs.flatMap fun f => f ++ [newline, newline]

attribute [grind =] splitFrame framesAux

variable {buf x rest r f m p : Bytes} {fs pre post : List Bytes}

theorem splitFrame_some (h : splitFrame buf = some (f, rest)) :
    buf = f ++ newline :: newline :: rest ∧ splitFrame (f ++ [newline]) = none := by
  induction buf generalizing f with
  | nil => cases h
  | cons a buf ih =>
    cases buf with
    | nil => cases h
    | cons b tail =>
      unfold splitFrame at h
      by_cases hab : a = newline ∧ b = newline
      · rw [if_pos hab] at h
        obtain ⟨rfl, rfl⟩ := hab
        cases h
        exact ⟨rfl, rfl⟩
      · rw [if_neg hab] at h
        obtain ⟨⟨g, rest'⟩, hg, heq⟩ := Option.map_eq_some_iff.mp h
        cases heq
        obtain ⟨hbuf, hnone⟩ := ih hg
        refine ⟨by rw [hbuf]; rfl, ?_⟩
        have hhead : (a :: g) ++ [newline] = a :: (g ++ [newline]) := rfl
        rw [hhead]
        cases hgs : g ++ [newline] with
        | nil => simp at hgs
        | cons c gs =>
          have hc : c = b := by
            have hfirst := congrArg List.head? hbuf
            cases g with
            | nil =>
              simp only [List.nil_append, List.cons.injEq] at hgs hbuf
              exact hgs.1.symm.trans hbuf.1.symm
            | cons g0 gs0 =>
              simp only [List.cons_append, List.cons.injEq] at hgs hbuf
              exact hgs.1.symm.trans hbuf.1.symm
          unfold splitFrame
          rw [if_neg (hc ▸ hab), ← hgs, hnone]
          rfl

theorem splitFrame_append (h : splitFrame buf = some (f, rest)) (x : Bytes) :
    splitFrame (buf ++ x) = some (f, rest ++ x) := by
  induction buf generalizing f with
  | nil => cases h
  | cons a buf ih =>
    cases buf with
    | nil => cases h
    | cons b tail =>
      unfold splitFrame at h
      have hshape : (a :: b :: tail) ++ x = a :: b :: (tail ++ x) := rfl
      rw [hshape]
      unfold splitFrame
      by_cases hab : a = newline ∧ b = newline
      · rw [if_pos hab] at h ⊢
        cases h
        rfl
      · rw [if_neg hab] at h ⊢
        obtain ⟨⟨g, rest'⟩, hg, heq⟩ := Option.map_eq_some_iff.mp h
        cases heq
        have hsplit := ih hg
        rw [List.cons_append] at hsplit
        rw [hsplit]
        rfl

theorem splitFrame_shorter (h : splitFrame buf = some (f, rest)) : rest.length < buf.length := by
  rw [(splitFrame_some h).1]
  simp only [List.length_append, List.length_cons]
  omega

theorem framesAux_enough (fuel : ℕ) (h : buf.length ≤ fuel) : framesAux fuel buf = frames buf := by
  induction fuel using Nat.strongRecOn generalizing buf with
  | _ fuel ih =>
    unfold frames
    cases fuel with
    | zero =>
      obtain rfl := List.length_eq_zero_iff.mp (Nat.le_zero.mp h)
      rfl
    | succ fuel =>
      cases hlen : buf.length with
      | zero =>
        obtain rfl := List.length_eq_zero_iff.mp hlen
        rfl
      | succ k =>
        unfold framesAux
        cases hsplit : splitFrame buf with
        | none => rfl
        | some parts =>
          obtain ⟨f, rest⟩ := parts
          have hshort := splitFrame_shorter hsplit
          dsimp only
          rw [ih fuel (Nat.lt_succ_self _) (by omega), ih k (by omega) (by omega)]

theorem frames_none (h : splitFrame buf = none) : frames buf = ([], buf) := by
  unfold frames
  cases buf with
  | nil => rfl
  | cons a buf =>
    rw [List.length_cons]
    unfold framesAux
    rw [h]

theorem frames_some (h : splitFrame buf = some (f, rest)) :
    frames buf = (f :: (frames rest).1, (frames rest).2) := by
  have hshort := splitFrame_shorter h
  cases buf with
  | nil => cases h
  | cons a buf =>
    have hle : rest.length ≤ buf.length := by
      rw [List.length_cons] at hshort
      omega
    have hstep : frames (a :: buf) = framesAux (buf.length + 1) (a :: buf) := rfl
    rw [hstep]
    unfold framesAux
    rw [h]
    dsimp only
    rw [framesAux_enough buf.length hle]

theorem frames_spec (buf : Bytes) :
    buf = framed (frames buf).1 ++ (frames buf).2 ∧ splitFrame (frames buf).2 = none ∧
      ∀ f ∈ (frames buf).1, splitFrame (f ++ [newline]) = none := by
  induction hlen : buf.length using Nat.strongRecOn generalizing buf with
  | _ n ih =>
    cases hsplit : splitFrame buf with
    | none =>
      rw [frames_none hsplit]
      exact ⟨rfl, hsplit, nofun⟩
    | some parts =>
      obtain ⟨f, rest⟩ := parts
      obtain ⟨hbuf, hclean⟩ := splitFrame_some hsplit
      obtain ⟨hrest, hnone, hall⟩ := ih rest.length (hlen ▸ splitFrame_shorter hsplit) rest rfl
      rw [frames_some hsplit]
      refine ⟨?_, hnone, List.forall_mem_cons.mpr ⟨hclean, hall⟩⟩
      calc buf = f ++ newline :: newline :: rest := hbuf
        _ = f ++ newline :: newline :: (framed (frames rest).1 ++ (frames rest).2) := by
          rw [← hrest]
        _ = framed (f :: (frames rest).1) ++ (frames rest).2 := by
          simp [framed]

theorem frames_append (buf x : Bytes) :
    frames (buf ++ x) = ((frames buf).1 ++ (frames ((frames buf).2 ++ x)).1,
      (frames ((frames buf).2 ++ x)).2) := by
  induction hlen : buf.length using Nat.strongRecOn generalizing buf with
  | _ n ih =>
    cases hsplit : splitFrame buf with
    | none =>
      rw [frames_none hsplit]
      rfl
    | some parts =>
      obtain ⟨f, rest⟩ := parts
      rw [frames_some hsplit, frames_some (splitFrame_append hsplit x),
        ih rest.length (hlen ▸ splitFrame_shorter hsplit) rest rfl]
      rfl

theorem splitFrame_frame (h : splitFrame (f ++ [newline]) = none) (rest : Bytes) :
    splitFrame (f ++ newline :: newline :: rest) = some (f, rest) := by
  induction f with
  | nil => simp [splitFrame]
  | cons a f ih =>
    cases f with
    | nil =>
      have ha : ¬ (a = newline ∧ newline = newline) := by
        intro hab
        simp [splitFrame, hab.1] at h
      have htail := ih (by simp [splitFrame])
      simp only [List.nil_append] at htail
      have hshape : [a] ++ newline :: newline :: rest = a :: newline :: newline :: rest := rfl
      rw [hshape, splitFrame, if_neg ha, htail]
      rfl
    | cons b f =>
      have hshape : (a :: b :: f) ++ [newline] = a :: b :: (f ++ [newline]) := rfl
      rw [hshape, splitFrame] at h
      by_cases hab : a = newline ∧ b = newline
      · rw [if_pos hab] at h
        cases h
      · rw [if_neg hab, Option.map_eq_none_iff] at h
        have htail := ih h
        have hlong : (a :: b :: f) ++ newline :: newline :: rest =
          a :: b :: (f ++ newline :: newline :: rest) := rfl
        rw [hlong, splitFrame, if_neg hab]
        rw [List.cons_append] at htail
        rw [htail]
        rfl

theorem frames_cons (h : splitFrame (f ++ [newline]) = none) (rest : Bytes) :
    frames (f ++ newline :: newline :: rest) = (f :: (frames rest).1, (frames rest).2) :=
  frames_some (splitFrame_frame h rest)

theorem frames_framed (h : ∀ f ∈ fs, splitFrame (f ++ [newline]) = none) (r : Bytes) :
    frames (framed fs ++ r) = (fs ++ (frames r).1, (frames r).2) := by
  induction fs with
  | nil => rfl
  | cons f fs ih =>
    obtain ⟨hf, hfs⟩ := List.forall_mem_cons.mp h
    have hshape : framed (f :: fs) ++ r = f ++ newline :: newline :: (framed fs ++ r) := by
      simp [framed]
    rw [hshape, frames_cons hf, ih hfs]
    rfl

/-! ## Readers -/

structure Reader (σ τ ε ρ : Type) where
  decode : Bytes → Option τ
  step : σ → τ → List ε × (σ ⊕ ρ)
  finish : σ → Bytes → ρ
  notText : ρ
  tooLong : ρ
  cap : ℕ

namespace Reader

variable {σ τ ε ρ : Type} {R : Reader σ τ ε ρ} {s s' : σ} {t : τ} {ts ts' : List τ} {es : List ε}
  {out : ρ} {reads reads' : List Bytes} {body : Bytes}

/-- The texts of one drain, one after the other. -/
def process (R : Reader σ τ ε ρ) : σ → List τ → List ε × (σ ⊕ ρ)
  | s, [] => ([], .inl s)
  | s, t :: ts =>
    match R.step s t with
    | (es, .inr out) => (es, .inr out)
    | (es, .inl s') => (es ++ (process R s' ts).1, (process R s' ts).2)

/-- The complete frames of the buffer, decoded together, and what is left. -/
def drain (R : Reader σ τ ε ρ) (buf : Bytes) : Except ρ (List τ × Bytes) :=
  match (frames buf).1.mapM R.decode with
  | none => .error R.notText
  | some ts => if (frames buf).2.length > R.cap then .error R.tooLong else .ok (ts, (frames buf).2)

/-- The body read by read. -/
def run (R : Reader σ τ ε ρ) : σ → Bytes → List Bytes → List ε × ρ
  | s, pending, [] => ([], R.finish s pending)
  | s, pending, x :: xs =>
    match R.drain (pending ++ x) with
    | .error out => ([], out)
    | .ok (ts, rest) =>
      match R.process s ts with
      | (es, .inr out) => (es, out)
      | (es, .inl s') => (es ++ (run R s' rest xs).1, (run R s' rest xs).2)

/-- The body frame by frame. -/
def plain (R : Reader σ τ ε ρ) : σ → List Bytes → Bytes → List ε × ρ
  | s, [], r => ([], R.finish s r)
  | s, f :: fs, r =>
    match R.decode f with
    | none => ([], R.notText)
    | some t =>
      match R.step s t with
      | (es, .inr out) => (es, out)
      | (es, .inl s') => (es ++ (plain R s' fs r).1, (plain R s' fs r).2)

theorem process_cons (R : Reader σ τ ε ρ) (s : σ) (t : τ) (ts : List τ) :
    R.process s (t :: ts) =
      match R.step s t with
      | (es, .inr out) => (es, .inr out)
      | (es, .inl s') => (es ++ (R.process s' ts).1, (R.process s' ts).2) := rfl

theorem plain_cons (R : Reader σ τ ε ρ) (s : σ) (f : Bytes) (fs : List Bytes) (r : Bytes) :
    R.plain s (f :: fs) r =
      match R.decode f with
      | none => ([], R.notText)
      | some t =>
        match R.step s t with
        | (es, .inr out) => (es, out)
        | (es, .inl s') => (es ++ (R.plain s' fs r).1, (R.plain s' fs r).2) := rfl

/-- A refusal of a drain is what the frames come to one by one as well: where a frame is not text,
and where one fills the buffer before its second newline is read. -/
structure Steady (R : Reader σ τ ε ρ) (s : σ) (fs : List Bytes) (r : Bytes) : Prop where
  text : (∃ f ∈ fs, R.decode f = none) → R.plain s fs r = ([], R.notText)
  fits : ∀ pre m post, fs = pre ++ m :: post → (∀ f ∈ pre, R.decode f ≠ none) →
    m.length = R.cap → R.plain s fs r = ([], R.tooLong)

theorem mapM_none : fs.mapM R.decode = none ↔ ∃ f ∈ fs, R.decode f = none := by
  induction fs with
  | nil => simp
  | cons f fs ih =>
    rw [List.mapM_cons]
    cases hf : R.decode f with
    | none => simp [hf]
    | some t =>
      cases hfs : fs.mapM R.decode with
      | none =>
        rw [hfs] at ih
        obtain ⟨g, hg, hnone⟩ := ih.mp rfl
        exact ⟨fun _ => ⟨g, List.mem_cons_of_mem _ hg, hnone⟩, fun _ => rfl⟩
      | some ts =>
        rw [hfs] at ih
        constructor
        · nofun
        · rintro ⟨g, hg, hnone⟩
          rcases List.mem_cons.mp hg with rfl | hg
          · rw [hf] at hnone
            cases hnone
          · cases ih.mpr ⟨g, hg, hnone⟩

theorem plain_append (h : pre.mapM R.decode = some ts) : R.plain s (pre ++ post) r =
    match R.process s ts with
    | (es, .inr out) => (es, out)
    | (es, .inl s') => (es ++ (R.plain s' post r).1, (R.plain s' post r).2) := by
  induction pre generalizing s ts with
  | nil =>
    obtain rfl : [] = ts := Option.some.inj h
    rfl
  | cons f pre ih =>
    rw [List.mapM_cons] at h
    obtain ⟨t, ht, h⟩ := Option.bind_eq_some_iff.mp h
    obtain ⟨ts', hts, h⟩ := Option.bind_eq_some_iff.mp h
    obtain rfl : t :: ts' = ts := Option.some.inj h
    rw [List.cons_append, plain_cons, process_cons, ht]
    dsimp only
    generalize R.step s t = next
    obtain ⟨es, s' | out⟩ := next
    · dsimp only
      rw [ih hts]
      generalize R.process s' ts' = next
      obtain ⟨es', s'' | out⟩ := next
      · simp only [List.append_assoc]
      · rfl
    · rfl

theorem steady_tail (h : pre.mapM R.decode = some ts) (hrun : R.process s ts = (es, .inl s'))
    (hsteady : Steady R s (pre ++ post) r) : Steady R s' post r := by
  have hplain : R.plain s (pre ++ post) r = _ := plain_append h
  rw [hrun] at hplain
  have hpre : ∀ f ∈ pre, R.decode f ≠ none := by
    intro f hf hnone
    rw [mapM_none.mpr ⟨f, hf, hnone⟩] at h
    cases h
  have hrest : ∀ out, R.plain s (pre ++ post) r = ([], out) → R.plain s' post r = ([], out) := by
    intro out hout
    rw [hout] at hplain
    obtain ⟨hnil, hres⟩ := Prod.mk.inj hplain
    exact Prod.ext (List.append_eq_nil_iff.mp hnil.symm).2 hres.symm
  refine ⟨?_, ?_⟩
  · rintro ⟨f, hf, hnone⟩
    exact hrest _ (hsteady.text ⟨f, List.mem_append_right _ hf, hnone⟩)
  · rintro left m right rfl hleft hm
    apply hrest
    refine hsteady.fits (pre ++ left) m right (by rw [List.append_assoc]) ?_ hm
    intro f hf
    exact (List.mem_append.mp hf).elim (hpre f) (hleft f)

/-- What an unfinished frame may hold when no frame is longer than the cap: it overflows the buffer
only with all of a frame of that very length and its first newline. -/
theorem overflow_cases (hclean : splitFrame p = none) (hp : R.cap < p.length)
    (hfs : ∀ f ∈ (frames (p ++ x)).1, f.length ≤ R.cap) (hr : (frames (p ++ x)).2.length ≤ R.cap) :
    ∃ m post, (frames (p ++ x)).1 = m :: post ∧ m.length = R.cap := by
  cases hsplit : splitFrame (p ++ x) with
  | none =>
    rw [frames_none hsplit, List.length_append] at hr
    omega
  | some parts =>
    obtain ⟨m, rest⟩ := parts
    rw [frames_some hsplit] at hfs
    obtain ⟨hbuf, -⟩ := splitFrame_some hsplit
    have hm : m.length ≤ R.cap := hfs m List.mem_cons_self
    refine ⟨m, _, by rw [frames_some hsplit], ?_⟩
    by_contra hne
    have hlt : m.length + 2 ≤ p.length := by omega
    -- both newlines of the frame lie in `p`
    have hprefix : m ++ [newline, newline] <+: p := by
      have hwhole : m ++ [newline, newline] <+: p ++ x := by
        rw [hbuf]
        exact ⟨rest, by simp⟩
      apply List.prefix_of_prefix_length_le hwhole (List.prefix_append p x)
      rw [List.length_append]
      exact hlt
    obtain ⟨tail, rfl⟩ := hprefix
    have hm' := (splitFrame_some hsplit).2
    have hfound := splitFrame_frame hm' tail
    rw [List.append_assoc] at hclean
    rw [show m ++ ([newline, newline] ++ tail) = m ++ newline :: newline :: tail from rfl, hfound]
      at hclean
    cases hclean

/-- A steady body comes to the same whatever the reads are. -/
theorem run_steady (hclean : splitFrame p = none)
    (hfs : ∀ f ∈ (frames (p ++ reads.flatten)).1, f.length ≤ R.cap)
    (hr : (frames (p ++ reads.flatten)).2.length ≤ R.cap)
    (h : Steady R s (frames (p ++ reads.flatten)).1 (frames (p ++ reads.flatten)).2) :
    R.run s p reads =
      R.plain s (frames (p ++ reads.flatten)).1 (frames (p ++ reads.flatten)).2 := by
  induction reads generalizing s p with
  | nil =>
    rw [List.flatten_nil, List.append_nil, frames_none hclean]
    rfl
  | cons x reads ih =>
    rw [List.flatten_cons, ← List.append_assoc, frames_append] at hfs hr h ⊢
    have hrest := (frames_spec (p ++ x)).2.1
    unfold run drain
    cases hdecode : (frames (p ++ x)).1.mapM R.decode with
    | none =>
      obtain ⟨f, hf, hnone⟩ := mapM_none.mp hdecode
      exact (h.text ⟨f, List.mem_append_left _ hf, hnone⟩).symm
    | some ts =>
      dsimp only at hfs hr h ⊢
      have hright : ∀ f ∈ (frames ((frames (p ++ x)).2 ++ reads.flatten)).1, f.length ≤ R.cap :=
        fun f hf => hfs f (List.mem_append_right _ hf)
      by_cases hlong : (frames (p ++ x)).2.length > R.cap
      · obtain ⟨m, post, hpost, hm⟩ := overflow_cases hrest hlong hright hr
        rw [if_pos hlong]
        refine (h.fits _ m post (by rw [hpost]) ?_ hm).symm
        intro f hf hnone
        rw [mapM_none.mpr ⟨f, hf, hnone⟩] at hdecode
        cases hdecode
      · rw [if_neg hlong, plain_append hdecode]
        dsimp only
        cases hprocess : R.process s ts with
        | mk es next =>
          cases next with
          | inl s' =>
            dsimp only
            rw [ih hrest hright hr (steady_tail hdecode hprocess h)]
          | inr out => rfl

def frameWise (fs : List Bytes) (r : Bytes) : List Bytes :=
  fs.map (fun f => f ++ [newline, newline]) ++ [r]

theorem frameWise_flatten : (frameWise fs r).flatten = framed fs ++ r := by
  simp [frameWise, framed, List.flatMap]

theorem run_frameWise (hfs : ∀ f ∈ fs, splitFrame (f ++ [newline]) = none)
    (hr : splitFrame r = none) (hshort : r.length ≤ R.cap) :
    R.run s [] (frameWise fs r) = R.plain s fs r := by
  induction fs generalizing s with
  | nil =>
    have hlong : ¬ r.length > R.cap := by omega
    simp [frameWise, run, drain, frames_none hr, hlong, process, plain]
  | cons f fs ih =>
    obtain ⟨hf, hfs⟩ := List.forall_mem_cons.mp hfs
    have hread : frames (f ++ [newline, newline]) = ([f], []) := by
      rw [show f ++ [newline, newline] = f ++ newline :: newline :: [] from rfl, frames_cons hf]
      rfl
    have hshape : frameWise (f :: fs) r = (f ++ [newline, newline]) :: frameWise fs r := rfl
    rw [hshape]
    unfold run drain plain
    rw [List.nil_append, hread, List.mapM_cons, List.mapM_nil]
    cases hdecode : R.decode f with
    | none => rfl
    | some t =>
      simp only [Option.bind_eq_bind, Option.bind_some, Option.pure_def, List.length_nil,
        Nat.not_lt_zero, gt_iff_lt, if_false, process]
      generalize R.step s t = next
      obtain ⟨es, s' | out⟩ := next
      · simp only [List.append_nil, ih hfs]
      · rfl

/-- The cut of the body into reads leaves no trace just where the body is steady. -/
theorem cuts_agree_iff (hfs : ∀ f ∈ (frames body).1, f.length ≤ R.cap)
    (hr : (frames body).2.length ≤ R.cap) :
    (∀ reads reads', reads.flatten = body → reads'.flatten = body →
      R.run s [] reads = R.run s [] reads') ↔ Steady R s (frames body).1 (frames body).2 := by
  obtain ⟨hbody, hrclean, hclean⟩ := frames_spec body
  constructor
  · intro hagree
    have hplain : ∀ reads, reads.flatten = body →
        R.run s [] reads = R.plain s (frames body).1 (frames body).2 := by
      intro reads hreads
      rw [← run_frameWise hclean hrclean hr]
      exact hagree _ _ hreads (frameWise_flatten.trans hbody.symm)
    refine ⟨?_, ?_⟩
    · intro hbad
      rw [← hplain [body] (by simp)]
      unfold run drain
      rw [List.nil_append, mapM_none.mpr hbad]
    · intro pre m post hsplit hpre hm
      -- the first read ends between the two newlines of `m`
      have hpclean : ∀ f ∈ pre, splitFrame (f ++ [newline]) = none := by
        intro f hf
        exact hclean f (by rw [hsplit]; exact List.mem_append_left _ hf)
      have hmclean : splitFrame (m ++ [newline]) = none :=
        hclean m (by rw [hsplit]; simp)
      have hcut : [framed pre ++ (m ++ [newline]),
          newline :: (framed post ++ (frames body).2)].flatten = body := by
        conv_rhs => rw [hbody, hsplit]
        simp [framed]
      rw [← hplain _ hcut]
      unfold run drain
      rw [List.nil_append, frames_framed hpclean, frames_none hmclean, List.append_nil]
      cases hdecode : pre.mapM R.decode with
      | none =>
        obtain ⟨f, hf, hnone⟩ := mapM_none.mp hdecode
        exact absurd hnone (hpre f hf)
      | some ts =>
        have hlong : (m ++ [newline]).length > R.cap := by
          rw [List.length_append, hm]
          exact Nat.lt_succ_self _
        dsimp only
        rw [if_pos hlong]
  · intro hsteady reads reads' hreads hreads'
    have hone : ∀ reads : List Bytes, reads.flatten = body →
        R.run s [] reads = R.plain s (frames body).1 (frames body).2 := by
      rintro reads rfl
      exact run_steady rfl (by simpa using hfs) (by simpa using hr) (by simpa using hsteady)
    rw [hone reads hreads, hone reads' hreads']

end Reader

end FramedReads
