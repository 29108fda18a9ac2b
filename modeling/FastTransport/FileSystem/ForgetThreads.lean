import FastTransport.FileSystem.LookupCounts
import FastTransport.Lib.Lists

/-! The forgets of the kernel: FUSE threads translate the inodes and post the jobs of their calls one after
another, and the main queue executes the jobs in the order in which they were posted. -/

namespace FastTransport.FileSystem

open Lib.Runs Lib.Lists

inductive Leaves.Alive (ls : Leaves) : ℕ → Prop
  | root : Alive ls 1
  | pinned (a : ℕ) : (ls a).selfPin = true → Alive ls a
  | child (p a : ℕ) (name : String) : Alive ls p → (name, a) ∈ (ls p).children → Alive ls a

/-- What a thread does in its call; a `RequestForgetMultiJob` that is made reads one server inode after another. -/
inductive ForgetOp
  | translate (inode nlookup : ℕ)
  | requestForgetMulti
  | releaseLeafRef (inode nlookup : ℕ)
  deriving DecidableEq, Repr

structure ForgetThread where
  multi : Bool
  ops : List ForgetOp
  forgets : List (ℕ × ℕ)
  deriving DecidableEq, Repr

def fuseForget (inode nlookup : ℕ) : List ForgetOp :=
  [.translate inode nlookup, .requestForgetMulti, .releaseLeafRef inode nlookup]

def fuseForgetmulti (forgets : List (ℕ × ℕ)) : List ForgetOp :=
  (forgets.map fun f => .releaseLeafRef f.1 f.2) ++ (forgets.map fun f => .translate f.1 f.2) ++ [.requestForgetMulti]

/-- The thread that posted a `ReleaseLeafRefJob` is told with it; the job itself does not know it. -/
inductive PostedJob
  | requestForgetMulti (forgets : List (ℕ × ℕ))
  | releaseLeafRef (thread inode nlookup : ℕ)
  deriving DecidableEq, Repr

/-- `refs` are the lookups of the kernel. A thread whose call is over has nothing left to do. -/
structure Forgetting where
  client : Leaves
  refs : Multiset ℕ
  threads : List ForgetThread
  jobs : List PostedJob
  requests : List (List (ℕ × ℕ))

namespace Forgetting

def initial (client : Leaves) : Forgetting := ⟨client, 0, [], [], []⟩

inductive Action
  | fuseForget (inode nlookup : ℕ)
  | fuseForgetmulti (forgets : List (ℕ × ℕ))
  | proceed (thread : ℕ)
  | execute
  | responseLookupIn (parent : ℕ) (name : String) (inode address : ℕ) (accepted : Bool)
  | responseReadDirPlusIn (parent : ℕ) (name : String) (inode address : ℕ) (accepted : Bool)
  | notifyCreated (parent : ℕ) (name : String) (inode address : ℕ)
  | notifyDeleted (parent : ℕ) (name : String)
  deriving DecidableEq, Repr

def call (s : Forgetting) (multi : Bool) (forgets : List (ℕ × ℕ)) (ops : List ForgetOp) : Option Forgetting :=
  (Remote.dropRefs s.refs forgets).map fun refs =>
    { s with refs := refs, threads := s.threads ++ [⟨multi, ops, []⟩] }

def proceed (s : Forgetting) (i : ℕ) : Option Forgetting :=
  (s.threads[i]?).bind fun t =>
    match t.ops with
    | [] => none
    | .translate a n :: ops =>
      some { s with threads := s.threads.set i ⟨t.multi, ops, t.forgets ++ [(s.client.toServerInode a, n)]⟩ }
    | .requestForgetMulti :: ops =>
      some { s with
        threads := s.threads.set i ⟨t.multi, ops, t.forgets⟩
        jobs := s.jobs ++ [.requestForgetMulti t.forgets] }
    | .releaseLeafRef a n :: ops =>
      some { s with
        threads := s.threads.set i ⟨t.multi, ops, t.forgets⟩
        jobs := s.jobs ++ [.releaseLeafRef i a n] }

def execute (s : Forgetting) : Option Forgetting :=
  match s.jobs with
  | [] => none
  | .requestForgetMulti forgets :: jobs => some { s with jobs := jobs, requests := s.requests ++ [forgets] }
  | .releaseLeafRef _ a n :: jobs => some { s with jobs := jobs, client := s.client.releaseRef a n }

def handOut (s : Forgetting) (accepted : Bool) (x : Leaves × ℕ) : Forgetting :=
  { s with client := x.1.addRef x.2, refs := if accepted then x.2 ::ₘ s.refs else s.refs }

def step (s : Forgetting) : Action → Option Forgetting
  | .fuseForget a n => s.call false [(a, n)] (FileSystem.fuseForget a n)
  | .fuseForgetmulti forgets => s.call true forgets (FileSystem.fuseForgetmulti forgets)
  | .proceed i => s.proceed i
  | .execute => s.execute
  | .responseLookupIn parent name inode address accepted =>
    (Remote.addServerChild s.client parent name inode address).map (s.handOut accepted)
  | .responseReadDirPlusIn parent name inode address accepted =>
    (Remote.resolveClientInode s.client parent name inode address).map (s.handOut accepted)
  | .notifyCreated parent name inode address =>
    (Remote.addServerChild s.client parent name inode address).map fun x => { s with client := x.1 }
  | .notifyDeleted parent name => some { s with client := s.client.removeChild parent name }

def Translates (s : Forgetting) (a : ℕ) : Prop :=
  ∃ t ∈ s.threads, ∃ n ops, t.ops = .translate a n :: ops

def Waits (s : Forgetting) (action : Action) : Prop :=
  action = .execute → ∀ i a n jobs, s.jobs = .releaseLeafRef i a n :: jobs →
    ∀ t, s.threads[i]? = some t → t.multi = true → ∀ b m, .translate b m ∉ t.ops

end Forgetting

def ForgetOp.owes (a : ℕ) : ForgetOp → ℕ
  | .releaseLeafRef b n => if b = a then n else 0
  | _ => 0

def ForgetThread.owes (t : ForgetThread) (a : ℕ) : ℕ := (t.ops.map (ForgetOp.owes a)).sum

def PostedJob.owes (a : ℕ) : PostedJob → ℕ
  | .releaseLeafRef _ b n => if b = a then n else 0
  | _ => 0

def PostedJob.owesBy (i a : ℕ) : PostedJob → ℕ
  | .releaseLeafRef j b n => if j = i ∧ b = a then n else 0
  | _ => 0

namespace Forgetting

def owed (s : Forgetting) (a : ℕ) : ℕ :=
  (s.threads.map fun t => t.owes a).sum + (s.jobs.map (PostedJob.owes a)).sum

def owedBy (s : Forgetting) (i : ℕ) (t : ForgetThread) (a : ℕ) : ℕ :=
  t.owes a + (s.jobs.map (PostedJob.owesBy i a)).sum

structure ThreadInv (s : Forgetting) (i : ℕ) (t : ForgetThread) : Prop where
  waiting : ∀ a n, .translate a n ∈ t.ops → 0 < n ∧ n ≤ s.owedBy i t a
  single : t.multi = false → (∃ a n, t.ops <:+ FileSystem.fuseForget a n) ∧
    ∀ a n, .releaseLeafRef i a n ∈ s.jobs → t.ops = []

structure Inv (s : Forgetting) : Prop where
  rooted : s.client.Rooted
  pinned : s.client.Pinned
  counted : ∀ a, (s.refs.count a + s.owed a : ℤ) ≤ (s.client a).nlookup
  threads : ∀ i t, s.threads[i]? = some t → s.ThreadInv i t
  jobs : ∀ i a n, .releaseLeafRef i a n ∈ s.jobs → i < s.threads.length

lemma owedBy_le_owed {s : Forgetting} {i : ℕ} {t : ForgetThread} (ht : s.threads[i]? = some t) (a : ℕ) :
    s.owedBy i t a ≤ s.owed a := by
  have hjobs : (s.jobs.map (PostedJob.owesBy i a)).sum ≤ (s.jobs.map (PostedJob.owes a)).sum := by
    apply List.sum_le_sum
    intro job _
    cases job with
    | requestForgetMulti forgets => exact le_rfl
    | releaseLeafRef j b n =>
      rw [PostedJob.owesBy, PostedJob.owes]
      split_ifs with h h' <;> omega
  have hthread : t.owes a ≤ (s.threads.map fun t => t.owes a).sum :=
    List.le_sum_of_mem (List.mem_map_of_mem (List.mem_of_getElem? ht))
  rw [owedBy, owed]
  omega

lemma Inv.alive {s : Forgetting} (h : s.Inv) {a : ℕ} (ha : s.Translates a) : s.client.Alive a := by
  obtain ⟨t, hmem, n, ops, hops⟩ := ha
  obtain ⟨i, hi⟩ := List.mem_iff_getElem?.mp hmem
  obtain ⟨hpos, hle⟩ := (h.threads i t hi).waiting a n (by rw [hops]; exact List.mem_cons_self)
  have howed := owedBy_le_owed hi a
  have hcount := h.counted a
  exact .pinned a ((h.pinned a).mpr (by omega))

lemma ThreadInv.pop {s : Forgetting} {i : ℕ} {t : ForgetThread} (h : s.ThreadInv i t) {job : PostedJob}
    {jobs : List PostedJob} (hjobs : s.jobs = job :: jobs)
    (hfree : (∀ a n, .translate a n ∉ t.ops) ∨ ∀ a, job.owesBy i a = 0) (client : Leaves)
    (requests : List (List (ℕ × ℕ))) :
    ThreadInv { s with client := client, jobs := jobs, requests := requests } i t := by
  refine ⟨fun a n hmem => ?_, fun hm => ⟨(h.single hm).1, fun a n hjob => ?_⟩⟩
  · rcases hfree with hnone | hzero
    · exact absurd hmem (hnone a n)
    · have hwaiting := h.waiting a n hmem
      rwa [owedBy, hjobs, List.map_cons, List.sum_cons, hzero, Nat.zero_add] at hwaiting
  · exact (h.single hm).2 a n (by rw [hjobs]; exact List.mem_cons_of_mem _ hjob)

namespace Inv

variable {s t : Forgetting}

lemma count_nonneg (h : s.Inv) (a : ℕ) : 0 ≤ (s.client a).nlookup := by
  have hcount := h.counted a
  omega

lemma keeps (h : s.Inv) {client : Leaves} (hk : s.client.Keeps client) (hr : client.Rooted) :
    Inv { s with client := client } := by
  refine ⟨hr, h.pinned.of_keeps hk, fun a => ?_, fun i t ht => ?_, h.jobs⟩
  · dsimp only
    rw [hk.nlookup]
    exact h.counted a
  · exact ⟨(h.threads i t ht).waiting, (h.threads i t ht).single⟩

lemma handOut (h : s.Inv) {x : Leaves × ℕ} (hk : s.client.Keeps x.1) (hr : x.1.Rooted) (accepted : Bool) :
    (s.handOut accepted x).Inv := by
  have hpin := h.pinned.of_keeps hk
  have hzero : 0 ≤ (x.1 x.2).nlookup := by
    rw [hk.nlookup]
    exact h.count_nonneg x.2
  refine ⟨hr.addRef x.2, hpin.addRef hzero, fun a => ?_, fun i t ht => ?_, h.jobs⟩
  · have hcount := h.counted a
    change (((if accepted then x.2 ::ₘ s.refs else s.refs).count a : ℕ) + s.owed a : ℤ) ≤ (x.1.addRef x.2 a).nlookup
    rw [Leaves.addRef_nlookup, hk.nlookup]
    have hrefs : (if accepted then x.2 ::ₘ s.refs else s.refs).count a ≤ s.refs.count a + if x.2 = a then 1 else 0 := by
      cases accepted with
      | false => exact Nat.le_add_right _ _
      | true =>
        rw [if_pos rfl, Multiset.count_cons]
        simp only [eq_comm, le_refl]
    split_ifs at hrefs ⊢ <;> omega
  · exact ⟨(h.threads i t ht).waiting, (h.threads i t ht).single⟩

lemma call (h : s.Inv) {multi : Bool} {forgets : List (ℕ × ℕ)} {ops : List ForgetOp}
    (hc : s.call multi forgets ops = some t) (howes : ∀ a, (ops.map (ForgetOp.owes a)).sum = forgotten a forgets)
    (htranslate : ∀ a n, .translate a n ∈ ops → (a, n) ∈ forgets)
    (hsingle : multi = false → ∃ a n, ops <:+ FileSystem.fuseForget a n) : t.Inv := by
  obtain ⟨refs, hrefs, rfl⟩ := Option.map_eq_some_iff.mp hc
  obtain ⟨hcount, hpos⟩ := Remote.dropRefs_spec hrefs
  refine ⟨h.rooted, h.pinned, fun a => ?_, fun i u hu => ?_, fun i a n hjob => ?_⟩
  · have hbefore := h.counted a
    have hdrop := hcount a
    have howed : owed { s with refs := refs, threads := s.threads ++ [⟨multi, ops, []⟩] } a =
        s.owed a + forgotten a forgets := by
      rw [owed, owed, List.map_append, List.sum_append, List.map_singleton, List.sum_singleton, ForgetThread.owes, howes]
      dsimp only
      omega
    rw [howed]
    dsimp only
    omega
  · rw [List.getElem?_append] at hu
    split_ifs at hu with hi
    · exact ⟨(h.threads i u hu).waiting, (h.threads i u hu).single⟩
    · obtain rfl := List.mem_singleton.mp (List.mem_of_getElem? hu)
      refine ⟨fun a n hmem => ?_, fun hm => ⟨hsingle hm, fun a n hjob => absurd (h.jobs i a n hjob) hi⟩⟩
      have hforget := htranslate a n hmem
      refine ⟨hpos _ hforget, ?_⟩
      rw [owedBy, ForgetThread.owes, howes]
      exact (le_forgotten hforget).trans (Nat.le_add_right _ _)
  · have hlt := h.jobs i a n hjob
    rw [List.length_append]
    omega

lemma owed_proceed {i : ℕ} {u v : ForgetThread} (hu : s.threads[i]? = some u) {job : List PostedJob}
    {a : ℕ} (ho : v.owes a + (job.map (PostedJob.owes a)).sum = u.owes a) :
    owed { s with threads := s.threads.set i v, jobs := s.jobs ++ job } a = s.owed a := by
  obtain ⟨xs, ys, hthreads, hset⟩ := getElem?_set hu
  rw [owed, owed, hset, hthreads]
  simp only [List.map_append, List.map_cons, List.sum_append, List.sum_cons]
  omega

lemma advance (h : s.Inv) {i : ℕ} {u : ForgetThread} (hu : s.threads[i]? = some u) {op : ForgetOp}
    {ops : List ForgetOp} (hops : u.ops = op :: ops) (forgets : List (ℕ × ℕ)) (job : List PostedJob)
    (howes : ∀ a, (job.map (PostedJob.owes a)).sum = op.owes a)
    (howesBy : ∀ j a, (job.map (PostedJob.owesBy j a)).sum = if i = j then op.owes a else 0)
    (hown : ∀ j a n, .releaseLeafRef j a n ∈ job → j = i ∧ (u.multi = false → ops = [])) :
    Inv { s with threads := s.threads.set i ⟨u.multi, ops, forgets⟩, jobs := s.jobs ++ job } := by
  have hthread (a : ℕ) : u.owes a = op.owes a + (ops.map (ForgetOp.owes a)).sum := by
    rw [ForgetThread.owes, hops, List.map_cons, List.sum_cons]
  refine ⟨h.rooted, h.pinned, fun a => ?_, fun j w hw => ?_, fun j a n hjob => ?_⟩
  · rw [owed_proceed hu]
    · exact h.counted a
    · rw [ForgetThread.owes, howes, hthread, Nat.add_comm]
  · rw [List.getElem?_set] at hw
    have hposted (a : ℕ) (v : ForgetThread) :
        owedBy { s with threads := s.threads.set i ⟨u.multi, ops, forgets⟩, jobs := s.jobs ++ job } j v a =
          v.owes a + ((s.jobs.map (PostedJob.owesBy j a)).sum + if i = j then op.owes a else 0) := by
      rw [owedBy, List.map_append, List.sum_append, howesBy]
    by_cases hij : i = j
    · subst hij
      obtain ⟨hwaiting, hsingle⟩ := h.threads i u hu
      rw [if_pos rfl] at hw
      obtain ⟨-, rfl⟩ := Option.ite_none_right_eq_some.mp hw |>.imp_right fun hw => (Option.some.inj hw).symm
      refine ⟨fun a n hmem => ?_, fun hm => ?_⟩
      · obtain ⟨hpos, hle⟩ := hwaiting a n (by rw [hops]; exact List.mem_cons_of_mem _ hmem)
        refine ⟨hpos, hle.trans ?_⟩
        rw [hposted, owedBy, hthread, if_pos rfl, ForgetThread.owes]
        dsimp only
        omega
      · obtain ⟨⟨a, n, hsuffix⟩, hnone⟩ := hsingle hm
        rw [hops] at hsuffix hnone
        refine ⟨⟨a, n, (List.suffix_cons op ops).trans hsuffix⟩, fun b m hjob => ?_⟩
        rcases List.mem_append.mp hjob with hjob | hjob
        · exact absurd (hnone b m hjob) (List.cons_ne_nil op ops)
        · exact (hown i b m hjob).2 hm
    · rw [if_neg hij] at hw
      obtain ⟨hwaiting, hsingle⟩ := h.threads j w hw
      refine ⟨fun a n hmem => ?_, fun hm => ⟨(hsingle hm).1, fun b m hjob => ?_⟩⟩
      · rw [hposted, if_neg hij]
        exact hwaiting a n hmem
      · rcases List.mem_append.mp hjob with hjob | hjob
        · exact (hsingle hm).2 b m hjob
        · exact absurd (hown j b m hjob).1.symm hij
  · rw [List.length_set]
    rcases List.mem_append.mp hjob with hjob | hjob
    · exact h.jobs j a n hjob
    · rw [(hown j a n hjob).1]
      exact (List.getElem?_eq_some_iff.mp hu).1

lemma release_last {a n b m : ℕ} {ops : List ForgetOp}
    (h : .releaseLeafRef a n :: ops <:+ FileSystem.fuseForget b m) : ops = [] := by
  obtain ⟨pre, hpre⟩ := h
  rcases pre with _ | ⟨op₁, _ | ⟨op₂, _ | ⟨op₃, pre⟩⟩⟩ <;> simp_all [FileSystem.fuseForget]

lemma proceed (h : s.Inv) {i : ℕ} (ht : s.proceed i = some t) : t.Inv := by
  obtain ⟨u, hu, ht⟩ := Option.bind_eq_some_iff.mp ht
  split at ht
  · cases ht
  · next a n ops hops =>
    cases ht
    have hadv := h.advance hu hops (u.forgets ++ [(s.client.toServerInode a, n)]) [] (fun _ => rfl)
      (fun j _ => (ite_self 0).symm) nofun
    rwa [List.append_nil] at hadv
  · next ops hops =>
    cases ht
    refine h.advance hu hops u.forgets _ (fun _ => rfl) (fun j _ => (ite_self 0).symm) fun j b m hjob => ?_
    cases List.mem_singleton.mp hjob
  · next a n ops hops =>
    cases ht
    refine h.advance hu hops u.forgets _ (fun b => ?_) (fun j b => ?_) fun j b m hjob => ?_
    · exact List.sum_singleton
    · rw [List.map_singleton, List.sum_singleton, PostedJob.owesBy, ForgetOp.owes, ite_and]
    · cases List.mem_singleton.mp hjob
      refine ⟨rfl, fun hm => ?_⟩
      obtain ⟨⟨b, m, hsuffix⟩, -⟩ := (h.threads i u hu).single hm
      rw [hops] at hsuffix
      exact release_last hsuffix

lemma execute (h : s.Inv) (hwait : s.Waits .execute) (ht : s.execute = some t) : t.Inv := by
  rw [Forgetting.execute] at ht
  split at ht
  · cases ht
  · next forgets jobs hjobs =>
    cases ht
    refine ⟨h.rooted, h.pinned, fun a => ?_, fun i u hu => ?_, fun i a n hjob => ?_⟩
    · have hcount := h.counted a
      have hzero : (PostedJob.requestForgetMulti forgets).owes a = 0 := rfl
      rwa [owed, hjobs, List.map_cons, List.sum_cons, hzero, Nat.zero_add] at hcount
    · exact (h.threads i u hu).pop hjobs (Or.inr fun _ => rfl) s.client _
    · exact h.jobs i a n (by rw [hjobs]; exact List.mem_cons_of_mem _ hjob)
  · next j a n jobs hjobs =>
    cases ht
    have hcount (b : ℕ) : (s.refs.count b + ((s.threads.map fun t => t.owes b).sum +
        ((if a = b then n else 0) + (jobs.map (PostedJob.owes b)).sum) : ℕ) : ℤ) ≤ (s.client b).nlookup := by
      have hcount := h.counted b
      rwa [owed, hjobs, List.map_cons, List.sum_cons, PostedJob.owes] at hcount
    have hle := hcount a
    rw [if_pos rfl] at hle
    refine ⟨h.rooted.releaseRef a n, h.pinned.releaseRef (by omega), fun b => ?_, fun i u hu => ?_, fun i b m hjob => ?_⟩
    · have hb := hcount b
      rw [owed]
      dsimp only
      rw [Leaves.releaseRef_nlookup]
      split_ifs at hb ⊢ <;> omega
    · refine (h.threads i u hu).pop hjobs ?_ (s.client.releaseRef a n) s.requests
      by_cases hij : j = i
      · subst hij
        refine Or.inl fun b m hmem => ?_
        cases hm : u.multi with
        | true => exact hwait rfl j a n jobs hjobs u hu hm b m hmem
        | false =>
          have hnil := ((h.threads j u hu).single hm).2 a n (by rw [hjobs]; exact List.mem_cons_self)
          rw [hnil] at hmem
          cases hmem
      · exact Or.inr fun b => if_neg fun hand => hij hand.1
    · exact h.jobs i b m (by rw [hjobs]; exact List.mem_cons_of_mem _ hjob)

lemma owes_fuseForgetmulti (forgets : List (ℕ × ℕ)) (a : ℕ) :
    ((FileSystem.fuseForgetmulti forgets).map (ForgetOp.owes a)).sum = forgotten a forgets := by
  have hrelease : (forgets.map fun f => ForgetOp.releaseLeafRef f.1 f.2).map (ForgetOp.owes a) =
      forgets.map fun f => if f.1 = a then f.2 else 0 := List.map_map
  have htranslate : ((forgets.map fun f => ForgetOp.translate f.1 f.2).map (ForgetOp.owes a)).sum = 0 := by
    rw [List.map_map]
    apply List.sum_eq_zero
    intro n hn
    obtain ⟨f, -, rfl⟩ := List.mem_map.mp hn
    rfl
  rw [FileSystem.fuseForgetmulti, List.map_append, List.map_append, List.sum_append, List.sum_append, hrelease,
    htranslate]
  rfl

lemma step (h : s.Inv) {action : Action} (hwait : s.Waits action) (ht : s.step action = some t) : t.Inv := by
  cases action with
  | fuseForget a n =>
    refine h.call ht (fun b => ?_) (fun b m hmem => ?_) fun _ => ⟨a, n, List.suffix_rfl⟩
    · simp [FileSystem.fuseForget, ForgetOp.owes]
    · simpa [FileSystem.fuseForget] using hmem
  | fuseForgetmulti forgets =>
    refine h.call ht (owes_fuseForgetmulti forgets) (fun b m hmem => ?_) nofun
    simpa [FileSystem.fuseForgetmulti] using hmem
  | proceed i => exact h.proceed ht
  | execute => exact h.execute hwait ht
  | responseLookupIn parent name inode address accepted =>
    obtain ⟨x, hx, rfl⟩ := Option.map_eq_some_iff.mp ht
    obtain ⟨hk, hr⟩ := Remote.addServerChild_keeps h.rooted hx
    exact h.handOut hk hr accepted
  | responseReadDirPlusIn parent name inode address accepted =>
    obtain ⟨x, hx, rfl⟩ := Option.map_eq_some_iff.mp ht
    obtain ⟨hk, hr⟩ := Remote.resolveClientInode_keeps h.rooted hx
    exact h.handOut hk hr accepted
  | notifyCreated parent name inode address =>
    obtain ⟨x, hx, rfl⟩ := Option.map_eq_some_iff.mp ht
    obtain ⟨hk, hr⟩ := Remote.addServerChild_keeps h.rooted hx
    exact h.keeps hk hr
  | notifyDeleted parent name =>
    cases ht
    exact h.keeps (Leaves.keeps_update rfl rfl) (h.rooted.removeChild parent name)

end Inv

theorem forget_translates_live_leaves {client : Leaves} (hr : client.Rooted)
    (hn : ∀ a, (client a).nlookup = 0 ∧ (client a).selfPin = false) {actions : List Action} {s : Forgetting}
    (h : Path step Waits (initial client) actions s) {a : ℕ} (ha : s.Translates a) : s.client.Alive a := by
  have hstart : (initial client).Inv := by
    refine ⟨hr, fun b => ?_, fun b => ?_, nofun, nofun⟩
    · change (client b).selfPin = true ↔ (client b).nlookup ≠ 0
      rw [(hn b).1, (hn b).2]
      simp
    · exact (hn b).1.ge
  exact (h.invariant (fun _ _ _ hs hwait ht => hs.step hwait ht) hstart).alive ha

def emptyClient (_ : ℕ) : CountedLeaf := .create false

def forgetDeleted (multi : Bool) : List Action :=
  [.responseLookupIn 1 "a.txt" 7 2 true, .notifyDeleted 1 "a.txt",
    if multi then .fuseForgetmulti [(2, 1)] else .fuseForget 2 1]

lemma unreferenced_emptyClient (a : ℕ) : (emptyClient a).nlookup = 0 ∧ (emptyClient a).selfPin = false := ⟨rfl, rfl⟩

def forgetTwice : List Action :=
  .responseLookupIn 1 "a.txt" 7 2 true :: forgetDeleted false ++
    [.proceed 0, .proceed 0, .proceed 0, .execute, .execute, .fuseForgetmulti [(2, 1)], .proceed 1]

lemma path_forgetTwice : ∃ s, Path step Waits (initial emptyClient) forgetTwice s ∧ s.Translates 2 := by
  refine ⟨_, .cons nofun rfl (.cons nofun rfl (.cons nofun rfl (.cons nofun rfl (.cons nofun rfl
    (.cons nofun rfl (.cons nofun rfl (.cons ?_ rfl (.cons ?_ rfl (.cons nofun rfl (.cons nofun rfl (.nil _))))))))))), ?_⟩
  · rintro - i a n jobs hjobs
    cases hjobs
  · rintro - i a n jobs hjobs t ht hm
    cases hjobs
    cases ht
    cases hm
  · exact ⟨_, List.mem_cons_of_mem _ List.mem_cons_self, 1, _, rfl⟩

theorem forget_translates_live_leaves_twice : ∃ s, Path step Waits (initial emptyClient) forgetTwice s ∧
    s.Translates 2 ∧ s.client.Alive 2 := by
  obtain ⟨s, hs, ha⟩ := path_forgetTwice
  exact ⟨s, hs, ha, forget_translates_live_leaves (fun _ _ he => absurd he List.not_mem_nil)
    unreferenced_emptyClient hs ha⟩

def dropped : Leaves :=
  ((((Leaves.insertChild (Function.update emptyClient 2 (.create false)) 1 "a.txt" 2).setServerInode 2 7).addRef
    2).removeChild 1 "a.txt").releaseRef 2 1

lemma dropped_spec (a : ℕ) : (dropped a).selfPin = false ∧ (dropped a).children = [] := by
  by_cases h₂ : a = 2
  · subst h₂
    exact ⟨rfl, rfl⟩
  by_cases h₁ : a = 1
  · subst h₁
    exact ⟨rfl, rfl⟩
  have hsame : dropped a = emptyClient a := by
    rw [dropped, Leaves.releaseRef, Function.update_of_ne h₂, Leaves.removeChild, Function.update_of_ne h₁,
      Leaves.addRef, Function.update_of_ne h₂, Leaves.setServerInode, Function.update_of_ne h₂, Leaves.insertChild,
      Function.update_of_ne h₁, Function.update_of_ne h₂]
  rw [hsame]
  exact ⟨rfl, rfl⟩

theorem forgetmulti_translates_dead_leaf : ¬ ∀ (actions : List Action) (s : Forgetting) (a : ℕ),
    run step (initial emptyClient) actions = some s → s.Translates a → s.client.Alive a := by
  intro h
  have halive := h (forgetDeleted true ++ [.proceed 0, .execute]) _ 2 rfl ⟨_, List.mem_cons_self, 1, _, rfl⟩
  have hroot {ls : Leaves} (hp : ∀ a, (ls a).selfPin = false) (hc : ∀ a, (ls a).children = []) {a : ℕ}
      (ha : ls.Alive a) : a = 1 := by
    induction ha with
    | root => rfl
    | pinned a hpin => cases (hp a).symm.trans hpin
    | child p a name _ hmem _ =>
      rw [hc p] at hmem
      cases hmem
  exact absurd (hroot (fun a => (dropped_spec a).1) (fun a => (dropped_spec a).2) halive) (by decide)

end Forgetting

end FastTransport.FileSystem
