import FastTransport.FileSystem.LookupCounts
import FastTransport.Lib.Lists

/-! Runs of the remote file system: the steps that keep the lookup counts of the server balanced. -/

namespace FastTransport.FileSystem

open Lib.Runs Lib.Lists

namespace Remote

/-- A leaf that is in use keeps its server inode, and a new one is not where a forget still looks for an old one. -/
def KeepsInode (s : Remote) (parent : ℕ) (name : String) (inode address : ℕ) : Prop :=
  (∀ a, s.client.find parent name = some a → s.Tracked a → s.client.toServerInode a = inode) ∧
    (s.client.find parent name = none → address ∉ s.untranslated.map Prod.fst)

def AllMatch (parent : ℕ) : Remote → List ((String × ℕ) × ℕ) → Prop
  | _, [] => True
  | s, e :: entries =>
    (∀ a, s.client.find parent e.1.1 = some a → s.client.toServerInode a = e.1.2) ∧
      (s.client.find parent e.1.1 = none → e.2 ∉ s.untranslated.map Prod.fst) ∧
      ∀ t, patchEntry parent true s e = some t → AllMatch parent t entries

def AnswerSettles (s : Remote) (reply : Reply) : FuseResponse → Prop
  | .lookup _ parentId name (some inode) => reply.accepted = true ∧
      ∃ parent, (if parentId = 1 then some 1 else reply.parent) = some parent ∧
        s.KeepsInode parent name inode (reply.addresses.headD 0)
  | .openFile _ _ true => reply.accepted = true
  | .readDirPlus parent entries => reply.accepted = true ∧ AllMatch parent s (entries.zip reply.addresses)
  | .notifyInvalEntry true _ name inode => ∀ parent, reply.parent = some parent →
      s.KeepsInode parent name inode (reply.addresses.headD 0)
  | _ => True

/-- No directory fails to open after its reference is taken, and every reply settles what it is about. -/
def Settles (s : Remote) : Action → Prop
  | .serve found => ∀ request a requests, s.requests = .openFile true request a :: requests → found.opened = true
  | .answer reply => ∀ response responses, s.responses = response :: responses →
      AnswerSettles { s with responses := responses } reply response
  | _ => True

lemma mem_outstanding {s : Remote} {a : ℕ} : a ∈ s.outstanding ↔ (∃ job ∈ s.jobs, job.request = some a) ∨
    (∃ r ∈ s.requests, r.request = some a) ∨ ∃ r ∈ s.responses, r.request = some a := by
  simp only [outstanding, List.mem_append, List.mem_filterMap, or_assoc]

structure Served (f : ℕ → ℕ) (ls : Leaves) (r : FuseRequest) (x : Leaves × FuseResponse) : Prop where
  nlookup : ∀ i, (x.1 i).nlookup + dropsOfRequest i r = (ls i).nlookup + gainsOfResponse f i x.2
  pinned : x.1.Pinned
  rooted : x.1.Rooted
  request : x.2.request = r.request
  given : Given x.2

section Served

variable {f : ℕ → ℕ} {ls : Leaves} {found : Found}

lemma responseLookupJob_served {request parent : ℕ} {name : String} {x : Leaves × FuseResponse} (hp : ls.Pinned)
    (hr : ls.Rooted) (hn : ∀ i, 0 ≤ (ls i).nlookup) (h : responseLookupJob ls request parent name found = some x) :
    Served f ls (.lookup request parent name) x := by
  rw [responseLookupJob] at h
  split at h
  · cases h
    exact ⟨fun _ => rfl, hp, hr, rfl, trivial⟩
  · obtain ⟨y, hy, rfl⟩ := Option.map_eq_some_iff.mp h
    have hadd := Leaves.addChild_spec hr hy
    have hkept := hp.of_keeps hadd.keeps
    split_ifs
    · exact ⟨fun i => by rw [hadd.keeps.nlookup i]; rfl, hkept, hadd.rooted, rfl, trivial⟩
    · have hpos : 0 ≤ (y.1 y.2).nlookup := (hn y.2).trans_eq (hadd.keeps.nlookup y.2).symm
      refine ⟨fun i => ?_, hkept.addRef hpos, hadd.rooted.addRef y.2, rfl, hadd.one_lt⟩
      rw [Leaves.addRef_nlookup, hadd.keeps.nlookup i]
      simp [dropsOfRequest, gainsOfResponse]

lemma responseOpenJob_served {request inode : ℕ} (hp : ls.Pinned) (hr : ls.Rooted) (hn : ∀ i, 0 ≤ (ls i).nlookup)
    (hf : inode = f request) :
    Served f ls (.openFile false request inode) (responseOpenJob ls request inode found) := by
  rw [responseOpenJob]
  cases found.opened with
  | false => exact ⟨fun _ => rfl, hp, hr, rfl, trivial⟩
  | true =>
    refine ⟨fun i => ?_, hp.addRef (hn inode), hr.addRef inode, rfl, trivial⟩
    rw [if_pos rfl, Leaves.addRef_nlookup, hf]
    simp [dropsOfRequest, gainsOfResponse]

lemma responseOpenDirJob_served {request inode : ℕ} (hp : ls.Pinned) (hr : ls.Rooted)
    (hn : ∀ i, 0 ≤ (ls i).nlookup) (hf : inode = f request) (hopened : found.opened = true) :
    Served f ls (.openFile true request inode) (responseOpenDirJob ls request inode found) := by
  refine ⟨fun i => ?_, hp.addRef (hn inode), hr.addRef inode, rfl, trivial⟩
  rw [responseOpenDirJob, Leaves.addRef_nlookup, hopened, hf]
  simp [dropsOfRequest, gainsOfResponse]

lemma responseReleaseJob_served {dir : Bool} {request inode : ℕ} (hp : ls.Pinned) (hr : ls.Rooted)
    (hle : 1 ≤ (ls inode).nlookup) :
    Served f ls (.release dir request inode) (responseReleaseJob ls dir request inode) := by
  refine ⟨fun i => ?_, hp.releaseRef (by exact_mod_cast hle), hr.releaseRef inode 1, rfl, trivial⟩
  rw [responseReleaseJob, Leaves.releaseRef_nlookup]
  simp [dropsOfRequest, gainsOfResponse]

lemma entriesBelow_subset (entrySize : String → ℕ) (size : ℕ) (entries : List (String × ℕ)) (writed : ℕ) :
    entriesBelow ls entrySize size writed entries ⊆ entries := by
  induction entries generalizing writed with
  | nil => exact List.Subset.refl _
  | cons e entries ih =>
    rw [entriesBelow]
    split_ifs
    · exact List.subset_cons_of_subset e (ih writed)
    · exact List.cons_subset_cons e (ih _)
    · exact List.nil_subset _

lemma responseReadDirPlusJob_served {entrySize : String → ℕ} {request inode size offset : ℕ}
    {x : Leaves × FuseResponse} (hp : ls.Pinned) (hr : ls.Rooted) (hn : ∀ i, 0 ≤ (ls i).nlookup)
    (h : responseReadDirPlusJob ls entrySize request inode size offset found = some x) :
    Served f ls (.readDirPlus request inode size offset) x := by
  obtain ⟨ls', hscan, rfl⟩ := Option.map_eq_some_iff.mp h
  obtain ⟨hkeeps, hr'⟩ := Leaves.rescan_spec hr hscan
  dsimp only
  generalize (if offset < 1 then entrySize "." else 0) + (if offset < 2 then entrySize ".." else 0) = writed
  have hsubset := @entriesBelow_subset ls' entrySize size ((ls' inode).children.drop (offset - 2)) writed
  generalize entriesBelow ls' entrySize size writed ((ls' inode).children.drop (offset - 2)) = entries at hsubset ⊢
  obtain ⟨hcount, hp', hr''⟩ := @foldl_addRef (entries.map Prod.snd) ls' (hp.of_keeps hkeeps) hr' fun i =>
    (hn i).trans_eq (hkeeps.nlookup i).symm
  refine ⟨fun i => ?_, hp', hr'', rfl, fun e he => ?_⟩
  · dsimp only
    rw [hcount i, hkeeps.nlookup i]
    simp [dropsOfRequest, gainsOfResponse]
  · exact hr' inode e (List.mem_of_mem_drop (hsubset he))

lemma responseForgetMultiJob_served {forgets : List (ℕ × ℕ)} (hp : ls.Pinned) (hr : ls.Rooted)
    (hle : ∀ i, (forgotten i forgets : ℤ) ≤ (ls i).nlookup) :
    Served f ls (.forgetMulti forgets) (responseForgetMultiJob ls forgets) := by
  obtain ⟨hcount, hp', hr'⟩ := foldl_releaseRef hp hr hle
  refine ⟨fun i => ?_, hp', hr', rfl, trivial⟩
  rw [responseForgetMultiJob, hcount i]
  simp [dropsOfRequest, gainsOfResponse]

end Served

namespace Inv

variable {s t : Remote} {g : ℕ → ℕ}

lemma congr_client (h : s.Inv g) {client : Leaves} (hk : s.client.Keeps client) (hr : client.Rooted)
    (hf : ∀ a, s.Tracked a → client.toServerInode a = s.client.toServerInode a) :
    Inv { s with client := client } g := by
  refine ⟨fun t => ?_, fun a => ?_, h.pinned, h.serverRooted, hr, h.known, fun r hmem => ?_, h.given⟩
  · rw [h.balanced t, ← held_congr hf, ← inFlight_congr hf]
    rfl
  · exact (hk.nlookup a).trans (h.client a)
  · have haddressed := h.addressed r hmem
    cases r with
    | openFile dir request inode =>
      have ha : request ∈ s.requests.filterMap FuseRequest.request := List.mem_filterMap.mpr ⟨_, hmem, rfl⟩
      exact haddressed.trans (hf request (by simp [Tracked, outstanding, ha])).symm
    | _ => trivial

lemma not_tracked (h : s.Inv g) {a : ℕ} (ha : s.client.Free a) (hforget : a ∉ s.untranslated.map Prod.fst) :
    ¬ s.Tracked a := by
  obtain ⟨hlt, hzero, -⟩ := ha
  have hcount := h.client a
  rw [hzero] at hcount
  have hrefs : a ∉ s.refs := by
    rw [← Multiset.count_eq_zero]
    have hle : s.refs.count a ≤ s.clientOwed a := (Nat.le_add_right _ _).trans (Nat.le_add_right _ _)
    omega
  have hknows : ¬ s.Knows a := fun hknows => hknows.elim (fun h1 => by omega) hrefs
  rintro (hmem | hmem | hmem | hmem)
  · exact hrefs hmem
  · exact hknows (h.known a (Or.inl hmem))
  · exact hforget hmem
  · exact hknows (h.known a (Or.inr hmem))

lemma addRef_toServerInode (ls : Leaves) (a : ℕ) : (ls.addRef a).toServerInode = ls.toServerInode := by
  funext b
  rw [Leaves.toServerInode, Leaves.toServerInode, Leaves.addRef_serverInode]

lemma count_cons_map (f : ℕ → ℕ) (a t : ℕ) (refs : Multiset ℕ) :
    ((a ::ₘ refs).map f).count t = (refs.map f).count t + if f a = t then 1 else 0 := by
  rw [Multiset.map_cons, Multiset.count_cons]
  simp only [eq_comm]

lemma handOut (h : s.Inv g) {a : ℕ} {g' : ℕ → ℕ}
    (hg : ∀ t, g t = g' t + if s.client.toServerInode a = t then 1 else 0) :
    (s.handOut true (s.client, a)).Inv g' := by
  have hnlookup := Leaves.addRef_nlookup s.client a
  have hf := addRef_toServerInode s.client a
  have hrefs (f : ℕ → ℕ) (t : ℕ) := count_cons_map f a t s.refs
  refine ⟨fun t => ?_, fun b => ?_, h.pinned, h.serverRooted, h.clientRooted.addRef a,
    fun b hb => (h.known b hb).imp id Multiset.mem_cons_of_mem, fun r hr => ?_, h.given⟩
  · have hheld : (s.handOut true (s.client, a)).held s.client.toServerInode t =
        s.held s.client.toServerInode t + if s.client.toServerInode a = t then 1 else 0 := by
      change ((a ::ₘ s.refs).map _).count t + (s.handles.map _).count t = _
      rw [hrefs, held]
      omega
    change (s.server t).nlookup = ((s.handOut true (s.client, a)).held (s.client.addRef a).toServerInode t : ℤ) +
      s.inFlight (s.client.addRef a).toServerInode t + g' t
    rw [hf, hheld, h.balanced t, hg t]
    push_cast
    ring
  · have hown := hrefs id b
    rw [Multiset.map_id, Multiset.map_id] at hown
    change (s.client.addRef a b).nlookup =
      (((a ::ₘ s.refs).count b + forgotten b s.unreleased + (s.jobs.map (releasesOfJob b)).sum : ℕ) : ℤ)
    rw [hnlookup, h.client b, hown, clientOwed]
    push_cast
    ring_nf
    rfl
  · change Addressed (s.client.addRef a).toServerInode r
    rw [hf]
    exact h.addressed r hr

lemma moved {g' : ℕ → ℕ} (h : s.Inv g) (hs : t.server = s.server) (hc : t.client = s.client)
    (hbalanced : ∀ i, t.held s.client.toServerInode i + t.inFlight s.client.toServerInode i + g' i =
      s.held s.client.toServerInode i + s.inFlight s.client.toServerInode i + g i)
    (howed : ∀ a, t.clientOwed a = s.clientOwed a) (hknown : ∀ a, a ∈ t.handles ∨ a ∈ t.outstanding → t.Knows a)
    (haddressed : ∀ r ∈ t.requests, Addressed s.client.toServerInode r) (hgiven : ∀ r ∈ t.responses, Given r) :
    t.Inv g' := by
  refine ⟨fun i => ?_, fun a => ?_, hs ▸ h.pinned, hs ▸ h.serverRooted, hc ▸ h.clientRooted, hknown,
    hc ▸ haddressed, hgiven⟩
  · have hsum := hbalanced i
    rw [hs, hc, h.balanced i]
    omega
  · rw [hc, h.client a, howed a]

lemma known_append (h : s.Inv g) (jobs : List FuseJob) (hjobs : ∀ a, ∀ job ∈ jobs, job.request = some a → s.Knows a)
    {a : ℕ} (ha : a ∈ s.handles ∨ a ∈ outstanding { s with jobs := s.jobs ++ jobs }) : s.Knows a := by
  rcases ha with ha | ha
  · exact h.known a (Or.inl ha)
  · rcases mem_outstanding.mp ha with ⟨job, hjob, hrequest⟩ | ha
    · rcases List.mem_append.mp hjob with hjob | hjob
      · exact h.known a (Or.inr (mem_outstanding.mpr (Or.inl ⟨job, hjob, hrequest⟩)))
      · exact hjobs a job hjob hrequest
    · exact h.known a (Or.inr (mem_outstanding.mpr (Or.inr ha)))

lemma ask (h : s.Inv 0) {a : ℕ} {job : FuseJob} (hrequest : job.request = some a)
    (hdrops : ∀ f i, dropsOfJob f i job = 0) (hreleases : ∀ b, releasesOfJob b job = 0) (hs : s.ask a job = some t) :
    t.Inv 0 := by
  obtain ⟨hknows, hs⟩ := Option.ite_none_right_eq_some.mp hs
  cases hs
  refine h.moved rfl rfl (fun i => ?_) (fun b => ?_) (fun b hb => h.known_append [job] (fun c _ hmem hc => ?_) hb)
    h.addressed h.given
  · simp [held, inFlight, untranslated, hdrops]
  · simp [clientOwed, unreleased, hreleases]
  · rw [List.mem_singleton.mp hmem, hrequest] at hc
    exact Option.some.inj hc ▸ hknows

lemma fuseRelease (h : s.Inv 0) {dir : Bool} {a : ℕ} (ha : a ∈ s.handles) :
    Inv { s with handles := s.handles.erase a, jobs := s.jobs ++ [.release dir a] } 0 := by
  refine h.moved rfl rfl (fun i => ?_) (fun b => ?_) (fun b hb => ?_) h.addressed h.given
  · have herase := count_cons_map s.client.toServerInode a i (s.handles.erase a)
    rw [Multiset.cons_erase ha] at herase
    simp [held, inFlight, untranslated, dropsOfJob, herase]
    omega
  · simp [clientOwed, unreleased, releasesOfJob]
  · refine h.known_append [.release dir a] (fun c _ hmem hc => ?_) (hb.imp_left Multiset.mem_of_mem_erase)
    rw [List.mem_singleton.mp hmem] at hc
    exact Option.some.inj hc ▸ h.known a (Or.inl ha)

lemma forget (h : s.Inv 0) {multi : Bool} {forgets : List (ℕ × ℕ)} (hs : s.forget multi forgets = some t) :
    t.Inv 0 := by
  obtain ⟨refs, hdrop, hs⟩ := Option.bind_eq_some_iff.mp hs
  obtain ⟨hguard, hs⟩ := Option.ite_none_right_eq_some.mp hs
  cases hs
  obtain ⟨hcount, hpos⟩ := dropRefs_spec hdrop
  refine h.moved rfl rfl (fun i => ?_) (fun b => ?_) (fun b hb => ?_) h.addressed h.given
  · have hmap := dropRefs_map hdrop s.client.toServerInode i
    simp [held, inFlight, untranslated, ForgetCall.untranslated, ← hmap]
    omega
  · have hb := hcount b
    simp [clientOwed, unreleased, ForgetCall.unreleased, ← hb]
    omega
  · rcases h.known b hb with h1 | hmem
    · exact Or.inl h1
    · by_contra hknows
      have hgone : b ∉ refs := fun hm => hknows (Or.inr hm)
      have hforgotten : b ∈ forgets.map Prod.fst := by
        by_contra hnot
        have hzero : forgotten b forgets = 0 := by
          refine List.sum_eq_zero fun n hn => ?_
          obtain ⟨f, hf, rfl⟩ := List.mem_map.mp hn
          exact if_neg fun (hfb : f.1 = b) => hnot (hfb ▸ List.mem_map_of_mem hf)
        have hb := hcount b
        rw [hzero, Multiset.count_eq_zero.mpr hgone] at hb
        exact absurd hmem (Multiset.count_eq_zero.mp hb.symm)
      obtain ⟨hhandles, houtstanding⟩ := hguard b hforgotten hgone
      exact hb.elim hhandles houtstanding

lemma proceed (h : s.Inv 0) {thread : ℕ} (hs : s.proceed thread = some t) : t.Inv 0 := by
  obtain ⟨f, hf, rfl⟩ := Option.map_eq_some_iff.mp hs
  obtain ⟨xs, ys, hsplit, hafter⟩ : ∃ xs ys, s.forgetting = xs ++ f :: ys ∧
      (if f.halfway then s.forgetting.eraseIdx thread else s.forgetting.set thread { f with halfway := true }) =
        xs ++ ((if f.halfway then [] else [{ f with halfway := true }]) ++ ys) := by
    split_ifs
    · exact getElem?_eraseIdx hf
    · obtain ⟨xs, ys, hl, hset⟩ := getElem?_set hf
      exact ⟨xs, ys, hl, hset _⟩
  rw [hafter]
  obtain ⟨multi, halfway, forgets⟩ := f
  -- each of the two kinds of jobs takes over what the thread still had to do
  refine h.moved rfl rfl (fun i => ?_) (fun b => ?_) (fun b hb => h.known_append _ (fun c job hmem hc => ?_) hb)
    h.addressed h.given
  · cases multi <;> cases halfway <;>
      simp [held, inFlight, untranslated, hsplit, ForgetCall.untranslated, requestForgetMulti, releaseLeafRefs,
        dropsOfJob, Function.comp_def] <;> omega
  · cases multi <;> cases halfway <;>
      simp [clientOwed, unreleased, hsplit, ForgetCall.unreleased, requestForgetMulti, releaseLeafRefs,
        releasesOfJob, Function.comp_def, forgotten] <;> omega
  · dsimp only at hmem
    split_ifs at hmem
    · rw [List.mem_singleton.mp hmem] at hc
      cases hc
    · obtain ⟨x, -, rfl⟩ := List.mem_map.mp hmem
      cases hc

lemma request (h : s.Inv 0) {job : FuseJob} {jobs : List FuseJob} {r : FuseRequest} (hjobs : s.jobs = job :: jobs)
    (hrequest : r.request = job.request)
    (hdrops : ∀ i, dropsOfRequest i r = dropsOfJob s.client.toServerInode i job)
    (hreleases : ∀ b, releasesOfJob b job = 0) (haddressed : Addressed s.client.toServerInode r) :
    Inv { s with jobs := jobs, requests := s.requests ++ [r] } 0 := by
  refine h.moved rfl rfl (fun i => ?_) (fun b => ?_) (fun b hb => h.known b (hb.imp_right fun hb => ?_))
    (fun q hq => ?_) h.given
  · simp [held, inFlight, untranslated, hjobs, hdrops]
    omega
  · simp [clientOwed, unreleased, hjobs, hreleases]
  · rcases mem_outstanding.mp hb with ⟨x, hx, hxb⟩ | ⟨q, hq, hqb⟩ | hb
    · exact mem_outstanding.mpr (Or.inl ⟨x, hjobs ▸ List.mem_cons_of_mem _ hx, hxb⟩)
    · rcases List.mem_append.mp hq with hq | hq
      · exact mem_outstanding.mpr (Or.inr (Or.inl ⟨q, hq, hqb⟩))
      · rw [List.mem_singleton.mp hq, hrequest] at hqb
        exact mem_outstanding.mpr (Or.inl ⟨job, hjobs ▸ List.mem_cons_self, hqb⟩)
    · exact mem_outstanding.mpr (Or.inr (Or.inr hb))
  · rcases List.mem_append.mp hq with hq | hq
    · exact h.addressed q hq
    · exact List.mem_singleton.mp hq ▸ haddressed

lemma releaseLeafRef (h : s.Inv 0) {a n : ℕ} {jobs : List FuseJob} (hjobs : s.jobs = .releaseLeafRef a n :: jobs) :
    Inv { s with jobs := jobs, client := s.client.releaseRef a n } 0 := by
  have hnlookup := Leaves.releaseRef_nlookup s.client a n
  have hf : (s.client.releaseRef a n).toServerInode = s.client.toServerInode := by
    funext b
    rw [Leaves.toServerInode, Leaves.toServerInode, Leaves.releaseRef_serverInode]
  refine ⟨fun i => ?_, fun b => ?_, h.pinned, h.serverRooted, h.clientRooted.releaseRef a n, fun b hb => ?_,
    fun q hq => ?_, h.given⟩
  · dsimp only
    rw [hf, h.balanced i]
    simp [held, inFlight, untranslated, hjobs, dropsOfJob]
  · dsimp only
    rw [hnlookup, h.client b]
    simp only [clientOwed, unreleased, hjobs, List.map_cons, List.sum_cons, releasesOfJob, eq_comm]
    split_ifs <;> push_cast <;> ring
  · refine h.known b (hb.imp_right fun hb => ?_)
    rcases mem_outstanding.mp hb with ⟨x, hx, hxb⟩ | hb
    · exact mem_outstanding.mpr (Or.inl ⟨x, hjobs ▸ List.mem_cons_of_mem _ hx, hxb⟩)
    · exact mem_outstanding.mpr (Or.inr hb)
  · dsimp only
    rw [hf]
    exact h.addressed q hq

lemma execute (h : s.Inv 0) (hs : s.execute = some t) : t.Inv 0 := by
  rw [Remote.execute] at hs
  split at hs
  · cases hs
  · next a name jobs hjobs =>
    cases hs
    exact h.request hjobs rfl (fun _ => rfl) (fun _ => rfl) trivial
  · next dir a jobs hjobs =>
    cases hs
    exact h.request hjobs rfl (fun _ => rfl) (fun _ => rfl) rfl
  · next dir a jobs hjobs =>
    cases hs
    exact h.request hjobs rfl (fun _ => rfl) (fun _ => rfl) trivial
  · next a size offset jobs hjobs =>
    cases hs
    exact h.request hjobs rfl (fun _ => rfl) (fun _ => rfl) trivial
  · next forgets jobs hjobs =>
    cases hs
    exact h.request hjobs rfl (fun _ => rfl) (fun _ => rfl) trivial
  · next a n jobs hjobs =>
    cases hs
    exact h.releaseLeafRef hjobs

lemma served (h : s.Inv 0) {r : FuseRequest} {requests : List FuseRequest} {x : Leaves × FuseResponse}
    (hrequests : s.requests = r :: requests) (hx : Served s.client.toServerInode s.server r x) :
    Inv { s with server := x.1, requests := requests, responses := s.responses ++ [x.2] } 0 := by
  refine ⟨fun i => ?_, h.client, hx.pinned, hx.rooted, h.clientRooted, fun b hb => ?_, fun q hq => ?_,
    fun q hq => ?_⟩
  · have hnlookup := hx.nlookup i
    have hbalanced := h.balanced i
    change _ = (s.held s.client.toServerInode i : ℤ) + _ + _
    simp only [inFlight, untranslated, hrequests, List.map_cons, List.sum_cons, List.map_append, List.map_nil,
      List.sum_append, List.sum_nil, Pi.zero_apply, Nat.cast_add, Nat.cast_zero] at hbalanced ⊢
    omega
  · refine h.known b (hb.imp_right fun hb => ?_)
    rcases mem_outstanding.mp hb with hb | ⟨q, hq, hqb⟩ | ⟨q, hq, hqb⟩
    · exact mem_outstanding.mpr (Or.inl hb)
    · exact mem_outstanding.mpr (Or.inr (Or.inl ⟨q, hrequests ▸ List.mem_cons_of_mem _ hq, hqb⟩))
    · rcases List.mem_append.mp hq with hq | hq
      · exact mem_outstanding.mpr (Or.inr (Or.inr ⟨q, hq, hqb⟩))
      · rw [List.mem_singleton.mp hq, hx.request] at hqb
        exact mem_outstanding.mpr (Or.inr (Or.inl ⟨r, hrequests ▸ List.mem_cons_self, hqb⟩))
  · exact h.addressed q (hrequests ▸ List.mem_cons_of_mem _ hq)
  · rcases List.mem_append.mp hq with hq | hq
    · exact h.given q hq
    · exact List.mem_singleton.mp hq ▸ hx.given

lemma serve (h : s.Inv 0) {entrySize : String → ℕ} {found : Found} (hsettles : s.Settles (.serve found))
    (hs : s.serve entrySize found = some t) : t.Inv 0 := by
  rw [Remote.serve] at hs
  split at hs
  · cases hs
  · next r requests hrequests =>
    obtain ⟨x, hx, rfl⟩ := Option.map_eq_some_iff.mp hs
    refine h.served hrequests ?_
    have hr : r ∈ s.requests := hrequests ▸ List.mem_cons_self
    have haddressed := h.addressed r hr
    have hn (i : ℕ) : (dropsOfRequest i r : ℤ) ≤ (s.server i).nlookup := by
      have hle : dropsOfRequest i r ≤ (s.requests.map (dropsOfRequest i)).sum :=
        List.le_sum_of_mem (List.mem_map_of_mem hr)
      rw [h.balanced i, inFlight, Pi.zero_apply]
      omega
    have hzero (i : ℕ) : 0 ≤ (s.server i).nlookup := (Int.natCast_nonneg _).trans (hn i)
    cases r with
    | lookup request parent name => exact responseLookupJob_served h.pinned h.serverRooted hzero hx
    | openFile dir request inode =>
      cases dir with
      | false =>
        cases hx
        exact responseOpenJob_served h.pinned h.serverRooted hzero haddressed
      | true =>
        cases hx
        exact responseOpenDirJob_served h.pinned h.serverRooted hzero haddressed (hsettles _ _ _ hrequests)
    | release dir request inode =>
      cases hx
      have hle := hn inode
      rw [dropsOfRequest, if_pos rfl] at hle
      exact responseReleaseJob_served h.pinned h.serverRooted hle
    | readDirPlus request inode size offset =>
      exact responseReadDirPlusJob_served h.pinned h.serverRooted hzero hx
    | forgetMulti forgets =>
      cases hx
      exact responseForgetMultiJob_served h.pinned h.serverRooted hn

lemma congr_server (h : s.Inv g) {server : Leaves} (hk : s.server.Keeps server) (hr : server.Rooted)
    (notices : List (Bool × ℕ × String × ℕ)) : Inv { s with server := server, notices := notices } g :=
  ⟨fun i => (hk.nlookup i).trans (h.balanced i), h.client, h.pinned.of_keeps hk, hr, h.clientRooted, h.known,
    h.addressed, h.given⟩

lemma inotify (h : s.Inv 0) {created : Bool} {parent address : ℕ} {name : String}
    (hs : s.inotify created parent name address = some t) : t.Inv 0 := by
  rw [Remote.inotify] at hs
  split_ifs at hs
  · obtain ⟨x, hx, rfl⟩ := Option.map_eq_some_iff.mp hs
    have hadd := Leaves.addChild_spec h.serverRooted hx
    exact h.congr_server hadd.keeps hadd.rooted _
  · cases hs
    have hkeeps : s.server.Keeps (s.server.removeChild parent name) := Leaves.keeps_update rfl rfl
    exact h.congr_server hkeeps (h.serverRooted.removeChild parent name) _

lemma sendNotice (h : s.Inv 0) (hs : s.sendNotice = some t) : t.Inv 0 := by
  rw [Remote.sendNotice] at hs
  split at hs
  · cases hs
  · next created parent name inode notices _ =>
    cases hs
    refine h.moved rfl rfl (fun i => ?_) (fun _ => rfl) (fun b hb => h.known b (hb.imp_right fun hb => ?_))
      h.addressed (fun q hq => ?_)
    · simp [held, inFlight, untranslated, gainsOfResponse]
    · rcases mem_outstanding.mp hb with hb | hb | ⟨q, hq, hqb⟩
      · exact mem_outstanding.mpr (Or.inl hb)
      · exact mem_outstanding.mpr (Or.inr (Or.inl hb))
      · rcases List.mem_append.mp hq with hq | hq
        · exact mem_outstanding.mpr (Or.inr (Or.inr ⟨q, hq, hqb⟩))
        · rw [List.mem_singleton.mp hq] at hqb
          cases hqb
    · rcases List.mem_append.mp hq with hq | hq
      · exact h.given q hq
      · exact List.mem_singleton.mp hq ▸ trivial

lemma popped (h : s.Inv 0) {r : FuseResponse} {responses : List FuseResponse} (hresponses : s.responses = r :: responses) :
    Inv { s with responses := responses } fun i => gainsOfResponse s.client.toServerInode i r := by
  refine h.moved rfl rfl (fun i => ?_) (fun _ => rfl) (fun b hb => h.known b (hb.imp_right fun hb => ?_))
    h.addressed (fun q hq => h.given q (hresponses ▸ List.mem_cons_of_mem _ hq))
  · simp [held, inFlight, untranslated, hresponses]
    omega
  · rcases mem_outstanding.mp hb with hb | hb | ⟨q, hq, hqb⟩
    · exact mem_outstanding.mpr (Or.inl hb)
    · exact mem_outstanding.mpr (Or.inr (Or.inl hb))
    · exact mem_outstanding.mpr (Or.inr (Or.inr ⟨q, hresponses ▸ List.mem_cons_of_mem _ hq, hqb⟩))

lemma addServerChild (h : s.Inv g) {parent inode address : ℕ} {name : String} {x : Leaves × ℕ}
    (hkeeps : s.KeepsInode parent name inode address) (hx : addServerChild s.client parent name inode address = some x) :
    Inv { s with client := x.1 } g ∧ (inode ≠ 0 → x.1.toServerInode x.2 = inode) := by
  obtain ⟨hk, hr⟩ := addServerChild_keeps h.clientRooted hx
  obtain ⟨y, hy, rfl⟩ := Option.map_eq_some_iff.mp hx
  have hadd := Leaves.addChild_spec h.clientRooted hy
  have hone : y.2 ≠ 1 := hadd.one_lt.ne'
  have hself : (y.1.setServerInode y.2 inode).toServerInode y.2 = if inode ≠ 0 then inode else y.2 := by
    rw [Leaves.toServerInode, if_neg hone, Leaves.setServerInode, Function.update_self]
  refine ⟨h.congr_client hk hr fun a ha => ?_, fun hinode => hself.trans (if_pos hinode)⟩
  by_cases hay : a = y.2
  · subst hay
    rcases hadd.origin with hfind | ⟨hnew, hfree⟩
    · have hold := hkeeps.1 y.2 hfind ha
      have hinode : inode ≠ 0 := by
        rw [← hold, Leaves.toServerInode, if_neg hone]
        split_ifs with hserver
        · exact hserver
        · have := hadd.one_lt
          omega
      rw [hold]
      exact hself.trans (if_pos hinode)
    · have hforget := hkeeps.2 hnew
      rw [← Leaves.addChild_address hnew hy] at hforget
      exact absurd ha (h.not_tracked hfree hforget)
  · dsimp only
    rw [Leaves.toServerInode, Leaves.toServerInode, Leaves.setServerInode, Function.update_of_ne hay,
      hadd.serverInode a hay]

lemma patchEntry (h : s.Inv g) {parent : ℕ} {e : (String × ℕ) × ℕ} {g' : ℕ → ℕ} (hgiven : 1 < e.1.2)
    (hmatch : ∀ a, s.client.find parent e.1.1 = some a → s.client.toServerInode a = e.1.2)
    (hforget : s.client.find parent e.1.1 = none → e.2 ∉ s.untranslated.map Prod.fst)
    (hg : ∀ i, g i = g' i + if e.1.2 = i then 1 else 0) (hs : patchEntry parent true s e = some t) : t.Inv g' := by
  obtain ⟨x, hx, rfl⟩ := Option.map_eq_some_iff.mp hs
  rw [resolveClientInode] at hx
  split at hx
  · next a hfind =>
    cases hx
    refine h.handOut fun i => ?_
    rw [hmatch a hfind]
    exact hg i
  · next hfind =>
    have hkeeps : s.KeepsInode parent e.1.1 e.1.2 e.2 :=
      ⟨fun a ha => absurd (hfind.symm.trans ha) (Option.some_ne_none a).symm, hforget⟩
    obtain ⟨hinv, hinode⟩ := h.addServerChild hkeeps hx
    refine hinv.handOut fun i => ?_
    dsimp only
    rw [hinode (by omega)]
    exact hg i

lemma patchEntries {parent : ℕ} {entries : List ((String × ℕ) × ℕ)}
    (h : s.Inv fun i => (entries.map fun e => e.1.2).count i) (hgiven : ∀ e ∈ entries, 1 < e.1.2)
    (hmatch : AllMatch parent s entries) (hs : entries.foldlM (Remote.patchEntry parent true) s = some t) : t.Inv 0 := by
  induction entries generalizing s with
  | nil =>
    cases hs
    exact h
  | cons e entries ih =>
    rw [List.foldlM_cons] at hs
    obtain ⟨u, hu, hs⟩ := Option.bind_eq_some_iff.mp hs
    refine ih (h.patchEntry (hgiven e List.mem_cons_self) hmatch.1 hmatch.2.1 (fun i => ?_) hu)
      (fun q hq => hgiven q (List.mem_cons_of_mem _ hq)) (hmatch.2.2 u hu) hs
    rw [List.map_cons, List.count_cons]
    simp only [beq_iff_eq]

lemma responseLookupInJob (h : s.Inv g) {parentId inode : ℕ} {name : String} {reply : Reply} (hgiven : 1 < inode)
    (hg : ∀ i, g i = if inode = i then 1 else 0) (haccepted : reply.accepted = true)
    (hparent : ∃ parent, (if parentId = 1 then some 1 else reply.parent) = some parent ∧
      s.KeepsInode parent name inode (reply.addresses.headD 0))
    (hs : s.responseLookupInJob parentId name inode reply = some t) : t.Inv 0 := by
  obtain ⟨parent, hfound, hkeeps⟩ := hparent
  rw [Remote.responseLookupInJob, hfound] at hs
  obtain ⟨x, hx, rfl⟩ := Option.map_eq_some_iff.mp hs
  obtain ⟨hinv, hinode⟩ := h.addServerChild hkeeps hx
  rw [haccepted]
  refine hinv.handOut fun i => ?_
  dsimp only
  rw [hinode (by omega), hg i, Pi.zero_apply, zero_add]

lemma openFile (h : s.Inv g) {a : ℕ} (hknows : s.Knows a)
    (hg : ∀ i, g i = if s.client.toServerInode a = i then 1 else 0) :
    Inv { s with handles := a ::ₘ s.handles } 0 := by
  refine h.moved rfl rfl (fun i => ?_) (fun _ => rfl) (fun b hb => ?_) h.addressed h.given
  · change (s.refs.map _).count i + ((a ::ₘ s.handles).map _).count i + s.inFlight _ i + 0 = _
    rw [count_cons_map, hg i, held]
    omega
  · rcases hb with hb | hb
    · rcases Multiset.mem_cons.mp hb with rfl | hb
      · exact hknows
      · exact h.known b (Or.inl hb)
    · exact h.known b (Or.inr hb)

lemma notifyInvalEntryJob (h : s.Inv 0) {created : Bool} {parentId inode : ℕ} {name : String} {reply : Reply}
    (hsettles : AnswerSettles s reply (.notifyInvalEntry created parentId name inode))
    (hs : s.notifyInvalEntryJob created name inode reply = some t) : t.Inv 0 := by
  rw [Remote.notifyInvalEntryJob] at hs
  split at hs
  · cases hs
    exact h
  · next parent hparent =>
    cases created with
    | true =>
      obtain ⟨x, hx, rfl⟩ := Option.map_eq_some_iff.mp hs
      exact (h.addServerChild (hsettles parent hparent) hx).1
    | false =>
      cases hs
      have hkeeps : s.client.Keeps (s.client.removeChild parent name) := Leaves.keeps_update rfl rfl
      refine h.congr_client hkeeps (h.clientRooted.removeChild parent name) fun a _ => ?_
      have hserver : (s.client.removeChild parent name a).serverInode = (s.client a).serverInode := by
        by_cases ha : a = parent
        · rw [Leaves.removeChild, ha, Function.update_self]
        · rw [Leaves.removeChild, Function.update_of_ne ha]
      rw [Leaves.toServerInode, Leaves.toServerInode, hserver]

lemma answer (h : s.Inv 0) {reply : Reply} (hsettles : s.Settles (.answer reply)) (hs : s.answer reply = some t) :
    t.Inv 0 := by
  rw [Remote.answer] at hs
  split at hs
  · cases hs
  · next r responses hresponses =>
    have hr : r ∈ s.responses := hresponses ▸ List.mem_cons_self
    have hgiven := h.given r hr
    have hpopped := h.popped hresponses
    have hanswer := hsettles r responses hresponses
    cases r with
    | lookup request parentId name inode =>
      cases inode with
      | none =>
        cases hs
        exact hpopped
      | some inode => exact hpopped.responseLookupInJob hgiven (fun _ => rfl) hanswer.1 hanswer.2 hs
    | openFile dir request opened =>
      cases opened with
      | false =>
        cases hs
        exact hpopped
      | true =>
        have haccepted : reply.accepted = true := hanswer
        cases hs
        rw [haccepted]
        have hknows : s.Knows request := h.known request (Or.inr (mem_outstanding.mpr (Or.inr (Or.inr ⟨_, hr, rfl⟩))))
        exact hpopped.openFile hknows fun _ => rfl
    | release dir request =>
      cases hs
      exact hpopped
    | readDirPlus request entries =>
      obtain ⟨haccepted, hmatch⟩ := hanswer
      obtain ⟨hlength, hs⟩ := Option.ite_none_right_eq_some.mp hs
      rw [haccepted] at hs
      have hfst : (entries.zip reply.addresses).map Prod.fst = entries := List.map_fst_zip hlength.ge
      refine Inv.patchEntries ?_ (fun e he => ?_) hmatch hs
      · rw [← hfst] at hpopped
        simpa [gainsOfResponse, Function.comp_def] using hpopped
      · exact hgiven e.1 (hfst ▸ List.mem_map_of_mem he)
    | forgetMulti =>
      cases hs
      exact hpopped
    | notifyInvalEntry created parentId name inode => exact Inv.notifyInvalEntryJob hpopped hanswer hs

lemma step (h : s.Inv 0) {entrySize : String → ℕ} {action : Action} (hsettles : s.Settles action)
    (hs : step entrySize s action = some t) : t.Inv 0 := by
  cases action with
  | fuseLookup parent name => exact h.ask rfl (fun _ _ => rfl) (fun _ => rfl) hs
  | fuseOpen dir inode => exact h.ask rfl (fun _ _ => rfl) (fun _ => rfl) hs
  | fuseRelease dir inode =>
    obtain ⟨ha, hs⟩ := Option.ite_none_right_eq_some.mp hs
    cases hs
    exact h.fuseRelease ha
  | fuseReadDirPlus inode size offset => exact h.ask rfl (fun _ _ => rfl) (fun _ => rfl) hs
  | fuseForget multi forgets => exact h.forget hs
  | proceed thread => exact h.proceed hs
  | execute => exact h.execute hs
  | serve found => exact h.serve hsettles hs
  | inotify created parent name address => exact h.inotify hs
  | sendNotice => exact h.sendNotice hs
  | answer reply => exact h.answer hsettles hs

end Inv

structure Unreferenced (ls : Leaves) : Prop where
  rooted : ls.Rooted
  nlookup : ∀ a, (ls a).nlookup = 0
  selfPin : ∀ a, (ls a).selfPin = false

lemma inv_initial {server client : Leaves} (hserver : Unreferenced server) (hclient : Unreferenced client) :
    (initial server client).Inv 0 := by
  refine ⟨fun i => ?_, fun a => ?_, fun a => ?_, hserver.rooted, hclient.rooted, fun a ha => ?_,
    fun r hr => ?_, fun r hr => ?_⟩
  · exact hserver.nlookup i
  · exact hclient.nlookup a
  · change (server a).selfPin = true ↔ (server a).nlookup ≠ 0
    rw [hserver.selfPin, hserver.nlookup]
    simp
  · exact (ha.elim (Multiset.notMem_zero a) List.not_mem_nil).elim
  all_goals cases ‹_ ∈ _›

theorem balanced_of_settles (entrySize : String → ℕ) (server client : Leaves) (hserver : Unreferenced server)
    (hclient : Unreferenced client) (actions : List Action) (s : Remote)
    (h : Path (step entrySize) Settles (initial server client) actions s) : s.Balanced := by
  have hinv : s.Inv 0 :=
    h.invariant (fun _ _ _ hinv hok hs => Inv.step hinv hok hs) (inv_initial hserver hclient)
  exact hinv.toBalanced

lemma unreferenced_create : Unreferenced fun _ => .create false :=
  ⟨fun _ _ h => absurd h List.not_mem_nil, fun _ => rfl, fun _ => rfl⟩

lemma opened_path : ∃ actions s, Path (step String.length) Settles
    (initial (fun _ => .create false) fun _ => .create false) actions s ∧
      (s.server 2).nlookup = 2 ∧ s.refs = {3} ∧ s.handles = {3} := by
  let found : Found := ⟨false, false, 2, false, true, []⟩
  let reply : Reply := ⟨true, none, [3]⟩
  refine ⟨[.fuseLookup 1 "a", .execute, .serve found, .answer reply, .fuseOpen false 3, .execute, .serve found,
    .answer reply], ?_⟩
  apply Exists.intro
  constructor
  · refine .cons trivial rfl (.cons trivial rfl (.cons (fun _ _ _ _ => rfl) rfl (.cons ?_ rfl (.cons trivial rfl
      (.cons trivial rfl (.cons (fun _ _ _ _ => rfl) rfl (.cons ?_ rfl
        (.nil _))))))))
    · intro response responses hresponses
      cases hresponses
      refine ⟨rfl, 1, rfl, fun a ha => ?_, fun _ => List.not_mem_nil⟩
      cases ha
    · intro response responses hresponses
      cases hresponses
      exact rfl
  · decide

theorem balanced_of_settles_opened : ∃ actions s, run (step String.length)
    (initial (fun _ => .create false) fun _ => .create false) actions = some s ∧ s.Balanced ∧
      (s.server 2).nlookup = 2 ∧ s.refs = {3} ∧ s.handles = {3} := by
  obtain ⟨actions, s, hpath, hs⟩ := opened_path
  exact ⟨actions, s, hpath.run, balanced_of_settles String.length _ _ unreferenced_create unreferenced_create
    actions s hpath, hs⟩

theorem not_balanced_of_openDir : ¬ ∀ (entrySize : String → ℕ) (server client : Leaves), Unreferenced server →
    Unreferenced client → ∀ actions s, run (step entrySize) (initial server client) actions = some s →
      s.Balanced := by
  intro h
  have hbalanced := h String.length _ _ unreferenced_create unreferenced_create
    [.fuseOpen true 1, .execute, .serve ⟨false, false, 0, false, false, []⟩, .answer ⟨true, none, []⟩] _ rfl
  have hroot := hbalanced.nlookup 1
  revert hroot
  decide

end Remote

end FastTransport.FileSystem
