import FastTransport.FileSystem.FileHandles
import FastTransport.Lib.Lists

/-! Who has a handle: the kernel, the messages that open and release it, and nobody else, in every run. -/

namespace FastTransport.FileSystem

open Lib.Lists Lib.Runs

namespace Handles

def Request.uses : Request → Option (ℕ × ℕ)
  | .release _ inode remoteFile _ => some (inode, remoteFile)
  | .getAttr inode remoteFile => if inode = 1 ∨ remoteFile = 0 then none else some (inode, remoteFile)
  | .readFile inode remoteFile => some (inode, remoteFile)
  | _ => none

def Request.releases : Request → Option (ℕ × ℕ)
  | .release _ inode remoteFile _ => some (inode, remoteFile)
  | _ => none

def Request.releasedHandle : Request → Option ℕ
  | .release _ _ _ handle => some handle
  | _ => none

def Response.opens : Response → Option (ℕ × ℕ)
  | .openFile _ inode (some remoteFile) => some (inode, remoteFile)
  | _ => none

def Response.releasedHandle : Response → Option ℕ
  | .release _ _ handle => handle
  | _ => none

/-- The requests in the order in which the server will come to them, those that are not sent yet at the end. -/
def pipeline (s : Handles) : List Request := s.requests ++ s.jobs.map (Job.toRequest s.remoteFile)

def file (s : Handles) (f : OpenedFile) : ℕ × ℕ := (f.inode, s.remoteFile f.handle)

def users (s : Handles) : Multiset (ℕ × ℕ) :=
  s.opened.map s.file + (s.pipeline.filterMap Request.releases : Multiset (ℕ × ℕ))

def owners (s : Handles) : Multiset (ℕ × ℕ) :=
  (s.responses.filterMap Response.opens : Multiset (ℕ × ℕ)) + s.users

def holders (s : Handles) : Multiset ℕ :=
  (s.responses.filterMap Response.releasedHandle : Multiset ℕ) +
    (s.opened.map OpenedFile.handle + (s.pipeline.filterMap Request.releasedHandle : Multiset ℕ))

structure Sound (s : Handles) : Prop where
  owned : ∀ p ∈ s.owners, s.remoteFiles p.2 = some p.1
  distinct : (s.owners.map Prod.snd).Nodup
  held : ∀ handle ∈ s.holders, (s.fileHandles handle).isSome = true
  apart : s.holders.Nodup
  used : ∀ q ∈ s.pipeline, ∀ p, q.uses = some p → p ∈ s.users
  /-- Behind the request that releases a handle nothing uses it. -/
  inOrder : s.pipeline.Pairwise fun q q' => ∀ p, q.releases = some p → q'.uses ≠ some p
  reads : ∀ read ∈ s.reads, ⟨false, read.inode, read.handle⟩ ∈ s.opened ∧ s.remoteFile read.handle = read.remoteFile

lemma sound_initial : initial.Sound where
  owned p hp := by simp [owners, users, initial, pipeline] at hp
  distinct := by simp [owners, users, initial, pipeline]
  held handle h := by simp [holders, initial, pipeline] at h
  apart := by simp [holders, initial, pipeline]
  used q hq := by simp [initial, pipeline] at hq
  inOrder := List.Pairwise.nil
  reads read h := by simp [initial] at h

variable {s : Handles}

lemma mem_users_of_opened {f : OpenedFile} (h : f ∈ s.opened) : s.file f ∈ s.users :=
  Multiset.mem_add.mpr (Or.inl (Multiset.mem_map_of_mem _ h))

lemma mem_holders_of_opened {f : OpenedFile} (h : f ∈ s.opened) : f.handle ∈ s.holders :=
  Multiset.mem_add.mpr (Or.inr (Multiset.mem_add.mpr (Or.inl (Multiset.mem_map_of_mem _ h))))

lemma mem_holders_of_pipeline {q : Request} (hq : q ∈ s.pipeline) {handle : ℕ} (h : q.releasedHandle = some handle) :
    handle ∈ s.holders :=
  Multiset.mem_add.mpr (Or.inr (Multiset.mem_add.mpr (Or.inr (List.mem_filterMap.mpr ⟨q, hq, h⟩))))

lemma mem_holders_of_response {r : Response} (hr : r ∈ s.responses) {handle : ℕ} (h : r.releasedHandle = some handle) :
    handle ∈ s.holders :=
  Multiset.mem_add.mpr (Or.inl (List.mem_filterMap.mpr ⟨r, hr, h⟩))

lemma Sound.alive (hs : s.Sound) {p : ℕ × ℕ} (hp : p ∈ s.users) : s.remoteFiles p.2 = some p.1 :=
  hs.owned p (Multiset.mem_add.mpr (Or.inr hp))

lemma Sound.releases_ne (hs : s.Sound) {f : OpenedFile} (hf : f ∈ s.opened) {q : Request} (hq : q ∈ s.pipeline) :
    q.releases ≠ some (s.file f) := by
  intro hrel
  have hn := hs.distinct
  rw [owners, users, Multiset.map_add, Multiset.map_add] at hn
  have hopened : (s.file f).2 ∈ (s.opened.map s.file).map Prod.snd :=
    Multiset.mem_map_of_mem Prod.snd (Multiset.mem_map_of_mem _ hf)
  have hpipeline : (s.file f).2 ∈ (s.pipeline.filterMap Request.releases : Multiset (ℕ × ℕ)).map Prod.snd :=
    Multiset.mem_map_of_mem Prod.snd (List.mem_filterMap.mpr ⟨q, hq, hrel⟩)
  exact Multiset.disjoint_left.mp (Multiset.nodup_add.mp (Multiset.nodup_add.mp hn).2.1).2.2 hopened hpipeline

lemma Sound.push {t : Handles} (hs : s.Sound) {q : Request} (hpipeline : t.pipeline = s.pipeline ++ [q])
    (husers : t.users = s.users) (hholders : t.holders = s.holders) (hresponses : t.responses = s.responses)
    (hfileHandles : t.fileHandles = s.fileHandles) (hremoteFiles : t.remoteFiles = s.remoteFiles)
    (huses : ∀ p, q.uses = some p → ∃ f ∈ s.opened, p = s.file f)
    (hreads : ∀ read ∈ t.reads,
      ⟨false, read.inode, read.handle⟩ ∈ t.opened ∧ t.remoteFile read.handle = read.remoteFile) : t.Sound := by
  have howners : t.owners = s.owners := by rw [owners, owners, husers, hresponses]
  refine ⟨?_, ?_, ?_, ?_, fun q' hq' p hp => ?_, ?_, hreads⟩
  · rw [howners, hremoteFiles]
    exact hs.owned
  · rw [howners]
    exact hs.distinct
  · rw [hholders, hfileHandles]
    exact hs.held
  · rw [hholders]
    exact hs.apart
  · rw [husers]
    rw [hpipeline] at hq'
    rcases List.mem_append.mp hq' with hq' | hq'
    · exact hs.used q' hq' p hp
    · rw [List.mem_singleton.mp hq'] at hp
      obtain ⟨f, hf, rfl⟩ := huses p hp
      exact mem_users_of_opened hf
  · rw [hpipeline]
    refine List.pairwise_append.mpr ⟨hs.inOrder, List.pairwise_singleton _ _, fun q' hq' r hr p hp hp' => ?_⟩
    rw [List.mem_singleton.mp hr] at hp'
    obtain ⟨f, hf, rfl⟩ := huses p hp'
    exact hs.releases_ne hf hq' hp

lemma pipeline_schedule (s : Handles) (job : Job) :
    (s.schedule job).pipeline = s.pipeline ++ [job.toRequest s.remoteFile] := by
  rw [pipeline, pipeline, schedule, List.map_append, ← List.append_assoc]
  rfl

lemma users_schedule {job : Job} (h : (job.toRequest s.remoteFile).releases = none) :
    (s.schedule job).users = s.users := by
  rw [users, pipeline_schedule, coe_filterMap_concat, h]
  exact congrArg (s.opened.map s.file + ·) (zero_add _)

lemma holders_schedule {job : Job} (h : (job.toRequest s.remoteFile).releasedHandle = none) :
    (s.schedule job).holders = s.holders := by
  rw [holders, pipeline_schedule, coe_filterMap_concat, h]
  exact congrArg (_ + ·) (congrArg (s.opened.map OpenedFile.handle + ·) (zero_add _))

lemma Sound.schedule (hs : s.Sound) {job : Job} (hrelease : (job.toRequest s.remoteFile).releases = none)
    (hhandle : (job.toRequest s.remoteFile).releasedHandle = none)
    (huses : ∀ p, (job.toRequest s.remoteFile).uses = some p → ∃ f ∈ s.opened, p = s.file f) :
    (s.schedule job).Sound :=
  hs.push (s.pipeline_schedule job) (users_schedule hrelease) (holders_schedule hhandle) rfl rfl rfl huses hs.reads

def released (s : Handles) (f : OpenedFile) : Handles :=
  { s with opened := s.opened.erase f, jobs := s.jobs ++ [.requestRelease f.dir f.inode f.handle] }

lemma pipeline_released (s : Handles) (f : OpenedFile) :
    (s.released f).pipeline = s.pipeline ++ [.release f.dir f.inode (s.remoteFile f.handle) f.handle] :=
  s.pipeline_schedule (.requestRelease f.dir f.inode f.handle)

lemma users_released {f : OpenedFile} (hf : f ∈ s.opened) : (s.released f).users = s.users := by
  rw [users, users, pipeline_released, coe_filterMap_concat, add_left_comm]
  conv_rhs => rw [← Multiset.cons_erase hf, Multiset.map_cons, Multiset.cons_add]
  exact Multiset.singleton_add _ _

lemma holders_released {f : OpenedFile} (hf : f ∈ s.opened) : (s.released f).holders = s.holders := by
  rw [holders, holders, pipeline_released, coe_filterMap_concat, add_left_comm (Multiset.map _ _)]
  conv_rhs => rw [← Multiset.cons_erase hf, Multiset.map_cons, Multiset.cons_add]
  exact congrArg (_ + ·) (Multiset.singleton_add _ _)

lemma Sound.released (hs : s.Sound) {f : OpenedFile} (hf : f ∈ s.opened)
    (hreads : ∀ read ∈ s.reads, read.handle ≠ f.handle) : (s.released f).Sound := by
  refine hs.push (s.pipeline_released f) (users_released hf) (holders_released hf) rfl rfl rfl
    (fun p hp => ⟨f, hf, (Option.some.inj hp).symm⟩) fun read hread => ?_
  obtain ⟨hmem, hremote⟩ := hs.reads read hread
  exact ⟨(Multiset.mem_erase_of_ne fun he => hreads read hread (by rw [← he])).mpr hmem, hremote⟩

structure Same (s t : Handles) : Prop where
  pipeline : t.pipeline = s.pipeline
  opened : t.opened = s.opened
  responses : t.responses = s.responses
  fileHandles : t.fileHandles = s.fileHandles
  remoteFiles : t.remoteFiles = s.remoteFiles

namespace Same

variable {t : Handles}

lemma remoteFile (h : Same s t) : t.remoteFile = s.remoteFile := by
  funext handle
  rw [Handles.remoteFile, Handles.remoteFile, h.fileHandles]

lemma users (h : Same s t) : t.users = s.users := by
  have hfile : t.file = s.file := by
    funext f
    rw [file, file, h.remoteFile]
  rw [Handles.users, Handles.users, h.opened, hfile, h.pipeline]

lemma owners (h : Same s t) : t.owners = s.owners := by
  rw [Handles.owners, Handles.owners, h.responses, h.users]

lemma holders (h : Same s t) : t.holders = s.holders := by
  rw [Handles.holders, Handles.holders, h.responses, h.opened, h.pipeline]

end Same

lemma Sound.same (hs : s.Sound) {t : Handles} (h : Same s t) (hreads : ∀ read ∈ t.reads,
    ⟨false, read.inode, read.handle⟩ ∈ s.opened ∧ s.remoteFile read.handle = read.remoteFile) : t.Sound := by
  refine ⟨?_, ?_, ?_, ?_, ?_, ?_, ?_⟩
  · rw [h.owners, h.remoteFiles]
    exact hs.owned
  · rw [h.owners]
    exact hs.distinct
  · rw [h.holders, h.fileHandles]
    exact hs.held
  · rw [h.holders]
    exact hs.apart
  · rw [h.users, h.pipeline]
    exact hs.used
  · rw [h.pipeline]
    exact hs.inOrder
  · rw [h.opened, h.remoteFile]
    exact hreads

lemma same_execute {t : Handles} (h : s.execute = some t) : Same s t ∧ t.reads = s.reads := by
  rw [execute] at h
  split at h
  · cases h
  · rename_i job jobs hjobs
    cases h
    refine ⟨⟨?_, rfl, rfl, rfl, rfl⟩, rfl⟩
    rw [pipeline, pipeline, hjobs, List.map_cons, List.append_assoc]
    rfl

lemma pipeline_pop {q : Request} {rest : List Request} (h : s.requests = q :: rest) :
    s.pipeline = q :: pipeline { s with requests := rest } := by
  rw [pipeline, h]
  rfl

lemma users_pop {q : Request} {rest : List Request} (h : s.requests = q :: rest) :
    s.users = (q.releases.toList : Multiset (ℕ × ℕ)) + users { s with requests := rest } := by
  rw [users, pipeline_pop h, coe_filterMap_cons, add_left_comm]
  rfl

lemma owners_pop {q : Request} {rest : List Request} (h : s.requests = q :: rest) :
    s.owners = (q.releases.toList : Multiset (ℕ × ℕ)) + owners { s with requests := rest } := by
  rw [owners, users_pop h, add_left_comm]
  rfl

lemma holders_pop {q : Request} {rest : List Request} (h : s.requests = q :: rest) :
    s.holders = (q.releasedHandle.toList : Multiset ℕ) + holders { s with requests := rest } := by
  rw [holders, pipeline_pop h, coe_filterMap_cons, add_left_comm (Multiset.map _ _), add_left_comm]
  rfl

lemma owners_popResponse {r : Response} {rest : List Response} (h : s.responses = r :: rest) :
    s.owners = (r.opens.toList : Multiset (ℕ × ℕ)) + owners { s with responses := rest } := by
  rw [owners, h, coe_filterMap_cons, add_assoc]
  rfl

lemma holders_popResponse {r : Response} {rest : List Response} (h : s.responses = r :: rest) :
    s.holders = (r.releasedHandle.toList : Multiset ℕ) + holders { s with responses := rest } := by
  rw [holders, h, coe_filterMap_cons, add_assoc]
  rfl

lemma owners_respond (s : Handles) (r : Response) :
    (s.respond r).owners = (r.opens.toList : Multiset (ℕ × ℕ)) + s.owners := by
  rw [owners, respond, coe_filterMap_concat, add_assoc]
  rfl

lemma holders_respond (s : Handles) (r : Response) :
    (s.respond r).holders = (r.releasedHandle.toList : Multiset ℕ) + s.holders := by
  rw [holders, respond, coe_filterMap_concat, add_assoc]
  rfl

def accept (s : Handles) (f : OpenedFile) : Handles := { s with opened := f ::ₘ s.opened }

lemma users_accept (s : Handles) (f : OpenedFile) : (s.accept f).users = s.file f ::ₘ s.users := by
  rw [users, accept, Multiset.map_cons, Multiset.cons_add]
  rfl

lemma owners_accept (s : Handles) (f : OpenedFile) : (s.accept f).owners = s.file f ::ₘ s.owners := by
  rw [owners, users_accept, Multiset.add_cons]
  rfl

lemma holders_accept (s : Handles) (f : OpenedFile) : (s.accept f).holders = f.handle ::ₘ s.holders := by
  rw [holders, accept, Multiset.map_cons, Multiset.cons_add, Multiset.add_cons]
  rfl

/-- Handles that are there, but of which the state has lost an owner and a holder. -/
structure Loose (s : Handles) (p : Option (ℕ × ℕ)) (handle : Option ℕ) : Prop where
  remoteFile : ∀ x ∈ p, s.remoteFiles x.2 = some x.1 ∧ x.2 ∉ s.owners.map Prod.snd
  fileHandle : ∀ h ∈ handle, (s.fileHandles h).isSome = true ∧ h ∉ s.holders

lemma loose_none (s : Handles) : s.Loose none none :=
  ⟨fun _ hx => (Option.not_mem_none _ hx).elim, fun _ hx => (Option.not_mem_none _ hx).elim⟩

lemma Sound.loose {t : Handles} (hs : s.Sound) {p : Option (ℕ × ℕ)} {handle : Option ℕ}
    (howners : s.owners = (p.toList : Multiset (ℕ × ℕ)) + t.owners)
    (hholders : s.holders = (handle.toList : Multiset ℕ) + t.holders) (hfileHandles : t.fileHandles = s.fileHandles)
    (hremoteFiles : t.remoteFiles = s.remoteFiles) : t.Loose p handle := by
  constructor
  · rintro x rfl
    have hdistinct := hs.distinct
    rw [howners, Multiset.map_add] at hdistinct
    refine ⟨?_, fun hmem => ?_⟩
    · rw [hremoteFiles]
      exact hs.owned x (howners ▸ Multiset.mem_add.mpr (Or.inl List.mem_cons_self))
    · exact Multiset.disjoint_left.mp (Multiset.nodup_add.mp hdistinct).2.2 List.mem_cons_self hmem
  · rintro h rfl
    have hapart := hs.apart
    rw [hholders] at hapart
    refine ⟨?_, fun hmem => ?_⟩
    · rw [hfileHandles]
      exact hs.held h (hholders ▸ Multiset.mem_add.mpr (Or.inl List.mem_cons_self))
    · exact Multiset.disjoint_left.mp (Multiset.nodup_add.mp hapart).2.2 List.mem_cons_self hmem

lemma Sound.pop (hs : s.Sound) {q : Request} {rest : List Request} (h : s.requests = q :: rest) :
    Sound { s with requests := rest } := by
  have horder := hs.inOrder
  rw [pipeline_pop h, List.pairwise_cons] at horder
  have hdistinct := hs.distinct
  rw [owners_pop h, Multiset.map_add] at hdistinct
  have hapart := hs.apart
  rw [holders_pop h] at hapart
  refine ⟨fun p hp => ?_, (Multiset.nodup_add.mp hdistinct).2.1, fun handle hh => ?_,
    (Multiset.nodup_add.mp hapart).2.1, fun q' hq' p hp => ?_, horder.2, hs.reads⟩
  · exact hs.owned p (owners_pop h ▸ Multiset.mem_add.mpr (Or.inr hp))
  · exact hs.held handle (holders_pop h ▸ Multiset.mem_add.mpr (Or.inr hh))
  · -- the request that goes is not the one that releases what a later one uses
    have hmem := hs.used q' (pipeline_pop h ▸ List.mem_cons_of_mem q hq') p hp
    rw [users_pop h] at hmem
    refine (Multiset.mem_add.mp hmem).resolve_left fun hrel => ?_
    exact horder.1 q' hq' p (Option.mem_toList.mp hrel) hp

lemma Sound.popResponse (hs : s.Sound) {r : Response} {rest : List Response} (h : s.responses = r :: rest) :
    Sound { s with responses := rest } := by
  have hdistinct := hs.distinct
  rw [owners_popResponse h, Multiset.map_add] at hdistinct
  have hapart := hs.apart
  rw [holders_popResponse h] at hapart
  refine ⟨fun p hp => ?_, (Multiset.nodup_add.mp hdistinct).2.1, fun handle hh => ?_,
    (Multiset.nodup_add.mp hapart).2.1, hs.used, hs.inOrder, hs.reads⟩
  · exact hs.owned p (owners_popResponse h ▸ Multiset.mem_add.mpr (Or.inr hp))
  · exact hs.held handle (holders_popResponse h ▸ Multiset.mem_add.mpr (Or.inr hh))

lemma Sound.respond (hs : s.Sound) {r : Response} (hr : s.Loose r.opens r.releasedHandle) : (s.respond r).Sound := by
  refine ⟨fun p hp => ?_, ?_, fun handle hh => ?_, ?_, hs.used, hs.inOrder, hs.reads⟩
  · rw [owners_respond] at hp
    rcases Multiset.mem_add.mp hp with hp | hp
    · exact (hr.remoteFile p (Option.mem_toList.mp hp)).1
    · exact hs.owned p hp
  · rw [owners_respond, Multiset.map_add]
    refine Multiset.nodup_add.mpr ⟨?_, hs.distinct, Multiset.disjoint_left.mpr fun hmem => ?_⟩
    · cases r.opens with
      | none => exact Multiset.nodup_zero
      | some p => exact Multiset.nodup_singleton p.2
    · obtain ⟨p, hp, rfl⟩ := Multiset.mem_map.mp hmem
      exact (hr.remoteFile p (Option.mem_toList.mp hp)).2
  · rw [holders_respond] at hh
    rcases Multiset.mem_add.mp hh with hh | hh
    · exact (hr.fileHandle handle (Option.mem_toList.mp hh)).1
    · exact hs.held handle hh
  · rw [holders_respond]
    refine Multiset.nodup_add.mpr ⟨?_, hs.apart, Multiset.disjoint_left.mpr fun hh => ?_⟩
    · cases r.releasedHandle with
      | none => exact Multiset.nodup_zero
      | some handle => exact Multiset.nodup_singleton handle
    · exact (hr.fileHandle _ (Option.mem_toList.mp hh)).2

lemma Sound.update_remoteFiles (hs : s.Sound) {remoteFile : ℕ} (h : remoteFile ∉ s.owners.map Prod.snd)
    (file : Option ℕ) : Sound { s with remoteFiles := Function.update s.remoteFiles remoteFile file } := by
  refine ⟨fun p hp => ?_, hs.distinct, hs.held, hs.apart, hs.used, hs.inOrder, hs.reads⟩
  have hne : p.2 ≠ remoteFile := fun he => h (he ▸ Multiset.mem_map_of_mem Prod.snd hp)
  exact (Function.update_of_ne hne _ _).trans (hs.owned p hp)

lemma Sound.not_owned (hs : s.Sound) {remoteFile : ℕ} (h : s.remoteFiles remoteFile = none) :
    remoteFile ∉ s.owners.map Prod.snd := by
  intro hmem
  obtain ⟨p, hp, rfl⟩ := Multiset.mem_map.mp hmem
  rw [hs.owned p hp] at h
  cases h

lemma Sound.not_held (hs : s.Sound) {handle : ℕ} (h : s.fileHandles handle = none) : handle ∉ s.holders := by
  intro hmem
  have halive := hs.held handle hmem
  rw [h] at halive
  cases halive

lemma Sound.responseOpen (hs : s.Sound) {dir : Bool} {inode : ℕ} {file : Option ℕ} {t : Handles}
    (h : s.responseOpen dir inode file = some t) : t.Sound := by
  cases file with
  | none =>
    cases h
    exact hs.respond s.loose_none
  | some remoteFile =>
    rw [Handles.responseOpen] at h
    obtain ⟨⟨-, hnone⟩, h⟩ := Option.ite_none_right_eq_some.mp h
    cases h
    have hfree := hs.not_owned hnone
    refine (hs.update_remoteFiles hfree (some inode)).respond (r := .openFile dir inode (some remoteFile))
      ⟨fun x hx => ?_, fun x hx => (Option.not_mem_none _ hx).elim⟩
    cases Option.mem_some_iff.mp hx
    exact ⟨Function.update_self _ _ _, hfree⟩

lemma Sound.response (hs : s.Sound) {q : Request} (hq : s.Loose q.releases q.releasedHandle) {found : Found}
    {t : Handles} (h : s.response found q = some t) : t.Sound := by
  cases q with
  | openFile dir inode => cases dir <;> exact hs.responseOpen h
  | release dir inode remoteFile handle =>
    have hfree := (hq.remoteFile (inode, remoteFile) rfl).2
    have hloose : Loose (s.delete remoteFile) none (some handle) :=
      ⟨fun x hx => (Option.not_mem_none _ hx).elim, hq.fileHandle⟩
    have hdeleted : ((s.delete remoteFile).respond (.release dir inode (some handle))).Sound :=
      (hs.update_remoteFiles hfree none).respond hloose
    cases dir with
    | false =>
      obtain ⟨-, h⟩ := Option.ite_none_left_eq_some.mp h
      cases h
      exact hdeleted
    | true =>
      cases h
      rw [responseReleaseDirJob]
      split_ifs
      · exact hdeleted
      · exact hs.respond s.loose_none
  | getAttr inode remoteFile =>
    cases h
    exact hs
  | readDir plus inode remoteFile =>
    cases h
    exact hs
  | readFile inode remoteFile =>
    cases h
    exact hs.same ⟨rfl, rfl, rfl, rfl, rfl⟩ hs.reads

lemma remoteFile_update {handle : ℕ} (h : handle ∉ s.holders) (file : Option ℕ) {handle' : ℕ}
    (h' : handle' ∈ s.holders) :
    remoteFile { s with fileHandles := Function.update s.fileHandles handle file } handle' = s.remoteFile handle' := by
  have hne : handle' ≠ handle := fun he => h (he ▸ h')
  exact congrArg (fun x => Option.getD x 0) (Function.update_of_ne hne _ _)

lemma pipeline_update {handle : ℕ} (h : handle ∉ s.holders) (file : Option ℕ) :
    pipeline { s with fileHandles := Function.update s.fileHandles handle file } = s.pipeline := by
  refine congrArg (s.requests ++ ·) (List.map_congr_left fun job hjob => ?_)
  cases job with
  | requestRelease dir inode handle' =>
    have hq : Request.release dir inode (s.remoteFile handle') handle' ∈ s.pipeline :=
      List.mem_append_right _ (List.mem_map_of_mem (f := Job.toRequest s.remoteFile) hjob)
    rw [Job.toRequest, Job.toRequest, remoteFile_update h file (mem_holders_of_pipeline hq rfl)]
  | _ => rfl

lemma users_update {handle : ℕ} (h : handle ∉ s.holders) (file : Option ℕ) :
    users { s with fileHandles := Function.update s.fileHandles handle file } = s.users := by
  rw [users, users, pipeline_update h]
  refine congrArg (· + _) (Multiset.map_congr rfl fun f hf => ?_)
  rw [Handles.file, Handles.file, remoteFile_update h file (mem_holders_of_opened hf)]

lemma owners_update {handle : ℕ} (h : handle ∉ s.holders) (file : Option ℕ) :
    owners { s with fileHandles := Function.update s.fileHandles handle file } = s.owners :=
  congrArg ((s.responses.filterMap Response.opens : Multiset (ℕ × ℕ)) + ·) (users_update h file)

lemma holders_update {handle : ℕ} (h : handle ∉ s.holders) (file : Option ℕ) :
    holders { s with fileHandles := Function.update s.fileHandles handle file } = s.holders := by
  rw [holders, pipeline_update h]
  rfl

lemma Sound.update_fileHandles (hs : s.Sound) {handle : ℕ} (h : handle ∉ s.holders) (file : Option ℕ) :
    Sound { s with fileHandles := Function.update s.fileHandles handle file } := by
  refine ⟨?_, ?_, fun handle' hh => ?_, ?_, ?_, ?_, fun read hread => ?_⟩
  · rw [owners_update h]
    exact hs.owned
  · rw [owners_update h]
    exact hs.distinct
  · rw [holders_update h] at hh
    have hne : handle' ≠ handle := fun he => h (he ▸ hh)
    exact (congrArg Option.isSome (Function.update_of_ne hne _ _)).trans (hs.held handle' hh)
  · rw [holders_update h]
    exact hs.apart
  · rw [users_update h, pipeline_update h]
    exact hs.used
  · rw [pipeline_update h]
    exact hs.inOrder
  · obtain ⟨hmem, hremote⟩ := hs.reads read hread
    exact ⟨hmem, (remoteFile_update h file (mem_holders_of_opened hmem)).trans hremote⟩

lemma Sound.accept (hs : s.Sound) {f : OpenedFile} (h : s.Loose (some (s.file f)) (some f.handle)) :
    (s.accept f).Sound := by
  obtain ⟨hfile, hfree⟩ := h.remoteFile _ rfl
  obtain ⟨halive, hapart⟩ := h.fileHandle _ rfl
  refine ⟨fun p hp => ?_, ?_, fun handle hh => ?_, ?_, fun q hq p hp => ?_, hs.inOrder, fun read hread => ?_⟩
  · rw [owners_accept] at hp
    rcases Multiset.mem_cons.mp hp with rfl | hp
    · exact hfile
    · exact hs.owned p hp
  · rw [owners_accept, Multiset.map_cons]
    exact Multiset.nodup_cons.mpr ⟨hfree, hs.distinct⟩
  · rw [holders_accept] at hh
    rcases Multiset.mem_cons.mp hh with rfl | hh
    · exact halive
    · exact hs.held handle hh
  · rw [holders_accept]
    exact Multiset.nodup_cons.mpr ⟨hapart, hs.apart⟩
  · rw [users_accept]
    exact Multiset.mem_cons_of_mem (hs.used q hq p hp)
  · exact (hs.reads read hread).imp_left Multiset.mem_cons_of_mem

lemma file_new (s : Handles) (dir : Bool) (inode handle remoteFile : ℕ) :
    file { s with fileHandles := Function.update s.fileHandles handle (some remoteFile) } ⟨dir, inode, handle⟩ =
      (inode, remoteFile) := by
  have hnew : Function.update s.fileHandles handle (some remoteFile) handle = some remoteFile :=
    Function.update_self _ _ _
  exact congrArg (fun x : Option ℕ => (inode, x.getD 0)) hnew

lemma Sound.responseOpenIn (hs : s.Sound) {dir accepted : Bool} {inode handle : ℕ} {file : Option ℕ} {t : Handles}
    (hloose : s.Loose (file.map fun r => (inode, r)) none)
    (h : s.responseOpenIn dir inode handle accepted file = some t) : t.Sound := by
  cases file with
  | none =>
    cases h
    exact hs
  | some remoteFile =>
    rw [Handles.responseOpenIn] at h
    obtain ⟨hnone, h⟩ := Option.ite_none_right_eq_some.mp h
    cases h
    have hfree := hs.not_held hnone
    have hnew := hs.update_fileHandles hfree (some remoteFile)
    cases accepted with
    | false => exact hnew
    | true =>
      refine hnew.accept (f := ⟨dir, inode, handle⟩) ⟨fun x hx => ?_, fun x hx => ?_⟩
      · rw [file_new] at hx
        cases Option.mem_some_iff.mp hx
        rw [owners_update hfree]
        exact hloose.remoteFile _ rfl
      · cases Option.mem_some_iff.mp hx
        rw [holders_update hfree]
        exact ⟨congrArg Option.isSome (Function.update_self handle (some remoteFile) s.fileHandles), hfree⟩

lemma Sound.responseReleaseIn (hs : s.Sound) {handle : Option ℕ} (hloose : s.Loose none handle) :
    (s.responseReleaseIn handle).Sound := by
  cases handle with
  | none => exact hs
  | some handle => exact hs.update_fileHandles (hloose.fileHandle handle rfl).2 none

lemma opens_openFile (dir : Bool) (inode : ℕ) (file : Option ℕ) :
    Response.opens (.openFile dir inode file) = file.map fun r => (inode, r) := by
  cases file <;> rfl

lemma Sound.answer (hs : s.Sound) {handle : ℕ} {accepted : Bool} {t : Handles}
    (h : s.answer handle accepted = some t) : t.Sound := by
  rw [Handles.answer] at h
  split at h
  · cases h
  · rename_i r rest hresponses
    have hpopped := hs.popResponse hresponses
    have hloose := hs.loose (owners_popResponse hresponses) (holders_popResponse hresponses) rfl rfl
    cases r with
    | openFile dir inode file =>
      rw [opens_openFile] at hloose
      cases dir <;> exact hpopped.responseOpenIn hloose h
    | release dir inode handle =>
      cases dir <;> cases h <;> exact hpopped.responseReleaseIn hloose

lemma Sound.serve (hs : s.Sound) {found : Found} {t : Handles} (h : s.serve found = some t) : t.Sound := by
  rw [Handles.serve] at h
  split at h
  · cases h
  · rename_i q rest hrequests
    exact (hs.pop hrequests).response (hs.loose (owners_pop hrequests) (holders_pop hrequests) rfl rfl) h

lemma Sound.fuseGetattr (hs : s.Sound) {inode : ℕ} {file : Option OpenedFile} {t : Handles}
    (h : s.fuseGetattr inode file = some t) : t.Sound := by
  cases file with
  | none =>
    cases h
    refine hs.schedule rfl rfl fun p hp => ?_
    rw [Job.toRequest, Request.uses, if_pos (Or.inr rfl)] at hp
    cases hp
  | some f =>
    obtain ⟨⟨hf, rfl⟩, h⟩ := Option.ite_none_right_eq_some.mp h
    cases h
    refine hs.schedule rfl rfl fun p hp => ?_
    obtain ⟨-, hp⟩ := Option.ite_none_left_eq_some.mp hp
    exact ⟨f, hf, (Option.some.inj hp).symm⟩

lemma Sound.step (hs : s.Sound) {a : Action} {t : Handles} (h : s.step a = some t) : t.Sound := by
  cases a with
  | fuseOpen dir inode =>
    obtain ⟨-, h⟩ := Option.ite_none_right_eq_some.mp h
    cases h
    exact hs.schedule rfl rfl fun p hp => by cases hp
  | fuseRelease f =>
    obtain ⟨⟨hf, hreads⟩, h⟩ := Option.ite_none_right_eq_some.mp h
    cases h
    exact hs.released hf hreads
  | fuseGetattr inode file => exact hs.fuseGetattr h
  | fuseRead f =>
    obtain ⟨⟨hf, hdir⟩, h⟩ := Option.ite_none_right_eq_some.mp h
    cases h
    refine hs.same ⟨rfl, rfl, rfl, rfl, rfl⟩ fun read hread => ?_
    rcases Multiset.mem_cons.mp hread with rfl | hread
    · obtain ⟨dir, inode, handle⟩ := f
      cases hdir
      exact ⟨hf, rfl⟩
    · exact hs.reads read hread
  | fuseReadDir plus f =>
    obtain ⟨-, h⟩ := Option.ite_none_right_eq_some.mp h
    cases h
    exact hs.schedule rfl rfl fun p hp => by cases hp
  | fetchBlock read =>
    obtain ⟨hread, h⟩ := Option.ite_none_right_eq_some.mp h
    cases h
    obtain ⟨hmem, hremote⟩ := hs.reads read hread
    refine hs.schedule rfl rfl fun p hp => ⟨_, hmem, ?_⟩
    rw [file, hremote]
    exact (Option.some.inj hp).symm
  | replyRead read =>
    obtain ⟨-, h⟩ := Option.ite_none_right_eq_some.mp h
    cases h
    exact hs.same ⟨rfl, rfl, rfl, rfl, rfl⟩ fun other hother => hs.reads other (Multiset.mem_of_mem_erase hother)
  | execute =>
    obtain ⟨hsame, hreads⟩ := same_execute h
    exact hs.same hsame (hreads ▸ hs.reads)
  | serve found => exact hs.serve h
  | readFile read =>
    obtain ⟨-, h⟩ := Option.ite_none_right_eq_some.mp h
    cases h
    exact hs.same ⟨rfl, rfl, rfl, rfl, rfl⟩ hs.reads
  | answer handle accepted => exact hs.answer h

end Handles

end FastTransport.FileSystem
