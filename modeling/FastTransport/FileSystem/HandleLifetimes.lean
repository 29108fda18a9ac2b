import FastTransport.FileSystem.HandleOwners

/-! No job of either side follows a pointer to a handle that is gone, and no handle is left behind. -/

namespace FastTransport.FileSystem

open Lib.Runs

namespace Handles

variable {s : Handles}

def OfDisk : Action → Prop
  | .readFile _ => True
  | _ => False

lemma Sound.alive_of_follows (hs : s.Sound) {a : Action} (ha : ¬ OfDisk a) {t : Handles} (h : s.step a = some t) :
    ∀ p ∈ s.follows a, s.Alive p := by
  cases a with
  | fuseOpen dir inode => exact fun p hp => by cases hp
  | fuseRelease f => exact fun p hp => by cases hp
  | fuseGetattr inode file =>
    cases file with
    | none => exact fun p hp => by cases hp
    | some f =>
      obtain ⟨⟨hf, -⟩, -⟩ := Option.ite_none_right_eq_some.mp h
      exact List.forall_mem_singleton.mpr (hs.held _ (mem_holders_of_opened hf))
  | fuseRead f =>
    obtain ⟨⟨hf, -⟩, -⟩ := Option.ite_none_right_eq_some.mp h
    exact List.forall_mem_singleton.mpr (hs.held _ (mem_holders_of_opened hf))
  | fuseReadDir plus f =>
    obtain ⟨⟨hf, -⟩, -⟩ := Option.ite_none_right_eq_some.mp h
    exact List.forall_mem_singleton.mpr (hs.held _ (mem_holders_of_opened hf))
  | fetchBlock read => exact fun p hp => by cases hp
  | replyRead read => exact fun p hp => by cases hp
  | execute =>
    rw [follows]
    split
    · rename_i dir inode handle jobs hjobs
      have hq : Request.release dir inode (s.remoteFile handle) handle ∈ s.pipeline := by
        refine List.mem_append_right _ ?_
        rw [hjobs]
        exact List.mem_cons_self
      exact List.forall_mem_singleton.mpr (hs.held _ (mem_holders_of_pipeline hq rfl))
    · exact fun p hp => by cases hp
  | serve found =>
    rw [follows]
    split
    · rename_i dir inode remoteFile handle rest hrequests
      have hq : Request.release dir inode remoteFile handle ∈ s.pipeline := by
        rw [pipeline_pop hrequests]
        exact List.mem_cons_self
      exact List.forall_mem_singleton.mpr (hs.alive (hs.used _ hq (inode, remoteFile) rfl))
    · rename_i inode remoteFile rest hrequests
      have hq : Request.getAttr inode remoteFile ∈ s.pipeline := by
        rw [pipeline_pop hrequests]
        exact List.mem_cons_self
      split_ifs with hnone
      · exact fun p hp => by cases hp
      · exact List.forall_mem_singleton.mpr (hs.alive (hs.used _ hq (inode, remoteFile) (if_neg hnone)))
    · exact fun p hp => by cases hp
  | readFile read => exact (ha trivial).elim
  | answer handle accepted =>
    rw [follows]
    split
    · rename_i dir inode handle rest hresponses
      have hr : Response.release dir inode (some handle) ∈ s.responses := by
        rw [hresponses]
        exact List.mem_cons_self
      exact List.forall_mem_singleton.mpr (hs.held _ (mem_holders_of_response hr rfl))
    · exact fun p hp => by cases hp

def Request.deletes (found : Found) : Request → Option ℕ
  | .release false _ remoteFile _ => some remoteFile
  | .release true inode remoteFile _ => if inode = 1 ∨ found.closed = true then some remoteFile else none
  | _ => none

/-- The server deletes no handle for which a read still waits for the disk. -/
def Patient (s : Handles) : Action → Prop
  | .serve found => ∀ q rest, s.requests = q :: rest → ∀ read ∈ s.diskQueues, q.deletes found ≠ some read.remoteFile
  | _ => True

def DiskAlive (s : Handles) : Prop := ∀ read ∈ s.diskQueues, s.remoteFiles read.remoteFile = some read.inode

lemma DiskAlive.responseOpen (hd : s.DiskAlive) {dir : Bool} {inode : ℕ} {file : Option ℕ} {t : Handles}
    (h : s.responseOpen dir inode file = some t) : t.DiskAlive := by
  cases file with
  | none =>
    cases h
    exact hd
  | some remoteFile =>
    rw [Handles.responseOpen] at h
    obtain ⟨⟨-, hnone⟩, h⟩ := Option.ite_none_right_eq_some.mp h
    cases h
    intro read hread
    have halive := hd read hread
    have hne : read.remoteFile ≠ remoteFile := by
      rintro he
      rw [he, hnone] at halive
      cases halive
    exact (Function.update_of_ne hne _ _).trans halive

lemma DiskAlive.serve (hs : s.Sound) (hd : s.DiskAlive) {found : Found} (hp : s.Patient (.serve found)) {t : Handles}
    (h : s.serve found = some t) : t.DiskAlive := by
  rw [Handles.serve] at h
  split at h
  · cases h
  · rename_i q rest hrequests
    have hpopped : DiskAlive { s with requests := rest } := hd
    cases q with
    | openFile dir inode => cases dir <;> exact hpopped.responseOpen h
    | release dir inode remoteFile handle =>
      have hdeletes := hp _ _ hrequests
      have hdeleted (hne : ∀ read ∈ s.diskQueues, read.remoteFile ≠ remoteFile) :
          DiskAlive (delete { s with requests := rest } remoteFile) := fun read hread =>
        (Function.update_of_ne (hne read hread) _ _).trans (hd read hread)
      cases dir with
      | false =>
        obtain ⟨-, h⟩ := Option.ite_none_left_eq_some.mp h
        cases h
        exact hdeleted fun read hread he => hdeletes read hread (by rw [he]; rfl)
      | true =>
        cases h
        rw [responseReleaseDirJob]
        split_ifs with hclosed
        · exact hdeleted fun read hread he => hdeletes read hread (by rw [he]; exact if_pos hclosed)
        · exact hpopped
    | getAttr inode remoteFile =>
      cases h
      exact hpopped
    | readDir plus inode remoteFile =>
      cases h
      exact hpopped
    | readFile inode remoteFile =>
      cases h
      have hq : Request.readFile inode remoteFile ∈ s.pipeline := by
        rw [pipeline_pop hrequests]
        exact List.mem_cons_self
      intro read hread
      rcases Multiset.mem_cons.mp hread with rfl | hread
      · exact hs.alive (hs.used _ hq (inode, remoteFile) rfl)
      · exact hd read hread

lemma DiskAlive.answer (hd : s.DiskAlive) {handle : ℕ} {accepted : Bool} {t : Handles}
    (h : s.answer handle accepted = some t) : t.DiskAlive := by
  rw [Handles.answer] at h
  split at h
  · cases h
  · rename_i r rest hresponses
    cases r with
    | openFile dir inode file =>
      cases file with
      | none => cases dir <;> cases h <;> exact hd
      | some remoteFile =>
        cases dir
        all_goals
          obtain ⟨-, h⟩ := Option.ite_none_right_eq_some.mp h
          cases h
          exact hd
    | release dir inode handle => cases dir <;> cases handle <;> cases h <;> exact hd

lemma DiskAlive.step (hs : s.Sound) (hd : s.DiskAlive) {a : Action} (hp : s.Patient a) {t : Handles}
    (h : s.step a = some t) : t.DiskAlive := by
  cases a with
  | fuseOpen dir inode =>
    obtain ⟨-, h⟩ := Option.ite_none_right_eq_some.mp h
    cases h
    exact hd
  | fuseRelease f =>
    obtain ⟨-, h⟩ := Option.ite_none_right_eq_some.mp h
    cases h
    exact hd
  | fuseGetattr inode file =>
    cases file with
    | none =>
      cases h
      exact hd
    | some f =>
      obtain ⟨-, h⟩ := Option.ite_none_right_eq_some.mp h
      cases h
      exact hd
  | fuseRead f =>
    obtain ⟨-, h⟩ := Option.ite_none_right_eq_some.mp h
    cases h
    exact hd
  | fuseReadDir plus f =>
    obtain ⟨-, h⟩ := Option.ite_none_right_eq_some.mp h
    cases h
    exact hd
  | fetchBlock read =>
    obtain ⟨-, h⟩ := Option.ite_none_right_eq_some.mp h
    cases h
    exact hd
  | replyRead read =>
    obtain ⟨-, h⟩ := Option.ite_none_right_eq_some.mp h
    cases h
    exact hd
  | execute =>
    simp only [Handles.step, Handles.execute] at h
    split at h <;> cases h
    exact hd
  | serve found => exact hd.serve hs hp h
  | readFile read =>
    obtain ⟨-, h⟩ := Option.ite_none_right_eq_some.mp h
    cases h
    exact fun other hother => hd other (Multiset.mem_of_mem_erase hother)
  | answer handle accepted => exact hd.answer h

lemma patient_of_alive {a : Action} {t : Handles} (h : s.step a = some t) (hd : t.DiskAlive) : s.Patient a := by
  cases a with
  | serve found =>
    intro q rest hrequests read hread hdeletes
    simp only [Handles.step, Handles.serve, hrequests] at h
    cases q with
    | release dir inode remoteFile handle =>
      have hdead (u : Handles) (hqueues : u.diskQueues = s.diskQueues)
          (hfiles : u.remoteFiles = Function.update s.remoteFiles read.remoteFile none) : ¬ u.DiskAlive := by
        intro hu
        have halive := hu read (hqueues ▸ hread)
        rw [hfiles, Function.update_self] at halive
        cases halive
      cases dir with
      | false =>
        obtain ⟨-, h⟩ := Option.ite_none_left_eq_some.mp h
        cases Option.some.inj hdeletes
        cases h
        exact absurd hd (hdead _ rfl rfl)
      | true =>
        obtain ⟨hclosed, hdeletes⟩ := Option.ite_none_right_eq_some.mp hdeletes
        cases Option.some.inj hdeletes
        cases h
        rw [responseReleaseDirJob, if_pos hclosed] at hd
        exact absurd hd (hdead _ rfl rfl)
    | _ => cases hdeletes
  | _ => trivial

lemma patient_iff {actions : List Action} {t : Handles} (hs : s.Sound) (hd : s.DiskAlive)
    (h : run Handles.step s actions = some t) :
    Path Handles.step Patient s actions t ↔ Path Handles.step (fun u _ => u.DiskAlive) s actions t ∧ t.DiskAlive := by
  induction actions generalizing s with
  | nil =>
    cases h
    exact ⟨fun _ => ⟨.nil _, hd⟩, fun _ => .nil _⟩
  | cons a actions ih =>
    obtain ⟨u, hu, hrest⟩ := run_cons_eq_some.mp h
    constructor
    · rintro (_ | ⟨hp, ha, hpath⟩)
      cases Option.some.inj (hu.symm.trans ha)
      obtain ⟨halive, ht⟩ := (ih (hs.step hu) (hd.step hs hp hu) hrest).mp hpath
      exact ⟨.cons hd hu halive, ht⟩
    · rintro ⟨_ | ⟨-, ha, hpath⟩, ht⟩
      cases Option.some.inj (hu.symm.trans ha)
      have hud : u.DiskAlive := by
        cases hpath with
        | nil => exact ht
        | cons hud _ _ => exact hud
      exact .cons (patient_of_alive hu hud) hu ((ih (hs.step hu) hud hrest).mpr ⟨hpath, ht⟩)

/-- Every pointer that a step follows or deletes is alive and leads to the file that was meant. For a read of the disk
this needs that no handle is deleted before it: that is exactly when all waiting reads have their handles throughout. -/
theorem follows_alive {actions : List Action} {s : Handles} (h : run step initial actions = some s) :
    (∀ a t, s.step a = some t → ¬ OfDisk a → ∀ p ∈ s.follows a, s.Alive p) ∧
      (Path step Patient initial actions s ↔ Path step (fun u _ => u.DiskAlive) initial actions s ∧ s.DiskAlive) := by
  have hs : s.Sound := run_invariant (P := Sound) (fun _ _ _ hs hstep => hs.step hstep) sound_initial h
  exact ⟨fun a t ha hdisk => hs.alive_of_follows hdisk ha,
    patient_iff sound_initial (fun read hread => (Multiset.notMem_zero read hread).elim) h⟩

def overtaken : List Action :=
  [.fuseOpen false 5, .execute, .serve ⟨some 7, true⟩, .answer 100 true, .fuseRead ⟨false, 5, 100⟩,
    .fetchBlock ⟨5, 100, 7⟩, .replyRead ⟨5, 100, 7⟩, .fuseRelease ⟨false, 5, 100⟩, .execute, .execute,
    .serve ⟨none, true⟩, .serve ⟨none, true⟩]

theorem follows_alive_overtaken : ∃ s, run step initial overtaken = some s ∧ ¬ s.DiskAlive ∧
    (∀ a t, s.step a = some t → ¬ OfDisk a → ∀ p ∈ s.follows a, s.Alive p) ∧
      (Path step Patient initial overtaken s ↔ Path step (fun u _ => u.DiskAlive) initial overtaken s ∧ s.DiskAlive) := by
  obtain ⟨s, hrun, hqueue, hgone⟩ : ∃ s, run step initial overtaken = some s ∧ s.diskQueues = {⟨5, 7⟩} ∧
      s.remoteFiles 7 = none := ⟨_, rfl, rfl, rfl⟩
  refine ⟨s, hrun, fun hd => ?_, follows_alive hrun⟩
  have halive := hd ⟨5, 7⟩ (hqueue ▸ Multiset.mem_singleton_self _)
  rw [hgone] at halive
  cases halive

structure Covered (s : Handles) (p : Option (ℕ × ℕ)) (handle : Option ℕ) : Prop where
  remoteFile : ∀ x, s.remoteFiles x.2 = some x.1 → x ∈ (p.toList : Multiset (ℕ × ℕ)) + s.owners
  fileHandle : ∀ h, (s.fileHandles h).isSome = true → h ∈ (handle.toList : Multiset ℕ) + s.holders

namespace Covered

variable {t : Handles} {p : Option (ℕ × ℕ)} {handle : Option ℕ}

lemma of_eq (h : s.Covered p handle) {p' : Option (ℕ × ℕ)} {handle' : Option ℕ}
    (howners : (p.toList : Multiset (ℕ × ℕ)) + s.owners = (p'.toList : Multiset (ℕ × ℕ)) + t.owners)
    (hholders : (handle.toList : Multiset ℕ) + s.holders = (handle'.toList : Multiset ℕ) + t.holders)
    (hremoteFiles : t.remoteFiles = s.remoteFiles) (hfileHandles : t.fileHandles = s.fileHandles) :
    t.Covered p' handle' := by
  refine ⟨fun x hx => ?_, fun h' hh => ?_⟩
  · rw [← howners]
    exact h.remoteFile x (hremoteFiles ▸ hx)
  · rw [← hholders]
    exact h.fileHandle h' (hfileHandles ▸ hh)

lemma same (h : s.Covered none none) (hsame : Same s t) : t.Covered none none :=
  h.of_eq (by rw [hsame.owners]) (by rw [hsame.holders]) hsame.remoteFiles hsame.fileHandles

lemma respond (r : Response) (h : s.Covered r.opens r.releasedHandle) : (s.respond r).Covered none none :=
  h.of_eq ((owners_respond s r).symm.trans (zero_add _).symm) ((holders_respond s r).symm.trans (zero_add _).symm)
    rfl rfl

lemma schedule (h : s.Covered none none) {job : Job} (hrelease : (job.toRequest s.remoteFile).releases = none)
    (hhandle : (job.toRequest s.remoteFile).releasedHandle = none) : (s.schedule job).Covered none none := by
  refine h.of_eq ?_ ?_ rfl rfl
  · rw [owners, owners, users_schedule hrelease]
    rfl
  · rw [holders_schedule hhandle]

lemma responseOpen (h : s.Covered none none) {dir : Bool} {inode : ℕ} {file : Option ℕ}
    (ht : s.responseOpen dir inode file = some t) : t.Covered none none := by
  cases file with
  | none =>
    cases ht
    exact h.respond (.openFile dir inode none)
  | some remoteFile =>
    rw [Handles.responseOpen] at ht
    obtain ⟨-, ht⟩ := Option.ite_none_right_eq_some.mp ht
    cases ht
    refine respond (s := { s with remoteFiles := Function.update s.remoteFiles remoteFile (some inode) })
      (.openFile dir inode (some remoteFile)) ⟨fun x hx => ?_, h.fileHandle⟩
    replace hx : Function.update s.remoteFiles remoteFile (some inode) x.2 = some x.1 := hx
    by_cases he : x.2 = remoteFile
    · rw [he, Function.update_self] at hx
      refine Multiset.mem_add.mpr (Or.inl (List.mem_singleton.mpr ?_))
      exact Prod.ext (Option.some.inj hx).symm he
    · rw [Function.update_of_ne he] at hx
      refine Multiset.mem_add.mpr (Or.inr ?_)
      exact (Multiset.mem_add.mp (h.remoteFile x hx)).resolve_left List.not_mem_nil

lemma delete {inode remoteFile : ℕ} (h : s.Covered (some (inode, remoteFile)) handle) :
    (s.delete remoteFile).Covered none handle := by
  refine ⟨fun x hx => ?_, h.fileHandle⟩
  have hne : x.2 ≠ remoteFile := by
    intro he
    have hgone : Function.update s.remoteFiles remoteFile none x.2 = some x.1 := hx
    rw [he, Function.update_self] at hgone
    cases hgone
  have hx' : s.remoteFiles x.2 = some x.1 := (Function.update_of_ne hne _ _).symm.trans hx
  refine Multiset.mem_add.mpr (Or.inr ((Multiset.mem_add.mp (h.remoteFile x hx')).resolve_left fun hmem => hne ?_))
  rw [List.mem_singleton.mp hmem]

lemma serve (h : s.Covered none none) {found : Found} (hclosed : found.closed = true)
    (ht : s.serve found = some t) : t.Covered none none := by
  rw [Handles.serve] at ht
  split at ht
  · cases ht
  · rename_i q rest hrequests
    have hpopped : Covered { s with requests := rest } q.releases q.releasedHandle :=
      h.of_eq ((zero_add _).trans (owners_pop hrequests)) ((zero_add _).trans (holders_pop hrequests)) rfl rfl
    cases q with
    | openFile dir inode => cases dir <;> exact hpopped.responseOpen ht
    | release dir inode remoteFile handle =>
      have hdeleted := respond (.release dir inode (some handle)) hpopped.delete
      cases dir with
      | false =>
        obtain ⟨-, ht⟩ := Option.ite_none_left_eq_some.mp ht
        cases ht
        exact hdeleted
      | true =>
        cases ht
        rw [responseReleaseDirJob, if_pos (Or.inr hclosed)]
        exact hdeleted
    | getAttr inode remoteFile =>
      cases ht
      exact hpopped
    | readDir plus inode remoteFile =>
      cases ht
      exact hpopped
    | readFile inode remoteFile =>
      cases ht
      exact hpopped.same ⟨rfl, rfl, rfl, rfl, rfl⟩

lemma responseOpenIn (hs : s.Sound) {dir : Bool} {inode handle : ℕ} {file : Option ℕ}
    (h : s.Covered (file.map fun r => (inode, r)) none) (ht : s.responseOpenIn dir inode handle true file = some t) :
    t.Covered none none := by
  cases file with
  | none =>
    cases ht
    exact h
  | some remoteFile =>
    rw [Handles.responseOpenIn] at ht
    obtain ⟨hnone, ht⟩ := Option.ite_none_right_eq_some.mp ht
    cases ht
    have hfree := hs.not_held hnone
    set u : Handles := { s with fileHandles := Function.update s.fileHandles handle (some remoteFile) }
    have howners : (u.accept ⟨dir, inode, handle⟩).owners = (inode, remoteFile) ::ₘ s.owners := by
      rw [owners_accept, file_new, owners_update hfree]
    have hholders : (u.accept ⟨dir, inode, handle⟩).holders = handle ::ₘ s.holders := by
      rw [holders_accept, holders_update hfree]
    refine ⟨fun x hx => ?_, fun h' hh => ?_⟩
    · refine Multiset.mem_add.mpr (Or.inr ?_)
      have hmem := h.remoteFile x hx
      exact howners ▸ hmem
    · refine Multiset.mem_add.mpr (Or.inr ?_)
      refine (hholders ▸ Multiset.mem_cons.mpr ?_ : h' ∈ (u.accept ⟨dir, inode, handle⟩).holders)
      by_cases he : h' = handle
      · exact Or.inl he
      · have hold : (s.fileHandles h').isSome = true := (congrArg Option.isSome (Function.update_of_ne he _ _)).symm.trans hh
        exact Or.inr ((Multiset.mem_add.mp (h.fileHandle h' hold)).resolve_left List.not_mem_nil)

lemma responseReleaseIn {file : Option ℕ} (hloose : s.Loose none file) (h : s.Covered none file) :
    (s.responseReleaseIn file).Covered none none := by
  cases file with
  | none => exact h
  | some handle =>
    have hfree := (hloose.fileHandle handle rfl).2
    have howners := owners_update hfree none
    have hholders := holders_update hfree none
    refine ⟨fun x hx => ?_, fun h' hh => ?_⟩
    · exact howners.symm ▸ h.remoteFile x hx
    · have hne : h' ≠ handle := by
        intro he
        have hgone : (Function.update s.fileHandles handle none h').isSome = true := hh
        rw [he, Function.update_self] at hgone
        cases hgone
      have hold : (s.fileHandles h').isSome = true := (congrArg Option.isSome (Function.update_of_ne hne _ _)).symm.trans hh
      refine Multiset.mem_add.mpr (Or.inr ?_)
      have hmem := (Multiset.mem_add.mp (h.fileHandle h' hold)).resolve_left fun hm => hne (List.mem_singleton.mp hm)
      exact hholders.symm ▸ hmem

lemma answer (hs : s.Sound) (h : s.Covered none none) {handle : ℕ} (ht : s.answer handle true = some t) :
    t.Covered none none := by
  rw [Handles.answer] at ht
  split at ht
  · cases ht
  · rename_i r rest hresponses
    have hpopped : Covered { s with responses := rest } r.opens r.releasedHandle :=
      h.of_eq ((zero_add _).trans (owners_popResponse hresponses)) ((zero_add _).trans (holders_popResponse hresponses))
        rfl rfl
    have hloose := hs.loose (owners_popResponse hresponses) (holders_popResponse hresponses) rfl rfl
    cases r with
    | openFile dir inode file =>
      rw [opens_openFile] at hpopped
      cases dir <;> exact hpopped.responseOpenIn (hs.popResponse hresponses) ht
    | release dir inode handle => cases dir <;> cases ht <;> exact hpopped.responseReleaseIn hloose

end Covered

/-- Directories close, and the kernel takes the replies to its opens. -/
def Clean (_ : Handles) : Action → Prop
  | .serve found => found.closed = true
  | .answer _ accepted => accepted = true
  | _ => True

lemma Covered.step (hs : s.Sound) (h : s.Covered none none) {a : Action} (hclean : s.Clean a) {t : Handles}
    (ht : s.step a = some t) : t.Covered none none := by
  cases a with
  | fuseOpen dir inode =>
    obtain ⟨-, ht⟩ := Option.ite_none_right_eq_some.mp ht
    cases ht
    exact h.schedule rfl rfl
  | fuseRelease f =>
    obtain ⟨⟨hf, -⟩, ht⟩ := Option.ite_none_right_eq_some.mp ht
    cases ht
    refine h.of_eq (t := s.released f) ?_ ?_ rfl rfl
    · rw [owners, owners, users_released hf]
      rfl
    · rw [holders_released hf]
  | fuseGetattr inode file =>
    cases file with
    | none =>
      cases ht
      exact h.schedule rfl rfl
    | some f =>
      obtain ⟨-, ht⟩ := Option.ite_none_right_eq_some.mp ht
      cases ht
      exact h.schedule rfl rfl
  | fuseRead f =>
    obtain ⟨-, ht⟩ := Option.ite_none_right_eq_some.mp ht
    cases ht
    exact h.same ⟨rfl, rfl, rfl, rfl, rfl⟩
  | fuseReadDir plus f =>
    obtain ⟨-, ht⟩ := Option.ite_none_right_eq_some.mp ht
    cases ht
    exact h.schedule rfl rfl
  | fetchBlock read =>
    obtain ⟨-, ht⟩ := Option.ite_none_right_eq_some.mp ht
    cases ht
    exact h.schedule rfl rfl
  | replyRead read =>
    obtain ⟨-, ht⟩ := Option.ite_none_right_eq_some.mp ht
    cases ht
    exact h.same ⟨rfl, rfl, rfl, rfl, rfl⟩
  | execute => exact h.same (same_execute ht).1
  | serve found => exact h.serve hclean ht
  | readFile read =>
    obtain ⟨-, ht⟩ := Option.ite_none_right_eq_some.mp ht
    cases ht
    exact h.same ⟨rfl, rfl, rfl, rfl, rfl⟩
  | answer handle accepted =>
    cases hclean
    exact h.answer hs ht

structure AtRest (s : Handles) : Prop where
  jobs : s.jobs = []
  requests : s.requests = []
  responses : s.responses = []

/-- No handle is left behind: at rest those of the client and of the server are the ones of the open files, one each. -/
theorem handles_at_rest {actions : List Action} {s : Handles} (h : Path step Clean initial actions s) (hrest : s.AtRest) :
    (∀ handle, (s.fileHandles handle).isSome = true ↔ ∃ f ∈ s.opened, f.handle = handle) ∧
      (∀ remoteFile inode, s.remoteFiles remoteFile = some inode ↔ ∃ f ∈ s.opened, s.file f = (inode, remoteFile)) ∧
      (s.opened.map OpenedFile.handle).Nodup ∧ (s.opened.map fun f => s.remoteFile f.handle).Nodup := by
  obtain ⟨hs, hcovered⟩ : s.Sound ∧ s.Covered none none := by
    refine h.invariant (P := fun s => s.Sound ∧ s.Covered none none) ?_ ⟨sound_initial, ?_⟩
    · exact fun _ _ _ hs hclean hstep => ⟨hs.1.step hstep, hs.2.step hs.1 hclean hstep⟩
    · exact ⟨fun _ hx => (Option.some_ne_none _ hx.symm).elim, fun _ hh => (Bool.false_ne_true hh).elim⟩
  have hpipeline : s.pipeline = [] := by
    rw [pipeline, hrest.jobs, hrest.requests]
    rfl
  have howners : s.owners = s.opened.map s.file := by
    rw [owners, users, hrest.responses, hpipeline]
    exact (zero_add _).trans (add_zero _)
  have hholders : s.holders = s.opened.map OpenedFile.handle := by
    rw [holders, hrest.responses, hpipeline]
    exact (zero_add _).trans (add_zero _)
  refine ⟨fun handle => ⟨fun hh => ?_, ?_⟩, fun remoteFile inode => ⟨fun hx => ?_, ?_⟩, hholders ▸ hs.apart, ?_⟩
  · have hmem := (Multiset.mem_add.mp (hcovered.fileHandle handle hh)).resolve_left List.not_mem_nil
    rw [hholders] at hmem
    exact Multiset.mem_map.mp hmem
  · rintro ⟨f, hf, rfl⟩
    exact hs.held _ (mem_holders_of_opened hf)
  · have hmem := (Multiset.mem_add.mp (hcovered.remoteFile (inode, remoteFile) hx)).resolve_left List.not_mem_nil
    rw [howners] at hmem
    exact Multiset.mem_map.mp hmem
  · rintro ⟨f, hf, hfile⟩
    have halive := hs.alive (mem_users_of_opened hf)
    rwa [hfile] at halive
  · have hdistinct := hs.distinct
    rw [howners, Multiset.map_map] at hdistinct
    exact hdistinct

def session : List Action :=
  [.fuseOpen false 5, .execute, .serve ⟨some 7, true⟩, .answer 100 true, .fuseOpen true 1, .execute,
    .serve ⟨some 8, true⟩, .answer 108 true, .fuseRelease ⟨false, 5, 100⟩, .execute, .serve ⟨none, true⟩, .answer 0 true]

theorem handles_at_rest_session : ∃ s, run step initial session = some s ∧ s.opened = {⟨true, 1, 108⟩} ∧
    (∀ handle, (s.fileHandles handle).isSome = true ↔ ∃ f ∈ s.opened, f.handle = handle) ∧
      (∀ remoteFile inode, s.remoteFiles remoteFile = some inode ↔ ∃ f ∈ s.opened, s.file f = (inode, remoteFile)) ∧
      (s.opened.map OpenedFile.handle).Nodup ∧ (s.opened.map fun f => s.remoteFile f.handle).Nodup := by
  obtain ⟨s, hrun, hopened, hrest⟩ : ∃ s, run step initial session = some s ∧ s.opened = {⟨true, 1, 108⟩} ∧ s.AtRest :=
    ⟨_, rfl, rfl, rfl, rfl, rfl⟩
  have hclean : Path step Clean initial session s := path_of_run hrun (by simp [session, Clean])
  exact ⟨s, hrun, hopened, handles_at_rest hclean hrest⟩

end Handles

end FastTransport.FileSystem
