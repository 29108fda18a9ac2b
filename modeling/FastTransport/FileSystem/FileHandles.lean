import FastTransport.Lib.Runs

/-! The file handles of both sides: what the kernel opens, reads and releases, the messages that carry the pointers,
and the threads of the server that follow them. -/

namespace FastTransport.FileSystem

structure OpenedFile where
  dir : Bool
  inode : ℕ
  handle : ℕ
  deriving DecidableEq, Repr

/-- A read that the kernel waits for, as its `FuseReadFileJob` keeps it, with the handle it came with. -/
structure FuseRead where
  inode : ℕ
  handle : ℕ
  remoteFile : ℕ
  deriving DecidableEq, Repr

structure DiskRead where
  inode : ℕ
  remoteFile : ℕ
  deriving DecidableEq, Repr

namespace Handles

inductive Job
  | requestOpen (dir : Bool) (inode : ℕ)
  | requestRelease (dir : Bool) (inode handle : ℕ)
  | requestGetAttr (inode remoteFile : ℕ)
  | requestReadDir (plus : Bool) (inode remoteFile : ℕ)
  | requestReadFile (inode remoteFile : ℕ)
  deriving DecidableEq, Repr

/-- A request is told by the client's inode it is about, as its `fuse_req_t` does. -/
inductive Request
  | openFile (dir : Bool) (inode : ℕ)
  | release (dir : Bool) (inode remoteFile handle : ℕ)
  | getAttr (inode remoteFile : ℕ)
  | readDir (plus : Bool) (inode remoteFile : ℕ)
  | readFile (inode remoteFile : ℕ)
  deriving DecidableEq, Repr

inductive Response
  | openFile (dir : Bool) (inode : ℕ) (remoteFile : Option ℕ)
  | release (dir : Bool) (inode : ℕ) (handle : Option ℕ)
  deriving DecidableEq, Repr

end Handles

/-- A `FileHandle` holds the address of a `RemoteFileHandle`, and that the file which a request for an inode opened. -/
structure Handles where
  fileHandles : ℕ → Option ℕ
  opened : Multiset OpenedFile
  reads : Multiset FuseRead
  jobs : List Handles.Job
  requests : List Handles.Request
  remoteFiles : ℕ → Option ℕ
  diskQueues : Multiset DiskRead
  responses : List Handles.Response

namespace Handles

def initial : Handles := ⟨fun _ => none, 0, 0, [], [], fun _ => none, 0, []⟩

/-- What a `FileHandle` that is gone would hold does not matter: no job comes to read it. -/
def remoteFile (s : Handles) (handle : ℕ) : ℕ := (s.fileHandles handle).getD 0

def schedule (s : Handles) (job : Job) : Handles := { s with jobs := s.jobs ++ [job] }

def respond (s : Handles) (response : Response) : Handles := { s with responses := s.responses ++ [response] }

/-- `FuseOpen` and `FuseOpendir`: the kernel opens the root as a directory only. -/
def fuseOpen (s : Handles) (dir : Bool) (inode : ℕ) : Option Handles :=
  if dir = true ∨ inode ≠ 1 then some (s.schedule (.requestOpen dir inode)) else none

/-- `FuseRelease` and `FuseReleaseDir`, once for a handle and after its reads are answered. -/
def fuseRelease (s : Handles) (file : OpenedFile) : Option Handles :=
  if file ∈ s.opened ∧ ∀ read ∈ s.reads, read.handle ≠ file.handle then
    some { s with opened := s.opened.erase file, jobs := s.jobs ++ [.requestRelease file.dir file.inode file.handle] }
  else none

def fuseGetattr (s : Handles) (inode : ℕ) : Option OpenedFile → Option Handles
  | none => some (s.schedule (.requestGetAttr inode 0))
  | some file =>
    if file ∈ s.opened ∧ file.inode = inode then some (s.schedule (.requestGetAttr inode (s.remoteFile file.handle)))
    else none

def fuseRead (s : Handles) (file : OpenedFile) : Option Handles :=
  if file ∈ s.opened ∧ file.dir = false then
    some { s with reads := ⟨file.inode, file.handle, s.remoteFile file.handle⟩ ::ₘ s.reads }
  else none

def fuseReadDir (s : Handles) (plus : Bool) (file : OpenedFile) : Option Handles :=
  if file ∈ s.opened ∧ file.dir = true then
    some (s.schedule (.requestReadDir plus file.inode (s.remoteFile file.handle)))
  else none

def fetchBlock (s : Handles) (read : FuseRead) : Option Handles :=
  if read ∈ s.reads then some (s.schedule (.requestReadFile read.inode read.remoteFile)) else none

def replyRead (s : Handles) (read : FuseRead) : Option Handles :=
  if read ∈ s.reads then some { s with reads := s.reads.erase read } else none

def Job.toRequest (remoteFile : ℕ → ℕ) : Job → Request
  | requestOpen dir inode => .openFile dir inode
  | requestRelease dir inode handle => .release dir inode (remoteFile handle) handle
  | requestGetAttr inode remoteFile => .getAttr inode remoteFile
  | requestReadDir plus inode remoteFile => .readDir plus inode remoteFile
  | requestReadFile inode remoteFile => .readFile inode remoteFile

def execute (s : Handles) : Option Handles :=
  match s.jobs with
  | [] => none
  | job :: jobs => some { s with jobs := jobs, requests := s.requests ++ [job.toRequest s.remoteFile] }

def responseOpen (s : Handles) (dir : Bool) (inode : ℕ) : Option ℕ → Option Handles
  | none => some (s.respond (.openFile dir inode none))
  | some remoteFile =>
    if remoteFile ≠ 0 ∧ s.remoteFiles remoteFile = none then
      some { s with
        remoteFiles := Function.update s.remoteFiles remoteFile (some inode)
        responses := s.responses ++ [.openFile dir inode (some remoteFile)] }
    else none

def responseOpenJob (s : Handles) (inode : ℕ) (file : Option ℕ) : Option Handles := s.responseOpen false inode file

def responseOpenDirJob (s : Handles) (inode : ℕ) (file : Option ℕ) : Option Handles := s.responseOpen true inode file

def delete (s : Handles) (remoteFile : ℕ) : Handles :=
  { s with remoteFiles := Function.update s.remoteFiles remoteFile none }

/-- The release of the root is an assertion that fails. -/
def responseReleaseJob (s : Handles) (inode remoteFile handle : ℕ) : Option Handles :=
  if inode = 1 then none else some ((s.delete remoteFile).respond (.release false inode (some handle)))

/-- The handle of a directory that cannot be closed is never deleted, and neither is the client's. -/
def responseReleaseDirJob (s : Handles) (inode remoteFile handle : ℕ) (closed : Bool) : Handles :=
  if inode = 1 ∨ closed = true then (s.delete remoteFile).respond (.release true inode (some handle))
  else s.respond (.release true inode none)

structure Found where
  file : Option ℕ
  closed : Bool

def response (s : Handles) (found : Found) : Request → Option Handles
  | .openFile false inode => s.responseOpenJob inode found.file
  | .openFile true inode => s.responseOpenDirJob inode found.file
  | .release false inode remoteFile handle => s.responseReleaseJob inode remoteFile handle
  | .release true inode remoteFile handle => some (s.responseReleaseDirJob inode remoteFile handle found.closed)
  | .getAttr _ _ => some s
  | .readDir _ _ _ => some s
  | .readFile inode remoteFile => some { s with diskQueues := ⟨inode, remoteFile⟩ ::ₘ s.diskQueues }

def serve (s : Handles) (found : Found) : Option Handles :=
  match s.requests with
  | [] => none
  | request :: requests => response { s with requests := requests } found request

/-- A thread of the disk; the four of them take turns, so that any read may be next. -/
def readFile (s : Handles) (read : DiskRead) : Option Handles :=
  if read ∈ s.diskQueues then some { s with diskQueues := s.diskQueues.erase read } else none

def responseOpenIn (s : Handles) (dir : Bool) (inode handle : ℕ) (accepted : Bool) : Option ℕ → Option Handles
  | none => some s
  | some remoteFile =>
    if s.fileHandles handle = none then
      some { s with
        fileHandles := Function.update s.fileHandles handle (some remoteFile)
        opened := if accepted then ⟨dir, inode, handle⟩ ::ₘ s.opened else s.opened }
    else none

/-- `handle` is where the new `FileHandle` lies, `accepted` whether the kernel takes the reply. -/
def responseOpenInJob (s : Handles) (inode : ℕ) (file : Option ℕ) (handle : ℕ) (accepted : Bool) : Option Handles :=
  s.responseOpenIn false inode handle accepted file

def responseOpenDirInJob (s : Handles) (inode : ℕ) (file : Option ℕ) (handle : ℕ) (accepted : Bool) :
    Option Handles :=
  s.responseOpenIn true inode handle accepted file

def responseReleaseIn (s : Handles) : Option ℕ → Handles
  | none => s
  | some handle => { s with fileHandles := Function.update s.fileHandles handle none }

def responseReleaseInJob (s : Handles) (handle : Option ℕ) : Handles := s.responseReleaseIn handle

def responseReleaseDirInJob (s : Handles) (handle : Option ℕ) : Handles := s.responseReleaseIn handle

def answer (s : Handles) (handle : ℕ) (accepted : Bool) : Option Handles :=
  match s.responses with
  | [] => none
  | response :: responses =>
    let s := { s with responses := responses }
    match response with
    | .openFile false inode file => s.responseOpenInJob inode file handle accepted
    | .openFile true inode file => s.responseOpenDirInJob inode file handle accepted
    | .release false _ handle => some (s.responseReleaseInJob handle)
    | .release true _ handle => some (s.responseReleaseDirInJob handle)

inductive Action
  | fuseOpen (dir : Bool) (inode : ℕ)
  | fuseRelease (file : OpenedFile)
  | fuseGetattr (inode : ℕ) (file : Option OpenedFile)
  | fuseRead (file : OpenedFile)
  | fuseReadDir (plus : Bool) (file : OpenedFile)
  | fetchBlock (read : FuseRead)
  | replyRead (read : FuseRead)
  | execute
  | serve (found : Found)
  | readFile (read : DiskRead)
  | answer (handle : ℕ) (accepted : Bool)

def step (s : Handles) : Action → Option Handles
  | .fuseOpen dir inode => s.fuseOpen dir inode
  | .fuseRelease file => s.fuseRelease file
  | .fuseGetattr inode file => s.fuseGetattr inode file
  | .fuseRead file => s.fuseRead file
  | .fuseReadDir plus file => s.fuseReadDir plus file
  | .fetchBlock read => s.fetchBlock read
  | .replyRead read => s.replyRead read
  | .execute => s.execute
  | .serve found => s.serve found
  | .readFile read => s.readFile read
  | .answer handle accepted => s.answer handle accepted

inductive Pointer
  | fileHandle (handle : ℕ)
  | remoteFile (inode remoteFile : ℕ)
  deriving DecidableEq, Repr

def Alive (s : Handles) : Pointer → Prop
  | .fileHandle handle => (s.fileHandles handle).isSome = true
  | .remoteFile inode remoteFile => s.remoteFiles remoteFile = some inode

def follows (s : Handles) : Action → List Pointer
  | .fuseGetattr _ (some file) | .fuseRead file | .fuseReadDir _ file => [.fileHandle file.handle]
  | .execute =>
    match s.jobs with
    | .requestRelease _ _ handle :: _ => [.fileHandle handle]
    | _ => []
  | .serve _ =>
    match s.requests with
    | .release _ inode remoteFile _ :: _ => [.remoteFile inode remoteFile]
    | .getAttr inode remoteFile :: _ => if inode = 1 ∨ remoteFile = 0 then [] else [.remoteFile inode remoteFile]
    | _ => []
  | .readFile read => [.remoteFile read.inode read.remoteFile]
  | .answer _ _ =>
    match s.responses with
    | .release _ _ (some handle) :: _ => [.fileHandle handle]
    | _ => []
  | _ => []

end Handles

end FastTransport.FileSystem
