import FastTransport.Lib.Runs

/-! The leaves of the two sides of the remote file system and their lookup counts: the calls of the kernel, the
jobs of the client's main queue, the messages in flight and the jobs of the server's main queue. -/

namespace FastTransport.FileSystem

/-- A leaf with what holds it: an `nlookup` that wraps around shows as a negative one. -/
structure CountedLeaf where
  children : List (String × ℕ)
  deleted : Bool
  serverInode : ℕ
  nlookup : ℤ
  selfPin : Bool
  deriving DecidableEq, Repr

namespace CountedLeaf

def create (deleted : Bool) : CountedLeaf := ⟨[], deleted, 0, 0, false⟩

def addRef (l : CountedLeaf) : CountedLeaf :=
  { l with nlookup := l.nlookup + 1, selfPin := l.selfPin || l.nlookup = 0 }

def releaseRef (l : CountedLeaf) (nlookup : ℕ) : CountedLeaf :=
  { l with nlookup := l.nlookup - nlookup, selfPin := l.selfPin && l.nlookup ≠ nlookup }

end CountedLeaf

/-- The leaves of one side by their addresses; `FUSE_ROOT_ID` stands for the root. -/
abbrev Leaves := ℕ → CountedLeaf

namespace Leaves

def addRef (ls : Leaves) (a : ℕ) : Leaves := Function.update ls a (ls a).addRef

def releaseRef (ls : Leaves) (a nlookup : ℕ) : Leaves := Function.update ls a ((ls a).releaseRef nlookup)

def setServerInode (ls : Leaves) (a inode : ℕ) : Leaves :=
  Function.update ls a { ls a with serverInode := inode }

def find (ls : Leaves) (parent : ℕ) (name : String) : Option ℕ := (ls parent).children.lookup name

/-- An address that can be given to a new leaf: a leaf that is pinned lives. -/
def Free (ls : Leaves) (a : ℕ) : Prop := 1 < a ∧ (ls a).nlookup = 0 ∧ (ls a).selfPin = false

instance (ls : Leaves) (a : ℕ) : Decidable (ls.Free a) := inferInstanceAs (Decidable (_ ∧ _))

def insertChild (ls : Leaves) (parent : ℕ) (name : String) (a : ℕ) : Leaves :=
  Function.update ls parent
    { ls parent with children := (ls parent).children.orderedInsert (fun e e' => e.1 ≤ e'.1) (name, a) }

def addChild (ls : Leaves) (parent : ℕ) (name : String) (address : ℕ) (deleted : Bool) : Option (Leaves × ℕ) :=
  match ls.find parent name with
  | some a => some (ls, a)
  | none =>
    if ls.Free address ∧ address ≠ parent then
      some (insertChild (Function.update ls address (.create deleted)) parent name address, address)
    else none

def removeChild (ls : Leaves) (parent : ℕ) (name : String) : Leaves :=
  Function.update ls parent { ls parent with children := (ls parent).children.filter fun e => e.1 ≠ name }

def rescan (ls : Leaves) (parent : ℕ) (entries : List (String × ℕ)) : Option Leaves :=
  entries.foldlM (fun ls e => (ls.addChild parent e.1 e.2 false).map Prod.fst) ls

def toServerInode (ls : Leaves) (a : ℕ) : ℕ :=
  if a = 1 then 1 else if (ls a).serverInode ≠ 0 then (ls a).serverInode else a

end Leaves

/-- The jobs that the calls of the kernel schedule. A request is told by the inode it is about. -/
inductive FuseJob
  | lookup (parent : ℕ) (name : String)
  | openFile (dir : Bool) (inode : ℕ)
  | release (dir : Bool) (inode : ℕ)
  | readDirPlus (inode size offset : ℕ)
  | forgetMulti (forgets : List (ℕ × ℕ))
  | releaseLeafRef (inode nlookup : ℕ)
  deriving DecidableEq, Repr

inductive FuseRequest
  | lookup (request parent : ℕ) (name : String)
  | openFile (dir : Bool) (request inode : ℕ)
  | release (dir : Bool) (request inode : ℕ)
  | readDirPlus (request inode size offset : ℕ)
  | forgetMulti (forgets : List (ℕ × ℕ))
  deriving DecidableEq, Repr

/-- What the server sends; a lookup without an inode and an open that is not `opened` carry an error. -/
inductive FuseResponse
  | lookup (request parentId : ℕ) (name : String) (inode : Option ℕ)
  | openFile (dir : Bool) (request : ℕ) (opened : Bool)
  | release (dir : Bool) (request : ℕ)
  | readDirPlus (request : ℕ) (entries : List (String × ℕ))
  | forgetMulti
  | notifyInvalEntry (created : Bool) (parentServerInode : ℕ) (name : String) (serverInode : ℕ)
  deriving DecidableEq, Repr

def FuseJob.request : FuseJob → Option ℕ
  | .lookup a _ | .openFile _ a | .release _ a | .readDirPlus a _ _ => some a
  | .forgetMulti _ | .releaseLeafRef _ _ => none

def FuseRequest.request : FuseRequest → Option ℕ
  | .lookup a _ _ | .openFile _ a _ | .release _ a _ | .readDirPlus a _ _ _ => some a
  | .forgetMulti _ => none

def FuseResponse.request : FuseResponse → Option ℕ
  | .lookup a _ _ _ | .openFile _ a _ | .release _ a | .readDirPlus a _ => some a
  | .forgetMulti | .notifyInvalEntry _ _ _ _ => none

/-- A thread in `FuseForget`, or in `FuseForgetmulti` where `multi`: it has two kinds of jobs to schedule. -/
structure ForgetCall where
  multi : Bool
  halfway : Bool
  forgets : List (ℕ × ℕ)
  deriving DecidableEq, Repr

namespace ForgetCall

def untranslated (f : ForgetCall) : List (ℕ × ℕ) := if f.multi || !f.halfway then f.forgets else []

def unreleased (f : ForgetCall) : List (ℕ × ℕ) := if !f.multi || !f.halfway then f.forgets else []

end ForgetCall

structure Remote where
  server : Leaves
  notices : List (Bool × ℕ × String × ℕ)
  client : Leaves
  refs : Multiset ℕ
  handles : Multiset ℕ
  forgetting : List ForgetCall
  jobs : List FuseJob
  requests : List FuseRequest
  responses : List FuseResponse

structure Found where
  notFound : Bool
  deleted : Bool
  address : ℕ
  statFails : Bool
  opened : Bool
  scanned : List (String × ℕ)

structure Reply where
  accepted : Bool
  parent : Option ℕ
  addresses : List ℕ

namespace Remote

def outstanding (s : Remote) : List ℕ :=
  s.jobs.filterMap FuseJob.request ++ s.requests.filterMap FuseRequest.request ++
    s.responses.filterMap FuseResponse.request

def untranslated (s : Remote) : List (ℕ × ℕ) := s.forgetting.flatMap ForgetCall.untranslated

def Knows (s : Remote) (a : ℕ) : Prop := a = 1 ∨ a ∈ s.refs

instance (s : Remote) (a : ℕ) : Decidable (s.Knows a) := inferInstanceAs (Decidable (_ ∨ _))

def dropRefs (refs : Multiset ℕ) : List (ℕ × ℕ) → Option (Multiset ℕ)
  | [] => some refs
  | (a, n) :: forgets => if 0 < n ∧ n ≤ refs.count a then dropRefs (refs - .replicate n a) forgets else none

def forget (s : Remote) (multi : Bool) (forgets : List (ℕ × ℕ)) : Option Remote :=
  (dropRefs s.refs forgets).bind fun refs =>
    if ∀ a ∈ forgets.map Prod.fst, a ∉ refs → a ∉ s.handles ∧ a ∉ s.outstanding then
      some { s with refs := refs, forgetting := s.forgetting ++ [⟨multi, false, forgets⟩] }
    else none

/-- `RequestForgetMultiJob` reads the server inodes when it is made. -/
def requestForgetMulti (s : Remote) (forgets : List (ℕ × ℕ)) : List FuseJob :=
  [.forgetMulti (forgets.map fun f => (s.client.toServerInode f.1, f.2))]

def releaseLeafRefs (forgets : List (ℕ × ℕ)) : List FuseJob := forgets.map fun f => .releaseLeafRef f.1 f.2

/-- `FuseForget` makes the request first, `FuseForgetmulti` releases the leaves first. -/
def proceed (s : Remote) (thread : ℕ) : Option Remote :=
  (s.forgetting[thread]?).map fun f =>
    { s with
      forgetting :=
        if f.halfway then s.forgetting.eraseIdx thread else s.forgetting.set thread { f with halfway := true }
      jobs := s.jobs ++ if f.multi = f.halfway then s.requestForgetMulti f.forgets else releaseLeafRefs f.forgets }

def execute (s : Remote) : Option Remote :=
  match s.jobs with
  | [] => none
  | .lookup a name :: jobs =>
    some { s with jobs := jobs, requests := s.requests ++ [.lookup a (s.client.toServerInode a) name] }
  | .openFile dir a :: jobs =>
    some { s with jobs := jobs, requests := s.requests ++ [.openFile dir a (s.client.toServerInode a)] }
  | .release dir a :: jobs =>
    some { s with jobs := jobs, requests := s.requests ++ [.release dir a (s.client.toServerInode a)] }
  | .readDirPlus a size offset :: jobs =>
    some { s with
      jobs := jobs, requests := s.requests ++ [.readDirPlus a (s.client.toServerInode a) size offset] }
  | .forgetMulti forgets :: jobs => some { s with jobs := jobs, requests := s.requests ++ [.forgetMulti forgets] }
  | .releaseLeafRef a n :: jobs => some { s with jobs := jobs, client := s.client.releaseRef a n }

def responseLookupJob (ls : Leaves) (request parentId : ℕ) (name : String) (found : Found) :
    Option (Leaves × FuseResponse) :=
  if ls.find parentId name = none ∧ found.notFound then some (ls, .lookup request parentId name none)
  else
    (ls.addChild parentId name found.address found.deleted).map fun x =>
      if found.statFails then (x.1, .lookup request parentId name none)
      else (x.1.addRef x.2, .lookup request parentId name (some x.2))

def responseOpenJob (ls : Leaves) (request inode : ℕ) (found : Found) : Leaves × FuseResponse :=
  (if found.opened then ls.addRef inode else ls, .openFile false request found.opened)

def responseOpenDirJob (ls : Leaves) (request inode : ℕ) (found : Found) : Leaves × FuseResponse :=
  (ls.addRef inode, .openFile true request found.opened)

def responseReleaseJob (ls : Leaves) (dir : Bool) (request inode : ℕ) : Leaves × FuseResponse :=
  (ls.releaseRef inode 1, .release dir request)

def entriesBelow (ls : Leaves) (entrySize : String → ℕ) (size : ℕ) :
    ℕ → List (String × ℕ) → List (String × ℕ)
  | _, [] => []
  | writed, e :: entries =>
    if writed + entrySize e.1 < size then
      if (ls e.2).deleted then entriesBelow ls entrySize size writed entries
      else e :: entriesBelow ls entrySize size (writed + entrySize e.1) entries
    else []

/-- The entries "." and ".." are not counted on either side. -/
def responseReadDirPlusJob (ls : Leaves) (entrySize : String → ℕ) (request inode size offset : ℕ)
    (found : Found) : Option (Leaves × FuseResponse) :=
  (ls.rescan inode found.scanned).map fun ls =>
    let writed := (if offset < 1 then entrySize "." else 0) + if offset < 2 then entrySize ".." else 0
    let entries := entriesBelow ls entrySize size writed ((ls inode).children.drop (offset - 2))
    ((entries.map Prod.snd).foldl Leaves.addRef ls, .readDirPlus request entries)

def responseForgetMultiJob (ls : Leaves) (forgets : List (ℕ × ℕ)) : Leaves × FuseResponse :=
  (forgets.foldl (fun ls f => ls.releaseRef f.1 f.2) ls, .forgetMulti)

def response (ls : Leaves) (entrySize : String → ℕ) (found : Found) :
    FuseRequest → Option (Leaves × FuseResponse)
  | .lookup request parent name => responseLookupJob ls request parent name found
  | .openFile false request inode => some (responseOpenJob ls request inode found)
  | .openFile true request inode => some (responseOpenDirJob ls request inode found)
  | .release dir request inode => some (responseReleaseJob ls dir request inode)
  | .readDirPlus request inode size offset =>
    responseReadDirPlusJob ls entrySize request inode size offset found
  | .forgetMulti forgets => some (responseForgetMultiJob ls forgets)

def serve (entrySize : String → ℕ) (s : Remote) (found : Found) : Option Remote :=
  match s.requests with
  | [] => none
  | request :: requests =>
    (response s.server entrySize found request).map fun x =>
      { s with server := x.1, requests := requests, responses := s.responses ++ [x.2] }

def inotify (s : Remote) (created : Bool) (parent : ℕ) (name : String) (address : ℕ) : Option Remote :=
  if created then
    (s.server.addChild parent name address false).map fun x =>
      { s with server := x.1, notices := s.notices ++ [(true, parent, name, x.2)] }
  else
    some { s with
      server := s.server.removeChild parent name
      notices := s.notices ++ [(false, parent, name, 0)] }

def sendNotice (s : Remote) : Option Remote :=
  match s.notices with
  | [] => none
  | (created, parent, name, inode) :: notices =>
    some { s with notices := notices, responses := s.responses ++ [.notifyInvalEntry created parent name inode] }

def addServerChild (ls : Leaves) (parent : ℕ) (name : String) (inode address : ℕ) : Option (Leaves × ℕ) :=
  (ls.addChild parent name address false).map fun x => (x.1.setServerInode x.2 inode, x.2)

def resolveClientInode (ls : Leaves) (parent : ℕ) (name : String) (inode address : ℕ) : Option (Leaves × ℕ) :=
  match ls.find parent name with
  | some a => some (ls, a)
  | none => addServerChild ls parent name inode address

def handOut (s : Remote) (accepted : Bool) (x : Leaves × ℕ) : Remote :=
  { s with client := x.1.addRef x.2, refs := if accepted then x.2 ::ₘ s.refs else s.refs }

def responseLookupInJob (s : Remote) (parentId : ℕ) (name : String) (inode : ℕ) (reply : Reply) : Option Remote :=
  match if parentId = 1 then some 1 else reply.parent with
  | none => some s
  | some parent =>
    (addServerChild s.client parent name inode (reply.addresses.headD 0)).map (s.handOut reply.accepted)

def patchEntry (parent : ℕ) (accepted : Bool) (s : Remote) (e : (String × ℕ) × ℕ) : Option Remote :=
  (resolveClientInode s.client parent e.1.1 e.1.2 e.2).map (s.handOut accepted)

/-- The kernel takes all entries of a reply or none. -/
def responseReadDirPlusInJob (s : Remote) (parent : ℕ) (entries : List (String × ℕ)) (reply : Reply) :
    Option Remote :=
  if reply.addresses.length = entries.length then
    (entries.zip reply.addresses).foldlM (patchEntry parent reply.accepted) s
  else none

def notifyInvalEntryJob (s : Remote) (created : Bool) (name : String) (inode : ℕ) (reply : Reply) : Option Remote :=
  match reply.parent with
  | none => some s
  | some parent =>
    if created then
      (addServerChild s.client parent name inode (reply.addresses.headD 0)).map fun x => { s with client := x.1 }
    else some { s with client := s.client.removeChild parent name }

def answer (s : Remote) (reply : Reply) : Option Remote :=
  match s.responses with
  | [] => none
  | response :: responses =>
    let s := { s with responses := responses }
    match response with
    | .lookup _ _ _ none => some s
    | .lookup _ parentId name (some inode) => s.responseLookupInJob parentId name inode reply
    | .openFile _ _ false => some s
    | .openFile _ request true =>
      some { s with handles := if reply.accepted then request ::ₘ s.handles else s.handles }
    | .release _ _ => some s
    | .readDirPlus request entries => s.responseReadDirPlusInJob request entries reply
    | .forgetMulti => some s
    | .notifyInvalEntry created _ name inode => s.notifyInvalEntryJob created name inode reply

inductive Action
  | fuseLookup (parent : ℕ) (name : String)
  | fuseOpen (dir : Bool) (inode : ℕ)
  | fuseRelease (dir : Bool) (inode : ℕ)
  | fuseReadDirPlus (inode size offset : ℕ)
  | fuseForget (multi : Bool) (forgets : List (ℕ × ℕ))
  | proceed (thread : ℕ)
  | execute
  | serve (found : Found)
  | inotify (created : Bool) (parent : ℕ) (name : String) (address : ℕ)
  | sendNotice
  | answer (reply : Reply)

def ask (s : Remote) (a : ℕ) (job : FuseJob) : Option Remote :=
  if s.Knows a then some { s with jobs := s.jobs ++ [job] } else none

def step (entrySize : String → ℕ) (s : Remote) : Action → Option Remote
  | .fuseLookup parent name => s.ask parent (.lookup parent name)
  | .fuseOpen dir inode => s.ask inode (.openFile dir inode)
  | .fuseRelease dir inode =>
    if inode ∈ s.handles then
      some { s with handles := s.handles.erase inode, jobs := s.jobs ++ [.release dir inode] }
    else none
  | .fuseReadDirPlus inode size offset => s.ask inode (.readDirPlus inode size offset)
  | .fuseForget multi forgets => s.forget multi forgets
  | .proceed thread => s.proceed thread
  | .execute => s.execute
  | .serve found => s.serve entrySize found
  | .inotify created parent name address => s.inotify created parent name address
  | .sendNotice => s.sendNotice
  | .answer reply => s.answer reply

def initial (server client : Leaves) : Remote := ⟨server, [], client, 0, 0, [], [], [], []⟩

end Remote

end FastTransport.FileSystem
