import FastTransport.Protocol.MessageRoundTrip
import FastTransport.TaskQueue.MessageTypeReadJob

/-! The jobs that write the messages of the remote file system and the jobs that read them, field by field. -/

namespace FastTransport.TaskQueue

open Protocol Lib.Bytes

inductive Reading
  | done
  | next (type : FieldType) (rest : Field → Reading)

namespace Reading

def all : List FieldType → Reading → Reading
  | [], rest => rest
  | type :: types, rest => next type fun _ => all types rest

def Agrees : Reading → List Field → Prop
  | done, fields => fields = []
  | next _ _, [] => False
  | next type rest, f :: fields => f.type = type ∧ (rest f).Agrees fields

end Reading

def follow : MessageReader → Reading → Option (List Field × MessageReader)
  | r, .done => some ([], r)
  | r, .next type rest =>
    (r.readField type).bind fun v => (follow v.2 (rest v.1)).map fun x => (v.1 :: x.1, x.2)

lemma Reading.Agrees.follow {reading : Reading} {fields : List Field} (h : reading.Agrees fields)
    {r r' : MessageReader} (hr : r.readFields (fields.map Field.type) = some (fields, r')) :
    follow r reading = some (fields, r') := by
  induction fields generalizing reading r with
  | nil =>
    cases reading with
    | done => exact hr
    | next type rest => exact h.elim
  | cons f fields ih =>
    cases reading with
    | done => cases h
    | next type rest =>
      obtain ⟨rfl, h⟩ := h
      obtain ⟨v, hv, hr⟩ := Option.bind_eq_some_iff.mp hr
      obtain ⟨x, hx, he⟩ := Option.map_eq_some_iff.mp hr
      cases he
      rw [TaskQueue.follow, hv, Option.bind_some, ih h hx]
      rfl

inductive CType
  | int | uint8 | uint32 | uint64 | pointer | fuseIno | size | off | mode | nlink | uid | gid | timespec | fileInfo
  deriving DecidableEq, Repr

def CType.sizeof (fileInfo : ℕ) : CType → ℕ
  | uint8 => 1
  | int | uint32 | mode | uid | gid => 4
  | uint64 | pointer | fuseIno | size | off | nlink => 8
  | timespec => 16
  | .fileInfo => fileInfo

namespace MessageType

def value : MessageType → ℕ
  | requestTree => 1
  | responseTree => 2
  | requestGetAttr => 9
  | responseGetAttr => 10
  | requestLookup => 11
  | responseLookup => 12
  | requestOpenDir => 13
  | responseOpenDir => 14
  | requestOpen => 15
  | responseOpen => 16
  | requestRelease => 17
  | responseRelease => 18
  | requestForgetMulti => 19
  | responseForgetMulti => 20
  | requestReleaseDir => 21
  | responseReleaseDir => 22
  | requestRead => 23
  | responseRead => 24
  | requestReadDir => 25
  | responseReadDir => 26
  | requestReadDirPlus => 27
  | responseReadDirPlus => 28
  | notifyInvalInode => 29
  | notifyInvalEntry => 30

lemma ofValue_value (t : MessageType) : ofValue t.value = some t := by cases t <;> rfl

def field (t : MessageType) : Field := .trivial (toBytes size t.value)

end MessageType

section

variable {n : ℕ}

abbrev Value (n : ℕ) (t : CType) : Type := BitVec (8 * t.sizeof n)

def put (t : CType) (v : Value n t) : Field := .trivial (toBytes (t.sizeof n) v.toNat)

def get (n : ℕ) (t : CType) : FieldType := .trivial (t.sizeof n)

def putString (s : List UInt8) : Field := .sequence 1 s.length s

def fuseRootId : Value n .fuseIno := 1

structure Stat (n : ℕ) where
  mode : Value n .mode
  nlink : Value n .nlink
  size : Value n .off
  uid : Value n .uid
  gid : Value n .gid
  mtim : Value n .timespec

structure ForgetData where
  ino : UInt64
  nlookup : UInt64

def ForgetData.bytes (f : ForgetData) : List UInt8 := toBytes 8 f.ino.toNat ++ toBytes 8 f.nlookup.toNat

/-- A call that fails has set `errno`. -/
abbrev Errno (n : ℕ) : Type := { e : Value n .int // e ≠ 0 }

inductive Sent (n : ℕ)
  | requestGetAttr (request : Value n .pointer) (inode serverInode : Value n .fuseIno) (remoteFile : Value n .pointer)
  | responseGetAttr (request : Value n .pointer) (clientInode inode : Value n .fuseIno) (error : Value n .int)
      (stbuf : Stat n)
  | requestLookup (request : Value n .pointer) (parent : Value n .fuseIno) (name : List UInt8)
  | responseLookup (request : Value n .pointer) (parentId : Value n .fuseIno) (name : List UInt8) (notFound : Bool)
      (error : Value n .int) (inode : Value n .fuseIno) (size : Value n .uint64) (stbuf : Stat n)
  | requestOpen (request : Value n .pointer) (inode : Value n .fuseIno) (fileInfo : Value n .fileInfo)
  | responseOpen (request : Value n .pointer) (fileInfo : Value n .fileInfo)
      (opened : Except (Errno n) (Value n .pointer))
  | requestOpenDir (request : Value n .pointer) (inode : Value n .fuseIno) (fileInfo : Value n .fileInfo)
  | responseOpenDir (request : Value n .pointer) (fileInfo : Value n .fileInfo)
      (opened : Except (Errno n) (Value n .pointer))
  | requestRelease (request : Value n .pointer) (inode : Value n .fuseIno) (remoteFile handle : Value n .pointer)
  | responseRelease (request : Value n .pointer) (inode : Value n .fuseIno) (handle : Value n .pointer)
  | requestReleaseDir (request : Value n .pointer) (inode : Value n .fuseIno) (remoteFile handle : Value n .pointer)
  | responseReleaseDir (request : Value n .pointer) (inode : Value n .fuseIno) (fileHandle : Value n .pointer)
      (closed : Except (Errno n) Unit)
  | requestRead (request : Value n .pointer) (inode : Value n .fuseIno) (size : Value n .size)
      (offset skipped : Value n .off) (remoteFile : Value n .pointer)
  | responseRead (request : Value n .pointer) (inode : Value n .fuseIno) (size : Value n .size)
      (offset skipped : Value n .off) (readed : List Packet) (errno : Value n .int)
  | requestReadDir (request : Value n .pointer) (inode : Value n .fuseIno) (size : Value n .size)
      (offset : Value n .off) (remoteFile : Value n .pointer)
  | responseReadDir (request : Value n .pointer) (entries : List Packet)
  | requestReadDirPlus (request : Value n .pointer) (inode serverInode : Value n .fuseIno) (size : Value n .size)
      (offset : Value n .off) (remoteFile : Value n .pointer)
  | responseReadDirPlus (request : Value n .pointer) (clientInode : Value n .fuseIno) (entries : List Packet)
  | requestForgetMulti (request : Value n .pointer) (forgets : List ForgetData)
  | responseForgetMulti (request : Value n .pointer)
  | notifyInvalInode (serverInode : Value n .uint64)
  | notifyInvalEntry (eventType : Value n .uint32) (parentServerInode : Value n .uint64) (name : List UInt8)
      (serverInode size : Value n .uint64) (isDir : Bool)

def putStat (inode : Value n .fuseIno) (stbuf : Stat n) : List Field :=
  [put .fuseIno inode, put .mode stbuf.mode, put .nlink stbuf.nlink, put .off stbuf.size, put .uid stbuf.uid,
    put .gid stbuf.gid, put .timespec stbuf.mtim]

/-- `ResponseGetAttrJob`: the mode and the link count of the root are written as `int`. -/
def responseGetAttrJob (request : Value n .pointer) (clientInode inode : Value n .fuseIno) (error : Value n .int)
    (stbuf : Stat n) : List Field :=
  [MessageType.responseGetAttr.field, put .pointer request] ++
    if inode = fuseRootId then
      [put (n := n) .int 0, put .fuseIno clientInode, put (n := n) .int 0o40755, put (n := n) .int 2,
        put (n := n) .off 0, put (n := n) .uid 0, put (n := n) .gid 0, put (n := n) .timespec 0]
    else
      [put .int error] ++ if error = 0 then putStat clientInode stbuf else []

def responseLookupJob (request : Value n .pointer) (parentId : Value n .fuseIno) (name : List UInt8)
    (notFound : Bool) (error : Value n .int) (inode : Value n .fuseIno) (size : Value n .uint64) (stbuf : Stat n) :
    List Field :=
  [MessageType.responseLookup.field, put .pointer request, put .fuseIno parentId, putString name] ++
    if notFound then [put (n := n) .int 2]
    else
      [put .int error] ++
        if error = 0 then
          [put .fuseIno inode, put .mode stbuf.mode, put .nlink stbuf.nlink, put .uint64 size, put .uid stbuf.uid,
            put .gid stbuf.gid, put .timespec stbuf.mtim]
        else []

def openedFields (type : MessageType) (request : Value n .pointer) (fileInfo : Value n .fileInfo)
    (opened : Except (Errno n) (Value n .pointer)) : List Field :=
  [type.field, put .pointer request] ++
    match opened with
    | .error errno => [put .int errno.1]
    | .ok remoteFile => [put (n := n) .int 0, put .fileInfo fileInfo, put .pointer remoteFile]

/-- `ResponseReleaseDirJob`: a `Close` that fails ends the message at its error. -/
def responseReleaseDirJob (request : Value n .pointer) (inode : Value n .fuseIno) (fileHandle : Value n .pointer)
    (closed : Except (Errno n) Unit) : List Field :=
  [MessageType.responseReleaseDir.field, put .pointer request] ++
    if inode = fuseRootId then [put (n := n) .int 0, put .pointer fileHandle]
    else
      match closed with
      | .error errno => [put .int errno.1]
      | .ok () => [put (n := n) .int 0, put .pointer fileHandle]

/-- `ResponseReadFileJob`: where nothing was read, the error is what `errno` holds. -/
def responseReadFileJob (request : Value n .pointer) (inode : Value n .fuseIno) (size : Value n .size)
    (offset skipped : Value n .off) (readed : List Packet) (errno : Value n .int) : List Field :=
  [MessageType.responseRead.field, put .pointer request, put .fuseIno inode, put .size size, put .off offset,
    put .off skipped] ++
    if readed = [] then [put .int errno] else [put (n := n) .int 0, .packets readed]

def Sent.fields : Sent n → List Field
  | requestGetAttr request inode serverInode remoteFile =>
    [MessageType.requestGetAttr.field, put .pointer request, put .fuseIno inode, put .fuseIno serverInode,
      put .pointer remoteFile]
  | responseGetAttr request clientInode inode error stbuf =>
    responseGetAttrJob request clientInode inode error stbuf
  | requestLookup request parent name =>
    [MessageType.requestLookup.field, put .pointer request, put .fuseIno parent, putString name]
  | responseLookup request parentId name notFound error inode size stbuf =>
    responseLookupJob request parentId name notFound error inode size stbuf
  | requestOpen request inode fileInfo =>
    [MessageType.requestOpen.field, put .pointer request, put .fuseIno inode, put .fileInfo fileInfo]
  | responseOpen request fileInfo opened => openedFields .responseOpen request fileInfo opened
  | requestOpenDir request inode fileInfo =>
    [MessageType.requestOpenDir.field, put .pointer request, put .fuseIno inode, put .fileInfo fileInfo]
  | responseOpenDir request fileInfo opened => openedFields .responseOpenDir request fileInfo opened
  | requestRelease request inode remoteFile handle =>
    [MessageType.requestRelease.field, put .pointer request, put .fuseIno inode, put .pointer remoteFile,
      put .pointer handle]
  | responseRelease request _ handle =>
    [MessageType.responseRelease.field, put .pointer request, put (n := n) .int 0, put .pointer handle]
  | requestReleaseDir request inode remoteFile handle =>
    [MessageType.requestReleaseDir.field, put .pointer request, put .fuseIno inode, put .pointer remoteFile,
      put .pointer handle]
  | responseReleaseDir request inode fileHandle closed => responseReleaseDirJob request inode fileHandle closed
  | requestRead request inode size offset skipped remoteFile =>
    [MessageType.requestRead.field, put .pointer request, put .fuseIno inode, put .size size, put .off offset,
      put .off skipped, put .pointer remoteFile]
  | responseRead request inode size offset skipped readed errno =>
    responseReadFileJob request inode size offset skipped readed errno
  | requestReadDir request inode size offset remoteFile =>
    [MessageType.requestReadDir.field, put .pointer request, put .fuseIno inode, put .size size, put .off offset,
      put .pointer remoteFile]
  | responseReadDir request entries =>
    [MessageType.responseReadDir.field, put .pointer request, .packets entries]
  | requestReadDirPlus request inode serverInode size offset remoteFile =>
    [MessageType.requestReadDirPlus.field, put .pointer request, put .fuseIno inode, put .fuseIno serverInode,
      put .size size, put .off offset, put .pointer remoteFile]
  | responseReadDirPlus request clientInode entries =>
    [MessageType.responseReadDirPlus.field, put .pointer request, put .fuseIno clientInode, .packets entries]
  | requestForgetMulti request forgets =>
    [MessageType.requestForgetMulti.field, put .pointer request,
      .sequence 16 forgets.length (forgets.flatMap ForgetData.bytes)]
  | responseForgetMulti request => [MessageType.responseForgetMulti.field, put .pointer request]
  | notifyInvalInode serverInode => [MessageType.notifyInvalInode.field, put .uint64 serverInode]
  | notifyInvalEntry eventType parentServerInode name serverInode size isDir =>
    [MessageType.notifyInvalEntry.field, put .uint32 eventType, put .uint64 parentServerInode, putString name,
      put .uint64 serverInode, put .uint64 size, put (n := n) .uint8 (if isDir then 1 else 0)]

def unlessError (n : ℕ) (rest : Reading) : Reading :=
  .next (get n .int) fun f => if ofBytes f.bytes ≠ 0 then .done else rest

def getStat (n : ℕ) : List FieldType :=
  [get n .fuseIno, get n .mode, get n .nlink, get n .off, get n .uid, get n .gid, get n .timespec]

/-- What the job of a message type reads behind the type; the tree messages are not among them. -/
def reads (n : ℕ) : MessageType → Reading
  | .requestTree | .responseTree => .done
  | .requestGetAttr => .all [get n .pointer, get n .fuseIno, get n .fuseIno, get n .pointer] .done
  | .responseGetAttr => .all [get n .pointer] (unlessError n (.all (getStat n) .done))
  | .requestLookup => .all [get n .pointer, get n .fuseIno, .sequence 1] .done
  | .responseLookup =>
    .all [get n .pointer, get n .fuseIno, .sequence 1] (unlessError n (.all (getStat n) .done))
  | .requestOpen | .requestOpenDir => .all [get n .pointer, get n .fuseIno, get n .fileInfo] .done
  | .responseOpen | .responseOpenDir =>
    .all [get n .pointer] (unlessError n (.all [get n .fileInfo, get n .pointer] .done))
  | .requestRelease | .requestReleaseDir =>
    .all [get n .pointer, get n .fuseIno, get n .pointer, get n .pointer] .done
  | .responseRelease | .responseReleaseDir => .all [get n .pointer, get n .int, get n .pointer] .done
  | .requestRead =>
    .all [get n .pointer, get n .fuseIno, get n .size, get n .off, get n .off, get n .pointer] .done
  | .responseRead =>
    .all [get n .pointer, get n .fuseIno, get n .size, get n .off, get n .off]
      (unlessError n (.all [.packets] .done))
  | .requestReadDir => .all [get n .pointer, get n .fuseIno, get n .size, get n .off, get n .pointer] .done
  | .responseReadDir => .all [get n .pointer, .packets] .done
  | .requestReadDirPlus =>
    .all [get n .pointer, get n .fuseIno, get n .fuseIno, get n .size, get n .off, get n .pointer] .done
  | .responseReadDirPlus => .all [get n .pointer, get n .fuseIno, .packets] .done
  | .requestForgetMulti => .all [get n .pointer, .sequence 16] .done
  | .responseForgetMulti => .all [get n .pointer] .done
  | .notifyInvalInode => .all [get n .uint64] .done
  | .notifyInvalEntry =>
    .all [get n .uint32, get n .uint64, .sequence 1, get n .uint64, get n .uint64, get n .uint8] .done

def receive (n : ℕ) : Reading :=
  .next (.trivial MessageType.size) fun f =>
    match MessageType.ofValue (ofBytes f.bytes) with
    | some type => reads n type
    | none => .done

def Sent.InStep : Sent n → Prop
  | responseGetAttr _ _ inode _ _ => inode ≠ fuseRootId
  | responseReleaseDir _ inode _ closed => inode = fuseRootId ∨ ∃ u, closed = .ok u
  | responseRead _ _ _ _ _ readed errno => readed ≠ [] ∨ errno ≠ 0
  | _ => True

@[simp] lemma put_type (t : CType) (v : Value n t) : (put t v).type = get n t :=
  congrArg FieldType.trivial (toBytes_length _ _)

@[simp] lemma putString_type (s : List UInt8) : (putString s).type = .sequence 1 := rfl

@[simp] lemma packets_type (ps : List Packet) : (Field.packets ps).type = .packets := rfl

@[simp] lemma MessageType.field_type (t : MessageType) : t.field.type = .trivial MessageType.size :=
  congrArg FieldType.trivial (toBytes_length _ _)

lemma ofBytes_put_int (v : Value n .int) : ofBytes (put .int v).bytes = v.toNat :=
  ofBytes_toBytes_of_lt (lt_of_lt_of_eq v.isLt (Nat.pow_mul 2 8 4))

lemma ofBytes_field (t : MessageType) : ofBytes t.field.bytes = t.value :=
  ofBytes_toBytes_of_lt (by cases t <;> decide)

@[simp] lemma agrees_done (fields : List Field) : Reading.done.Agrees fields ↔ fields = [] := Iff.rfl

@[simp] lemma agrees_all_nil (rest : Reading) (fields : List Field) :
    (Reading.all [] rest).Agrees fields ↔ rest.Agrees fields := Iff.rfl

@[simp] lemma agrees_all_cons (t : FieldType) (ts : List FieldType) (rest : Reading) (f : Field)
    (fields : List Field) :
    (Reading.all (t :: ts) rest).Agrees (f :: fields) ↔ f.type = t ∧ (Reading.all ts rest).Agrees fields :=
  Iff.rfl

@[simp] lemma agrees_all_missing (t : FieldType) (ts : List FieldType) (rest : Reading) :
    ¬ (Reading.all (t :: ts) rest).Agrees [] := id

@[simp] lemma agrees_receive (t : MessageType) (fields : List Field) :
    (receive n).Agrees (t.field :: fields) ↔ (reads n t).Agrees fields := by
  simp only [receive, Reading.Agrees, MessageType.field_type, true_and, ofBytes_field, MessageType.ofValue_value]

lemma agrees_unlessError_zero (rest : Reading) (fields : List Field) :
    (unlessError n rest).Agrees (put (n := n) .int 0 :: fields) ↔ rest.Agrees fields := by
  simp only [unlessError, Reading.Agrees, put_type, true_and, ofBytes_put_int]
  rfl

lemma agrees_unlessError_of_ne (rest : Reading) {v : Value n .int} (hv : v ≠ 0) (fields : List Field) :
    (unlessError n rest).Agrees (put .int v :: fields) ↔ fields = [] := by
  have hn : v.toNat ≠ 0 := fun h => hv (BitVec.eq_of_toNat_eq h)
  simp only [unlessError, Reading.Agrees, put_type, true_and, ofBytes_put_int, if_pos hn]

lemma responseGetAttr_agrees_iff (request : Value n .pointer) (clientInode inode : Value n .fuseIno)
    (error : Value n .int) (stbuf : Stat n) :
    (receive n).Agrees (responseGetAttrJob request clientInode inode error stbuf) ↔ inode ≠ fuseRootId := by
  have hhead (fields : List Field) :
      (receive n).Agrees ([MessageType.responseGetAttr.field, put .pointer request] ++ fields) ↔
        (unlessError n (.all (getStat n) .done)).Agrees fields := by
    rw [List.cons_append, agrees_receive]
    exact and_iff_right (put_type .pointer request)
  rw [responseGetAttrJob, hhead]
  split_ifs with hroot herror
  · have hw : get n .int ≠ get n .nlink := fun h => absurd (FieldType.trivial.inj h) (by simp [CType.sizeof])
    rw [agrees_unlessError_zero]
    simp [hroot, getStat, hw]
  · rw [herror, List.singleton_append, agrees_unlessError_zero]
    simp [hroot, getStat, putStat]
  · rw [List.singleton_append, agrees_unlessError_of_ne _ herror]
    simp [hroot]

lemma responseLookup_agrees (request : Value n .pointer) (parentId : Value n .fuseIno) (name : List UInt8)
    (notFound : Bool) (error : Value n .int) (inode : Value n .fuseIno) (size : Value n .uint64) (stbuf : Stat n) :
    (receive n).Agrees (responseLookupJob request parentId name notFound error inode size stbuf) := by
  have hhead (fields : List Field) :
      (receive n).Agrees ([MessageType.responseLookup.field, put .pointer request, put .fuseIno parentId,
        putString name] ++ fields) ↔ (unlessError n (.all (getStat n) .done)).Agrees fields := by
    rw [List.cons_append, agrees_receive]
    simp [reads]
  have herrno : (2 : Value n .int) ≠ 0 := (by decide : (2 : BitVec 32) ≠ 0)
  rw [responseLookupJob, hhead]
  split_ifs with hfound herror
  · exact (agrees_unlessError_of_ne _ herrno _).mpr rfl
  · have hsize : get n .uint64 = get n .off := rfl
    rw [herror, List.singleton_append, agrees_unlessError_zero]
    simp [getStat, hsize]
  · exact (agrees_unlessError_of_ne _ herror _).mpr rfl

lemma opened_agrees {type : MessageType}
    (htype : reads n type = .all [get n .pointer] (unlessError n (.all [get n .fileInfo, get n .pointer] .done)))
    (request : Value n .pointer) (fileInfo : Value n .fileInfo) (opened : Except (Errno n) (Value n .pointer)) :
    (receive n).Agrees (openedFields type request fileInfo opened) := by
  have hhead (fields : List Field) : (receive n).Agrees ([type.field, put .pointer request] ++ fields) ↔
      (unlessError n (.all [get n .fileInfo, get n .pointer] .done)).Agrees fields := by
    rw [List.cons_append, agrees_receive, htype]
    simp
  cases opened with
  | error errno => exact (hhead _).mpr ((agrees_unlessError_of_ne _ errno.2 _).mpr rfl)
  | ok remoteFile =>
    refine (hhead _).mpr ((agrees_unlessError_zero _ _).mpr ?_)
    simp

lemma responseReleaseDir_agrees_iff (request : Value n .pointer) (inode : Value n .fuseIno)
    (fileHandle : Value n .pointer) (closed : Except (Errno n) Unit) :
    (receive n).Agrees (responseReleaseDirJob request inode fileHandle closed) ↔
      inode = fuseRootId ∨ ∃ u, closed = .ok u := by
  have hhead (fields : List Field) :
      (receive n).Agrees ([MessageType.responseReleaseDir.field, put .pointer request] ++ fields) ↔
        (Reading.all [get n .int, get n .pointer] .done).Agrees fields := by
    rw [List.cons_append, agrees_receive]
    exact and_iff_right (put_type .pointer request)
  unfold responseReleaseDirJob
  rw [hhead]
  split_ifs with hroot
  · simp [hroot]
  · cases closed with
    | error errno => simp [hroot]
    | ok u => simp

lemma responseRead_agrees_iff (request : Value n .pointer) (inode : Value n .fuseIno) (size : Value n .size)
    (offset skipped : Value n .off) (readed : List Packet) (errno : Value n .int) :
    (receive n).Agrees (responseReadFileJob request inode size offset skipped readed errno) ↔
      readed ≠ [] ∨ errno ≠ 0 := by
  have hhead (fields : List Field) :
      (receive n).Agrees ([MessageType.responseRead.field, put .pointer request, put .fuseIno inode,
        put .size size, put .off offset, put .off skipped] ++ fields) ↔
          (unlessError n (.all [.packets] .done)).Agrees fields := by
    rw [List.cons_append, agrees_receive]
    simp [reads]
  rw [responseReadFileJob, hhead]
  split_ifs with hreaded
  · by_cases herrno : errno = 0
    · rw [herrno, agrees_unlessError_zero]
      exact iff_of_false id fun h => h.elim (absurd hreaded) (absurd rfl)
    · exact iff_of_true ((agrees_unlessError_of_ne _ herrno _).mpr rfl) (Or.inr herrno)
  · rw [agrees_unlessError_zero]
    simp [hreaded]

lemma agrees_iff_inStep (m : Sent n) : (receive n).Agrees m.fields ↔ m.InStep := by
  cases m with
  | responseGetAttr request clientInode inode error stbuf =>
    exact responseGetAttr_agrees_iff request clientInode inode error stbuf
  | responseLookup request parentId name notFound error inode size stbuf =>
    exact iff_of_true (responseLookup_agrees request parentId name notFound error inode size stbuf) trivial
  | responseOpen request fileInfo opened => exact iff_of_true (opened_agrees rfl request fileInfo opened) trivial
  | responseOpenDir request fileInfo opened =>
    exact iff_of_true (opened_agrees rfl request fileInfo opened) trivial
  | responseReleaseDir request inode fileHandle closed =>
    exact responseReleaseDir_agrees_iff request inode fileHandle closed
  | responseRead request inode size offset skipped readed errno =>
    exact responseRead_agrees_iff request inode size offset skipped readed errno
  | requestForgetMulti request forgets =>
    refine iff_of_true ((agrees_receive _ _).mpr ?_) trivial
    simp only [reads, agrees_all_cons, put_type, true_and]
    exact ⟨rfl, rfl⟩
  | _ =>
    refine iff_of_true ((agrees_receive _ _).mpr ?_) trivial
    simp [reads]

theorem encoders_decoders_agree_iff (m : Sent n) :
    ((receive n).Agrees m.fields ↔ m.InStep) ∧
      (m.InStep → ∀ r r' : MessageReader, r.readFields (m.fields.map Field.type) = some (m.fields, r') →
        follow r (receive n) = some (m.fields, r')) :=
  ⟨agrees_iff_inStep m, fun hm _ _ hr => ((agrees_iff_inStep m).mpr hm).follow hr⟩

theorem encoders_decoders_agree_notify :
    follow ⟨[Packet.ofPayload [1, 0, 0, 0, 29, 0, 0, 0, 1, 2, 0, 0, 0, 0, 0, 0]], 0, 4⟩ (receive 40) =
      some ((Sent.notifyInvalInode 513 : Sent 40).fields,
        ⟨[Packet.ofPayload [1, 0, 0, 0, 29, 0, 0, 0, 1, 2, 0, 0, 0, 0, 0, 0]], 0, 16⟩) :=
  (encoders_decoders_agree_iff (Sent.notifyInvalInode 513 : Sent 40)).2 trivial _ _ (by decide)

theorem root_attributes_out_of_step : ¬ ∀ (n : ℕ) (m : Sent n), (receive n).Agrees m.fields := by
  intro h
  have hroot := (agrees_iff_inStep _).mp (h 40 (.responseGetAttr 0 fuseRootId fuseRootId 0 ⟨0, 0, 0, 0, 0, 0⟩))
  exact hroot rfl

end

end FastTransport.TaskQueue
