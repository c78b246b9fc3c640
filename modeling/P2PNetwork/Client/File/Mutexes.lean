import P2PNetwork.Client.File.Locks
import P2PNetwork.Lib.LockOrder

/-!
# The mutexes of the file manager

`src/client/file/FileManager.cpp:106–275` with the mutexes of `FileManager.h:31–35`. A step is
one call on a mutex or on the condition variable, one round of a loop over a table, or one other
statement. Nothing protects the tables here but the calls on the mutexes that the source makes.
-/

open Lib

namespace P2PNetwork.Client

/-- The mutexes (`FileManager.h:31–34`). -/
inductive Mutex
  | writeLockMutex
  | readLockMutex
  | condVariableMutex
  deriving DecidableEq, Repr

/-- The loops over the tables that end at the first entry of the file. -/
inductive Loop
  /-- In `readLock`, over the writers (`FileManager.cpp:162–167`). -/
  | readTest
  /-- In `writeLock`, over the readers (`FileManager.cpp:231–238`). -/
  | writeTest
  /-- In `readLock`, over the readers (`FileManager.cpp:181–189`). -/
  | share
  /-- In `writeUnlock`, over the writers (`FileManager.cpp:262–272`). -/
  | unlock
  /-- In `getSegment`, over the readers (`FileManager.cpp:114–119`). -/
  | find
  deriving DecidableEq, Repr

/-- What a thread does next in `FileManager.cpp`. -/
inductive Point
  | outside
  /-- It locks `writeLockMutex` in front of the loop of `readLock` or `writeLock`. -/
  | entering (access : Access) (fileName : Filename)
  /-- It locks `readLockMutex` in `writeLock`. -/
  | second (fileName : Filename)
  /-- It looks at an entry of a table. -/
  | scanning (loop : Loop) (fileName : Filename) (i : Nat)
  /-- The file is locked; it unlocks the first mutex (`:170`, `:241`). -/
  | found (access : Access) (fileName : Filename)
  /-- It unlocks `writeLockMutex` in `writeLock` (`:242`). -/
  | leaving (fileName : Filename)
  /-- It locks `condVariableMutex` in front of `wait`. -/
  | letGo (access : Access) (fileName : Filename)
  /-- It calls `wait`. -/
  | waiting (access : Access) (fileName : Filename)
  /-- Inside `wait`, `condVariableMutex` unlocked. -/
  | asleep (access : Access) (fileName : Filename)
  /-- Inside `wait`, it locks `condVariableMutex` again. -/
  | notified (access : Access) (fileName : Filename)
  /-- Behind `wait`, it unlocks `condVariableMutex`. -/
  | awake (access : Access) (fileName : Filename)
  /-- The file is not locked; it unlocks `writeLockMutex` (`:178`) or `readLockMutex` (`:251`). -/
  | passed (access : Access) (fileName : Filename)
  /-- It locks `readLockMutex` in the second half of `readLock`. -/
  | registering (fileName : Filename)
  /-- Behind the loop of the second half, it opens the file (`:192–194`). -/
  | opening (fileName : Filename)
  /-- It tests whether the file has opened (`:196`). -/
  | opened (fileName : Filename) (opens : Bool)
  /-- It appends the open file to the readers (`:202`). -/
  | appending (fileName : Filename)
  /-- It appends the file to the writers (`:253`). -/
  | pushing (fileName : Filename)
  /-- It unlocks `writeLockMutex` at the end of `writeLock`. -/
  | pushed (fileName : Filename)
  /-- In a storing method; it locks `writeLockMutex` in `writeUnlock`. -/
  | storing (fileName : Filename)
  /-- Its entry is erased; it unlocks `writeLockMutex` (`:265`). -/
  | erased
  /-- It has found no entry; it unlocks `writeLockMutex` (`:273`). -/
  | missed
  /-- It locks `condVariableMutex` in `writeUnlock`. -/
  | announcing
  /-- It calls `notify_all`. -/
  | notifying
  /-- It unlocks `condVariableMutex` in `writeUnlock`. -/
  | announced
  /-- It locks `readLockMutex` in `readUnlock`. -/
  | closing (fileName : Filename)
  /-- In the loop of `readUnlock` (`:212–218`), with its iterator at position `i`; it has erased an
  entry or not. -/
  | erasing (erased : Bool) (fileName : Filename) (i : Nat)
  /-- It locks `readLockMutex` in `getSegment`. -/
  | looking (fileName : Filename)
  /-- It unlocks `readLockMutex` at the end of `readLock`, `readUnlock` or the search of
  `getSegment`. -/
  | releasing
  deriving DecidableEq, Repr

namespace Point

/-- The mutex that a thread locks next, and where it goes with it. -/
def locks : Point → Option (Mutex × Point)
  | .entering .read f => some (.writeLockMutex, .scanning .readTest f 0)
  | .entering .write f => some (.writeLockMutex, .second f)
  | .second f => some (.readLockMutex, .scanning .writeTest f 0)
  | .letGo a f => some (.condVariableMutex, .waiting a f)
  | .notified a f => some (.condVariableMutex, .awake a f)
  | .registering f => some (.readLockMutex, .scanning .share f 0)
  | .storing f => some (.writeLockMutex, .scanning .unlock f 0)
  | .announcing => some (.condVariableMutex, .notifying)
  | .closing f => some (.readLockMutex, .erasing false f 0)
  | .looking f => some (.readLockMutex, .scanning .find f 0)
  | _ => none

/-- The mutex that a thread unlocks next, and where it goes without it. -/
def unlocks : Point → Option (Mutex × Point)
  | .found .read f => some (.writeLockMutex, .letGo .read f)
  | .found .write f => some (.readLockMutex, .leaving f)
  | .leaving f => some (.writeLockMutex, .letGo .write f)
  | .waiting a f => some (.condVariableMutex, .asleep a f)
  | .awake a f => some (.condVariableMutex, .entering a f)
  | .passed .read f => some (.writeLockMutex, .registering f)
  | .passed .write f => some (.readLockMutex, .pushing f)
  | .pushed f => some (.writeLockMutex, .storing f)
  | .erased => some (.writeLockMutex, .announcing)
  | .missed => some (.writeLockMutex, .outside)
  | .announced => some (.condVariableMutex, .outside)
  | .releasing => some (.readLockMutex, .outside)
  | _ => none

/-- The mutexes that a thread has locked. -/
def holds : Point → List Mutex
  | .second _ | .leaving _ | .pushing _ | .pushed _ | .erased | .missed => [.writeLockMutex]
  | .scanning .readTest _ _ | .scanning .unlock _ _ => [.writeLockMutex]
  | .scanning .writeTest _ _ => [.readLockMutex, .writeLockMutex]
  | .scanning .share _ _ | .scanning .find _ _ => [.readLockMutex]
  | .found .read _ | .passed .read _ => [.writeLockMutex]
  | .found .write _ | .passed .write _ => [.readLockMutex, .writeLockMutex]
  | .waiting .. | .awake .. | .notifying | .announced => [.condVariableMutex]
  | .opening _ | .opened .. | .appending _ | .erasing .. | .releasing => [.readLockMutex]
  | _ => []

/-- Where a thread goes behind a loop that has found no entry of its file. -/
def afterLoop (f : Filename) : Loop → Point
  | .readTest => .passed .read f
  | .writeTest => .passed .write f
  | .share => .opening f
  | .unlock => .missed
  | .find => .releasing

/-- Where a thread goes from the entry of its file. -/
def atEntry (f : Filename) : Loop → Point
  | .readTest => .found .read f
  | .writeTest => .found .write f
  | .share => .releasing
  | .unlock => .erased
  | .find => .releasing

/-- `notify_all`, seen by another thread. -/
def woken : Point → Point
  | .asleep a f => .notified a f
  | p => p

end Point

/-- The threads at the file manager, and who has locked which mutex. -/
structure Mutexes (T : Type) where
  host : Host
  owner : Mutex → Option T
  pc : T → Point
  readers : List (T × Filename)
  writers : List (T × Filename)

/-- What a thread calls from outside. -/
inductive FileCall
  | readLock (fileName : Filename)
  | readUnlock (fileName : Filename)
  /-- A storing method, up to the end of its `writeLock`. -/
  | store (fileName : Filename)
  | getSegment (fileName : Filename)
  deriving DecidableEq, Repr

/-- A call, a step of a thread, and what can happen to a thread besides: its file does not open,
or `wait` returns without a notification. -/
inductive MutexEvent (T : Type)
  | call (t : T) (c : FileCall)
  | go (t : T) (opens : Bool)
  | openFails (t : T)
  | wake (t : T)

/-- The thread that makes a step. -/
def MutexEvent.thread {T : Type} : MutexEvent T → T
  | .call t _ => t
  | .go t _ => t
  | .openFails t => t
  | .wake t => t

namespace Mutexes

variable {T : Type}

/-- Nobody has locked anything. -/
def start (host : Host) : Mutexes T where
  host := { host with fm := {} }
  owner := fun _ ↦ none
  pc := fun _ ↦ .outside
  readers := []
  writers := []

/-- The files with an entry in the read-lock table. -/
def readLocked (s : Mutexes T) : List Filename := s.host.readLockedNames

/-- The files in the table of the writers. -/
def writeLocked (s : Mutexes T) : List Filename := s.host.fm.writeLockedFiles

/-- The table that a loop goes through. -/
def table (s : Mutexes T) : Loop → List Filename
  | .readTest | .unlock => s.writeLocked
  | .writeTest | .share | .find => s.readLocked

variable [DecidableEq T]

/-- Move one thread. -/
def goto (s : Mutexes T) (t : T) (p : Point) : Mutexes T :=
  { s with pc := Function.update s.pc t p }

/-- `mutex.lock()`. -/
def lock (s : Mutexes T) (t : T) (m : Mutex) : Option (Mutexes T) :=
  match s.owner m with
  | none => some { s with owner := Function.update s.owner m (some t) }
  | some _ => none

/-- `mutex.unlock()`. -/
def unlock (s : Mutexes T) (m : Mutex) : Mutexes T :=
  { s with owner := Function.update s.owner m none }

/-- What happens at the entry of the file, found at position `i`. -/
def hit (s : Mutexes T) (t : T) (f : Filename) (i : Nat) : Loop → Mutexes T
  | .share => { s with readers := (t, f) :: s.readers }
  | .unlock => { s with
      host.fm.writeLockedFiles := s.host.fm.writeLockedFiles.eraseIdx i
      writers := s.writers.erase (t, f) }
  | _ => s

/-- One round of a loop over a table. -/
def round (s : Mutexes T) (t : T) (loop : Loop) (f : Filename) (i : Nat) : Mutexes T :=
  match (s.table loop)[i]? with
  | none => s.goto t (.afterLoop f loop)
  | some g =>
    if g = f then (s.hit t f i loop).goto t (.atEntry f loop)
    else s.goto t (.scanning loop f (i + 1))

/-- The end of `readLock`: a file that has opened gets an entry. -/
def append (s : Mutexes T) (t : T) (f : Filename) : Mutexes T :=
  let entry : OpenedFile := { fileName := f, stream := .opened }
  { s with
    host.fm.readLockedFiles := s.host.fm.readLockedFiles ++ [entry]
    readers := (t, f) :: s.readers }

/-- The read lock that `readUnlock` gives back, where it has not done so. -/
def giveBack (s : Mutexes T) (t : T) (f : Filename) (erased : Bool) : Mutexes T :=
  if erased then s else { s with readers := s.readers.erase (t, f) }

/-- One round of the loop of `readUnlock`: the iterator is advanced behind an `erase` as in any
other round. There is none where it is past the end of the table. -/
def eraseRound (s : Mutexes T) (t : T) (erased : Bool) (f : Filename) (i : Nat) :
    Option (Mutexes T) :=
  if i = s.readLocked.length then some ((s.giveBack t f erased).goto t .releasing)
  else
    s.readLocked[i]?.map fun g ↦
      if g = f then
        ({ s.giveBack t f erased with
          host.fm.readLockedFiles := s.host.fm.readLockedFiles.eraseIdx i }).goto t
            (.erasing true f (i + 1))
      else s.goto t (.erasing erased f (i + 1))

/-- The next statement of a thread. -/
def go (s : Mutexes T) (t : T) (opens : Bool) : Option (Mutexes T) :=
  match (s.pc t).locks, (s.pc t).unlocks with
  | some (m, p), _ => (s.lock t m).map fun s ↦ s.goto t p
  | none, some (m, p) => some ((s.unlock m).goto t p)
  | none, none =>
    match s.pc t with
    | .scanning loop f i => some (s.round t loop f i)
    | .opening f => some (s.goto t (.opened f opens))
    | .opened f opens => some (s.goto t (if opens then .appending f else .releasing))
    | .appending f => some ((s.append t f).goto t .releasing)
    | .pushing f => some (({ s with
        host.fm.writeLockedFiles := s.host.fm.writeLockedFiles ++ [f]
        writers := (t, f) :: s.writers }).goto t (.pushed f))
    | .notifying => some (({ s with pc := fun u ↦ (s.pc u).woken }).goto t .announced)
    | .erasing erased f i => s.eraseRound t erased f i
    | _ => none

/-- The begin of a call; a thread unlocks for reading what it has locked. -/
def call (s : Mutexes T) (t : T) (c : FileCall) : Option (Mutexes T) :=
  if s.pc t = .outside then
    match c with
    | .readLock f => some (s.goto t (.entering .read f))
    | .readUnlock f => if s.readers.contains (t, f) then some (s.goto t (.closing f)) else none
    | .store f => some (s.goto t (.entering .write f))
    | .getSegment f => some (s.goto t (.looking f))
  else none

/-- One step of one thread. -/
def step (s : Mutexes T) : MutexEvent T → Option (Mutexes T)
  | .call t c => s.call t c
  | .go t opens => s.go t opens
  | .openFails t =>
    match s.pc t with
    | .storing _ => some (s.goto t .outside)
    | _ => none
  | .wake t =>
    match s.pc t with
    | .asleep a f => some (s.goto t (.notified a f))
    | _ => none

/-- The loop of `readUnlock` has left the table, with `readLockMutex` locked: a thread looks at an
entry past the end. -/
def Left (s : Mutexes T) : Prop :=
  ∃ t erased f i, s.pc t = .erasing erased f i ∧ s.readLocked.length < i

end Mutexes

end P2PNetwork.Client
