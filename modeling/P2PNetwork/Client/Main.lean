import P2PNetwork.Client.Database.Persistence
import P2PNetwork.Client.File.FileManager
import P2PNetwork.Lib.FormattedInput
import P2PNetwork.Lib.Run
import P2PNetwork.Shared.SharedUtils

/-!
# The client's menu

`main` and `runMenu` (`src/client/main.cpp:64–202`). What `getopt` returns is an input, and so is
what variables hold before they are read; other processes may change the disk between two rounds
of the menu. A stream that has failed is never cleared, so the menu asks for a choice for ever.
-/

open Lib

namespace P2PNetwork.Client

/-! ### The command line -/

/-- `#define CLIENT_DEFAULT_PORT 59096` (`main.cpp:17`). -/
def clientDefaultPort : Int := 59096

/-- What `getopt(argc, argv, ":p:t:")` returns, with `optarg`. -/
inductive Getopt
  | p (optarg : Bytes)
  | t (optarg : Bytes)
  /-- `:` or `?`: a message is printed. -/
  | problem
  deriving DecidableEq, Repr

/-- `strtol(s, nullptr, 10)`: zero without digits, and the nearest `long` out of range. -/
def strtol (s : Bytes) : Int :=
  match number (skipSpaces s) with
  | none => 0
  | some (n, _) => max (-2 ^ 63) (min n (2 ^ 63 - 1))

/-- The test of a port (`main.cpp:75–83`). -/
def potentialPort (optarg : Bytes) : Option Int :=
  let potentialPort := toInt32 (strtol optarg)
  if potentialPort < 1024 ∨ potentialPort > 65535 then none else some potentialPort

/-- One option: the port and the address of the tracker, or `exit(1)`. -/
def option (args : Int × Bytes) : Getopt → Option (Int × Bytes)
  | .p optarg => (potentialPort optarg).map fun port ↦ (port, args.2)
  | .t optarg => some (args.1, optarg)
  | .problem => some args

/-- `main` up to `runMenu` (`main.cpp:64–107`): its arguments, or nothing where `main` ends. -/
def main (options : List Getopt) : Option (Int × Bytes) := do
  let args ← options.foldlM option (clientDefaultPort, [])
  if args.2.isEmpty then none else some args

/-! ### The menu -/

/-- How a session ends. -/
inductive Ending
  | quit
  /-- The loop that reads a choice does not end. -/
  | stuck
  /-- `connListen` does not return. -/
  | listening (port : Int)
  /-- A manager was started for a file, and `std::terminate` ends the process because its thread
  is destroyed before it is joined. -/
  | terminated (file : File) (tracker : IpAddress)
  /-- `getFile` ends without a `return`. -/
  | undefined
  deriving DecidableEq, Repr

/-- A session: the standard input, the database, the machine and how the session has ended. -/
structure Session where
  cin : TextStream
  db : Database
  host : Host
  ended : Option Ending

/-- What variables of `loadFromFile` and `Torrent` hold before they are read. -/
structure Garbage where
  unset : Database.Unset
  nameSize : UInt32

namespace Session

variable (s : Session)

/-- `case 1` (`main.cpp:135–148`): `loadFromFile` with the name that is entered. -/
def addToDb (g : Garbage) : Session :=
  match s.cin.readWord with
  | (cin, none) => { s with cin := cin }
  | (cin, some fileName) =>
    { s with cin := cin, db := (s.db.loadFromFile s.host.disk g.unset fileName).1 }

/-- `case 2` (`main.cpp:149–166`). -/
def createFile (g : Garbage) : Session :=
  match s.cin.readWord with
  | (cin, none) => { s with cin := cin }
  | (cin, some fileName) =>
    let torrent := Torrent.ofFile s.host.disk g.nameSize fileName
    { s with cin := cin, host := s.host.createLocalFile torrent }

/-- `case 3` (`main.cpp:167–189`). The tracker has `TRACKER_PORT` (`main.cpp:15`). -/
def requestDownload (trackerIp : Bytes) (g : Garbage) : Session :=
  match s.cin.readWord with
  | (cin, none) => { s with cin := cin }
  | (cin, some torrentFileName) =>
    let requestedTorrent := Torrent.ofFile s.host.disk g.nameSize torrentFileName
    if s.db.isFileInDatabase requestedTorrent then
      match s.db.getFile (idOfHash requestedTorrent.hashed) with
      | none => { s with cin := cin, ended := some .undefined }
      | some file => { s with cin := cin, ended := some (.terminated file ⟨trackerIp, 59095⟩) }
    else { s with cin := cin }

/-- The `switch` (`main.cpp:134–199`); a choice that it does not name has no effect. -/
def choose (args : Int × Bytes) (g : Garbage) (choice : Int) : Session :=
  match choice with
  | 1 => s.addToDb g
  | 2 => s.createFile g
  | 3 => s.requestDownload args.2 g
  | 4 => { s with ended := some (.listening args.1) }
  | 5 => { s with ended := some .quit }
  | _ => s

/-- One round of `runMenu` (`main.cpp:112–200`). -/
def round (args : Int × Bytes) (g : Garbage) : Session :=
  match s.cin.readNumber (-2 ^ 31) (2 ^ 31 - 1) with
  | (cin, none) => { s with cin := cin, ended := some .stuck }
  | (cin, some choice) => { s with cin := cin }.choose args g choice

/-- A round of the menu, or another process changes the disk. -/
inductive Event
  | round (g : Garbage)
  | others (disk : Disk)

/-- Nothing happens in a session that has ended. -/
def step (args : Int × Bytes) (s : Session) : Event → Option Session
  | .round g => if s.ended = none then some (s.round args g) else none
  | .others disk => some { s with host := { s.host with disk := disk } }

/-- The session that `main` begins: an empty database and a file manager without locks. -/
def start (input : Bytes) (disk : Disk) : Session where
  cin := { rest := input }
  db := { files := [] }
  host := { disk := disk, fm := {} }
  ended := none

/-- The rounds of the menu in a run. -/
def rounds (es : List Event) : Nat := es.countP fun e ↦ match e with
  | .round _ => true
  | .others _ => false

/-- Every file in the database is a copy, which is empty. -/
def Blank (db : Database) : Prop := ∀ f ∈ db.files, f = f.copy

/-- What is loaded goes through `addFile`, which copies it. -/
theorem blank_loadFromFile {db : Database} (h : Blank db) (disk : Disk) (unset : Database.Unset)
    (filename : Bytes) : Blank (db.loadFromFile disk unset filename).1 := by
  have hloop (is : List Nat) (r : Database × InStream) (hr : Blank r.1) :
      Blank (is.foldl (Database.loadRecord disk unset) r).1 := by
    induction is generalizing r with
    | nil => exact hr
    | cons i is ih =>
      apply ih
      simp only [Database.loadRecord]
      split
      · exact hr
      · intro f hf
        rcases List.mem_append.mp hf with hold | hnew
        · exact hr f hold
        · rw [List.mem_singleton.mp hnew]
          rfl
  rw [Database.loadFromFile]
  split
  · exact h
  · apply hloop
    intro f hf
    cases hf

/-- Among blank files a torrent is found exactly if it has the hash 0 and there is a file. -/
theorem isFileInDatabase_iff {db : Database} (h : Blank db) (torrent : Torrent) :
    db.isFileInDatabase torrent = true ↔ torrent.hashed = 0 ∧ db.files ≠ [] := by
  have hhash (f : File) (hf : f ∈ db.files) : f.torrent.hashed = 0 := by
    rw [h f hf]
    rfl
  rw [Database.isFileInDatabase, List.any_eq_true]
  constructor
  · rintro ⟨f, hf, heq⟩
    rw [hhash f hf, beq_iff_eq] at heq
    exact ⟨heq.symm, List.ne_nil_of_mem hf⟩
  · rintro ⟨hzero, hne⟩
    obtain ⟨f, hf⟩ := List.exists_mem_of_ne_nil _ hne
    exact ⟨f, hf, by rw [hhash f hf, hzero, beq_self_eq_true]⟩

/-- The lookup then returns one of the files. -/
theorem exists_getFile {db : Database} (h : Blank db) {torrent : Torrent}
    (hfound : db.isFileInDatabase torrent = true) :
    ∃ file ∈ db.files, db.getFile (idOfHash torrent.hashed) = some file := by
  obtain ⟨hzero, hne⟩ := (isFileInDatabase_iff h torrent).mp hfound
  have hsome : (db.getFile (idOfHash torrent.hashed)).isSome = true := by
    rw [Database.getFile, List.find?_isSome]
    obtain ⟨f, hf⟩ := List.exists_mem_of_ne_nil _ hne
    have hid : f.getId = idOfHash torrent.hashed := by
      rw [h f hf, hzero]
      rfl
    exact ⟨f, hf, beq_iff_eq.mpr hid⟩
  obtain ⟨file, hfile⟩ := Option.isSome_iff_exists.mp hsome
  exact ⟨file, List.mem_of_find?_eq_some hfile, hfile⟩

/-- What a session can end with: a manager is started for a blank file only. -/
def Expected (args : Int × Bytes) : Ending → Prop
  | .quit | .stuck => True
  | .listening port => port = args.1
  | .terminated file tracker => file = file.copy ∧ tracker = ⟨args.2, 59095⟩
  | .undefined => False

/-- After some rounds every file is blank, each round has read something, and the session ends as
expected. -/
structure Sound (args : Int × Bytes) (input : Bytes) (rounds : Nat) (s : Session) : Prop where
  blank : Blank s.db
  bounded : rounds ≤ input.length + 1
  unread : s.ended = none → rounds + s.cin.rest.length ≤ input.length
  expected : ∀ ending, s.ended = some ending → Expected args ending

/-- A step that keeps the files blank, gives nothing back to the input and ends as expected. -/
structure Proceeds (args : Int × Bytes) (s s' : Session) : Prop where
  blank : Blank s'.db
  unread : s'.cin.rest.length ≤ s.cin.rest.length
  expected : ∀ ending, s'.ended = some ending → Expected args ending

section

variable {args : Int × Bytes} {s : Session} (hrunning : s.ended = none)

include hrunning

/-- What is done to the database and the disk does not end the session. -/
private theorem proceeds_running {s' : Session} (hdb : Blank s'.db) (hended : s'.ended = s.ended)
    (hread : s'.cin.rest.length ≤ s.cin.rest.length) : Proceeds args s s' where
  blank := hdb
  unread := hread
  expected := by
    intro ending h
    rw [hended, hrunning] at h
    cases h

variable (hblank : Blank s.db)

include hblank

private theorem proceeds_addToDb (g : Garbage) : Proceeds args s (s.addToDb g) := by
  have hread := @TextStream.length_readWord_le s.cin
  unfold addToDb
  split
  · next hword =>
    rw [hword] at hread
    exact proceeds_running hrunning hblank rfl hread
  · next hword =>
    rw [hword] at hread
    exact proceeds_running hrunning (blank_loadFromFile hblank _ _ _) rfl hread

private theorem proceeds_createFile (g : Garbage) : Proceeds args s (s.createFile g) := by
  have hread := @TextStream.length_readWord_le s.cin
  unfold createFile
  split
  · next hword =>
    rw [hword] at hread
    exact proceeds_running hrunning hblank rfl hread
  · next hword =>
    rw [hword] at hread
    exact proceeds_running hrunning hblank rfl hread

/-- A torrent that is found has a file, and the process ends. -/
private theorem proceeds_requestDownload (g : Garbage) :
    Proceeds args s (s.requestDownload args.2 g) := by
  have hread := @TextStream.length_readWord_le s.cin
  unfold requestDownload
  split
  · next hword =>
    rw [hword] at hread
    exact proceeds_running hrunning hblank rfl hread
  · next cin name hword =>
    rw [hword] at hread
    dsimp only
    split
    · next hfound =>
      obtain ⟨file, hmem, hfile⟩ := exists_getFile hblank hfound
      rw [hfile]
      refine ⟨hblank, hread, ?_⟩
      rintro ending ⟨⟩
      exact ⟨hblank file hmem, rfl⟩
    · exact proceeds_running hrunning hblank rfl hread

private theorem proceeds_choose (g : Garbage) (choice : Int) :
    Proceeds args s (s.choose args g choice) := by
  unfold choose
  split
  · exact proceeds_addToDb hrunning hblank g
  · exact proceeds_createFile hrunning hblank g
  · exact proceeds_requestDownload hrunning hblank g
  · refine ⟨hblank, Nat.le.refl, ?_⟩
    rintro ending ⟨⟩
    rfl
  · refine ⟨hblank, Nat.le.refl, ?_⟩
    rintro ending ⟨⟩
    trivial
  · exact proceeds_running hrunning hblank rfl Nat.le.refl

end

/-- A round reads a choice, or the session is stuck. -/
private theorem sound_round {args : Int × Bytes} {input : Bytes} {n : Nat} {s : Session}
    (h : Sound args input n s) (hrunning : s.ended = none) (g : Garbage) :
    Sound args input (n + 1) (s.round args g) := by
  have hunread := h.unread hrunning
  unfold round
  split
  · refine ⟨h.blank, by omega, ?_, ?_⟩
    · intro hended
      cases hended
    · rintro ending ⟨⟩
      trivial
  · next cin choice hread =>
    have hlt := TextStream.length_readNumber_lt hread
    obtain ⟨hblank, hle, hexpected⟩ :=
      @proceeds_choose args { s with cin := cin } hrunning h.blank g choice
    have hcin : (({ s with cin := cin } : Session).choose args g choice).cin.rest.length ≤
        cin.rest.length := hle
    exact ⟨hblank, by omega, fun _ ↦ by omega, hexpected⟩

private theorem sound_run {args : Int × Bytes} {input : Bytes} {disk : Disk} {es : List Event}
    {s : Session} (hrun : Run (step args) Any (start input disk) es s) :
    Sound args input (rounds es) s := by
  refine hrun.traceInvariant (P := fun es s ↦ Sound args input (rounds es) s) ?_ ?_
  · refine ⟨?_, Nat.zero_le _, ?_, ?_⟩
    · intro f hf
      cases hf
    · intro _
      exact Nat.le_of_eq (Nat.zero_add _)
    · intro ending hended
      cases hended
  · intro es s e s' _ h _ hs
    cases e with
    | round g =>
      have hcount : rounds (es ++ [.round g]) = rounds es + 1 := by simp [rounds]
      simp only [step, Option.ite_none_right_eq_some, Option.some.injEq] at hs
      obtain ⟨hrunning, rfl⟩ := hs
      rw [hcount]
      exact sound_round h hrunning g
    | others disk =>
      have hcount : rounds (es ++ [.others disk]) = rounds es := by simp [rounds]
      cases hs
      rw [hcount]
      exact ⟨h.blank, h.bounded, h.unread, h.expected⟩

/-- The port that `main` passes on has been tested, and there is a tracker. -/
theorem main_spec {options : List Getopt} {args : Int × Bytes} (h : main options = some args) :
    1024 ≤ args.1 ∧ args.1 ≤ 65535 ∧ args.2 ≠ [] := by
  obtain ⟨args', hoptions, hargs⟩ := Option.bind_eq_some_iff.mp h
  split at hargs
  · cases hargs
  · next htracker =>
    cases hargs
    have hport : 1024 ≤ args.1 ∧ args.1 ≤ 65535 := by
      refine (Run.of_foldlM hoptions Meets.any).invariant
        (P := fun args ↦ 1024 ≤ args.1 ∧ args.1 ≤ 65535) (by decide) ?_
      intro args o args' hport _ ho
      cases o with
      | p optarg =>
        obtain ⟨port, hpotential, rfl⟩ := Option.map_eq_some_iff.mp ho
        simp only [potentialPort, Option.ite_none_left_eq_some, Option.some.injEq] at hpotential
        omega
      | t optarg =>
        cases ho
        exact hport
      | problem =>
        cases ho
        exact hport
    exact ⟨hport.1, hport.2, by simpa using htracker⟩

/-- Whatever is entered, whatever the files of the machine are and however they change: a session
ends after at most one round more than it has bytes of input. The database finds a torrent exactly
if its hash is 0 and there is a file, so a download is only ever requested of a blank file, and the
process is terminated when it is. A session that listens does so on the port that was tested. -/
theorem session_run {options : List Getopt} {args : Int × Bytes} {input : Bytes} {disk : Disk}
    {es : List Event} {s : Session} (hmain : main options = some args)
    (hrun : Run (step args) Any (start input disk) es s) :
    1024 ≤ args.1 ∧ args.1 ≤ 65535 ∧ args.2 ≠ [] ∧
      rounds es ≤ input.length + 1 ∧
      (s.ended = none → rounds es + s.cin.rest.length ≤ input.length) ∧
      (∀ t, s.db.isFileInDatabase t = true ↔ t.hashed = 0 ∧ s.db.files ≠ []) ∧
      ∀ ending, s.ended = some ending → Expected args ending := by
  obtain ⟨hlow, hhigh, htracker⟩ := main_spec hmain
  have h := sound_run hrun
  exact ⟨hlow, hhigh, htracker, h.bounded, h.unread, isFileInDatabase_iff h.blank, h.expected⟩

/-! ### A request for a torrent file that does not exist -/

/-- The choice 1 with the name of an index, and the choice 3 with the name `x`. -/
def missingInput : Bytes := [49, 32] ++ Database.saveTest ++ [10, 51, 32, 120, 10]

/-- Every variable is zero before it is read. -/
def zeroGarbage : Garbage := ⟨Database.zeros, 0⟩

/-- The process is terminated: the file of the index is blank, and a torrent file that does not
exist has the hash 0. -/
theorem session_run_missing : ∃ s,
    Run (step (clientDefaultPort, [49])) Any (start missingInput (Database.saved Database.testDb))
      [.round zeroGarbage, .round zeroGarbage] s ∧
    s.ended = some (.terminated Database.f1.copy ⟨[49], 59095⟩) ∧
    (1024 ≤ clientDefaultPort ∧ clientDefaultPort ≤ 65535 ∧ ([49] : Bytes) ≠ [] ∧
      rounds [.round zeroGarbage, .round zeroGarbage] ≤ missingInput.length + 1 ∧
      (s.ended = none → rounds [.round zeroGarbage, .round zeroGarbage] + s.cin.rest.length ≤
        missingInput.length) ∧
      (∀ t, s.db.isFileInDatabase t = true ↔ t.hashed = 0 ∧ s.db.files ≠ []) ∧
      ∀ ending, s.ended = some ending → Expected (clientDefaultPort, [49]) ending) := by
  have hmain : main [.t [49]] = some (clientDefaultPort, [49]) := rfl
  have hrun : Run (step (clientDefaultPort, [49])) Any
      (start missingInput (Database.saved Database.testDb))
      [.round zeroGarbage, .round zeroGarbage] _ := Run.of_foldlM rfl Meets.any
  exact ⟨_, hrun, by decide, session_run hmain hrun⟩

end Session

end P2PNetwork.Client
