import P2PNetwork.Client.File.Mutexes

/-!
# Critical sections as single steps

The mutexes make each critical section of the file manager one step: what a thread has seen of a
table stays so while it has the mutex, and the states that are reached are those of the system
in which a critical section is a step.
-/

open Lib

namespace P2PNetwork.Client

/-- The order in which the mutexes are taken. -/
def Mutex.rank : Mutex → Nat
  | .writeLockMutex => 0
  | .readLockMutex => 1
  | .condVariableMutex => 2

namespace Point

variable {p p' : Point} {m : Mutex}

/-- What a thread has seen of the tables. -/
def Seen (readers writers : List Filename) : Point → Prop
  | .scanning .readTest f i | .scanning .unlock f i => f ∉ writers.take i
  | .scanning _ f i | .erasing false f i => f ∉ readers.take i
  | .opening f | .opened f _ | .appending f | .erasing true f _ => f ∉ readers
  | _ => True

/-- A thread is about to give the read lock of a file back. -/
def Unlocking (f : Filename) : Point → Prop
  | .closing g | .erasing false g _ => g = f
  | _ => False

/-- A thread is in the file manager and does not sleep. -/
def Busy : Point → Prop
  | .outside => False
  | .asleep .. => False
  | _ => True

theorem busy_of_holds (h : m ∈ p.holds) : p.Busy := by
  cases p with
  | outside | asleep => cases h
  | _ => trivial

/-- A thread locks no mutex twice. -/
theorem holds_of_locks (h : p.locks = some (m, p')) : m ∉ p.holds ∧ p'.holds = m :: p.holds := by
  unfold locks at h
  split at h <;> cases h <;> simp [holds]

/-- `writeLockMutex` comes before `readLockMutex`, and `condVariableMutex` is taken alone. -/
theorem rank_lt_of_locks {m' : Mutex} (h : p.locks = some (m, p')) (hm' : m' ∈ p.holds) :
    m'.rank < m.rank := by
  unfold locks at h
  split at h <;> cases h <;> simp_all [holds, Mutex.rank]

/-- A thread unlocks what it has locked. -/
theorem holds_of_unlocks (h : p.unlocks = some (m, p')) :
    p.holds = m :: p'.holds ∧ m ∉ p'.holds := by
  unfold unlocks at h
  split at h <;> cases h <;> simp [holds]

theorem holds_afterLoop (f : Filename) (loop : Loop) (i : Nat) :
    (afterLoop f loop).holds = (scanning loop f i).holds := by
  cases loop <;> rfl

theorem holds_atEntry (f : Filename) (loop : Loop) (i : Nat) :
    (atEntry f loop).holds = (scanning loop f i).holds := by
  cases loop <;> rfl

theorem holds_woken (p : Point) : p.woken.holds = p.holds := by
  cases p <;> rfl

/-- A thread that has seen something of a table has locked its mutex. -/
theorem Seen.congr {readers readers' writers writers' : List Filename}
    (hreaders : .readLockMutex ∈ p.holds → readers' = readers)
    (hwriters : .writeLockMutex ∈ p.holds → writers' = writers)
    (h : p.Seen readers writers) : p.Seen readers' writers' := by
  cases p with
  | scanning loop f i =>
    cases loop with
    | readTest => exact hwriters (List.mem_singleton_self _) ▸ h
    | unlock => exact hwriters (List.mem_singleton_self _) ▸ h
    | writeTest => exact hreaders List.mem_cons_self ▸ h
    | share => exact hreaders (List.mem_singleton_self _) ▸ h
    | find => exact hreaders (List.mem_singleton_self _) ▸ h
  | erasing erased f i =>
    cases erased with
    | false => exact hreaders (List.mem_singleton_self _) ▸ h
    | true => exact hreaders (List.mem_singleton_self _) ▸ h
  | opening f | opened f | appending f => exact hreaders (List.mem_singleton_self _) ▸ h
  | _ => trivial

theorem seen_woken {readers writers : List Filename} (h : p.Seen readers writers) :
    p.woken.Seen readers writers := by
  cases p with
  | asleep a f => trivial
  | _ => exact h

/-- A thread that has just locked a mutex has seen nothing yet. -/
theorem seen_of_locks (readers writers : List Filename) (h : p.locks = some (m, p')) :
    p'.Seen readers writers := by
  unfold locks at h
  split at h <;> cases h <;> simp [Seen]

theorem seen_of_unlocks (readers writers : List Filename) (h : p.unlocks = some (m, p')) :
    p'.Seen readers writers := by
  unfold unlocks at h
  split at h <;> cases h <;> trivial

/-- `readUnlock` locks its mutex in front of its loop. -/
theorem unlocking_of_locks {f : Filename} (h : p.locks = some (m, p')) (hp' : p'.Unlocking f) :
    p.Unlocking f := by
  unfold locks at h
  split at h <;> cases h <;> exact hp'

theorem not_unlocking_of_unlocks {f : Filename} (h : p.unlocks = some (m, p')) :
    ¬ p'.Unlocking f := by
  unfold unlocks at h
  split at h <;> cases h <;> exact id

theorem not_unlocking_afterLoop (f g : Filename) (loop : Loop) :
    ¬ (afterLoop f loop).Unlocking g := by
  cases loop <;> exact id

theorem not_unlocking_atEntry (f g : Filename) (loop : Loop) :
    ¬ (atEntry f loop).Unlocking g := by
  cases loop <;> exact id

theorem unlocking_of_woken {f : Filename} (h : p.woken.Unlocking f) : p.Unlocking f := by
  cases p with
  | asleep => cases h
  | _ => exact h

theorem seen_atEntry (readers writers : List Filename) (f : Filename) (loop : Loop) :
    (atEntry f loop).Seen readers writers := by
  cases loop <;> trivial

end Point

namespace Mutexes

variable {T : Type} [DecidableEq T] {s s' s₁ : Mutexes T} {e : MutexEvent T} {t : T} {p : Point}

/-- What is true in every state: mutexes belong to the threads that have locked them, what a
thread has seen of a table is still so, no file has two entries for readers, and a thread that
unlocks for reading has the lock. -/
structure Sound (s : Mutexes T) : Prop where
  owner : ∀ m t, s.owner m = some t ↔ m ∈ (s.pc t).holds
  seen : ∀ t, (s.pc t).Seen s.readLocked s.writeLocked
  nodup : s.readLocked.Nodup
  reader : ∀ t f, (s.pc t).Unlocking f → (t, f) ∈ s.readers

/-- What a step of a thread does: it takes only mutexes that are free, it changes a table only
under its mutex, and it wakes other threads at most. -/
structure Effect (s : Mutexes T) (t : T) (s' : Mutexes T) : Prop where
  taken : ∀ m ∈ (s'.pc t).holds, m ∉ (s.pc t).holds → s.owner m = none ∧ s'.owner m = some t
  given : ∀ m ∈ (s.pc t).holds, m ∉ (s'.pc t).holds → s'.owner m = none
  kept : ∀ m, (m ∈ (s'.pc t).holds ↔ m ∈ (s.pc t).holds) → s'.owner m = s.owner m
  others : ∀ u, u ≠ t → s'.pc u = s.pc u ∨ s'.pc u = (s.pc u).woken
  readLocked : .readLockMutex ∉ (s.pc t).holds → s'.readLocked = s.readLocked
  writeLocked : .writeLockMutex ∉ (s.pc t).holds → s'.writeLocked = s.writeLocked
  seen : s.readLocked.Nodup → (s.pc t).Seen s.readLocked s.writeLocked →
    (s'.pc t).Seen s'.readLocked s'.writeLocked
  nodup : s.readLocked.Nodup → (s.pc t).Seen s.readLocked s.writeLocked → s'.readLocked.Nodup
  readers : ∀ u f, u ≠ t → (u, f) ∈ s.readers → (u, f) ∈ s'.readers
  reader : ∀ f, (s'.pc t).Unlocking f →
    (t, f) ∈ s'.readers ∨ (s.pc t).Unlocking f ∧ s'.readers = s.readers

private theorem Sound.owner_step (hs : Sound s) (he : Effect s t s') (m : Mutex) (u : T) :
    s'.owner m = some u ↔ m ∈ (s'.pc u).holds := by
  by_cases hu : u = t
  · rw [hu]
    by_cases hafter : m ∈ (s'.pc t).holds
    · by_cases hbefore : m ∈ (s.pc t).holds
      · rw [he.kept m (iff_of_true hafter hbefore), hs.owner]
        exact iff_of_true hbefore hafter
      · exact iff_of_true (he.taken m hafter hbefore).2 hafter
    · by_cases hbefore : m ∈ (s.pc t).holds
      · rw [he.given m hbefore hafter]
        exact iff_of_false (fun h ↦ by cases h) hafter
      · rw [he.kept m (iff_of_false hafter hbefore), hs.owner]
        exact iff_of_false hbefore hafter
  · have hholds : (s'.pc u).holds = (s.pc u).holds := by
      rcases he.others u hu with h | h
      · rw [h]
      · rw [h, Point.holds_woken]
    rw [hholds, ← hs.owner m u]
    by_cases hafter : m ∈ (s'.pc t).holds
    · by_cases hbefore : m ∈ (s.pc t).holds
      · rw [he.kept m (iff_of_true hafter hbefore)]
      · rw [(he.taken m hafter hbefore).1, (he.taken m hafter hbefore).2, Option.some_inj]
        exact iff_of_false (fun h ↦ hu h.symm) fun h ↦ by cases h
    · by_cases hbefore : m ∈ (s.pc t).holds
      · rw [he.given m hbefore hafter, (hs.owner m t).mpr hbefore, Option.some_inj]
        exact iff_of_false (fun h ↦ by cases h) fun h ↦ hu h.symm
      · rw [he.kept m (iff_of_false hafter hbefore)]

omit [DecidableEq T] in
/-- Two threads do not have the same mutex. -/
private theorem Sound.eq_of_holds (hs : Sound s) {u : T} {m : Mutex} (ht : m ∈ (s.pc t).holds)
    (hu : m ∈ (s.pc u).holds) : u = t := by
  rw [← hs.owner] at ht hu
  exact Option.some_inj.mp (hu.symm.trans ht)

private theorem Sound.seen_step (hs : Sound s) (he : Effect s t s') (u : T) :
    (s'.pc u).Seen s'.readLocked s'.writeLocked := by
  by_cases hu : u = t
  · rw [hu]
    exact he.seen hs.nodup (hs.seen t)
  · have hkept : (s.pc u).Seen s'.readLocked s'.writeLocked := by
      refine (hs.seen u).congr ?_ ?_
      · exact fun hholds ↦ he.readLocked fun ht ↦ hu (hs.eq_of_holds ht hholds)
      · exact fun hholds ↦ he.writeLocked fun ht ↦ hu (hs.eq_of_holds ht hholds)
    rcases he.others u hu with h | h
    · rw [h]
      exact hkept
    · rw [h]
      exact Point.seen_woken hkept

private theorem Sound.reader_step (hs : Sound s) (he : Effect s t s') (u : T) (f : Filename)
    (hpc : (s'.pc u).Unlocking f) : (u, f) ∈ s'.readers := by
  by_cases hu : u = t
  · subst hu
    rcases he.reader f hpc with h | ⟨hbefore, hsame⟩
    · exact h
    · rw [hsame]
      exact hs.reader u f hbefore
  · apply he.readers u f hu
    apply hs.reader
    rcases he.others u hu with h | h
    · rwa [h] at hpc
    · rw [h] at hpc
      exact Point.unlocking_of_woken hpc

private theorem Sound.step (hs : Sound s) (he : Effect s t s') : Sound s' where
  owner := hs.owner_step he
  seen := hs.seen_step he
  nodup := he.nodup hs.nodup (hs.seen t)
  reader := hs.reader_step he

/-! ### Every step has its effect -/

@[simp] theorem pc_goto (s : Mutexes T) (t : T) (p : Point) : (s.goto t p).pc t = p :=
  Function.update_self _ _ _

theorem pc_goto_of_ne (s : Mutexes T) {t u : T} (p : Point) (h : u ≠ t) :
    (s.goto t p).pc u = s.pc u :=
  Function.update_of_ne h _ _

/-- A step that keeps the mutexes of its thread. -/
private theorem effect_inner (hholds : p.holds = (s.pc t).holds) (howner : s₁.owner = s.owner)
    (hothers : ∀ u, u ≠ t → s₁.pc u = s.pc u ∨ s₁.pc u = (s.pc u).woken)
    (hread : .readLockMutex ∉ p.holds → s₁.readLocked = s.readLocked)
    (hwrite : .writeLockMutex ∉ p.holds → s₁.writeLocked = s.writeLocked)
    (hseen : s.readLocked.Nodup → (s.pc t).Seen s.readLocked s.writeLocked →
      p.Seen s₁.readLocked s₁.writeLocked)
    (hnodup : s.readLocked.Nodup → (s.pc t).Seen s.readLocked s.writeLocked → s₁.readLocked.Nodup)
    (hreaders : ∀ u f, u ≠ t → (u, f) ∈ s.readers → (u, f) ∈ s₁.readers)
    (hreader : ∀ f, p.Unlocking f →
      (t, f) ∈ s₁.readers ∨ (s.pc t).Unlocking f ∧ s₁.readers = s.readers) :
    Effect s t (s₁.goto t p) where
  taken := by
    rw [pc_goto, hholds]
    exact fun m hm hnot ↦ absurd hm hnot
  given := by
    rw [pc_goto, hholds]
    exact fun m hm hnot ↦ absurd hm hnot
  kept m _ := congrFun howner m
  others u hu := by
    rw [pc_goto_of_ne _ _ hu]
    exact hothers u hu
  readLocked := hholds ▸ hread
  writeLocked := hholds ▸ hwrite
  seen := by
    rw [pc_goto]
    exact hseen
  nodup := hnodup
  readers := hreaders
  reader := by
    rw [pc_goto]
    exact hreader

/-- A step that locks a mutex. -/
private theorem effect_lock {m : Mutex} (hlocks : (s.pc t).locks = some (m, p))
    (h : (s.lock t m).map (fun s ↦ s.goto t p) = some s') : Effect s t s' := by
  obtain ⟨hnew, hholds⟩ := Point.holds_of_locks hlocks
  obtain ⟨s₁, hs₁, rfl⟩ := Option.map_eq_some_iff.mp h
  unfold lock at hs₁
  split at hs₁
  · next hfree =>
    cases hs₁
    exact {
      taken := by
        rw [pc_goto, hholds]
        intro m' hm' hnot
        rw [(List.mem_cons.mp hm').resolve_right hnot]
        exact ⟨hfree, Function.update_self _ _ _⟩
      given := by
        rw [pc_goto, hholds]
        exact fun m' hm' hnot ↦ absurd (List.mem_cons_of_mem _ hm') hnot
      kept := by
        rw [pc_goto, hholds]
        intro m' hm'
        apply Function.update_of_ne
        rintro rfl
        exact hnew (hm'.mp List.mem_cons_self)
      others := fun u hu ↦ .inl (pc_goto_of_ne _ _ hu)
      readLocked := fun _ ↦ rfl
      writeLocked := fun _ ↦ rfl
      seen := by
        rw [pc_goto]
        exact fun _ _ ↦ Point.seen_of_locks _ _ hlocks
      nodup := fun hnodup _ ↦ hnodup
      readers := fun _ _ _ hmem ↦ hmem
      reader := by
        rw [pc_goto]
        exact fun f hf ↦ .inr ⟨Point.unlocking_of_locks hlocks hf, rfl⟩ }
  · cases hs₁

/-- A step that unlocks a mutex. -/
private theorem effect_unlock {m : Mutex} (hunlocks : (s.pc t).unlocks = some (m, p)) :
    Effect s t ((s.unlock m).goto t p) := by
  obtain ⟨hholds, hgone⟩ := Point.holds_of_unlocks hunlocks
  exact {
    taken := by
      rw [pc_goto, hholds]
      exact fun m' hm' hnot ↦ absurd (List.mem_cons_of_mem _ hm') hnot
    given := by
      rw [pc_goto, hholds]
      intro m' hm' hnot
      rw [(List.mem_cons.mp hm').resolve_right hnot]
      exact Function.update_self _ _ _
    kept := by
      rw [pc_goto, hholds]
      intro m' hm'
      apply Function.update_of_ne
      rintro rfl
      exact hgone (hm'.mpr List.mem_cons_self)
    others := fun u hu ↦ .inl (pc_goto_of_ne _ _ hu)
    readLocked := fun _ ↦ rfl
    writeLocked := fun _ ↦ rfl
    seen := by
      rw [pc_goto]
      exact fun _ _ ↦ Point.seen_of_unlocks _ _ hunlocks
    nodup := fun hnodup _ ↦ hnodup
    readers := fun _ _ _ hmem ↦ hmem
    reader := by
      rw [pc_goto]
      exact fun f hf ↦ absurd hf (Point.not_unlocking_of_unlocks hunlocks) }

/-- A step that only moves its thread. -/
private theorem effect_goto (hholds : p.holds = (s.pc t).holds)
    (hseen : (s.pc t).Seen s.readLocked s.writeLocked → p.Seen s.readLocked s.writeLocked)
    (hreader : ∀ f, p.Unlocking f → (t, f) ∈ s.readers ∨ (s.pc t).Unlocking f) :
    Effect s t (s.goto t p) :=
  effect_inner hholds rfl (fun _ _ ↦ .inl rfl) (fun _ ↦ rfl) (fun _ ↦ rfl) (fun _ ↦ hseen)
    (fun hnodup _ ↦ hnodup) (fun _ _ _ hmem ↦ hmem)
    fun f hf ↦ (hreader f hf).imp_right fun h ↦ ⟨h, rfl⟩

/-- The part of a table that a loop has been through grows. -/
private theorem not_mem_take_succ {l : List Filename} {f g : Filename} {i : Nat}
    (hentry : l[i]? = some g) (hne : g ≠ f) (hnot : f ∉ l.take i) : f ∉ l.take (i + 1) := by
  rw [List.take_add_one, hentry, List.mem_append, not_or]
  exact ⟨hnot, by simpa using hne.symm⟩

omit [DecidableEq T] in
private theorem seen_next {loop : Loop} {f g : Filename} {i : Nat}
    (hentry : (s.table loop)[i]? = some g) (hne : g ≠ f)
    (h : (Point.scanning loop f i).Seen s.readLocked s.writeLocked) :
    (Point.scanning loop f (i + 1)).Seen s.readLocked s.writeLocked := by
  cases loop <;> exact not_mem_take_succ hentry hne h

omit [DecidableEq T] in
/-- A loop that comes to the end of a table has been through all of it. -/
private theorem seen_afterLoop {loop : Loop} {f : Filename} {i : Nat}
    (hend : (s.table loop)[i]? = none)
    (h : (Point.scanning loop f i).Seen s.readLocked s.writeLocked) :
    (Point.afterLoop f loop).Seen s.readLocked s.writeLocked := by
  cases loop with
  | share =>
    have hall : s.readLocked.take i = s.readLocked :=
      List.take_of_length_le (List.getElem?_eq_none_iff.mp hend)
    have hnot : f ∉ s.readLocked.take i := h
    rwa [hall] at hnot
  | _ => trivial

private theorem effect_round {loop : Loop} {f : Filename} {i : Nat}
    (hpc : s.pc t = .scanning loop f i) : Effect s t (s.round t loop f i) := by
  unfold round
  split
  · next hend =>
    apply effect_goto
    · rw [hpc, Point.holds_afterLoop f loop i]
    · rw [hpc]
      exact seen_afterLoop hend
    · exact fun g hg ↦ absurd hg (Point.not_unlocking_afterLoop f g loop)
  · next g hentry =>
    split
    · apply effect_inner
      · rw [hpc, Point.holds_atEntry f loop i]
      · cases loop <;> rfl
      · exact fun u _ ↦ .inl (by cases loop <;> rfl)
      · cases loop <;> exact fun _ ↦ rfl
      · cases loop with
        | unlock => exact fun hnot ↦ absurd (List.mem_singleton_self _) hnot
        | _ => exact fun _ ↦ rfl
      · exact fun _ _ ↦ Point.seen_atEntry _ _ f loop
      · cases loop <;> exact fun hnodup _ ↦ hnodup
      · cases loop with
        | share => exact fun u g _ hmem ↦ List.mem_cons_of_mem _ hmem
        | _ => exact fun u g _ hmem ↦ hmem
      · exact fun g hg ↦ absurd hg (Point.not_unlocking_atEntry f g loop)
    · next hne =>
      apply effect_goto
      · rw [hpc]
        cases loop <;> rfl
      · rw [hpc]
        exact seen_next hentry hne
      · exact fun g hg ↦ hg.elim

/-- A thread in a critical section leaves the read locks of the others as they are. -/
private theorem mem_erase_of_other {u : T} {f g : Filename} (hu : u ≠ t)
    (hmem : (u, g) ∈ s.readers) : (u, g) ∈ s.readers.erase (t, f) :=
  (List.mem_erase_of_ne fun heq ↦ hu (Prod.mk.inj heq).1).mpr hmem

/-- Where no file has two entries, the one at a place is the first of its file. -/
theorem eraseIdx_of_nodup {l : List Filename} {f : Filename} {i : Nat} (hnodup : l.Nodup)
    (hentry : l[i]? = some f) : l.eraseIdx i = l.erase f := by
  obtain ⟨hi, rfl⟩ := List.getElem?_eq_some_iff.mp hentry
  exact (List.erase_eq_eraseIdx_of_idxOf (hnodup.idxOf_getElem i hi)).symm

private theorem readers_giveBack {u : T} {erased : Bool} {f g : Filename} (hu : u ≠ t)
    (hmem : (u, g) ∈ s.readers) : (u, g) ∈ (s.giveBack t f erased).readers := by
  cases erased with
  | false => exact mem_erase_of_other hu hmem
  | true => exact hmem

@[simp] private theorem readLocked_giveBack (s : Mutexes T) (t : T) (f : Filename)
    (erased : Bool) : (s.giveBack t f erased).readLocked = s.readLocked := by
  cases erased <;> rfl

/-- A round of the loop of `readUnlock`. -/
private theorem effect_eraseRound {erased : Bool} {f : Filename} {i : Nat}
    (hpc : s.pc t = .erasing erased f i) (h : s.eraseRound t erased f i = some s') :
    Effect s t s' := by
  unfold eraseRound at h
  split at h
  · cases h
    apply effect_inner
    · rw [hpc]
      rfl
    · cases erased <;> rfl
    · exact fun u _ ↦ .inl (by cases erased <;> rfl)
    · exact fun _ ↦ readLocked_giveBack ..
    · cases erased <;> exact fun _ ↦ rfl
    · exact fun _ _ ↦ trivial
    · exact fun hnodup _ ↦ by rwa [readLocked_giveBack]
    · exact fun u g hu hmem ↦ readers_giveBack hu hmem
    · exact fun g hg ↦ hg.elim
  · obtain ⟨g, hentry, hround⟩ := Option.map_eq_some_iff.mp h
    split at hround
    · next hg =>
      subst hg hround
      have hnames : (s.host.fm.readLockedFiles.eraseIdx i).map OpenedFile.fileName =
          s.readLocked.eraseIdx i := (List.eraseIdx_map ..).symm
      apply effect_inner
      · rw [hpc]
        rfl
      · cases erased <;> rfl
      · exact fun u _ ↦ .inl (by cases erased <;> rfl)
      · exact fun hnot ↦ absurd (List.mem_singleton_self _) hnot
      · cases erased <;> exact fun _ ↦ rfl
      · intro hnodup _
        show g ∉ (s.host.fm.readLockedFiles.eraseIdx i).map OpenedFile.fileName
        rw [hnames, eraseIdx_of_nodup hnodup hentry]
        exact hnodup.not_mem_erase
      · intro hnodup _
        show ((s.host.fm.readLockedFiles.eraseIdx i).map OpenedFile.fileName).Nodup
        rw [hnames]
        exact hnodup.eraseIdx i
      · exact fun u g hu hmem ↦ readers_giveBack hu hmem
      · exact fun g hg ↦ hg.elim
    · next hne =>
      subst hround
      apply effect_goto
      · rw [hpc]
        rfl
      · rw [hpc]
        cases erased with
        | false => exact not_mem_take_succ hentry hne
        | true => exact id
      · rw [hpc]
        cases erased with
        | false => exact fun g hg ↦ .inr hg
        | true => exact fun g hg ↦ hg.elim

private theorem effect_go {opens : Bool} (h : s.go t opens = some s') : Effect s t s' := by
  unfold go at h
  split at h
  · next m p _ hlocks => exact effect_lock hlocks h
  · next m p _ hunlocks =>
    cases h
    exact effect_unlock hunlocks
  · split at h
    · next loop f i hpc =>
      cases h
      exact effect_round hpc
    · next f hpc =>
      cases h
      exact effect_goto (by rw [hpc]; rfl) (by rw [hpc]; exact id) (fun g hg ↦ hg.elim)
    · next f opened hpc =>
      cases h
      cases opened with
      | false => exact effect_goto (by rw [hpc]; rfl) (fun _ ↦ trivial) (fun g hg ↦ hg.elim)
      | true =>
        exact effect_goto (by rw [hpc]; rfl) (by rw [hpc]; exact id) (fun g hg ↦ hg.elim)
    · next f hpc =>
      cases h
      apply effect_inner
      · rw [hpc]
        rfl
      · rfl
      · exact fun _ _ ↦ .inl rfl
      · exact fun hnot ↦ absurd (List.mem_singleton_self _) hnot
      · exact fun _ ↦ rfl
      · exact fun _ _ ↦ trivial
      · -- no thread has given the file an entry in between
        rw [hpc]
        intro hnodup hfree
        have hnew : f ∉ s.readLocked := hfree
        show ((s.host.fm.readLockedFiles ++ [_]).map OpenedFile.fileName).Nodup
        rw [List.map_append]
        exact hnodup.append (List.nodup_singleton _) (by simpa using hnew)
      · exact fun _ _ _ hmem ↦ List.mem_cons_of_mem _ hmem
      · exact fun g hg ↦ hg.elim
    · next f hpc =>
      cases h
      apply effect_inner
      · rw [hpc]
        rfl
      · rfl
      · exact fun _ _ ↦ .inl rfl
      · exact fun _ ↦ rfl
      · exact fun hnot ↦ absurd (List.mem_singleton_self _) hnot
      · exact fun _ _ ↦ trivial
      · exact fun hnodup _ ↦ hnodup
      · exact fun _ _ _ hmem ↦ hmem
      · exact fun g hg ↦ hg.elim
    · next hpc =>
      cases h
      apply effect_inner
      · rw [hpc]
        rfl
      · rfl
      · exact fun _ _ ↦ .inr rfl
      · exact fun _ ↦ rfl
      · exact fun _ ↦ rfl
      · exact fun _ _ ↦ trivial
      · exact fun hnodup _ ↦ hnodup
      · exact fun _ _ _ hmem ↦ hmem
      · exact fun g hg ↦ hg.elim
    · next erased f i hpc => exact effect_eraseRound hpc h
    · cases h

private theorem effect_call {c : FileCall} (h : s.call t c = some s') : Effect s t s' := by
  unfold call at h
  split at h
  · next hpc =>
    cases c with
    | readLock f =>
      cases h
      exact effect_goto (by rw [hpc]; rfl) (fun _ ↦ trivial) (fun g hg ↦ hg.elim)
    | store f =>
      cases h
      exact effect_goto (by rw [hpc]; rfl) (fun _ ↦ trivial) (fun g hg ↦ hg.elim)
    | getSegment f =>
      cases h
      exact effect_goto (by rw [hpc]; rfl) (fun _ ↦ trivial) (fun g hg ↦ hg.elim)
    | readUnlock f =>
      simp only at h
      split at h
      · next hcontains =>
        cases h
        have hmem : (t, f) ∈ s.readers := List.contains_iff_mem.mp hcontains
        refine effect_goto (by rw [hpc]; rfl) (fun _ ↦ trivial) fun g hg ↦ .inl ?_
        rwa [← show f = g from hg]
      · cases h
  · cases h

/-- Every step has its effect. -/
theorem step_effect (h : step s e = some s') : Effect s e.thread s' := by
  cases e with
  | call t c => exact effect_call h
  | go t opens => exact effect_go h
  | openFails t =>
    simp only [step] at h
    split at h
    · next f hpc =>
      cases h
      exact effect_goto (t := t) (by rw [hpc]; rfl) (fun _ ↦ trivial) (fun g hg ↦ hg.elim)
    · cases h
  | wake t =>
    simp only [step] at h
    split at h
    · next a f hpc =>
      cases h
      exact effect_goto (t := t) (by rw [hpc]; rfl) (fun _ ↦ trivial) (fun g hg ↦ hg.elim)
    · cases h

/-- Every state that is reached is sound. -/
theorem sound_run {ok : Mutexes T → MutexEvent T → Prop} {host : Host}
    {es : List (MutexEvent T)} (hrun : Run step ok (start host) es s) : Sound s := by
  refine hrun.invariant (P := Sound) ⟨?_, ?_, ?_, ?_⟩ fun _ _ _ hs _ hstep ↦
    hs.step (step_effect hstep)
  · exact fun m t ↦ iff_of_false (fun h ↦ by cases h) (by simp [start, Point.holds])
  · exact fun t ↦ trivial
  · exact List.nodup_nil
  · exact fun t f hf ↦ hf.elim

/-! ### No deadlock -/

/-- The threads and the mutexes that they lock next. -/
def ownership (s : Mutexes T) : Ownership T Mutex where
  owner := s.owner
  asks := fun t ↦ (s.pc t).locks.map Prod.fst

omit [DecidableEq T] in
private theorem Sound.ordered (hs : Sound s) : s.ownership.Ordered Mutex.rank := by
  intro t m m' howner hasks
  obtain ⟨⟨m', p⟩, hlocks, rfl⟩ := Option.map_eq_some_iff.mp hasks
  exact Point.rank_lt_of_locks hlocks ((hs.owner m t).mp howner)

/-- A thread in the file manager goes on unless another one has the mutex that it locks. -/
private theorem exists_go (hfree : s.ownership.Free t) (hinside : ¬ s.Left) (hbusy : (s.pc t).Busy)
    (opens : Bool) : ∃ s', step s (.go t opens) = some s' := by
  cases hlocks : (s.pc t).locks with
  | some r =>
    have howner : s.owner r.1 = none := hfree r.1 (by simp [ownership, hlocks])
    simp [step, go, hlocks, lock, howner]
  | none =>
    cases hunlocks : (s.pc t).unlocks with
    | some r => simp [step, go, hlocks, hunlocks]
    | none =>
      cases hpc : s.pc t with
      | outside | asleep => simp [hpc, Point.Busy] at hbusy
      | erasing erased f i =>
        simp only [step, go, hpc, Point.locks, Point.unlocks, eraseRound]
        split
        · exact ⟨_, rfl⟩
        · next hne =>
          have hle : i ≤ s.readLocked.length :=
            Nat.not_lt.mp fun hlt ↦ hinside ⟨t, erased, f, i, hpc, hlt⟩
          rw [List.getElem?_eq_getElem (Nat.lt_of_le_of_ne hle hne)]
          exact ⟨_, rfl⟩
      | scanning | opening | opened | appending | pushing | notifying =>
        simp [step, go, hpc, Point.locks, Point.unlocks]
      | entering a | found a | passed a =>
        rw [hpc] at hlocks hunlocks
        cases a <;> simp [Point.locks, Point.unlocks] at hlocks hunlocks
      | _ =>
        rw [hpc] at hlocks hunlocks
        simp [Point.locks, Point.unlocks] at hlocks hunlocks

/-- The mutexes never stop the file manager while no loop of `readUnlock` has left the table: if a
thread is in it and does not sleep, one of the threads in it can take its next step. -/
theorem exists_go_of_busy {host : Host} {es : List (MutexEvent T)}
    (hrun : Run step Any (start host) es s) (hinside : ¬ s.Left) (hbusy : (s.pc t).Busy) :
    ∃ u, (s.pc u).Busy ∧ ∀ opens, ∃ s', step s (.go u opens) = some s' := by
  have hs := sound_run hrun
  have hbound : ∀ m : Mutex, m.rank ≤ 2 := by
    intro m
    cases m <;> decide
  rcases hs.ordered.exists_free hbound t with hfree | ⟨u, m, howner, hfree⟩
  · exact ⟨t, hbusy, exists_go hfree hinside hbusy⟩
  · have hholds : m ∈ (s.pc u).holds := (hs.owner m u).mp howner
    have hbusy' : (s.pc u).Busy := Point.busy_of_holds hholds
    exact ⟨u, hbusy', exists_go hfree hinside hbusy'⟩

/-- A writer is between its two mutexes, and a reader comes. -/
def between : List (MutexEvent Bool) :=
  [.call true (.store [97]), .go true true, .call false (.readLock [97])]

/-- The reader has to wait, but not for ever. -/
theorem exists_go_of_busy_between :
    ∃ s, between.foldlM step (start emptyHost) = some s ∧ (step s (.go false true)).isNone ∧
      ∃ u, (s.pc u).Busy ∧ ∀ opens, ∃ s', step s (.go u opens) = some s' := by
  have hruns : (between.foldlM step (start emptyHost)).map
      (fun s ↦ (s.pc false, s.pc true, (step s (.go false true)).isNone)) =
        some (.entering .read [97], .second [97], true) := by decide
  obtain ⟨s, hs, hresult⟩ := Option.map_eq_some_iff.mp hruns
  simp only [Prod.mk.injEq] at hresult
  obtain ⟨hfalse, htrue, hwaits⟩ := hresult
  have hinside : ¬ s.Left := by
    rintro ⟨t, erased, f, i, hpc, -⟩
    cases t with
    | false => cases hfalse.symm.trans hpc
    | true => cases htrue.symm.trans hpc
  refine ⟨s, hs, hwaits, ?_⟩
  apply exists_go_of_busy (t := false) (Run.of_foldlM hs Meets.any) hinside
  rw [hfalse]
  trivial

end Mutexes

end P2PNetwork.Client
