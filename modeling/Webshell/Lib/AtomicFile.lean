import Webshell.Lib.History
import Webshell.Lib.Transition

/-!
# A store and its file

A store in memory behind a lock, that any number of callers change, and a file that is replaced as a
whole while the lock is held: a temporary file is created, filled and synced, renamed over the old
one, and the directory is synced. What a crash leaves under the path is the file that the directory
on disk names, or the one that has just been renamed there, and of a file that has not been synced
anything.

## Main definitions

- `Operations`: what the operations do, and which of them write
- `Server`, `system`: the callers, the lock, the steps of a write
- `Server.CrashLeaves`: what a crash may leave under the path
- `Unwritten`: operations none of which has had anything to write

## Main results

- `prefix_survives`: that is what the operations leave in the order of the lock, up to some point
  which no operation that has returned comes after
-/

universe u v

namespace AtomicFile

open Transition

/-- The operations of a store. One that does not write has changed nothing. -/
structure Operations (σ : Type u) (α : Type v) where
  exec : σ → α → σ
  writes : σ → α → Bool
  exec_of_not_writes : ∀ s op, writes s op = false → exec s op = s

/-- A file; `content` is `none` as long as bytes are missing. -/
structure Inode (σ : Type u) where
  content : Option σ
  synced : Bool

/-- What a write does next. -/
inductive Stage
  | create
  | fill
  | sync
  | rename
  | syncDir

/-- Who has the lock, and where it is in its write, if it is in one. -/
structure Holder (α : Type v) where
  call : ℕ
  op : α
  stage : Option Stage

/-- A store with its callers and its file. -/
structure Server (σ : Type u) (α : Type v) where
  /-- What the memory started with. -/
  start : σ
  /-- What the file held then. -/
  origin : σ
  memory : σ
  waiting : ℕ → Option α
  holder : Option (Holder α)
  /-- The operations that have given the lock back, in the order in which they had it. -/
  done : List (ℕ × α)
  leaving : List ℕ
  returned : List ℕ
  nextCall : ℕ
  tmp : Option (Inode σ)
  /-- The file that the path names. -/
  path : Inode σ
  /-- The file that the path names on disk. -/
  durable : Inode σ

inductive Act (α : Type v)
  | call (op : α)
  | lock (call : ℕ)
  | write
  | unlock
  | ret (call : ℕ)

variable {σ : Type u} {α : Type v}

namespace Server

/-- The operations in the order in which they got the lock. -/
def log (s : Server σ α) : List (ℕ × α) :=
  s.done ++ (s.holder.map fun h => (h.call, h.op)).toList

/-- The next step of the write that is under way. -/
def write (s : Server σ α) : Option (Server σ α) :=
  match s.holder with
  | some ⟨i, op, some .create⟩ =>
    some { s with tmp := some ⟨none, false⟩, holder := some ⟨i, op, some .fill⟩ }
  | some ⟨i, op, some .fill⟩ =>
    some { s with tmp := some ⟨some s.memory, false⟩, holder := some ⟨i, op, some .sync⟩ }
  | some ⟨i, op, some .sync⟩ =>
    some { s with
      tmp := s.tmp.map fun file => { file with synced := true }
      holder := some ⟨i, op, some .rename⟩ }
  | some ⟨i, op, some .rename⟩ =>
    some { s with
      path := s.tmp.getD s.path
      tmp := none
      holder := some ⟨i, op, some .syncDir⟩ }
  | some ⟨i, op, some .syncDir⟩ =>
    some { s with durable := s.path, holder := some ⟨i, op, none⟩ }
  | _ => none

/-- The file that a crash leaves under the path, as what it can be read as. -/
def CrashLeaves (s : Server σ α) (content : Option σ) : Prop :=
  ∃ file, (file = s.durable ∨ file = s.path) ∧ (file.synced = true → content = file.content)

/-- A store that has just been loaded from a file. -/
def loaded (start origin : σ) : Server σ α where
  start := start
  origin := origin
  memory := start
  waiting := fun _ => none
  holder := none
  done := []
  leaving := []
  returned := []
  nextCall := 0
  tmp := none
  path := ⟨some origin, true⟩
  durable := ⟨some origin, true⟩

end Server

variable (O : Operations σ α)

/-- What operations leave when they are executed one at a time. -/
def execAll (s : σ) (ops : List α) : σ := ops.foldl O.exec s

def step (s : Server σ α) : Act α → Option (Server σ α)
  | .call op =>
    some { s with
      waiting := Function.update s.waiting s.nextCall (some op)
      nextCall := s.nextCall + 1 }
  | .lock i =>
    match s.holder, s.waiting i with
    | none, some op =>
      some { s with
        memory := O.exec s.memory op
        waiting := Function.update s.waiting i none
        holder := some ⟨i, op, if O.writes s.memory op then some .create else none⟩ }
    | _, _ => none
  | .write => s.write
  | .unlock =>
    match s.holder with
    | some ⟨i, op, none⟩ =>
      some { s with holder := none, done := s.done ++ [(i, op)], leaving := i :: s.leaving }
    | _ => none
  | .ret i =>
    if i ∈ s.leaving then
      some { s with leaving := s.leaving.erase i, returned := i :: s.returned }
    else none

/-- Runs from a store that has been loaded, where `Loads start origin` is what a load does. -/
def system (Loads : σ → σ → Prop) : System (Server σ α) (Act α) where
  init s := ∃ start origin, Loads start origin ∧ s = .loaded start origin
  step := step O

variable {O} {s s' : Server σ α} {Loads : σ → σ → Prop} {file : Inode σ} {ops : List (ℕ × α)}

/-- None of the operations, executed one at a time, has anything to write. -/
def Unwritten (O : Operations σ α) (start : σ) (ops : List (ℕ × α)) : Prop :=
  History.Each (fun before op =>
    O.writes (execAll O start (before.map Prod.snd)) op.2 = false) ops

/-- The file holds what the operations leave, or is still the one that was loaded as none of them
had anything to write. -/
def Holds (O : Operations σ α) (s : Server σ α) (file : Inode σ) (ops : List (ℕ × α)) : Prop :=
  file.synced = true ∧
    (file.content = some (execAll O s.start (ops.map Prod.snd)) ∨
      (file.content = some s.origin ∧ Unwritten O s.start ops))

/-- Where the temporary file and the path are, before each step of a write. -/
def AtStage (s : Server σ α) : Stage → Prop
  | .create | .fill => s.path = s.durable
  | .sync => s.path = s.durable ∧ s.tmp = some ⟨some s.memory, false⟩
  | .rename => s.path = s.durable ∧ s.tmp = some ⟨some s.memory, true⟩
  | .syncDir => s.path = ⟨some s.memory, true⟩

/-- What every run keeps. -/
structure Inv (O : Operations σ α) (s : Server σ α) : Prop where
  memory : s.memory = execAll O s.start (s.log.map Prod.snd)
  returned : ∀ i, i ∈ s.leaving ∨ i ∈ s.returned → i ∈ s.done.map Prod.fst
  /-- Outside of a write the file is the one for the memory. -/
  settled : (∀ h, s.holder = some h → h.stage = none) →
    s.path = s.durable ∧ Holds O s s.durable s.log
  /-- In a write the file on disk is the one from before the operation. -/
  writing : ∀ i op stage, s.holder = some ⟨i, op, some stage⟩ →
    AtStage s stage ∧ Holds O s s.durable s.done

theorem execAll_concat (s : σ) (ops : List α) (op : α) :
    execAll O s (ops ++ [op]) = O.exec (execAll O s ops) op := by
  rw [execAll, List.foldl_append]
  rfl

theorem log_of_holder {i : ℕ} {op : α} {stage : Option Stage}
    (h : s.holder = some ⟨i, op, stage⟩) : s.log = s.done ++ [(i, op)] := by
  rw [Server.log, h]
  rfl

theorem log_of_free (h : s.holder = none) : s.log = s.done := by
  rw [Server.log, h]
  exact List.append_nil _

/-- An operation that has nothing to write leaves the file as it should be. -/
theorem Holds.concat {i : ℕ} {op : α} (h : Holds O s file ops)
    (hno : O.writes (execAll O s.start (ops.map Prod.snd)) op = false) :
    Holds O s file (ops ++ [(i, op)]) := by
  refine ⟨h.1, h.2.imp (fun hcontent => ?_) fun ⟨horigin, hunwritten⟩ => ?_⟩
  · rw [List.map_append, List.map_singleton, execAll_concat, O.exec_of_not_writes _ _ hno]
    exact hcontent
  · exact ⟨horigin, hunwritten.snoc hno⟩

/-- Operations that had nothing to write have changed nothing. -/
theorem Unwritten.execAll {start : σ} (h : Unwritten O start ops) :
    execAll O start (ops.map Prod.snd) = start := by
  induction ops using List.reverseRecOn with
  | nil => rfl
  | append_singleton ops op ih =>
    obtain ⟨hbefore, hlast⟩ := History.Each.of_snoc h
    rw [List.map_append, List.map_singleton, execAll_concat, O.exec_of_not_writes _ _ hlast]
    exact ih hbefore

theorem inv_loaded (start origin : σ) : Inv O (.loaded start origin) where
  memory := rfl
  returned := by rintro i (h | h) <;> cases h
  settled _ := ⟨rfl, rfl, .inr ⟨rfl, History.each_nil⟩⟩
  writing := by intro _ _ _ h; cases h

theorem Inv.lock (h : Inv O s) {i : ℕ} (hstep : step O s (.lock i) = some s') : Inv O s' := by
  simp only [step] at hstep
  split at hstep
  next op hfree _ =>
    obtain rfl := Option.some.inj hstep
    obtain ⟨hpath, hholds⟩ := h.settled fun _ hh => by rw [hfree] at hh; cases hh
    rw [log_of_free hfree] at hholds
    have hmemory : s.memory = execAll O s.start (s.done.map Prod.snd) := by
      rw [h.memory, log_of_free hfree]
    refine ⟨?_, h.returned, fun hstage => ⟨hpath, ?_⟩, fun i' op' stage hh => ?_⟩
    · rw [log_of_holder rfl, List.map_append, List.map_singleton, execAll_concat, ← hmemory]
    · have hno : O.writes s.memory op = false := by
        by_contra hwrites
        have hnone := hstage _ rfl
        rw [Bool.not_eq_false] at hwrites
        rw [hwrites, if_pos rfl] at hnone
        cases hnone
      rw [log_of_holder rfl]
      exact Holds.concat hholds (hmemory ▸ hno)
    · have hstage : (if O.writes s.memory op then some Stage.create else none) = some stage := by
        rw [Option.some.injEq, Holder.mk.injEq] at hh
        exact hh.2.2
      split at hstage
      · obtain rfl := Option.some.inj hstage
        exact ⟨hpath, hholds⟩
      · cases hstage
  · cases hstep

/-- A step of a write, but the last. -/
theorem Inv.advance (h : Inv O s) {i : ℕ} {op : α} {stage stage' : Stage}
    (hholder : s.holder = some ⟨i, op, some stage⟩) {tmp : Option (Inode σ)} {path : Inode σ}
    (hat : AtStage { s with tmp := tmp, path := path, holder := some ⟨i, op, some stage'⟩ }
      stage') :
    Inv O { s with tmp := tmp, path := path, holder := some ⟨i, op, some stage'⟩ } := by
  refine ⟨?_, h.returned, fun hstage => ?_, fun i' op' stage'' hh => ?_⟩
  · rw [log_of_holder rfl]
    exact log_of_holder hholder ▸ h.memory
  · cases hstage _ rfl
  · rw [Option.some.injEq, Holder.mk.injEq, Option.some.injEq] at hh
    obtain ⟨_, _, rfl⟩ := hh
    exact ⟨hat, (h.writing i op stage hholder).2⟩

theorem Inv.write (h : Inv O s) (hstep : s.write = some s') : Inv O s' := by
  rw [Server.write] at hstep
  split at hstep
  next i op hholder =>
    obtain rfl := Option.some.inj hstep
    exact h.advance hholder (h.writing i op _ hholder).1
  next i op hholder =>
    obtain rfl := Option.some.inj hstep
    exact h.advance hholder ⟨(h.writing i op _ hholder).1, rfl⟩
  next i op hholder =>
    obtain rfl := Option.some.inj hstep
    obtain ⟨hpath, htmp⟩ := (h.writing i op _ hholder).1
    exact h.advance hholder ⟨hpath, by rw [htmp]; rfl⟩
  next i op hholder =>
    obtain rfl := Option.some.inj hstep
    obtain ⟨hpath, htmp⟩ := (h.writing i op _ hholder).1
    refine h.advance hholder ?_
    show s.tmp.getD s.path = _
    rw [htmp]
    rfl
  next i op hholder =>
    obtain rfl := Option.some.inj hstep
    have hpath : s.path = ⟨some s.memory, true⟩ := (h.writing i op _ hholder).1
    have hlog : s.log = s.done ++ [(i, op)] := log_of_holder hholder
    refine ⟨?_, h.returned, fun _ => ⟨rfl, ?_⟩, fun _ _ _ hh => ?_⟩
    · rw [log_of_holder rfl]
      exact hlog ▸ h.memory
    · rw [log_of_holder rfl]
      refine ⟨by rw [hpath], .inl ?_⟩
      show s.path.content = _
      rw [hpath, h.memory, hlog]
    · rw [Option.some.injEq, Holder.mk.injEq] at hh
      cases hh.2.2
  · cases hstep

theorem Inv.unlock (h : Inv O s) (hstep : step O s .unlock = some s') : Inv O s' := by
  simp only [step] at hstep
  split at hstep
  next i op hholder =>
    obtain rfl := Option.some.inj hstep
    have hlog : s.log = s.done ++ [(i, op)] := log_of_holder hholder
    obtain ⟨hpath, hholds⟩ := h.settled fun h' hh => by
      rw [hholder, Option.some.injEq] at hh
      rw [← hh]
    refine ⟨?_, fun j hj => ?_, fun _ => ⟨hpath, ?_⟩, fun _ _ _ hh => by cases hh⟩
    · rw [log_of_free rfl]
      exact hlog ▸ h.memory
    · show j ∈ (s.done ++ [(i, op)]).map Prod.fst
      rw [List.map_append, List.mem_append]
      obtain hj | hj := hj
      · obtain rfl | hj := List.mem_cons.mp hj
        · exact .inr List.mem_cons_self
        · exact .inl (h.returned j (.inl hj))
      · exact .inl (h.returned j (.inr hj))
    · rw [log_of_free rfl]
      exact hlog ▸ hholds
  · cases hstep

theorem Inv.step (h : Inv O s) {a : Act α} (hstep : step O s a = some s') : Inv O s' := by
  cases a with
  | call op =>
    obtain rfl := Option.some.inj hstep
    exact ⟨h.memory, h.returned, h.settled, h.writing⟩
  | lock i => exact h.lock hstep
  | write => exact h.write hstep
  | unlock => exact h.unlock hstep
  | ret i =>
    simp only [AtomicFile.step] at hstep
    split at hstep
    next hleaving =>
      obtain rfl := Option.some.inj hstep
      refine ⟨h.memory, fun j hj => ?_, h.settled, h.writing⟩
      obtain hj | hj := hj
      · exact h.returned j (.inl (List.mem_of_mem_erase hj))
      · obtain rfl | hj := List.mem_cons.mp hj
        · exact h.returned j (.inl hleaving)
        · exact h.returned j (.inr hj)
    · cases hstep

theorem inv_of_reachable (h : (system O Loads).Reachable s) : Inv O s := by
  refine h.invariant ?_ fun _ _ _ _ hs _ hstep => hs.step hstep
  rintro s ⟨start, origin, _, rfl⟩
  exact inv_loaded start origin

/-- What was loaded does not change. -/
theorem step_loaded {a : Act α} (hstep : step O s a = some s') :
    s'.start = s.start ∧ s'.origin = s.origin := by
  cases a with
  | call op => exact Option.some.inj hstep ▸ ⟨rfl, rfl⟩
  | lock i =>
    simp only [step] at hstep
    split at hstep
    · exact Option.some.inj hstep ▸ ⟨rfl, rfl⟩
    · cases hstep
  | write =>
    simp only [step, Server.write] at hstep
    split at hstep <;> first | exact Option.some.inj hstep ▸ ⟨rfl, rfl⟩ | cases hstep
  | unlock =>
    simp only [step] at hstep
    split at hstep
    · exact Option.some.inj hstep ▸ ⟨rfl, rfl⟩
    · cases hstep
  | ret i =>
    simp only [step] at hstep
    split at hstep
    · exact Option.some.inj hstep ▸ ⟨rfl, rfl⟩
    · cases hstep

theorem loads_of_reachable (h : (system O Loads).Reachable s) : Loads s.start s.origin := by
  refine h.invariant (I := fun s => Loads s.start s.origin) ?_ fun s a s' _ hs _ hstep => ?_
  · rintro s ⟨start, origin, hloads, rfl⟩
    exact hloads
  · obtain ⟨hstart, horigin⟩ := step_loaded hstep
    rwa [hstart, horigin]

/-- What a crash leaves is the store after the operations up to some point in the order of the lock,
which all that have returned stand before; or the file as it was loaded, if up to there none of them
had anything to write. -/
theorem prefix_survives (h : (system O Loads).Reachable s) {content : Option σ}
    (hcrash : s.CrashLeaves content) :
    ∃ upTo, upTo <+: s.log ∧ (∀ i ∈ s.returned, i ∈ upTo.map Prod.fst) ∧
      (content = some (execAll O s.start (upTo.map Prod.snd)) ∨
        (content = some s.origin ∧ Unwritten O s.start upTo)) := by
  have hinv := inv_of_reachable h
  have hdone : s.done <+: s.log := List.prefix_append ..
  have hreturned : ∀ i ∈ s.returned, i ∈ s.done.map Prod.fst :=
    fun i hi => hinv.returned i (.inr hi)
  obtain ⟨file, hfile, hsynced⟩ := hcrash
  by_cases hstage : ∀ h, s.holder = some h → h.stage = none
  · -- no write is under way
    obtain ⟨hpath, hholds⟩ := hinv.settled hstage
    obtain rfl : file = s.durable := hfile.elim id fun hf => hf.trans hpath
    refine ⟨s.log, List.prefix_rfl, fun i hi => ?_, hsynced hholds.1 ▸ hholds.2⟩
    exact (hdone.map Prod.fst).subset (hreturned i hi)
  · obtain ⟨⟨i, op, stage⟩, hholder, hsome⟩ : ∃ h, s.holder = some h ∧ h.stage ≠ none := by
      simpa only [not_forall, exists_prop] using hstage
    obtain ⟨stage, rfl⟩ := Option.ne_none_iff_exists'.mp hsome
    obtain ⟨hat, hholds⟩ := hinv.writing i op stage hholder
    by_cases hsame : file = s.durable
    · subst hsame
      exact ⟨s.done, hdone, hreturned, hsynced hholds.1 ▸ hholds.2⟩
    · -- the new file has been renamed, and the directory has not been synced
      have hpath : s.path = ⟨some s.memory, true⟩ := by
        obtain hf | hf := hfile
        · exact absurd hf hsame
        · cases stage with
          | create | fill => exact absurd (hf.trans hat) hsame
          | sync | rename => exact absurd (hf.trans hat.1) hsame
          | syncDir => exact hat
      obtain rfl : file = s.path := hfile.resolve_left hsame
      refine ⟨s.log, List.prefix_rfl, fun i hi => ?_, .inl ?_⟩
      · exact (hdone.map Prod.fst).subset (hreturned i hi)
      · rw [hsynced (by rw [hpath]), hpath, hinv.memory]

end AtomicFile
