import Webshell.Auth.Devices
import Webshell.Lib.AtomicFile

/-!
# The device file

The device store as a store with an atomic file: every operation that changes the map writes the
file before it gives the lock back. So a restart after a crash finds the devices that the operations
leave in the order of the lock.

## Main definitions

- `DeviceStore.writes`: whether an operation writes the file
- `deviceFileSystem`: any number of callers of a store that has been loaded

## Main results

- `reload_eq_exec`: what a reload gives after a crash
- `reload_revives`: a device that the load has dropped, when the clock has run back
-/

namespace Webshell

open Transition AtomicFile
open Text (Lowercase)

section
variable [Lowercase]

namespace DeviceStore

/-- The operations that return early, or count nothing to remove, do not write. -/
def writes (s : DeviceStore) : DeviceOp → Bool
  | .mint _ _ _ _ _ _ => true
  | .authorize token identity enrolledAt now => (s.authorize token identity enrolledAt now).1.isSome
  | .list _ _ _ | .idForToken _ => false
  | .revoke identity id =>
    (s.entries.find? fun entry => entry.2.id = id && entry.2.identity = identity).isSome
  | .revokeAll identity => (s.revokeAll identity).entries.length < s.entries.length
  | .revokeToken token => (s.lookup token).isSome
  | .forgetIfOwned token identity => (s.lookup token).any fun d => d.identity = identity
  | .sweep now => (s.sweep now).entries.length < s.entries.length

variable {s : DeviceStore} {op : DeviceOp}

/-- An operation that does not write has changed nothing. -/
theorem exec_of_not_writes (s : DeviceStore) (op : DeviceOp) (h : s.writes op = false) :
    s.exec op = s := by
  cases op with
  | mint => cases h
  | authorize token identity enrolledAt now =>
    simp only [writes, exec, authorize] at h ⊢
    split
    · rfl
    next device hdevice =>
      rw [hdevice] at h
      split
      · rfl
      next hmatch =>
        dsimp only at h
        rw [if_neg hmatch] at h
        cases h
  | list | idForToken => rfl
  | revoke identity id =>
    have hfind := Option.isSome_eq_false_iff.mp h
    simp only [exec, revoke]
    rw [Option.isNone_iff_eq_none.mp hfind]
  | revokeAll identity => exact AList.retain_eq_self (not_lt.mp (of_decide_eq_false h))
  | revokeToken token =>
    have hnone := Option.isNone_iff_eq_none.mp (Option.isSome_eq_false_iff.mp h)
    exact AList.erase_eq_self hnone
  | forgetIfOwned token identity =>
    have hno : ¬ ((s.lookup token).any fun d => d.identity = identity) = true :=
      Bool.eq_false_iff.mp h
    exact if_neg hno
  | sweep now => exact AList.retain_eq_self (not_lt.mp (of_decide_eq_false h))

end DeviceStore

def deviceOperations : Operations DeviceStore DeviceOp where
  exec := DeviceStore.exec
  writes := DeviceStore.writes
  exec_of_not_writes := DeviceStore.exec_of_not_writes

/-- A load drops what has expired. -/
def deviceFileSystem (loadedAt : ℕ) : System (Server DeviceStore DeviceOp) (Act DeviceOp) :=
  system deviceOperations fun start origin => start = origin.live loadedAt

/-- The store after operations that are executed one at a time. -/
abbrev DeviceStore.execAll (s : DeviceStore) (log : List (ℕ × DeviceOp)) : DeviceStore :=
  AtomicFile.execAll deviceOperations s (log.map Prod.snd)

theorem DeviceStore.lookup_live_live {s : DeviceStore} {now now' token : ℕ} (hle : now ≤ now') :
    ((s.live now).live now').lookup token = (s.live now').lookup token := by
  simp only [lookup_live]
  cases s.lookup token with
  | none => rfl
  | some d =>
    rw [Option.filter_some, Option.filter_some]
    by_cases hexpired : d.expired now = true
    · have hlater : d.expired now' = true := by
        rw [Device.expired, decide_eq_true_iff] at hexpired ⊢
        omega
      rw [hexpired, hlater]
      rfl
    · rw [Bool.not_eq_true] at hexpired
      rw [hexpired, Bool.not_false, if_pos rfl, Option.filter_some]

variable {s : Server DeviceStore DeviceOp}

/-- After a crash at any time a reload gives the devices that the operations leave, executed in the
order of the lock up to some point which all that have returned stand before; only under a clock
that has run back to before the load may it be what the load was given, if up to that point no
operation had anything to write. -/
theorem reload_eq_exec {loadedAt : ℕ} (h : (deviceFileSystem loadedAt).Reachable s)
    {content : Option DeviceStore} (hcrash : s.CrashLeaves content) (now : ℕ) :
    ∃ upTo, upTo <+: s.log ∧ (∀ i ∈ s.returned, i ∈ upTo.map Prod.fst) ∧
      ∃ reloaded, content.map (fun store => store.live now) = some reloaded ∧
        ((∀ token, reloaded.lookup token = ((s.start.execAll upTo).live now).lookup token) ∨
          (now < loadedAt ∧ reloaded = s.origin.live now ∧
            Unwritten deviceOperations s.start upTo)) := by
  obtain ⟨upTo, hupTo, hreturned, hcontent⟩ := prefix_survives h hcrash
  have hstart : s.start = s.origin.live loadedAt := loads_of_reachable h
  refine ⟨upTo, hupTo, hreturned, ?_⟩
  obtain rfl | ⟨rfl, hunwritten⟩ := hcontent
  · exact ⟨_, rfl, .inl fun _ => rfl⟩
  · refine ⟨s.origin.live now, rfl, ?_⟩
    obtain hlt | hle := lt_or_ge now loadedAt
    · exact .inr ⟨hlt, rfl, hunwritten⟩
    · refine .inl fun token => ?_
      rw [DeviceStore.execAll, hunwritten.execAll, hstart, DeviceStore.lookup_live_live hle]

end

open Text.Ascii DeviceSample

/-! ## A crash within a write -/

namespace DeviceFileSample

/-- A call that writes the file and returns. -/
def written (i : ℕ) (op : DeviceOp) : List (Act DeviceOp) :=
  [.call op, .lock i] ++ List.replicate 5 .write ++ [.unlock, .ret i]

/-- Alice opts in and is revoked, and bob's opting in is cut off between the renaming and the
syncing of the directory. -/
def crashRun : List (Act DeviceOp) :=
  written 0 mintAlice ++ written 1 (.revokeAll alice) ++
    [.call mintBob, .lock 2, .write, .write, .write, .write]

/-- The file of the server is empty at first. -/
def crashed : Server DeviceStore DeviceOp :=
  ((deviceFileSystem 1000).run (.loaded ∅ ∅) crashRun).getD (.loaded ∅ ∅)

theorem crashed_reachable : (deviceFileSystem 1000).Reachable crashed := by
  have hrun : (deviceFileSystem 1000).run (.loaded ∅ ∅) crashRun = some crashed := rfl
  exact System.Reachable.run (.init ⟨∅, ∅, rfl, rfl⟩) hrun

/-- A reload at 2050 that finds this content. -/
def Reloads (content : Option DeviceStore) : Prop :=
  ∃ upTo, upTo <+: crashed.log ∧ (∀ i ∈ crashed.returned, i ∈ upTo.map Prod.fst) ∧
    ∃ reloaded, content.map (fun store => store.live 2050) = some reloaded ∧
      ((∀ token,
          reloaded.lookup token = ((crashed.start.execAll upTo).live 2050).lookup token) ∨
        (2050 < 1000 ∧ reloaded = crashed.origin.live 2050 ∧
          Unwritten deviceOperations crashed.start upTo))

end DeviceFileSample

open DeviceFileSample

/-- The new file has been renamed, or the directory on disk still names the one without devices. -/
theorem reload_eq_exec_crashed :
    Reloads (some (DeviceStore.exec ∅ mintBob)) ∧ Reloads (some ∅) := by
  constructor
  · exact reload_eq_exec crashed_reachable ⟨crashed.path, .inr rfl, fun _ => rfl⟩ 2050
  · exact reload_eq_exec crashed_reachable ⟨crashed.durable, .inl rfl, fun _ => rfl⟩ 2050

/-! ## A clock that runs back -/

namespace DeviceFileSample

/-- A file with Alice's device, which expires at 1100. -/
def origin : DeviceStore := DeviceStore.exec ∅ mintAlice

def authorizeAlice : DeviceOp := .authorize 0 alice 500 1050

/-- Her browser is refused by a server that was started at 2000. -/
def refused : List (Act DeviceOp) := [.call authorizeAlice, .lock 0, .unlock, .ret 0]

/-- The server after that, step by step. -/
def server : Server DeviceStore DeviceOp where
  start := origin.live 2000
  origin := origin
  memory := (origin.live 2000).exec authorizeAlice
  waiting := Function.update (Function.update (fun _ => none) 0 (some authorizeAlice)) 0 none
  holder := none
  done := [(0, authorizeAlice)]
  leaving := []
  returned := [0]
  nextCall := 1
  tmp := none
  path := ⟨some origin, true⟩
  durable := ⟨some origin, true⟩

theorem reachable : (deviceFileSystem 2000).Reachable server := by
  have hrun : (deviceFileSystem 2000).run (.loaded (origin.live 2000) origin) refused =
      some server := rfl
  exact System.Reachable.run (.init ⟨origin.live 2000, origin, rfl, rfl⟩) hrun

end DeviceFileSample

/-- When the clock has been set back, a restart finds a device that is neither what the store it
replaces has had in memory nor what the file would be if the browser had been let in. -/
theorem reload_revives :
    ¬ ∀ (_ : Lowercase) (loadedAt : ℕ) (s : Server DeviceStore DeviceOp),
      (deviceFileSystem loadedAt).Reachable s →
      ∀ (content : Option DeviceStore), s.CrashLeaves content → ∀ now,
        ∃ upTo, upTo <+: s.log ∧ (∀ i ∈ s.returned, i ∈ upTo.map Prod.fst) ∧
          ∃ reloaded, content.map (fun store => store.live now) = some reloaded ∧
            ((∀ token, reloaded.lookup token =
                ((s.start.execAll upTo).live now).lookup token) ∨
              ∀ token, reloaded.lookup token =
                ((s.origin.execAll upTo).live now).lookup token) := by
  intro h
  obtain ⟨upTo, hupTo, hreturned, reloaded, hreloaded, hsame⟩ :=
    h asciiLowercase 2000 server reachable (some origin) ⟨_, .inl rfl, fun _ => rfl⟩ 1050
  obtain rfl := Option.some.inj hreloaded
  obtain ⟨rest, hrest⟩ := hupTo
  have hlog : upTo = [(0, authorizeAlice)] := by
    cases upTo with
    | nil => exact absurd (hreturned 0 List.mem_cons_self) List.not_mem_nil
    | cons entry upTo =>
      obtain ⟨rfl, htail⟩ := List.cons.inj hrest
      rw [(List.append_eq_nil_iff.mp htail).1]
  subst hlog
  obtain hsame | hsame := hsame
  · exact absurd (congrArg (Option.map Device.lastUsedAt) (hsame 0)) (by decide)
  · exact absurd (congrArg (Option.map Device.lastUsedAt) (hsame 0)) (by decide)

end Webshell
