import Mathlib.Data.List.MinMax
import Webshell.Auth.Config
import Webshell.Auth.FirstFactor
import Webshell.Lib.Table

/-!
# Login sessions

The session store with the files it writes. Tokens are numbers in the order in which they are
drawn, so that no two of them are equal, and a session is found under the token itself where the
program takes its hash. Whether a write of the file succeeds is an argument: a write that fails is
logged and leaves the file as it was.

## Main definitions

- `SessionStore`: `create`, `get`, `remove`, `login`, `beginMfa`, `sweep`, `setOauth`, `load`
- `SessionStore.Known`: what memory or a file says about the login of a session

## Main results

- `SessionStore.Keeps`, `SessionStore.Adds`: what the operations do to that
-/

namespace Webshell

/-- The readings of the two clocks: nanoseconds of the monotonic one, from the earliest instant
that there is, and seconds of the other. -/
structure Clock where
  instant : ℕ
  unix : ℕ

/-- Lifetime of a session that has not logged in. -/
def preauthTtl : ℕ := fromSecs (30 * 60)

def maxSessions : ℕ := 10000

structure Session where
  authenticated : Bool
  mfaPending : Bool
  username : Text
  oauth : Option Oidc.Flow
  csrf : ℕ
  created : ℕ
  createdUnix : ℕ

structure DiskSession where
  authenticated : Bool
  mfaPending : Bool
  username : Text
  oauth : Option Oidc.Flow
  csrf : ℕ
  createdUnix : ℕ

namespace Session

def ttl (s : Session) (authTtl : ℕ) : ℕ := if s.authenticated then authTtl else preauthTtl

def expired (s : Session) (authTtl now : ℕ) : Bool := s.ttl authTtl ≤ now - s.created

def meaningful (s : Session) : Bool := s.authenticated || s.mfaPending || s.oauth.isSome

def toDisk (s : Session) : DiskSession :=
  ⟨s.authenticated, s.mfaPending, s.username, s.oauth, s.csrf, s.createdUnix⟩

end Session

namespace DiskSession

def meaningful (d : DiskSession) : Bool := d.authenticated || d.mfaPending || d.oauth.isSome

/-- The session that a file entry becomes, if it is worth keeping and young enough. -/
def load (d : DiskSession) (ttl : ℕ) (now : Clock) : Option Session :=
  let ttlSecs := if d.authenticated then asSecs ttl else asSecs preauthTtl
  let age := now.unix - d.createdUnix
  if !d.meaningful || ttlSecs ≤ age then none
  else
    some {
      authenticated := d.authenticated
      mfaPending := d.mfaPending
      username := d.username
      oauth := d.oauth
      csrf := d.csrf
      -- `checked_sub`: where there is no instant that far back, it is the present
      created := if fromSecs age ≤ now.instant then now.instant - fromSecs age else now.instant
      createdUnix := d.createdUnix }

end DiskSession

/-- The sessions in memory, where they are written to, and what the files hold. -/
structure SessionStore where
  inner : Table ℕ Session
  ttl : ℕ
  path : Option Text
  disk : Text → Table ℕ DiskSession

namespace SessionStore

/-- A store that is kept in memory only, next to the files there are. -/
def new (ttl : ℕ) (disk : Text → Table ℕ DiskSession) : SessionStore := ⟨∅, ttl, none, disk⟩

/-- `persist_locked`: the file is replaced by the sessions worth keeping. -/
def persist (s : SessionStore) (now : Clock) (written : Bool) : SessionStore :=
  match s.path with
  | none => s
  | some path =>
    if written then
      { s with disk := Function.update s.disk path (s.inner.filterMap fun _ x =>
          if x.meaningful && !x.expired s.ttl now.instant then some x.toDisk else none) }
    else s

def load (path : Text) (ttl : ℕ) (disk : Text → Table ℕ DiskSession) (now : Clock)
    (written : Bool) : SessionStore :=
  let s : SessionStore := ⟨(disk path).filterMap fun _ d => d.load ttl now, ttl, some path, disk⟩
  s.persist now written

/-- The oldest session that is not authenticated, or else the oldest. -/
def victim (s : SessionStore) : Option ℕ :=
  let anonymous := s.inner.entries.filter fun entry => !entry.2.authenticated
  let oldest := (anonymous.argmin fun entry => entry.2.created).orElse fun _ =>
    s.inner.entries.argmin fun entry => entry.2.created
  oldest.map fun entry => entry.1

/-- A fresh anonymous session under the token `id`, with the token after it for its forms. -/
def create (s : SessionStore) (id : ℕ) (now : Clock) : SessionStore :=
  let session : Session := ⟨false, false, [], none, id + 1, now.instant, now.unix⟩
  let inner :=
    if maxSessions ≤ s.inner.entries.length then
      match s.victim with
      | some k => s.inner.erase k
      | none => s.inner
    else s.inner
  { s with inner := inner.insert id session }

/-- The session, unless it has expired; then it is dropped. -/
def get (s : SessionStore) (id : ℕ) (now : Clock) (written : Bool) :
    Option Session × SessionStore :=
  match s.inner.lookup id with
  | some x =>
    if x.expired s.ttl now.instant then
      (none, { s with inner := s.inner.erase id }.persist now written)
    else (some x, s)
  | none => (none, s)

def remove (s : SessionStore) (id : ℕ) (now : Clock) (written : Bool) : SessionStore :=
  if (s.inner.lookup id).isSome then
    { s with inner := s.inner.erase id }.persist now written
  else s

/-- The common part of `login` and `begin_mfa`: the old session makes way for a new one under the
token `id`. -/
def promote (s : SessionStore) (oldId id : ℕ) (authenticated mfaPending : Bool) (username : Text)
    (now : Clock) (written : Bool) : SessionStore :=
  let session : Session :=
    ⟨authenticated, mfaPending, username, none, id + 1, now.instant, now.unix⟩
  { s with inner := (s.inner.erase oldId).insert id session }.persist now written

def login (s : SessionStore) (oldId id : ℕ) (username : Text) (now : Clock) (written : Bool) :
    SessionStore :=
  s.promote oldId id true false username now written

def beginMfa (s : SessionStore) (oldId id : ℕ) (username : Text) (now : Clock) (written : Bool) :
    SessionStore :=
  s.promote oldId id false true username now written

def sweep (s : SessionStore) (now : Clock) (written : Bool) : SessionStore :=
  let s' := { s with inner := s.inner.retain fun _ x => !x.expired s.ttl now.instant }
  if s'.inner.entries.length ≠ s.inner.entries.length then s'.persist now written else s'

def setOauth (s : SessionStore) (id : ℕ) (flow : Option Oidc.Flow) (now : Clock)
    (written : Bool) : SessionStore :=
  match s.inner.lookup id with
  | some x => { s with inner := s.inner.insert id { x with oauth := flow } }.persist now written
  | none => s

end SessionStore

/-! ## What is known of a session's login -/

/-- What a session says about a login. -/
structure Credential where
  authenticated : Bool
  mfaPending : Bool
  username : Text

def Session.credential (x : Session) : Credential := ⟨x.authenticated, x.mfaPending, x.username⟩

def DiskSession.credential (d : DiskSession) : Credential :=
  ⟨d.authenticated, d.mfaPending, d.username⟩

/-- A session that is loaded is the one that was written. -/
theorem DiskSession.toDisk_load {d : DiskSession} {ttl : ℕ} {now : Clock} {x : Session}
    (h : d.load ttl now = some x) : x.toDisk = d := by
  obtain ⟨_, hx⟩ := Option.ite_none_left_eq_some.mp h
  rw [Option.some.injEq] at hx
  subst hx
  rfl

namespace SessionStore

variable {s s' s'' : SessionStore} {id oldId : ℕ} {c : Credential} {now : Clock}

/-- The store, in memory or in one of its files, has a session under `id` that says `c`. -/
def Known (s : SessionStore) (id : ℕ) (c : Credential) : Prop :=
  (∃ x, s.inner.lookup id = some x ∧ x.credential = c) ∨
    ∃ path d, (s.disk path).lookup id = some d ∧ d.credential = c

/-- The operation brings no login that was not there, and no session under another id. -/
structure Keeps (s s' : SessionStore) : Prop where
  known : ∀ id c, s'.Known id c → s.Known id c
  absent : ∀ id, s.inner.lookup id = none → s'.inner.lookup id = none

/-- The operation brings one session, which says `c`, under `id`. -/
structure Adds (id : ℕ) (c : Credential) (s s' : SessionStore) : Prop where
  known : ∀ id' c', s'.Known id' c' → s.Known id' c' ∨ (id' = id ∧ c' = c)
  absent : ∀ id', id' ≠ id → s.inner.lookup id' = none → s'.inner.lookup id' = none

theorem Keeps.refl (s : SessionStore) : s.Keeps s := ⟨fun _ _ h => h, fun _ h => h⟩

theorem Keeps.trans (h : s.Keeps s') (h' : s'.Keeps s'') : s.Keeps s'' :=
  ⟨fun id c hk => h.known id c (h'.known id c hk), fun id hn => h'.absent id (h.absent id hn)⟩

theorem Adds.trans_keeps (h : s.Adds id c s') (h' : s'.Keeps s'') : Adds id c s s'' :=
  ⟨fun id c hk => h.known id c (h'.known id c hk),
    fun id hne hn => h'.absent id (h.absent id hne hn)⟩

@[simp] theorem inner_persist (s : SessionStore) (now : Clock) (written : Bool) :
    (s.persist now written).inner = s.inner := by
  rw [persist]
  split
  · rfl
  · split <;> rfl

/-- Writing the file says nothing that memory does not. -/
theorem keeps_persist (s : SessionStore) (now : Clock) (written : Bool) :
    s.Keeps (s.persist now written) := by
  rw [persist]
  split
  · exact .refl s
  next path _ =>
    split
    · refine ⟨fun id c hk => ?_, fun id hn => hn⟩
      obtain hmem | ⟨path', d, hd, hc⟩ := hk
      · exact .inl hmem
      · dsimp only at hd
        by_cases hpath : path' = path
        · subst hpath
          rw [Function.update_self, AList.lookup_filterMap, Option.bind_eq_some_iff] at hd
          obtain ⟨x, hx, hd⟩ := hd
          split at hd
          · rw [Option.some.injEq] at hd
            subst hd
            exact .inl ⟨x, hx, hc⟩
          · cases hd
        · rw [Function.update_of_ne hpath] at hd
          exact .inr ⟨path', d, hd, hc⟩
    · exact .refl s

/-- Memory that only loses sessions, or changes what does not concern a login. -/
theorem keeps_of_inner {inner : Table ℕ Session}
    (h : ∀ id x, inner.lookup id = some x →
      ∃ y, s.inner.lookup id = some y ∧ y.credential = x.credential) :
    s.Keeps { s with inner := inner } := by
  refine ⟨fun id c hk => ?_, fun id hn => ?_⟩
  · obtain ⟨x, hx, hc⟩ | hdisk := hk
    · obtain ⟨y, hy, hyx⟩ := h id x hx
      exact .inl ⟨y, hy, hyx.trans hc⟩
    · exact .inr hdisk
  · rw [Option.eq_none_iff_forall_ne_some]
    intro x hx
    obtain ⟨y, hy, _⟩ := h id x hx
    rw [hn] at hy
    cases hy

theorem keeps_erase (s : SessionStore) (id : ℕ) :
    s.Keeps { s with inner := s.inner.erase id } :=
  keeps_of_inner fun _ x hx => ⟨x, (AList.lookup_of_lookup_erase hx).2, rfl⟩

theorem adds_insert {x : Session} (hx : x.credential = c) :
    Adds id c s { s with inner := s.inner.insert id x } := by
  subst hx
  refine ⟨fun id' c hk => ?_, fun id' hne hn => ?_⟩
  · obtain ⟨y, hy, hc⟩ | hdisk := hk
    · obtain ⟨rfl, rfl⟩ | ⟨_, hold⟩ := AList.lookup_of_lookup_insert hy
      · exact .inr ⟨rfl, hc.symm⟩
      · exact .inl (.inl ⟨y, hold, hc⟩)
    · exact .inl (.inr hdisk)
  · exact (AList.lookup_insert_ne hne).trans hn

theorem Keeps.trans_adds (h : s.Keeps s') (h' : Adds id c s' s'') : Adds id c s s'' :=
  ⟨fun id c hk => (h'.known id c hk).imp_left (h.known id c),
    fun id hne hn => h'.absent id hne (h.absent id hn)⟩

theorem keeps_get (s : SessionStore) (id : ℕ) (now : Clock) (written : Bool) :
    s.Keeps (s.get id now written).2 := by
  rw [get]
  split
  · split
    · exact (keeps_erase s id).trans (keeps_persist ..)
    · exact .refl s
  · exact .refl s

/-- A session that is returned is in the store and has not expired. -/
theorem lookup_of_get {x : Session} {written : Bool} (h : (s.get id now written).1 = some x) :
    s.inner.lookup id = some x ∧ x.expired s.ttl now.instant = false := by
  rw [get] at h
  split at h
  next y hy =>
    split at h
    · cases h
    next hlive =>
      rw [Option.some.injEq] at h
      subst h
      exact ⟨hy, Bool.eq_false_iff.mpr hlive⟩
  · cases h

theorem known_of_get {x : Session} {written : Bool} (h : (s.get id now written).1 = some x) :
    s.Known id x.credential :=
  .inl ⟨x, (lookup_of_get h).1, rfl⟩

theorem keeps_remove (s : SessionStore) (id : ℕ) (now : Clock) (written : Bool) :
    s.Keeps (s.remove id now written) := by
  rw [remove]
  split
  · exact (keeps_erase s id).trans (keeps_persist ..)
  · exact .refl s

theorem keeps_sweep (s : SessionStore) (now : Clock) (written : Bool) :
    s.Keeps (s.sweep now written) := by
  have hretain :
      s.Keeps { s with inner := s.inner.retain fun _ x => !x.expired s.ttl now.instant } :=
    keeps_of_inner fun _ x hx => ⟨x, AList.lookup_of_lookup_retain hx, rfl⟩
  rw [sweep]
  split
  · exact hretain.trans (keeps_persist ..)
  · exact hretain

theorem keeps_setOauth (s : SessionStore) (id : ℕ) (flow : Option Oidc.Flow) (now : Clock)
    (written : Bool) : s.Keeps (s.setOauth id flow now written) := by
  rw [setOauth]
  split
  next x hx =>
    refine Keeps.trans (keeps_of_inner fun id' y hy => ?_) (keeps_persist ..)
    obtain ⟨rfl, rfl⟩ | ⟨_, hold⟩ := AList.lookup_of_lookup_insert hy
    · exact ⟨x, hx, rfl⟩
    · exact ⟨y, hold, rfl⟩
  · exact .refl s

theorem adds_create (s : SessionStore) (id : ℕ) (now : Clock) :
    Adds id ⟨false, false, []⟩ s (s.create id now) := by
  rw [create]
  split
  · split
    · exact (keeps_erase s _).trans_adds (adds_insert rfl)
    · exact adds_insert rfl
  · exact adds_insert rfl

theorem adds_promote (s : SessionStore) (oldId id : ℕ) (authenticated mfaPending : Bool)
    (username : Text) (now : Clock) (written : Bool) :
    Adds id ⟨authenticated, mfaPending, username⟩ s
      (s.promote oldId id authenticated mfaPending username now written) := by
  refine Adds.trans_keeps ?_ (keeps_persist ..)
  exact (keeps_erase s oldId).trans_adds (adds_insert rfl)

/-- The session a login starts from is gone. -/
theorem lookup_promote_old {authenticated mfaPending : Bool} {username : Text} {written : Bool}
    (h : oldId ≠ id) :
    (s.promote oldId id authenticated mfaPending username now written).inner.lookup oldId =
      none := by
  refine (keeps_persist _ now written).absent oldId ?_
  exact (AList.lookup_insert_ne h).trans (AList.lookup_erase ..)

theorem load_inner {path : Text} {ttl : ℕ} {disk : Text → Table ℕ DiskSession} {written : Bool} :
    (load path ttl disk now written).inner = (disk path).filterMap fun _ d => d.load ttl now := by
  rw [load, inner_persist]

/-- What a load brings to memory was in the file. -/
theorem lookup_load {path : Text} {ttl : ℕ} {disk : Text → Table ℕ DiskSession} {written : Bool}
    {x : Session} (h : (load path ttl disk now written).inner.lookup id = some x) :
    ∃ d, (disk path).lookup id = some d ∧ d.load ttl now = some x := by
  rw [load_inner, AList.lookup_filterMap] at h
  exact Option.bind_eq_some_iff.mp h

/-- A restart reads what a file says. -/
theorem known_load {path : Text} {ttl : ℕ} {written : Bool}
    (h : (load path ttl s.disk now written).Known id c) : s.Known id c := by
  obtain ⟨x, hx, hc⟩ | hdisk := h
  · obtain ⟨d, hd, hx⟩ := lookup_load hx
    have hcredential := congrArg DiskSession.credential (DiskSession.toDisk_load hx)
    exact .inr ⟨path, d, hd, hcredential.symm.trans hc⟩
  · have hkeeps := keeps_persist
      ⟨(s.disk path).filterMap fun _ d => d.load ttl now, ttl, some path, s.disk⟩ now written
    obtain ⟨x, hx, hc⟩ | hold := hkeeps.known id c (.inr hdisk)
    · rw [AList.lookup_filterMap, Option.bind_eq_some_iff] at hx
      obtain ⟨d, hd, hx⟩ := hx
      exact .inr ⟨path, d, hd,
        (congrArg DiskSession.credential (DiskSession.toDisk_load hx)).symm.trans hc⟩
    · exact .inr hold

theorem known_new {ttl : ℕ} (h : (new ttl s.disk).Known id c) : s.Known id c := by
  obtain ⟨x, hx, _⟩ | hdisk := h
  · rw [new, AList.lookup_empty] at hx
    cases hx
  · exact .inr hdisk

end SessionStore

end Webshell
