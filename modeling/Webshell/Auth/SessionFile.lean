import Webshell.Auth.Session
import Webshell.Lib.Transition

/-!
# The session file

What the file of a session store holds, next to the sessions in memory, when every write succeeds.
All operations but `create` write the file when they change what belongs into it. `create` brings
nothing that does, but on a full store it drops a session, and that one stays in the file.

## Main definitions

- `SessionFile`: the store, and when its sessions were created
- `Mirrors`: the file and the memory hold the same sessions, as far as these have not expired
- `RestoresKnown`: a load brings back only what memory has
- `Spares`: a `create` that drops no session which is in the file

## Main results

- `mirrors_iff_spares`: the file mirrors the memory, and no session comes back from it, in every run
  of such operations; the first other one breaks that
- `full_store_leaves_session`: a session in the file that a full store has dropped
-/

namespace Webshell

open Transition

def DiskSession.ttl (d : DiskSession) (authTtl : ℕ) : ℕ :=
  if d.authenticated then authTtl else preauthTtl

/-- The session that `create` drops. -/
def SessionStore.evicts (s : SessionStore) : Option ℕ :=
  if maxSessions ≤ s.inner.entries.length then s.victim else none

/-- A session store with a path. `born` is when the session under an id was created. -/
structure SessionFile where
  store : SessionStore
  path : Text
  clock : Clock
  nextToken : ℕ
  born : ℕ → ℕ

inductive SessionOp
  | create
  | get (id : ℕ)
  | remove (id : ℕ)
  | login (oldId : ℕ) (username : Text)
  | beginMfa (oldId : ℕ) (username : Text)
  | setOauth (id : ℕ) (flow : Option Oidc.Flow)
  | sweep
  | tick (clock : Clock)

namespace SessionFile

/-- The sessions in the file. -/
def disk (s : SessionFile) : Table ℕ DiskSession := s.store.disk s.path

/-- A session of the file whose time is up. -/
def Lapsed (s : SessionFile) (id : ℕ) (d : DiskSession) : Prop :=
  d.ttl s.store.ttl ≤ s.clock.instant - s.born id

/-- A store that has taken the next two tokens, for a session that it has just created. -/
def issue (s : SessionFile) (store : SessionStore) : SessionFile where
  store := store
  path := s.path
  clock := s.clock
  nextToken := s.nextToken + 2
  born := Function.update s.born s.nextToken s.clock.instant

/-- Every write succeeds, and the monotonic clock does not run back. -/
def step (s : SessionFile) : SessionOp → Option SessionFile
  | .create => some (s.issue (s.store.create s.nextToken s.clock))
  | .get id => some { s with store := (s.store.get id s.clock true).2 }
  | .remove id => some { s with store := s.store.remove id s.clock true }
  | .login oldId username =>
    some (s.issue (s.store.login oldId s.nextToken username s.clock true))
  | .beginMfa oldId username =>
    some (s.issue (s.store.beginMfa oldId s.nextToken username s.clock true))
  | .setOauth id flow => some { s with store := s.store.setOauth id flow s.clock true }
  | .sweep => some { s with store := s.store.sweep s.clock true }
  | .tick clock => if s.clock.instant ≤ clock.instant then some { s with clock := clock } else none

/-- A store that has just loaded its file, whatever that held. -/
def loaded (path : Text) (ttl : ℕ) (disk : Text → Table ℕ DiskSession) (clock : Clock)
    (nextToken : ℕ) : SessionFile :=
  let store := SessionStore.load path ttl disk clock true
  { store := store
    path := path
    clock := clock
    nextToken := nextToken
    born := fun id => ((store.inner.lookup id).map Session.created).getD 0 }

end SessionFile

def sessionFileSystem : System SessionFile SessionOp where
  init s := ∃ path ttl disk clock nextToken,
    (∀ id, (disk path).lookup id ≠ none → id < nextToken) ∧
      s = .loaded path ttl disk clock nextToken
  step := SessionFile.step

/-- The sessions of the file that have not expired are the sessions in memory that have not and
that are worth keeping. -/
def Mirrors (s : SessionFile) : Prop :=
  ∀ id d, (s.disk.lookup id = some d ∧ ¬ s.Lapsed id d) ↔
    ∃ x, s.store.inner.lookup id = some x ∧ x.meaningful = true ∧
      x.expired s.store.ttl s.clock.instant = false ∧ x.toDisk = d

/-- Whenever the server is started again, and with whatever session lifetime, it brings back only
sessions that memory has. -/
def RestoresKnown (s : SessionFile) : Prop :=
  ∀ ttl now written id y,
    (SessionStore.load s.path ttl s.store.disk now written).inner.lookup id = some y →
    ∃ x, s.store.inner.lookup id = some x ∧ x.toDisk = y.toDisk

/-- The operation drops no session that is in the file without taking it out of there. -/
def Spares (s : SessionFile) (op : SessionOp) : Prop :=
  op = .create → ∀ id, s.store.evicts = some id → s.disk.lookup id = none

/-! ## The invariant -/

/-- What a run of such operations keeps. -/
structure SessionFileInv (s : SessionFile) : Prop where
  path : s.store.path = some s.path
  inner : ∀ id x, s.store.inner.lookup id = some x → id < s.nextToken ∧ x.created = s.born id
  ids : ∀ id d, s.disk.lookup id = some d → id < s.nextToken
  onDisk : ∀ id x, s.store.inner.lookup id = some x → x.meaningful = true →
    x.expired s.store.ttl s.clock.instant = false → s.disk.lookup id = some x.toDisk
  inMemory : ∀ id d, s.disk.lookup id = some d →
    ∃ x, s.store.inner.lookup id = some x ∧ x.meaningful = true ∧ x.toDisk = d

section
variable {s s' : SessionFile} {id : ℕ} {x : Session} {op : SessionOp}

/-- A session has expired when its entry in the file has. -/
theorem lapsed_toDisk (hcreated : x.created = s.born id) :
    s.Lapsed id x.toDisk ↔ x.expired s.store.ttl s.clock.instant = true := by
  rw [SessionFile.Lapsed, Session.expired, decide_eq_true_iff, hcreated]
  rfl

theorem SessionFileInv.mirrors (h : SessionFileInv s) : Mirrors s := by
  intro id d
  constructor
  · rintro ⟨hdisk, hlive⟩
    obtain ⟨x, hx, hmeaningful, rfl⟩ := h.inMemory id d hdisk
    rw [lapsed_toDisk (h.inner id x hx).2, Bool.not_eq_true] at hlive
    exact ⟨x, hx, hmeaningful, hlive, rfl⟩
  · rintro ⟨x, hx, hmeaningful, hlive, rfl⟩
    refine ⟨h.onDisk id x hx hmeaningful hlive, ?_⟩
    rw [lapsed_toDisk (h.inner id x hx).2, hlive]
    exact Bool.false_ne_true

theorem SessionFileInv.restoresKnown (h : SessionFileInv s) : RestoresKnown s := by
  intro ttl now written id y hy
  obtain ⟨d, hd, hy⟩ := SessionStore.lookup_load hy
  obtain ⟨x, hx, _, hxd⟩ := h.inMemory id d hd
  exact ⟨x, hx, hxd.trans (DiskSession.toDisk_load hy).symm⟩

/-- Writing the file makes it say what memory does. -/
theorem sessionFileInv_persist {store : SessionStore} {path : Text} {clock : Clock} {n : ℕ}
    {born : ℕ → ℕ} (hpath : store.path = some path)
    (hinner : ∀ id x, store.inner.lookup id = some x → id < n ∧ x.created = born id) :
    SessionFileInv ⟨store.persist clock true, path, clock, n, born⟩ := by
  have hstore : store.persist clock true = { store with
      disk := Function.update store.disk path (store.inner.filterMap fun _ x =>
        if x.meaningful && !x.expired store.ttl clock.instant then some x.toDisk else none) } := by
    simp only [SessionStore.persist, hpath, if_true]
  have hdisk : ∀ id,
      (SessionFile.disk ⟨store.persist clock true, path, clock, n, born⟩).lookup id =
        (store.inner.lookup id).bind fun x =>
          if x.meaningful && !x.expired store.ttl clock.instant then some x.toDisk else none := by
    intro id
    rw [hstore]
    simp only [SessionFile.disk, Function.update_self, AList.lookup_filterMap]
  have hmem : ∀ id d, (SessionFile.disk
      ⟨store.persist clock true, path, clock, n, born⟩).lookup id = some d →
      ∃ x, store.inner.lookup id = some x ∧ x.meaningful = true ∧ x.toDisk = d := by
    intro id d hd
    rw [hdisk] at hd
    obtain ⟨x, hx, hd⟩ := Option.bind_eq_some_iff.mp hd
    split at hd
    next hkeep => exact ⟨x, hx, (Bool.and_eq_true_iff.mp hkeep).1, Option.some.inj hd⟩
    · cases hd
  have hsame : (store.persist clock true).inner = store.inner := by rw [hstore]
  have httl : (store.persist clock true).ttl = store.ttl := by rw [hstore]
  refine ⟨by rw [hstore]; exact hpath, fun id x hx => hinner id x (by rwa [← hsame]),
    fun id d hd => ?_, fun id x hx hmeaningful hlive => ?_, fun id d hd => ?_⟩
  · obtain ⟨x, hx, _⟩ := hmem id d hd
    exact (hinner id x hx).1
  · dsimp only at hx hlive
    rw [hsame] at hx
    rw [httl] at hlive
    rw [hdisk, hx, Option.bind_some, hmeaningful, hlive]
    rfl
  · obtain ⟨x, hx, hrest⟩ := hmem id d hd
    exact ⟨x, by rw [hsame]; exact hx, hrest⟩

theorem sessionFileInv_init (h : sessionFileSystem.init s) : SessionFileInv s := by
  obtain ⟨path, ttl, disk, clock, nextToken, hids, rfl⟩ := h
  have hpath : (⟨(disk path).filterMap fun _ d => d.load ttl clock, ttl, some path, disk⟩ :
      SessionStore).path = some path := rfl
  refine sessionFileInv_persist hpath fun id x hx => ⟨hids id fun hnone => ?_, ?_⟩
  · rw [AList.lookup_filterMap, hnone] at hx
    cases hx
  · have hloaded : (SessionStore.load path ttl disk clock true).inner.lookup id = some x := hx
    rw [hloaded]
    rfl

/-- Time passes. -/
theorem SessionFileInv.tick (h : SessionFileInv s) {clock : Clock}
    (hle : s.clock.instant ≤ clock.instant) : SessionFileInv { s with clock := clock } := by
  refine ⟨h.path, h.inner, h.ids, fun id x hx hmeaningful hlive => ?_, h.inMemory⟩
  refine h.onDisk id x hx hmeaningful ?_
  rw [Session.expired, decide_eq_false_iff_not] at hlive ⊢
  dsimp only at hlive
  omega

/-- Dropping sessions and writing the file. -/
theorem SessionFileInv.persist (h : SessionFileInv s) {inner : Table ℕ Session}
    (hinner : ∀ id x, inner.lookup id = some x →
      ∃ y, s.store.inner.lookup id = some y ∧ x.created = y.created) :
    SessionFileInv { s with store := { s.store with inner := inner }.persist s.clock true } := by
  refine sessionFileInv_persist h.path fun id x hx => ?_
  obtain ⟨y, hy, hcreated⟩ := hinner id x hx
  exact ⟨(h.inner id y hy).1, hcreated.trans (h.inner id y hy).2⟩

theorem SessionFileInv.get (h : SessionFileInv s) (id : ℕ) :
    SessionFileInv { s with store := (s.store.get id s.clock true).2 } := by
  simp only [SessionStore.get]
  split
  · split
    · exact h.persist fun _ y hy => ⟨y, (AList.lookup_of_lookup_erase hy).2, rfl⟩
    · exact h
  · exact h

theorem SessionFileInv.remove (h : SessionFileInv s) (id : ℕ) :
    SessionFileInv { s with store := s.store.remove id s.clock true } := by
  simp only [SessionStore.remove]
  split
  · exact h.persist fun _ y hy => ⟨y, (AList.lookup_of_lookup_erase hy).2, rfl⟩
  · exact h

theorem SessionFileInv.setOauth (h : SessionFileInv s) (id : ℕ) (flow : Option Oidc.Flow) :
    SessionFileInv { s with store := s.store.setOauth id flow s.clock true } := by
  simp only [SessionStore.setOauth]
  split
  next x hx =>
    refine h.persist fun id' y hy => ?_
    obtain ⟨rfl, rfl⟩ | ⟨_, hold⟩ := AList.lookup_of_lookup_insert hy
    · exact ⟨x, hx, rfl⟩
    · exact ⟨y, hold, rfl⟩
  · exact h

/-- A sweep that drops nothing does not write, and need not. -/
theorem SessionFileInv.sweep (h : SessionFileInv s) :
    SessionFileInv { s with store := s.store.sweep s.clock true } := by
  simp only [SessionStore.sweep]
  split
  · exact h.persist fun _ y hy => ⟨y, AList.lookup_of_lookup_retain hy, rfl⟩
  next hlength =>
    rw [ne_eq, not_not] at hlength
    have hsame : ∀ id, (s.store.inner.retain fun _ x =>
        !x.expired s.store.ttl s.clock.instant).lookup id = s.store.inner.lookup id := by
      intro id
      rw [AList.lookup_retain]
      cases hx : s.store.inner.lookup id with
      | none => rfl
      | some x => rw [Option.filter_some, AList.keep_of_length_retain hlength hx, if_pos rfl]
    refine ⟨h.path, fun id x hx => h.inner id x ?_, h.ids, fun id x hx => h.onDisk id x ?_,
      fun id d hd => ?_⟩
    · exact (hsame id).symm.trans hx
    · exact (hsame id).symm.trans hx
    · obtain ⟨x, hx, hrest⟩ := h.inMemory id d hd
      exact ⟨x, (hsame id).trans hx, hrest⟩

/-- A login drops one session, brings another one and writes the file. -/
theorem SessionFileInv.promote (h : SessionFileInv s) (oldId : ℕ) (authenticated mfaPending : Bool)
    (username : Text) :
    SessionFileInv (s.issue (s.store.promote oldId s.nextToken authenticated mfaPending username
      s.clock true)) := by
  refine sessionFileInv_persist h.path fun id x hx => ?_
  obtain ⟨rfl, rfl⟩ | ⟨hne, hold⟩ := AList.lookup_of_lookup_insert hx
  · exact ⟨Nat.lt_add_of_pos_right two_pos, (Function.update_self s.nextToken _ s.born).symm⟩
  · have hx := (AList.lookup_of_lookup_erase hold).2
    refine ⟨(h.inner id x hx).1.trans (Nat.lt_add_of_pos_right two_pos), ?_⟩
    rw [Function.update_of_ne hne]
    exact (h.inner id x hx).2

/-! ## The full store -/

/-- What `create` does to the memory: the session it drops, and the new one. -/
theorem lookup_create (store : SessionStore) (token : ℕ) (clock : Clock) (id : ℕ) :
    (store.create token clock).inner.lookup id =
      if id = token then some ⟨false, false, [], none, token + 1, clock.instant, clock.unix⟩
      else if store.evicts = some id then none else store.inner.lookup id := by
  have hinner : (store.create token clock).inner =
      (store.evicts.elim store.inner store.inner.erase).insert token
        ⟨false, false, [], none, token + 1, clock.instant, clock.unix⟩ := by
    rw [SessionStore.create, SessionStore.evicts]
    by_cases hfull : maxSessions ≤ store.inner.entries.length
    · cases store.victim <;> simp only [if_pos hfull, Option.elim]
    · simp only [if_neg hfull, Option.elim]
  rw [hinner]
  by_cases hid : id = token
  · rw [if_pos hid, hid, AList.lookup_insert]
  · rw [if_neg hid, AList.lookup_insert_ne hid]
    cases store.evicts with
    | none => rw [Option.elim_none, if_neg (Option.some_ne_none id).symm]
    | some k =>
      rw [Option.elim_some]
      by_cases hk : k = id
      · rw [if_pos (congrArg some hk), hk, AList.lookup_erase]
      · rw [if_neg fun heq => hk (Option.some.inj heq), AList.lookup_erase_ne (Ne.symm hk)]

theorem SessionFileInv.create (h : SessionFileInv s) (hspares : Spares s .create)
    (hstep : s.step .create = some s') : SessionFileInv s' := by
  obtain rfl := Option.some.inj hstep
  have hborn : ∀ id, id < s.nextToken →
      Function.update s.born s.nextToken s.clock.instant id = s.born id :=
    fun id hid => Function.update_of_ne hid.ne ..
  refine ⟨h.path, fun id x hx => ?_, fun id d hd => (h.ids id d hd).trans
    (Nat.lt_add_of_pos_right two_pos), fun id x hx hmeaningful hlive => ?_, fun id d hd => ?_⟩
  · have hx' := (lookup_create s.store s.nextToken s.clock id).symm.trans hx
    split at hx'
    next hid =>
      obtain rfl := Option.some.inj hx'
      subst hid
      exact ⟨Nat.lt_add_of_pos_right two_pos, (Function.update_self s.nextToken _ s.born).symm⟩
    next hid =>
      split at hx'
      · cases hx'
      · have hlt := (h.inner id x hx').1
        exact ⟨hlt.trans (Nat.lt_add_of_pos_right two_pos),
          (h.inner id x hx').2.trans (hborn id hlt).symm⟩
  · have hx' := (lookup_create s.store s.nextToken s.clock id).symm.trans hx
    split at hx'
    · obtain rfl := Option.some.inj hx'
      cases hmeaningful
    · split at hx'
      · cases hx'
      · exact h.onDisk id x hx' hmeaningful hlive
  · -- the session that is dropped is not in the file
    have hid := h.ids id d hd
    have hev : s.store.evicts ≠ some id := fun hev => by
      cases (hspares rfl id hev).symm.trans hd
    obtain ⟨x, hx, hrest⟩ := h.inMemory id d hd
    have hlookup := lookup_create s.store s.nextToken s.clock id
    rw [if_neg hid.ne, if_neg hev] at hlookup
    exact ⟨x, hlookup.trans hx, hrest⟩

theorem SessionFileInv.step (h : SessionFileInv s) (hspares : Spares s op)
    (hstep : s.step op = some s') : SessionFileInv s' := by
  cases op with
  | create => exact h.create hspares hstep
  | get id => exact Option.some.inj hstep ▸ h.get id
  | remove id => exact Option.some.inj hstep ▸ h.remove id
  | login oldId username => exact Option.some.inj hstep ▸ h.promote oldId true false username
  | beginMfa oldId username => exact Option.some.inj hstep ▸ h.promote oldId false true username
  | setOauth id flow => exact Option.some.inj hstep ▸ h.setOauth id flow
  | sweep => exact Option.some.inj hstep ▸ h.sweep
  | tick clock =>
    simp only [SessionFile.step] at hstep
    split at hstep
    next hle => exact Option.some.inj hstep ▸ h.tick hle
    · cases hstep

/-- A session that a full store drops while it is in the file comes back with a load. -/
theorem SessionFileInv.not_restoresKnown (h : SessionFileInv s) (hspares : ¬ Spares s op)
    (hstep : s.step op = some s') : ¬ RestoresKnown s' := by
  simp only [Spares, not_forall] at hspares
  obtain ⟨rfl, id, hev, hdisk⟩ := hspares
  obtain rfl := Option.some.inj hstep
  obtain ⟨d, hd⟩ := Option.ne_none_iff_exists'.mp hdisk
  obtain ⟨x, _, hmeaningful, rfl⟩ := h.inMemory id d hd
  -- the clock may be set back to where the session was created
  have hload : ∃ y, x.toDisk.load (fromSecs 1) ⟨0, x.createdUnix⟩ = some y := by
    refine ⟨_, if_neg ?_⟩
    have hkept : x.toDisk.meaningful = true := hmeaningful
    rw [hkept]
    show ¬ (false || decide ((if x.authenticated then asSecs (fromSecs 1) else asSecs preauthTtl) ≤
      x.createdUnix - x.createdUnix)) = true
    cases x.authenticated <;> simp [asSecs, fromSecs, preauthTtl]
  obtain ⟨y, hy⟩ := hload
  intro hrestores
  obtain ⟨z, hz, _⟩ := hrestores (fromSecs 1) ⟨0, x.createdUnix⟩ true id y (by
    rw [SessionStore.load_inner, AList.lookup_filterMap]
    exact Option.bind_eq_some_iff.mpr ⟨_, hd, hy⟩)
  have hlookup := lookup_create s.store s.nextToken s.clock id
  rw [if_neg (h.ids id _ hd).ne, if_pos hev] at hlookup
  have hz' : (s.store.create s.nextToken s.clock).inner.lookup id = some z := hz
  rw [hlookup] at hz'
  cases hz'

/-- In a run whose creations drop no session that is in the file, the file mirrors the memory, and a
load restores only what memory still has; the first creation that drops one that is breaks this. -/
theorem mirrors_iff_spares (h : sessionFileSystem.Reach Spares s) :
    (Mirrors s ∧ RestoresKnown s) ∧
      ∀ op s', sessionFileSystem.step s op = some s' →
        (Mirrors s' ∧ RestoresKnown s' ↔ Spares s op) := by
  have hinv : SessionFileInv s := by
    refine System.Reach.invariant (fun _ hi => sessionFileInv_init hi) ?_ h
    intro s op s' _ hs hspares hstep
    exact hs.step hspares hstep
  refine ⟨⟨hinv.mirrors, hinv.restoresKnown⟩, fun op s' hstep => ⟨?_, ?_⟩⟩
  · rintro ⟨_, hrestores⟩
    by_contra hspares
    exact hinv.not_restoresKnown hspares hstep hrestores
  · intro hspares
    have hinv' := hinv.step hspares hstep
    exact ⟨hinv'.mirrors, hinv'.restoresKnown⟩

/-! ### Ten thousand sessions -/

/-- The session under `v` is the oldest of those that have not logged in, the others came after it,
and the file has been `disk` since. -/
structure Crowded (v : ℕ) (disk : Table ℕ DiskSession) (n : ℕ) (s : SessionFile) : Prop where
  clock : s.clock = ⟨1, 0⟩
  disk : s.disk = disk
  length : s.store.inner.entries.length = n
  fresh : ∀ id x, s.store.inner.lookup id = some x → id < s.nextToken
  born : s.born v = 0
  oldest : ∃ x, s.store.inner.lookup v = some x ∧ x.authenticated = false ∧ x.created = 0
  younger : ∀ id x, s.store.inner.lookup id = some x → x.authenticated = false →
    id = v ∨ x.created = 1

variable {v n : ℕ} {disk : Table ℕ DiskSession}

theorem Crowded.lt (h : Crowded v disk n s) : v < s.nextToken := by
  obtain ⟨x, hx, _⟩ := h.oldest
  exact h.fresh v x hx

theorem spares_of_length_lt (op : SessionOp) (h : s.store.inner.entries.length < maxSessions) :
    Spares s op := by
  intro _ id hev
  rw [SessionStore.evicts, if_neg (not_le.mpr h)] at hev
  cases hev

theorem Crowded.create (h : Crowded v disk n s) (hroom : n < maxSessions) :
    Spares s .create ∧ ∃ s', s.step .create = some s' ∧ Crowded v disk (n + 1) s' := by
  have hlength : s.store.inner.entries.length < maxSessions := h.length ▸ hroom
  have hnone : s.store.inner.lookup s.nextToken = none := by
    rw [Option.eq_none_iff_forall_ne_some]
    intro x hx
    exact lt_irrefl _ (h.fresh _ x hx)
  have hinner : (s.store.create s.nextToken s.clock).inner = s.store.inner.insert s.nextToken
      ⟨false, false, [], none, s.nextToken + 1, s.clock.instant, s.clock.unix⟩ := by
    simp only [SessionStore.create]
    rw [if_neg (not_le.mpr hlength)]
  refine ⟨spares_of_length_lt _ hlength, _, rfl, h.clock, h.disk, ?_, fun id x hx => ?_, ?_, ?_,
    fun id x hx hx' => ?_⟩
  · have hfresh : s.nextToken ∉ s.store.inner := AList.lookup_eq_none.mp hnone
    refine (congrArg (fun t => t.entries.length) hinner).trans ?_
    rw [AList.entries_insert_of_notMem hfresh, List.length_cons, h.length]
  · obtain ⟨rfl, _⟩ | ⟨_, hold⟩ := AList.lookup_of_lookup_insert (hinner ▸ hx)
    · exact Nat.lt_add_of_pos_right two_pos
    · exact (h.fresh id x hold).trans (Nat.lt_add_of_pos_right two_pos)
  · exact (Function.update_of_ne h.lt.ne ..).trans h.born
  · obtain ⟨x, hx, hrest⟩ := h.oldest
    refine ⟨x, (congrArg (AList.lookup v) hinner).trans ?_, hrest⟩
    exact (AList.lookup_insert_ne h.lt.ne).trans hx
  · obtain ⟨_, rfl⟩ | ⟨_, hold⟩ := AList.lookup_of_lookup_insert (hinner ▸ hx)
    · exact .inr (congrArg Clock.instant h.clock)
    · exact h.younger id x hold hx'

theorem Crowded.run (h : Crowded v disk n s) (k : ℕ) (hroom : n + k ≤ maxSessions) :
    ∃ s', sessionFileSystem.run s (List.replicate k .create) = some s' ∧
      Crowded v disk (n + k) s' ∧
      (sessionFileSystem.Reach Spares s → sessionFileSystem.Reach Spares s') := by
  induction k generalizing n s with
  | zero => exact ⟨s, rfl, h, id⟩
  | succ k ih =>
    obtain ⟨hspares, s₁, hstep, h₁⟩ := h.create (by omega)
    obtain ⟨s₂, hrun, h₂, hreach⟩ := ih h₁ (by omega)
    refine ⟨s₂, ?_, by rwa [Nat.add_assoc, Nat.add_comm 1 k] at h₂,
      fun h => hreach (h.step hspares hstep)⟩
    rw [List.replicate_succ]
    exact (System.run_cons_of_step hstep).trans hrun

/-- A full store drops the oldest one. -/
theorem Crowded.evicts (h : Crowded v disk n s) (hfull : maxSessions ≤ n) :
    s.store.evicts = some v := by
  obtain ⟨x, hx, hx', hcreated⟩ := h.oldest
  have hmem : (⟨v, x⟩ : Σ _ : ℕ, Session) ∈
      s.store.inner.entries.filter fun entry => !entry.2.authenticated :=
    List.mem_filter.mpr ⟨AList.mem_lookup_iff.mp hx, by rw [hx']; rfl⟩
  rw [SessionStore.evicts, if_pos (h.length ▸ hfull), SessionStore.victim]
  cases hmin : (s.store.inner.entries.filter fun entry => !entry.2.authenticated).argmin
      fun entry => entry.2.created with
  | none =>
    rw [List.argmin_eq_none.mp hmin] at hmem
    cases hmem
  | some entry =>
    have hentry := List.mem_filter.mp (List.argmin_mem (Option.mem_def.mpr hmin))
    have hlookup := AList.mem_lookup_iff.mpr hentry.1
    have hanonymous : entry.2.authenticated = false := by simpa using hentry.2
    have hle := List.le_of_mem_argmin hmem (Option.mem_def.mpr hmin)
    dsimp only at hle
    obtain hid | hone := h.younger _ _ hlookup hanonymous
    · exact congrArg some hid
    · omega

/-- It leaves the memory, and the file stays as it is. -/
theorem Crowded.forgotten (h : Crowded v disk n s) (hfull : maxSessions ≤ n) :
    ∃ s', s.step .create = some s' ∧ s'.store.inner.lookup v = none ∧ s'.disk = disk ∧
      s'.born v = 0 ∧ s'.clock = ⟨1, 0⟩ := by
  refine ⟨_, rfl, ?_, h.disk, ?_, h.clock⟩
  · refine (lookup_create s.store s.nextToken s.clock v).trans ?_
    rw [if_neg h.lt.ne, if_pos (h.evicts hfull)]
  · exact (Function.update_of_ne h.lt.ne ..).trans h.born

/-- A store in which one session has not logged in. -/
theorem Crowded.of_entries {x : Session} (hclock : s.clock = ⟨1, 0⟩) (hborn : s.born v = 0)
    (hlength : s.store.inner.entries.length = n)
    (hhead : s.store.inner.entries.head? = some ⟨v, x⟩) (holdest : x.authenticated = false)
    (hcreated : x.created = 0) (hfresh : ∀ e ∈ s.store.inner.entries, e.1 < s.nextToken)
    (hothers : ∀ e ∈ s.store.inner.entries.tail, e.2.authenticated = true) :
    Crowded v s.disk n s := by
  obtain ⟨others, hentries⟩ := List.head?_eq_some_iff.mp hhead
  rw [hentries, List.tail_cons] at hothers
  refine ⟨hclock, rfl, hlength, fun id y hy => hfresh _ (AList.mem_lookup_iff.mp hy), hborn,
    ⟨x, ?_, holdest, hcreated⟩, fun id y hy hy' => ?_⟩
  · exact AList.mem_lookup_iff.mpr (hentries ▸ List.mem_cons_self)
  · have hmem := AList.mem_lookup_iff.mp hy
    rw [hentries] at hmem
    obtain heq | hother := List.mem_cons.mp hmem
    · exact .inl (congrArg Sigma.fst heq)
    · cases hy'.symm.trans (hothers _ hother)

/-- Alice logs in, somebody else comes to the login page, and ten thousand younger visits follow. -/
def visits : List SessionOp :=
  [.create, .login 0 "alice".toList, .create, .tick ⟨1, 0⟩] ++
    (List.replicate 9998 .create ++ [.create])

/-- The visitor's session is dropped, and a restart brings alice's back. -/
theorem mirrors_iff_spares_visits :
    ∃ s, sessionFileSystem.run (.loaded [] (fromSecs 3600) (fun _ => ∅) ⟨0, 0⟩ 0) visits = some s ∧
      s.store.inner.lookup 4 = none ∧
      (SessionStore.load s.path (fromSecs 3600) s.store.disk ⟨0, 60⟩ true).inner.lookup 2 ≠ none ∧
      (Mirrors s ∧ RestoresKnown s) ∧
      ∀ op s', sessionFileSystem.step s op = some s' →
        (Mirrors s' ∧ RestoresKnown s' ↔ Spares s op) := by
  have hstart : sessionFileSystem.Reach Spares
      (.loaded [] (fromSecs 3600) (fun _ => ∅) ⟨0, 0⟩ 0) :=
    .init ⟨[], _, fun _ => ∅, ⟨0, 0⟩, 0, fun _ h => absurd (AList.lookup_empty _) h, rfl⟩
  obtain ⟨s₀, hrun₀, hanonymous, ⟨d, hd, hload⟩, h₀⟩ : ∃ s₀,
      sessionFileSystem.run (.loaded [] (fromSecs 3600) (fun _ => ∅) ⟨0, 0⟩ 0)
        [.create, .login 0 "alice".toList, .create, .tick ⟨1, 0⟩] = some s₀ ∧
      s₀.disk.lookup 4 = none ∧
      (∃ d, s₀.disk.lookup 2 = some d ∧ (d.load (fromSecs 3600) ⟨0, 60⟩).isSome = true) ∧
      Crowded 4 s₀.disk 2 s₀ := by
    refine ⟨_, rfl, rfl, ⟨_, rfl, by decide⟩, .of_entries rfl rfl rfl rfl rfl rfl ?_ ?_⟩ <;> decide
  have hroom : ∀ e ∈ sessionFileSystem.steps (.loaded [] (fromSecs 3600) (fun _ => ∅) ⟨0, 0⟩ 0)
      [.create, .login 0 "alice".toList, .create, .tick ⟨1, 0⟩],
      e.1.store.inner.entries.length < maxSessions := by decide
  have hreach₀ := hstart.run_steps (fun e he => spares_of_length_lt e.2 (hroom e he)) hrun₀
  obtain ⟨s₁, hrun₁, h₁, hreach₁⟩ := h₀.run 9998 (by decide)
  obtain ⟨s₂, hstep, hnone, hdisk, _⟩ := h₁.forgotten le_rfl
  have hspares : Spares s₁ .create := by
    intro _ id hev
    obtain rfl := Option.some.inj ((h₁.evicts le_rfl).symm.trans hev)
    rw [h₁.disk]
    exact hanonymous
  refine ⟨s₂, ?_, hnone, fun hlost => ?_,
    mirrors_iff_spares ((hreach₁ hreach₀).step hspares hstep)⟩
  · rw [visits, System.run_append hrun₀, System.run_append hrun₁]
    exact System.run_cons_of_step hstep
  · have hd' : s₂.disk.lookup 2 = some d := hdisk ▸ hd
    rw [SessionStore.load_inner, AList.lookup_filterMap,
      show (s₂.store.disk s₂.path).lookup 2 = _ from hd', Option.bind_some] at hlost
    rw [hlost] at hload
    cases hload

/-- A browser that has been sent to its identity provider, and ten thousand younger visits. -/
def crowding : List SessionOp :=
  [.create, .setOauth 0 (some ⟨0, 0, 0⟩), .tick ⟨1, 0⟩] ++
    (List.replicate 9999 .create ++ [.create])

/-- The session of the browser leaves the memory, but not the file, and a restart brings it
back. -/
theorem full_store_leaves_session :
    ∃ s, sessionFileSystem.run (.loaded [] 0 (fun _ => ∅) ⟨0, 0⟩ 0) crowding = some s ∧
      s.store.inner.lookup 0 = none ∧
      (SessionStore.load s.path s.store.ttl s.store.disk s.clock true).inner.lookup 0 ≠ none ∧
      ¬ Mirrors s := by
  obtain ⟨s₀, hrun₀, hd, h₀⟩ : ∃ s₀, sessionFileSystem.run (.loaded [] 0 (fun _ => ∅) ⟨0, 0⟩ 0)
      [.create, .setOauth 0 (some ⟨0, 0, 0⟩), .tick ⟨1, 0⟩] = some s₀ ∧
      s₀.disk.lookup 0 = some ⟨false, false, [], some ⟨0, 0, 0⟩, 1, 0⟩ ∧
      Crowded 0 s₀.disk 1 s₀ := by
    refine ⟨_, rfl, rfl, .of_entries rfl rfl rfl rfl rfl rfl ?_ ?_⟩ <;> decide
  obtain ⟨s₁, hrun₁, h₁, _⟩ := h₀.run 9999 (by decide)
  obtain ⟨s₂, hstep, hnone, hdisk, hborn, hclock⟩ := h₁.forgotten le_rfl
  have hd' : s₂.disk.lookup 0 = some ⟨false, false, [], some ⟨0, 0, 0⟩, 1, 0⟩ := hdisk ▸ hd
  refine ⟨s₂, ?_, hnone, fun hload => ?_, fun hmirrors => ?_⟩
  · rw [crowding, System.run_append hrun₀, System.run_append hrun₁]
    exact System.run_cons_of_step hstep
  · rw [SessionStore.load_inner, AList.lookup_filterMap, hclock,
      show (s₂.store.disk s₂.path).lookup 0 = _ from hd', Option.bind_some] at hload
    simp [DiskSession.load, DiskSession.meaningful, asSecs, preauthTtl, fromSecs] at hload
  · -- it is a nanosecond old
    have hlive : ¬ s₂.Lapsed 0 ⟨false, false, [], some ⟨0, 0, 0⟩, 1, 0⟩ := by
      rw [SessionFile.Lapsed, hborn, hclock]
      simp [DiskSession.ttl, preauthTtl, fromSecs]
    obtain ⟨x, hx, _⟩ := (hmirrors 0 _).mp ⟨hd', hlive⟩
    cases hnone.symm.trans hx

end

end Webshell
