import Webshell.Auth.SessionFile

/-!
# The age of a session

A session keeps an instant of the monotonic clock in memory and a second of the wall clock in its
file. A restart has only the second, and counts back from the instant at which it loads the file.
The runs here go through any number of restarts, each with its own file and time to live, and any
write may fail.

The wall clock does not run back, the monotonic clock of a run advances with it, and the instants
reach back as far as the seconds do, also beyond the start of the machine.

## Main definitions

- `SessionStore.Meets`: what holds of every session in memory and of every entry of the files
- `SessionLife`: the store, the clocks, and the second at which each session was created

## Main results

- `never_older_than_ttl`: a session that is returned is younger than its time to live by the wall
  clock, and a restart gives it the age that it has by the wall clock
-/

namespace Webshell

open Transition

namespace Session

/-- `Session::remaining`. -/
def remaining (s : Session) (authTtl now : ℕ) : ℕ := s.ttl authTtl - (now - s.created)

/-- By the monotonic clock the session is no younger than by the wall clock. -/
def KeepsPace (x : Session) (now : Clock) : Prop :=
  x.created ≤ now.instant ∧ fromSecs (now.unix - x.createdUnix) ≤ now.instant - x.created

end Session

/-! ## What all sessions meet -/

/-- `P` holds of the sessions in memory and `Q` of the entries of the files. -/
structure SessionStore.Meets (s : SessionStore) (P : ℕ → Session → Prop)
    (Q : ℕ → DiskSession → Prop) : Prop where
  inner : ∀ id x, s.inner.lookup id = some x → P id x
  disk : ∀ path id d, (s.disk path).lookup id = some d → Q id d

namespace SessionStore.Meets

variable {s : SessionStore} {P P' : ℕ → Session → Prop} {Q Q' : ℕ → DiskSession → Prop}
variable {now : Clock} {written : Bool}

theorem mono (h : s.Meets P Q) (hP : ∀ id x, P id x → P' id x) (hQ : ∀ id d, Q id d → Q' id d) :
    s.Meets P' Q' :=
  ⟨fun id x hx => hP id x (h.inner id x hx), fun path id d hd => hQ id d (h.disk path id d hd)⟩

/-- What is written was in memory. -/
theorem persist (h : s.Meets P Q) (hdisk : ∀ id x, P id x → Q id x.toDisk) :
    (s.persist now written).Meets P Q := by
  refine ⟨fun id x hx => h.inner id x (by rwa [inner_persist] at hx), fun path id d hd => ?_⟩
  rw [SessionStore.persist] at hd
  split at hd
  · exact h.disk path id d hd
  next file _ =>
    split at hd
    · dsimp only at hd
      by_cases hpath : path = file
      · rw [hpath, Function.update_self, AList.lookup_filterMap, Option.bind_eq_some_iff] at hd
        obtain ⟨x, hx, hd⟩ := hd
        split at hd
        · rw [← Option.some.inj hd]
          exact hdisk id x (h.inner id x hx)
        · cases hd
      · rw [Function.update_of_ne hpath] at hd
        exact h.disk path id d hd
    · exact h.disk path id d hd

theorem erase (h : s.Meets P Q) (id : ℕ) : { s with inner := s.inner.erase id }.Meets P Q :=
  ⟨fun id' x hx => h.inner id' x (AList.lookup_of_lookup_erase hx).2, h.disk⟩

theorem insert (h : s.Meets P Q) {id : ℕ} {x : Session} (hx : P id x) :
    { s with inner := s.inner.insert id x }.Meets P Q := by
  refine ⟨fun id' y hy => ?_, h.disk⟩
  obtain ⟨rfl, rfl⟩ | ⟨_, hold⟩ := AList.lookup_of_lookup_insert hy
  · exact hx
  · exact h.inner id' y hold

theorem create (h : s.Meets P Q) {id : ℕ}
    (hnew : P id ⟨false, false, [], none, id + 1, now.instant, now.unix⟩) :
    (s.create id now).Meets P Q := by
  rw [SessionStore.create]
  split
  · split
    · exact (h.erase _).insert hnew
    · exact h.insert hnew
  · exact h.insert hnew

theorem get (h : s.Meets P Q) (hdisk : ∀ id x, P id x → Q id x.toDisk) (id : ℕ) :
    (s.get id now written).2.Meets P Q := by
  rw [SessionStore.get]
  split
  · split
    · exact (h.erase id).persist hdisk
    · exact h
  · exact h

theorem remove (h : s.Meets P Q) (hdisk : ∀ id x, P id x → Q id x.toDisk) (id : ℕ) :
    (s.remove id now written).Meets P Q := by
  rw [SessionStore.remove]
  split
  · exact (h.erase id).persist hdisk
  · exact h

theorem promote (h : s.Meets P Q) (hdisk : ∀ id x, P id x → Q id x.toDisk) (oldId : ℕ) {id : ℕ}
    {authenticated mfaPending : Bool} {username : Text}
    (hnew : P id ⟨authenticated, mfaPending, username, none, id + 1, now.instant, now.unix⟩) :
    (s.promote oldId id authenticated mfaPending username now written).Meets P Q :=
  ((h.erase oldId).insert hnew).persist hdisk

theorem sweep (h : s.Meets P Q) (hdisk : ∀ id x, P id x → Q id x.toDisk) :
    (s.sweep now written).Meets P Q := by
  have hretain : Meets { s with inner := s.inner.retain fun _ x => !x.expired s.ttl now.instant }
      P Q :=
    ⟨fun id x hx => h.inner id x (AList.lookup_of_lookup_retain hx), h.disk⟩
  rw [SessionStore.sweep]
  split
  · exact hretain.persist hdisk
  · exact hretain

theorem setOauth (h : s.Meets P Q) (hdisk : ∀ id x, P id x → Q id x.toDisk)
    (hoauth : ∀ id x flow, P id x → P id { x with oauth := flow }) (id : ℕ)
    (flow : Option Oidc.Flow) : (s.setOauth id flow now written).Meets P Q := by
  rw [SessionStore.setOauth]
  split
  next x hx => exact (h.insert (hoauth id x flow (h.inner id x hx))).persist hdisk
  · exact h

theorem new {disk : Text → Table ℕ DiskSession} {ttl : ℕ}
    (hfiles : ∀ path id d, (disk path).lookup id = some d → Q id d) :
    (SessionStore.new ttl disk).Meets P Q :=
  ⟨fun id _ hx => (Option.some_ne_none _ (hx.symm.trans (AList.lookup_empty id))).elim, hfiles⟩

/-- What is loaded was in the file. -/
theorem load {path : Text} {ttl : ℕ} {disk : Text → Table ℕ DiskSession}
    (hdisk : ∀ id x, P id x → Q id x.toDisk)
    (hfiles : ∀ path id d, (disk path).lookup id = some d → Q id d)
    (hload : ∀ id d x, Q id d → d.load ttl now = some x → P id x) :
    (SessionStore.load path ttl disk now written).Meets P Q := by
  have hread : (⟨(disk path).filterMap fun _ d => d.load ttl now, ttl, some path, disk⟩ :
      SessionStore).Meets P Q := by
    refine ⟨fun id x hx => ?_, hfiles⟩
    rw [AList.lookup_filterMap, Option.bind_eq_some_iff] at hx
    obtain ⟨d, hd, hx⟩ := hx
    exact hload id d x (hfiles path id d hd) hx
  exact hread.persist hdisk

end SessionStore.Meets

/-! ## Runs with restarts -/

/-- A session store, the clocks it reads, the next token, and the second of the wall clock at
which the session under an id was created. -/
structure SessionLife where
  store : SessionStore
  clock : Clock
  nextToken : ℕ
  born : ℕ → ℕ

/-- An operation, with whether its write succeeds, or a restart: with a file or without, and with
the time to live of the new configuration. -/
inductive SessionAct
  | op (op : SessionOp) (written : Bool)
  | restart (path : Option Text) (ttl : ℕ) (clock : Clock) (written : Bool)

/-- The store of a program that starts. -/
def SessionStore.boot (path : Option Text) (ttl : ℕ) (disk : Text → Table ℕ DiskSession)
    (clock : Clock) (written : Bool) : SessionStore :=
  match path with
  | none => .new ttl disk
  | some path => .load path ttl disk clock written

/-- The instants reach back as far as the seconds of the wall clock do, so that those before the
machine was started have instants too. -/
def Clock.ReachesBack (clock : Clock) : Prop := fromSecs clock.unix ≤ clock.instant

/-- No clock runs back, and the monotonic one advances by at least the whole seconds that the wall
clock does. This is a premise: a wall clock that is read as whole seconds may come to the next one
after less than a second. -/
def Clock.Advances (clock clock' : Clock) : Prop :=
  clock.unix ≤ clock'.unix ∧ clock.instant ≤ clock'.instant ∧
    fromSecs (clock'.unix - clock.unix) ≤ clock'.instant - clock.instant

instance (clock : Clock) : Decidable clock.ReachesBack := inferInstanceAs (Decidable (_ ≤ _))

instance (clock clock' : Clock) : Decidable (clock.Advances clock') :=
  inferInstanceAs (Decidable (_ ∧ _))

namespace SessionLife

/-- A store that has taken the next two tokens, for a session that it has just created. -/
def issue (s : SessionLife) (store : SessionStore) : SessionLife where
  store := store
  clock := s.clock
  nextToken := s.nextToken + 2
  born := Function.update s.born s.nextToken s.clock.unix

def step (s : SessionLife) : SessionAct → Option SessionLife
  | .op .create _ => some (s.issue (s.store.create s.nextToken s.clock))
  | .op (.get id) written => some { s with store := (s.store.get id s.clock written).2 }
  | .op (.remove id) written => some { s with store := s.store.remove id s.clock written }
  | .op (.login oldId username) written =>
    some (s.issue (s.store.login oldId s.nextToken username s.clock written))
  | .op (.beginMfa oldId username) written =>
    some (s.issue (s.store.beginMfa oldId s.nextToken username s.clock written))
  | .op (.setOauth id flow) written =>
    some { s with store := s.store.setOauth id flow s.clock written }
  | .op .sweep written => some { s with store := s.store.sweep s.clock written }
  | .op (.tick clock) _ =>
    if s.clock.Advances clock then some { s with clock := clock } else none
  | .restart path ttl clock written =>
    -- the machine may have started anew, so that its instants say nothing about the old ones
    if s.clock.unix ≤ clock.unix ∧ clock.ReachesBack then
      some { s with store := .boot path ttl s.store.disk clock written, clock := clock }
    else none

end SessionLife

/-- The program starts on whatever files earlier runs have left. -/
def sessionLifeSystem : System SessionLife SessionAct where
  init s := ∃ path ttl disk written,
    (∀ path id d, (disk path).lookup id = some d →
      id < s.nextToken ∧ d.createdUnix = s.born id) ∧
    s.clock.ReachesBack ∧ s.store = .boot path ttl disk s.clock written
  step := SessionLife.step

/-! ## The age -/

/-- A load counts back from the present by the seconds since the session was created. -/
theorem DiskSession.age_load {d : DiskSession} {ttl : ℕ} {now : Clock} {x : Session}
    (hback : now.ReachesBack) (h : d.load ttl now = some x) :
    x.createdUnix = d.createdUnix ∧ x.created ≤ now.instant ∧
      now.instant - x.created = fromSecs (now.unix - d.createdUnix) := by
  have hage : fromSecs (now.unix - d.createdUnix) ≤ now.instant := by
    rw [Clock.ReachesBack] at hback
    refine le_trans ?_ hback
    exact Nat.mul_le_mul_right _ (Nat.sub_le now.unix d.createdUnix)
  obtain ⟨_, hx⟩ := Option.ite_none_left_eq_some.mp h
  obtain rfl := Option.some.inj hx
  refine ⟨rfl, ?_, ?_⟩
  · dsimp only
    rw [if_pos hage]
    exact Nat.sub_le ..
  · dsimp only
    rw [if_pos hage]
    omega

namespace Session

variable {x : Session} {now now' : Clock}

/-- A session that is created now. -/
theorem keepsPace_of_now (hcreated : x.created = now.instant) (hunix : x.createdUnix = now.unix) :
    x.KeepsPace now := by
  refine ⟨hcreated.le, ?_⟩
  rw [hunix, Nat.sub_self]
  exact (Nat.zero_mul _).trans_le (Nat.zero_le _)

theorem KeepsPace.advance (h : x.KeepsPace now) (hnow : now.Advances now') :
    x.KeepsPace now' := by
  obtain ⟨hcreated, hage⟩ := h
  obtain ⟨hunix, hinstant, hpace⟩ := hnow
  refine ⟨hcreated.trans hinstant, ?_⟩
  have hseconds : now'.unix - x.createdUnix ≤
      now'.unix - now.unix + (now.unix - x.createdUnix) := by omega
  calc fromSecs (now'.unix - x.createdUnix)
      ≤ fromSecs (now'.unix - now.unix + (now.unix - x.createdUnix)) :=
        Nat.mul_le_mul_right _ hseconds
    _ = fromSecs (now'.unix - now.unix) + fromSecs (now.unix - x.createdUnix) :=
        Nat.add_mul ..
    _ ≤ (now'.instant - now.instant) + (now.instant - x.created) := Nat.add_le_add hpace hage
    _ = now'.instant - x.created := by omega

/-- A session that has not expired is younger than its time to live by the wall clock too. -/
theorem KeepsPace.lt_ttl (h : x.KeepsPace now) {authTtl : ℕ}
    (hlive : x.expired authTtl now.instant = false) :
    fromSecs (now.unix - x.createdUnix) < x.ttl authTtl := by
  rw [expired, decide_eq_false_iff_not, not_le] at hlive
  exact h.2.trans_lt hlive

theorem KeepsPace.remaining_le (h : x.KeepsPace now) (authTtl : ℕ) :
    x.remaining authTtl now.instant ≤
      x.ttl authTtl - fromSecs (now.unix - x.createdUnix) :=
  Nat.sub_le_sub_left h.2 _

end Session

namespace SessionLife

variable {s s' : SessionLife}

/-- A session is dated to the second at which it was created, and keeps pace with the clocks. -/
def Dated (s : SessionLife) (id : ℕ) (x : Session) : Prop :=
  id < s.nextToken ∧ x.createdUnix = s.born id ∧ x.KeepsPace s.clock

def DiskDated (s : SessionLife) (id : ℕ) (d : DiskSession) : Prop :=
  id < s.nextToken ∧ d.createdUnix = s.born id

/-- All sessions are dated, in memory and in the files. -/
def Inv (s : SessionLife) : Prop := s.store.Meets s.Dated s.DiskDated

theorem Dated.toDisk (id : ℕ) (x : Session) (h : s.Dated id x) : s.DiskDated id x.toDisk :=
  ⟨h.1, h.2.1⟩

theorem inv_boot {path : Option Text} {ttl : ℕ} {disk : Text → Table ℕ DiskSession}
    {clock : Clock} {written : Bool} {n : ℕ} {born : ℕ → ℕ}
    (hfiles : ∀ path id d, (disk path).lookup id = some d → id < n ∧ d.createdUnix = born id)
    (hback : clock.ReachesBack) :
    Inv ⟨.boot path ttl disk clock written, clock, n, born⟩ := by
  cases path with
  | none => exact .new hfiles
  | some path =>
    refine .load Dated.toDisk hfiles fun id d x hd hx => ?_
    obtain ⟨hunix, hcreated, hage⟩ := d.age_load hback hx
    refine ⟨hd.1, hunix.trans hd.2, hcreated, ?_⟩
    rw [hunix]
    exact hage.ge

/-- A new session takes a fresh token, so that the others keep their dates. -/
theorem Inv.fresh (h : s.Inv) (store : SessionStore) :
    s.store.Meets (s.issue store).Dated (s.issue store).DiskDated := by
  have hborn : ∀ id, id < s.nextToken → (s.issue store).born id = s.born id :=
    fun id hid => Function.update_of_ne hid.ne ..
  refine h.mono (fun id x hx => ⟨?_, ?_, hx.2.2⟩) fun id d hd => ⟨?_, ?_⟩
  · exact hx.1.trans (Nat.lt_add_of_pos_right two_pos)
  · exact hx.2.1.trans (hborn id hx.1).symm
  · exact hd.1.trans (Nat.lt_add_of_pos_right two_pos)
  · exact hd.2.trans (hborn id hd.1).symm

theorem dated_new (store : SessionStore) {x : Session} (hcreated : x.created = s.clock.instant)
    (hunix : x.createdUnix = s.clock.unix) : (s.issue store).Dated s.nextToken x :=
  ⟨Nat.lt_add_of_pos_right two_pos, hunix.trans (Function.update_self s.nextToken _ s.born).symm,
    Session.keepsPace_of_now hcreated hunix⟩

theorem Inv.op (h : s.Inv) {op : SessionOp} {written : Bool}
    (hstep : s.step (.op op written) = some s') : s'.Inv := by
  cases op with
  | create =>
    obtain rfl := Option.some.inj hstep
    exact (h.fresh _).create (dated_new _ rfl rfl)
  | get id =>
    obtain rfl := Option.some.inj hstep
    exact SessionStore.Meets.get h Dated.toDisk id
  | remove id =>
    obtain rfl := Option.some.inj hstep
    exact SessionStore.Meets.remove h Dated.toDisk id
  | login oldId username =>
    obtain rfl := Option.some.inj hstep
    exact (h.fresh _).promote Dated.toDisk oldId (dated_new _ rfl rfl)
  | beginMfa oldId username =>
    obtain rfl := Option.some.inj hstep
    exact (h.fresh _).promote Dated.toDisk oldId (dated_new _ rfl rfl)
  | setOauth id flow =>
    obtain rfl := Option.some.inj hstep
    exact SessionStore.Meets.setOauth h Dated.toDisk (fun _ _ _ hx => hx) id flow
  | sweep =>
    obtain rfl := Option.some.inj hstep
    exact SessionStore.Meets.sweep h Dated.toDisk
  | tick clock =>
    rw [step] at hstep
    split at hstep
    next hadvance =>
      obtain rfl := Option.some.inj hstep
      exact SessionStore.Meets.mono h (fun id x hx => ⟨hx.1, hx.2.1, hx.2.2.advance hadvance⟩)
        fun _ _ hd => hd
    · cases hstep

/-- What a restart makes of a session. -/
theorem Inv.restart (h : s.Inv) {path : Option Text} {ttl : ℕ} {clock : Clock} {written : Bool}
    (hstep : s.step (.restart path ttl clock written) = some s') :
    s'.Inv ∧ s'.born = s.born ∧ s'.clock = clock ∧ s.clock.unix ≤ clock.unix ∧
      ∀ id x, s'.store.inner.lookup id = some x →
        clock.instant - x.created = fromSecs (clock.unix - s.born id) := by
  rw [step] at hstep
  split at hstep
  next hguard =>
    obtain ⟨hunix, hback⟩ := hguard
    obtain rfl := Option.some.inj hstep
    refine ⟨inv_boot h.disk hback, rfl, rfl, hunix, fun id x hx => ?_⟩
    cases path with
    | none => cases (AList.lookup_empty id).symm.trans hx
    | some path =>
      obtain ⟨d, hd, hload⟩ := SessionStore.lookup_load hx
      rw [(d.age_load hback hload).2.2, (h.disk path id d hd).2]
  · cases hstep

theorem Inv.step (h : s.Inv) {a : SessionAct} (hstep : s.step a = some s') : s'.Inv := by
  cases a with
  | op op written => exact h.op hstep
  | restart path ttl clock written => exact (h.restart hstep).1

theorem inv_of_reachable (h : sessionLifeSystem.Reachable s) : s.Inv := by
  refine System.Reach.invariant (fun s hs => ?_) (fun s a s' _ hs _ hstep => hs.step hstep) h
  obtain ⟨path, ttl, disk, written, hfiles, hback, hstore⟩ := hs
  have hboot : Inv ⟨.boot path ttl disk s.clock written, s.clock, s.nextToken, s.born⟩ :=
    inv_boot hfiles hback
  rw [← hstore] at hboot
  exact hboot

end SessionLife

/-- Through any number of restarts, a session that is returned is younger than its time to live by
the wall clock, what remains of it is at most what is left by the wall clock, and a restart gives
every session the age that it has by the wall clock. -/
theorem never_older_than_ttl {s : SessionLife} (h : sessionLifeSystem.Reachable s) :
    (∀ id x written, (s.store.get id s.clock written).1 = some x →
      x.createdUnix = s.born id ∧
        fromSecs (s.clock.unix - x.createdUnix) < x.ttl s.store.ttl ∧
        x.remaining s.store.ttl s.clock.instant ≤
          x.ttl s.store.ttl - fromSecs (s.clock.unix - x.createdUnix)) ∧
    ∀ path ttl clock written s',
      sessionLifeSystem.step s (.restart path ttl clock written) = some s' →
      s'.born = s.born ∧ ∀ id x, s'.store.inner.lookup id = some x →
        x.createdUnix = s.born id ∧
          s'.clock.instant - x.created = fromSecs (s'.clock.unix - s.born id) ∧
          fromSecs (s.clock.unix - s.born id) ≤ s'.clock.instant - x.created := by
  have hinv := SessionLife.inv_of_reachable h
  constructor
  · intro id x written hget
    obtain ⟨hx, hlive⟩ := SessionStore.lookup_of_get hget
    obtain ⟨_, hborn, hpace⟩ := hinv.inner id x hx
    exact ⟨hborn, hpace.lt_ttl hlive, hpace.remaining_le s.store.ttl⟩
  · intro path ttl clock written s' hstep
    obtain ⟨hinv', hborn, hclock, hunix, hage⟩ := hinv.restart hstep
    subst hclock
    refine ⟨hborn, fun id x hx => ⟨?_, hage id x hx, ?_⟩⟩
    · exact (hinv'.inner id x hx).2.1.trans (congrFun hborn id)
    · rw [hage id x hx]
      exact Nat.mul_le_mul_right _ (Nat.sub_le_sub_right hunix _)

/-- A login at second 100, a restart with a minute to live at second 120, and a second restart
within that minute. -/
def twoRestarts : List SessionAct :=
  [.op (.login 0 []) true, .op (.tick ⟨fromSecs 210, 110⟩) true,
    .restart (some []) (fromSecs 60) ⟨fromSecs 300, 120⟩ true,
    .restart (some []) (fromSecs 60) ⟨fromSecs 400, 159⟩ true]

def atSecond100 : SessionLife := ⟨.boot (some []) (fromSecs 3600) (fun _ => ∅)
  ⟨fromSecs 200, 100⟩ true, ⟨fromSecs 200, 100⟩, 0, fun _ => 0⟩

theorem never_older_than_ttl_twoRestarts :
    ∃ s x, sessionLifeSystem.run atSecond100 twoRestarts = some s ∧
      (s.store.get 0 s.clock true).1 = some x ∧ s.store.ttl = fromSecs 60 ∧ s.clock.unix = 159 ∧
      x.createdUnix = 100 ∧ fromSecs (s.clock.unix - x.createdUnix) < x.ttl s.store.ttl := by
  have hinit : sessionLifeSystem.init atSecond100 := by
    refine ⟨some [], fromSecs 3600, fun _ => ∅, true, fun path id d hd => ?_, by decide, rfl⟩
    cases (AList.lookup_empty id).symm.trans hd
  obtain ⟨s, hrun⟩ : ∃ s, sessionLifeSystem.run atSecond100 twoRestarts = some s :=
    ⟨_, rfl⟩
  have hreach := System.Reachable.run (.init hinit) hrun
  obtain rfl := Option.some.inj hrun
  exact ⟨_, _, rfl, rfl, rfl, rfl, rfl, ((never_older_than_ttl hreach).1 0 _ true rfl).2.1⟩

end Webshell
