import Mathlib.Data.List.Sort
import Webshell.Auth.Config
import Webshell.Lib.Table

/-!
# State behind the second factor

What the server remembers for the second factor: who is enrolled with which secret, which browsers
may skip the code, and the runs of wrong codes. The files of the first two may be edited while the
server is down, so a restart reads whatever they hold, and of a write only its success is an
argument where the caller asks for it.

## Main definitions

- `EnrollmentStore`: `pinSubject`, `enroll`, `secret`, `currentEnrolledAt`
- `DeviceStore`: `mint`, `authorize`, `list`, `revoke`, `revokeAll`, `revokeToken`,
  `forgetIfOwned`, `sweep`
- `MfaStrikes`: `mfaLocked`, `mfaFailed`

## Main results

- `EnrollmentStore.lookup_pinSubject`, `EnrollmentStore.lookup_enroll`: what becomes of a record
- `DeviceStore.lookup_mint`, `DeviceStore.lookup_revoke`: what becomes of a device
- `DeviceStore.authorize_eq_some`: the record behind an authorization
-/

namespace Webshell

variable [Text.Lowercase]

/-! ## Enrollment -/

/-- What is remembered about one identity. -/
structure Record where
  sub : Option Text
  mfaSecret : Option Text
  enrolledAt : Option ℕ

def Record.default : Record := ⟨none, none, none⟩

def Record.enrolled (r : Record) : Bool := r.mfaSecret.isSome

abbrev EnrollmentStore := Table Identity Record

namespace EnrollmentStore

/-- `entry(id).or_default()`. -/
def entry (s : EnrollmentStore) (id : Identity) : Record := (s.lookup id).getD .default

/-- Pin the issuer's subject, or compare it with the pinned one; `none` when it could not be
written. -/
def pinSubject (s : EnrollmentStore) (id : Identity) (sub : Text) (written : Bool) :
    Option Bool × EnrollmentStore :=
  let record := s.entry id
  match record.sub with
  | some known => (some (known == sub), s.insert id record)
  | none => (if written then some true else none, s.insert id { record with sub := some sub })

/-- Record a verified secret; `false` when it could not be written. -/
def enroll (s : EnrollmentStore) (id : Identity) (secret : Text) (now : ℕ) (written : Bool) :
    Bool × EnrollmentStore :=
  (written, s.insert id { s.entry id with mfaSecret := some secret, enrolledAt := some now })

/-- The secret of an identity that is enrolled. -/
def secret (s : EnrollmentStore) (id : Identity) : Option Text :=
  (s.lookup id).bind Record.mfaSecret

/-- When the current secret was accepted. -/
def currentEnrolledAt (s : EnrollmentStore) (id : Identity) : Option ℕ :=
  (s.lookup id).bind fun record => if record.enrolled then record.enrolledAt else none

variable {s s' : EnrollmentStore} {id id' : Identity} {sub text : Text} {now : ℕ} {written : Bool}

theorem secret_eq_entry (s : EnrollmentStore) (id : Identity) :
    s.secret id = (s.entry id).mfaSecret := by
  rw [secret, entry]
  cases s.lookup id <;> rfl

theorem currentEnrolledAt_eq_entry (s : EnrollmentStore) (id : Identity) :
    s.currentEnrolledAt id =
      if (s.entry id).enrolled then (s.entry id).enrolledAt else none := by
  rw [currentEnrolledAt, entry]
  cases s.lookup id <;> rfl

theorem entry_insert_self (s : EnrollmentStore) (id : Identity) (record : Record) :
    entry (s.insert id record) id = record := by
  rw [entry, AList.lookup_insert]
  rfl

theorem entry_insert_of_ne (s : EnrollmentStore) (record : Record) (h : id' ≠ id) :
    entry (s.insert id record) id' = s.entry id' := by
  rw [entry, AList.lookup_insert_ne h, entry]

/-- Pinning a subject touches nothing that belongs to the second factor. -/
theorem entry_pinSubject (s : EnrollmentStore) (id id' : Identity) (sub : Text) (written : Bool) :
    ∃ pinned, (s.pinSubject id sub written).2.entry id' = { s.entry id' with sub := pinned } := by
  rw [pinSubject]
  by_cases h : id' = id
  · subst h
    split <;> exact ⟨_, entry_insert_self ..⟩
  · refine ⟨(s.entry id').sub, ?_⟩
    split <;> exact entry_insert_of_ne _ _ h

@[simp] theorem secret_pinSubject :
    (s.pinSubject id sub written).2.secret id' = s.secret id' := by
  obtain ⟨pinned, hentry⟩ := s.entry_pinSubject id id' sub written
  rw [secret_eq_entry, secret_eq_entry, hentry]

@[simp] theorem currentEnrolledAt_pinSubject :
    (s.pinSubject id sub written).2.currentEnrolledAt id' = s.currentEnrolledAt id' := by
  obtain ⟨pinned, hentry⟩ := s.entry_pinSubject id id' sub written
  rw [currentEnrolledAt_eq_entry, currentEnrolledAt_eq_entry, hentry]
  rfl

theorem secret_enroll_self : (s.enroll id text now written).2.secret id = some text := by
  rw [secret_eq_entry, enroll, entry_insert_self]

theorem secret_enroll_of_ne (h : id' ≠ id) :
    (s.enroll id text now written).2.secret id' = s.secret id' := by
  rw [secret_eq_entry, secret_eq_entry, enroll, entry_insert_of_ne _ _ h]

theorem currentEnrolledAt_enroll_of_ne (h : id' ≠ id) :
    (s.enroll id text now written).2.currentEnrolledAt id' = s.currentEnrolledAt id' := by
  rw [currentEnrolledAt_eq_entry, currentEnrolledAt_eq_entry, enroll, entry_insert_of_ne _ _ h]

/-- Only who has a secret has a moment at which it was accepted. -/
theorem secret_of_currentEnrolledAt (h : s.currentEnrolledAt id = some now) :
    s.secret id ≠ none := by
  rw [currentEnrolledAt_eq_entry] at h
  rw [secret_eq_entry]
  split at h
  next henrolled => exact Option.isSome_iff_ne_none.mp henrolled
  · cases h

end EnrollmentStore

/-! ## Trusted devices -/

/-- A browser that has proved possession of an identity's authenticator. -/
structure Device where
  /-- The public handle. -/
  id : ℕ
  identity : Identity
  createdAt : ℕ
  expiresAt : ℕ
  lastUsedAt : ℕ
  enrolledAt : ℕ

def Device.expired (d : Device) (now : ℕ) : Bool := d.expiresAt ≤ now

/-- The devices under the values of their cookies. -/
abbrev DeviceStore := Table ℕ Device

namespace DeviceStore

/-- The records that have not expired. -/
def live (s : DeviceStore) (now : ℕ) : DeviceStore := s.retain fun _ d => !d.expired now

/-- Trust a browser under the next two tokens, a cookie value and a handle. At the cap the least
recently used devices of the identity go; a record that could not be written goes again. -/
def mint (s : DeviceStore) (token : ℕ) (identity : Identity)
    (enrolledAt windowSecs maxPerIdentity : ℕ) (now : ℕ) (written : Bool) :
    Option (ℕ × ℕ) × DeviceStore :=
  let device : Device :=
    ⟨token + 1, identity, now, min (now + windowSecs) (2 ^ 64 - 1), now, enrolledAt⟩
  let s := s.live now
  let mine := s.entries.filter fun entry => entry.2.identity = identity
  let byUse := mine.insertionSort fun a b => a.2.lastUsedAt ≤ b.2.lastUsedAt
  let excess := mine.length + 1 - max maxPerIdentity 1
  let s := (byUse.take excess).foldl (fun s entry => s.erase entry.1) s
  let s := s.insert token device
  if written then (some (token, token + 1), s) else (none, s.erase token)

/-- Authorize a cookie and record the use; the result is the device's handle. -/
def authorize (s : DeviceStore) (token : ℕ) (identity : Identity) (enrolledAt now : ℕ) :
    Option ℕ × DeviceStore :=
  match s.lookup token with
  | none => (none, s)
  | some device =>
    if device.identity ≠ identity || device.expired now || device.enrolledAt ≠ enrolledAt then
      (none, s)
    else (some device.id, s.insert token { device with lastUsedAt := now })

/-- The identity's live devices, newest first. -/
def list (s : DeviceStore) (identity : Identity) (enrolledAt now : ℕ) : List Device :=
  let devices := (s.entries.map fun entry => entry.2).filter fun d =>
    d.identity = identity && !d.expired now && d.enrolledAt = enrolledAt
  devices.insertionSort fun a b =>
    b.createdAt < a.createdAt ∨ (b.createdAt = a.createdAt ∧ a.id ≤ b.id)

def idForToken (s : DeviceStore) (token : ℕ) : Option ℕ := (s.lookup token).map Device.id

def revoke (s : DeviceStore) (identity : Identity) (id : ℕ) : DeviceStore :=
  match s.entries.find? fun entry => entry.2.id = id && entry.2.identity = identity with
  | some entry => s.erase entry.1
  | none => s

def revokeAll (s : DeviceStore) (identity : Identity) : DeviceStore :=
  s.retain fun _ d => d.identity ≠ identity

def revokeToken (s : DeviceStore) (token : ℕ) : DeviceStore := s.erase token

def forgetIfOwned (s : DeviceStore) (token : ℕ) (identity : Identity) : DeviceStore :=
  if (s.lookup token).any fun d => d.identity = identity then s.erase token else s

def sweep (s : DeviceStore) (now : ℕ) : DeviceStore := s.live now

variable {s : DeviceStore} {identity : Identity} {token k now : ℕ}

theorem lookup_live (s : DeviceStore) (now k : ℕ) :
    (s.live now).lookup k = (s.lookup k).filter fun d => !d.expired now :=
  AList.lookup_retain ..

/-- The tokens of the devices that a mint at the cap drops. -/
def evicted (s : DeviceStore) (identity : Identity) (maxPerIdentity now : ℕ) : List ℕ :=
  let mine := (s.live now).entries.filter fun entry => entry.2.identity = identity
  let byUse := mine.insertionSort fun a b => a.2.lastUsedAt ≤ b.2.lastUsedAt
  (byUse.take (mine.length + 1 - max maxPerIdentity 1)).map fun entry => entry.1

/-- A mint only drops devices of the identity it is for. -/
theorem identity_of_mem_evicted {maxPerIdentity : ℕ}
    (h : k ∈ s.evicted identity maxPerIdentity now) :
    ∃ d, s.lookup k = some d ∧ d.identity = identity := by
  obtain ⟨entry, hentry, rfl⟩ := List.mem_map.mp h
  have hsorted := List.mem_of_mem_take hentry
  rw [List.mem_insertionSort, List.mem_filter] at hsorted
  have hlive := AList.mem_lookup_iff.mpr hsorted.1
  exact ⟨entry.2, AList.lookup_of_lookup_retain hlive, of_decide_eq_true hsorted.2⟩

/-- What a mint that is written leaves: the new device, and those that have neither expired nor
been dropped for it. -/
theorem lookup_mint (s : DeviceStore) (token : ℕ) (identity : Identity)
    (enrolledAt windowSecs maxPerIdentity now k : ℕ) :
    (s.mint token identity enrolledAt windowSecs maxPerIdentity now true).2.lookup k =
      if k = token then
        some ⟨token + 1, identity, now, min (now + windowSecs) (2 ^ 64 - 1), now, enrolledAt⟩
      else if k ∈ s.evicted identity maxPerIdentity now then none
      else (s.lookup k).filter fun d => !d.expired now := by
  simp only [mint, if_true]
  by_cases hk : k = token
  · rw [hk, AList.lookup_insert, if_pos rfl]
  · rw [AList.lookup_insert_ne hk, AList.lookup_foldl_erase, if_neg hk, lookup_live]
    rfl

theorem lookup_revokeAll (s : DeviceStore) (identity : Identity) (k : ℕ) :
    (s.revokeAll identity).lookup k = (s.lookup k).filter fun d => d.identity ≠ identity :=
  AList.lookup_retain ..

theorem lookup_revokeToken (s : DeviceStore) (token k : ℕ) :
    (s.revokeToken token).lookup k = if k = token then none else s.lookup k := by
  rw [revokeToken]
  by_cases hk : k = token
  · rw [hk, AList.lookup_erase, if_pos rfl]
  · rw [AList.lookup_erase_ne hk, if_neg hk]

theorem lookup_forgetIfOwned (s : DeviceStore) (token : ℕ) (identity : Identity) (k : ℕ) :
    (s.forgetIfOwned token identity).lookup k =
      (s.lookup k).filter fun d => !(k = token && d.identity = identity) := by
  rw [forgetIfOwned]
  by_cases hk : k = token
  · subst hk
    cases hd : s.lookup k with
    | none =>
      rw [Option.any_none, if_neg Bool.false_ne_true, hd]
      rfl
    | some d =>
      by_cases howned : d.identity = identity
      · simp [howned, Option.filter_some]
      · simp [howned, hd, Option.filter_some]
  · rw [Option.filter_eq_self_of fun d _ => by simp [hk]]
    split
    · exact AList.lookup_erase_ne hk
    · rfl

/-- Only a device whose handle is asked for goes, where handles tell devices apart. -/
theorem lookup_revoke (hids : ∀ k d, s.lookup k = some d → d.id = k + 1) (identity : Identity)
    (id k : ℕ) :
    (s.revoke identity id).lookup k =
      (s.lookup k).filter fun d => !(d.id = id && d.identity = identity) := by
  rw [revoke]
  split
  next entry hfind =>
    have hentry := AList.mem_lookup_iff.mpr (List.mem_of_find?_eq_some hfind)
    have hmatch := List.find?_some hfind
    by_cases hk : k = entry.1
    · subst hk
      rw [AList.lookup_erase, hentry, Option.filter_some, hmatch]
      rfl
    · rw [AList.lookup_erase_ne hk]
      symm
      apply Option.filter_eq_self_of
      intro d hd
      have hid := hids k d hd
      have hid' := hids entry.1 entry.2 hentry
      rw [Bool.and_eq_true, decide_eq_true_iff, decide_eq_true_iff] at hmatch
      have hne : d.id ≠ id := by omega
      simp [hne]
  next hfind =>
    symm
    apply Option.filter_eq_self_of
    intro d hd
    rw [List.find?_eq_none] at hfind
    have hno := hfind ⟨k, d⟩ (AList.mem_lookup_iff.mp hd)
    rw [Bool.not_eq_true] at hno
    rw [hno]
    rfl

/-- An authorization rests on a live record of the identity, bound to the moment it is given. -/
theorem authorize_eq_some {s : DeviceStore} {token now enrolledAt id : ℕ} {identity : Identity}
    (h : (s.authorize token identity enrolledAt now).1 = some id) :
    ∃ device, s.lookup token = some device ∧ device.identity = identity ∧
      device.expired now = false ∧ device.enrolledAt = enrolledAt := by
  rw [authorize] at h
  split at h
  · cases h
  next device hdevice =>
    split at h
    · cases h
    next hmatch =>
      simp only [ne_eq, decide_not, Bool.or_eq_true, Bool.not_eq_eq_eq_not, Bool.not_true,
        decide_eq_false_iff_not, not_or, not_not, Bool.not_eq_true] at hmatch
      exact ⟨device, hdevice, hmatch.1.1, hmatch.1.2, hmatch.2⟩

end DeviceStore

/-! ## Wrong codes -/

/-- A run of consecutive wrong codes for one identity. -/
structure MfaStrikes where
  count : ℕ
  last : ℕ
  lockedUntil : Option ℕ

def mfaMaxStrikes : ℕ := 5

def mfaLockoutBase : ℕ := fromSecs (15 * 60)

def mfaLockoutMax : ℕ := fromSecs (24 * 60 * 60)

def mfaStrikeMemory : ℕ := fromSecs (7 * 24 * 60 * 60)

/-- Time left on an identity's lockout, if it is locked. -/
def mfaLocked (strikes : Table Text MfaStrikes) (identity : Text) (now : ℕ) : Option ℕ := do
  let s ← strikes.lookup identity
  let lockedUntil ← s.lockedUntil
  let left := lockedUntil - now
  if left = 0 then none else some left

/-- Count a wrong code; the result is the lockout that it triggers. -/
def mfaFailed (strikes : Table Text MfaStrikes) (identity : Text) (now : ℕ) :
    Option ℕ × Table Text MfaStrikes :=
  let s := (strikes.lookup identity).getD ⟨0, now, none⟩
  let count := (if mfaStrikeMemory < now - s.last then 0 else s.count) + 1
  if count % mfaMaxStrikes ≠ 0 then
    (none, strikes.insert identity { s with count := count, last := now })
  else
    let round := count / mfaMaxStrikes - 1
    -- `checked_shl` gives up at 32 bits
    let factor := if round < 32 then 2 ^ round % 2 ^ 32 else 2 ^ 32 - 1
    let lock := min (mfaLockoutBase * factor) mfaLockoutMax
    (some lock, strikes.insert identity ⟨count, now, some (now + lock)⟩)

def mfaSucceeded (strikes : Table Text MfaStrikes) (identity : Text) : Table Text MfaStrikes :=
  strikes.erase identity

section
omit [Text.Lowercase]
variable {strikes : Table Text MfaStrikes} {identity identity' : Text} {now deadline : ℕ}
  {x : MfaStrikes}

/-- The count of a run of wrong codes, once one more is reported. -/
def strikeCount (strikes : Table Text MfaStrikes) (identity : Text) (now : ℕ) : ℕ :=
  match strikes.lookup identity with
  | some x => (if mfaStrikeMemory < now - x.last then 0 else x.count) + 1
  | none => 1

theorem mfaFailed_cases (strikes : Table Text MfaStrikes) (identity : Text) (now : ℕ) :
    ∃ x, (mfaFailed strikes identity now).2 = strikes.insert identity x ∧
      x.count = strikeCount strikes identity now ∧
      (((mfaFailed strikes identity now).1 = none ∧ ¬ mfaMaxStrikes ∣ x.count) ∨
        (∃ left, (mfaFailed strikes identity now).1 = some left ∧
          x.lockedUntil = some (now + left))) := by
  have hcount : (if mfaStrikeMemory < now - ((strikes.lookup identity).getD ⟨0, now, none⟩).last
      then 0 else ((strikes.lookup identity).getD ⟨0, now, none⟩).count) + 1 =
      strikeCount strikes identity now := by
    rw [strikeCount]
    cases strikes.lookup identity with
    | none => simp
    | some x => rfl
  simp only [mfaFailed, hcount]
  split
  next hrest => exact ⟨_, rfl, rfl, .inl ⟨rfl, fun hdvd => hrest (Nat.mod_eq_zero_of_dvd hdvd)⟩⟩
  · exact ⟨_, rfl, rfl, .inr ⟨_, rfl, rfl⟩⟩

theorem lookup_mfaFailed_of_ne (h : identity' ≠ identity) :
    (mfaFailed strikes identity now).2.lookup identity' = strikes.lookup identity' := by
  obtain ⟨x, heq, _⟩ := mfaFailed_cases strikes identity now
  rw [heq, AList.lookup_insert_ne h]

theorem lookup_mfaSucceeded_of_ne (h : identity' ≠ identity) :
    (mfaSucceeded strikes identity).lookup identity' = strikes.lookup identity' :=
  AList.lookup_erase_ne h

/-- An identity that is not locked has no lockout left. -/
theorem le_of_mfaLocked_eq_none (h : mfaLocked strikes identity now = none)
    (hx : strikes.lookup identity = some x) (hdeadline : x.lockedUntil = some deadline) :
    deadline ≤ now := by
  simp only [mfaLocked, hx, hdeadline, Option.bind_eq_bind, Option.bind_some] at h
  split at h
  next hleft => exact Nat.le_of_sub_eq_zero hleft
  · cases h

end

end Webshell
