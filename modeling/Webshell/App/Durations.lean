import Mathlib.Data.Bool.AllAny
import Webshell.App.Settings

/-!
# Configured durations and the clock

What is added to a reading of the clock: the rest of a session, for the deadline of a socket; the
lifetime of a share, for its expiry; the rest of a lease, for the deadline of its viewer. The sum
panics where its seconds do not fit into 63 bits.

## Main definitions

- `socketDeadline`: the deadline that `ws_handler` hands to the socket
- `shareExpiry`: when a share ends that is created under a configuration
- `Share.Lease.checkedExpired`, `Share.Lease.checkedDeadline`: the methods of a lease
- `FitsTheClock`: none of these panics, whatever the clock says until the year 3000

## Main results

- `fitsTheClock_iff`: the settings for which that is so
- `longest_session_overflows`: the largest number of seconds that a file can hold
-/

namespace Webshell

/-- The seconds from 1970 to the year 3000. -/
def year3000 : ℕ := 32503680000

/-- A reading of a clock, up to the beginning of the year 3000. -/
abbrev InRange (t : ℕ) : Prop := t ≤ fromSecs year3000

namespace Share.Lease

/-- `expires_at_time`: seconds after the epoch. -/
def checkedExpiresAtTime (l : Lease) : Option ℕ := Checked.after 0 (fromSecs l.expiresAt)

def checkedExpired (l : Lease) (now : ℕ) : Option Bool :=
  l.checkedExpiresAtTime.map fun time => time ≤ now

def checkedValid (l : Lease) (s : ShareStore) (now : ℕ) : Option Bool :=
  (l.checkedExpired now).map fun expired => !expired && !l.revoked s

/-- A lease that has expired has a deadline now. -/
def checkedDeadline (l : Lease) (now instant : ℕ) : Option ℕ :=
  l.checkedExpiresAtTime.bind fun time => Checked.after instant (time - now)

theorem checkedExpiresAtTime_eq {l : Lease} (h : l.expiresAt < 2 ^ 63) :
    l.checkedExpiresAtTime = some l.expiresAtTime := by
  have hfits : (0 + fromSecs l.expiresAt) / 1000000000 < 2 ^ 63 := by
    rw [fromSecs]
    omega
  rw [checkedExpiresAtTime, Checked.after, if_pos hfits, Nat.zero_add]
  rfl

theorem checkedExpiresAtTime_eq_none {l : Lease} (h : 2 ^ 63 ≤ l.expiresAt) :
    l.checkedExpiresAtTime = none := by
  have hfits : ¬(0 + fromSecs l.expiresAt) / 1000000000 < 2 ^ 63 := by
    rw [fromSecs]
    omega
  rw [checkedExpiresAtTime, Checked.after, if_neg hfits]

/-- Where the expiry fits, the checked methods are the methods. -/
theorem checkedExpired_eq {l : Lease} (h : l.expiresAt < 2 ^ 63) (now : ℕ) :
    l.checkedExpired now = some (l.expired now) := by
  rw [checkedExpired, checkedExpiresAtTime_eq h, Option.map_some, expired]

theorem checkedValid_eq {l : Lease} (h : l.expiresAt < 2 ^ 63) (s : ShareStore) (now : ℕ) :
    l.checkedValid s now = some (l.valid s now) := by
  rw [checkedValid, checkedExpired_eq h, Option.map_some, valid]

theorem checkedDeadline_eq {l : Lease} (h : l.expiresAt < 2 ^ 63) (now instant : ℕ) :
    l.checkedDeadline now instant = Checked.after instant (l.expiresAtTime - now) := by
  rw [checkedDeadline, checkedExpiresAtTime_eq h, Option.bind_some]

end Share.Lease

section
variable [Text.Lowercase]

/-- The clock is read once for the sum, and then for the age of the session. -/
def socketDeadline (config : RuntimeConfig) (session : Session) (now now' : ℕ) : Option ℕ :=
  Checked.after now (session.ttl config.sessionTtl - (now' - session.created))

/-- The seconds of the expiry saturate. -/
def shareExpiry (config : RuntimeConfig) (now ttlSecs : ℕ) : Option ℕ :=
  (Checked.clamp ttlSecs 1 config.maxShareSecs).map fun ttl =>
    min (Share.nowUnix now + ttl) (2 ^ 64 - 1)

/-- Numbers that a TOML file can hold. -/
def Settings.Expressible (s : Settings) : Prop :=
  ∀ n ∈ [s.auth.sessionTtlSecs, s.mfa.rememberDeviceDays, s.mfa.maxDevicesPerIdentity,
    s.terminals.maxSessions, s.terminals.scrollbackBytes, s.terminals.redrawIntervalSecs,
    s.sharing.maxDurationSecs], n < 2 ^ 63

/-- `ws_handler` finds a deadline for the socket of every session that is logged in. -/
def SocketsFit (config : RuntimeConfig) : Prop :=
  ∀ (session : Session) (now now' : ℕ), session.authenticated = true →
    InRange session.created → InRange now → InRange now' →
    (socketDeadline config session now now').isSome = true

/-- Every share has an expiry, and its leases can compute with it. -/
def SharesFit (config : RuntimeConfig) : Prop :=
  ∀ ttlSecs created, ttlSecs < 2 ^ 64 → InRange created →
    ∃ expiresAt, shareExpiry config created ttlSecs = some expiresAt ∧
      ∀ (lease : Share.Lease) (store : Share.ShareStore) (now instant : ℕ),
        lease.expiresAt = expiresAt → InRange now → InRange instant →
        (lease.checkedExpired now).isSome = true ∧ (lease.checkedValid store now).isSome = true ∧
          (lease.checkedDeadline now instant).isSome = true

/-- Resolving the settings and computing with the result never panics. -/
def FitsTheClock (owner : OwnerInfo) (secret : Option Text) (s : Settings) : Prop :=
  ∃ config, Config.fromSettings owner secret s = some config ∧ SocketsFit config ∧ SharesFit config

/-! ## Where the seconds fit -/

variable {config : RuntimeConfig} {n : ℕ}

theorem socketsFit_iff (h : config.sessionTtl = fromSecs n) :
    SocketsFit config ↔ n + year3000 < 2 ^ 63 := by
  constructor
  · intro hfit
    -- a session that has just begun, in the last second
    have hlast : InRange (fromSecs year3000) := le_rfl
    have hsome := hfit ⟨true, false, [], none, 0, fromSecs year3000, 0⟩ _ _ rfl hlast hlast hlast
    rw [socketDeadline, Checked.after_isSome_iff, Session.ttl, if_pos rfl, h] at hsome
    simp only [fromSecs] at hsome
    omega
  · intro hfits session now now' hauth _ hnow _
    rw [socketDeadline, Checked.after_isSome_iff, Session.ttl, if_pos hauth, h]
    simp only [InRange, fromSecs] at hnow ⊢
    omega

theorem shareExpiry_eq (hpos : 0 < config.maxShareSecs) (now ttlSecs : ℕ) :
    shareExpiry config now ttlSecs =
      some (min (Share.nowUnix now + max 1 (min ttlSecs config.maxShareSecs)) (2 ^ 64 - 1)) := by
  rw [shareExpiry, Checked.clamp_of_le hpos, Option.map_some]

theorem sharesFit_iff (hpos : 0 < config.maxShareSecs) :
    SharesFit config ↔ config.maxShareSecs + 2 * year3000 < 2 ^ 63 := by
  constructor
  · intro hfit
    -- the longest share, made in the last second, and a wall clock that has been set back
    have hlast : InRange (fromSecs year3000) := le_rfl
    obtain ⟨expiresAt, hexpiry, hlease⟩ := hfit (2 ^ 64 - 1) _ (by decide) hlast
    obtain ⟨hexpired, _, hdeadline⟩ :=
      hlease ⟨"", 0, expiresAt, 0⟩ .empty 0 _ rfl (Nat.zero_le _) hlast
    rw [shareExpiry_eq hpos, Option.some.injEq] at hexpiry
    have hfits : expiresAt < 2 ^ 63 := by
      by_contra hlarge
      rw [Share.Lease.checkedExpired, Share.Lease.checkedExpiresAtTime_eq_none
        (not_lt.mp hlarge)] at hexpired
      cases hexpired
    rw [Share.Lease.checkedDeadline_eq hfits, Checked.after_isSome_iff] at hdeadline
    have hsecs : Share.nowUnix (fromSecs year3000) = year3000 := Nat.mul_div_cancel _ (by decide)
    rw [hsecs] at hexpiry
    simp only [Share.Lease.expiresAtTime, fromSecs] at hdeadline
    omega
  · intro hfits ttlSecs created _ hcreated
    refine ⟨_, shareExpiry_eq hpos created ttlSecs,
      fun lease store now instant hlease _ hinstant => ?_⟩
    have hsecs : Share.nowUnix created ≤ year3000 := by
      simp only [InRange, fromSecs] at hcreated
      rw [Share.nowUnix]
      omega
    have hexpiry : lease.expiresAt ≤ year3000 + config.maxShareSecs := by omega
    have hsmall : lease.expiresAt < 2 ^ 63 := by omega
    rw [Share.Lease.checkedExpired_eq hsmall, Share.Lease.checkedValid_eq hsmall,
      Share.Lease.checkedDeadline_eq hsmall, Checked.after_isSome_iff]
    refine ⟨rfl, rfl, ?_⟩
    simp only [InRange, fromSecs] at hinstant
    simp only [Share.Lease.expiresAtTime]
    omega

/-- **Durations and the clock.** Resolving the settings never panics; neither do the deadline of a
socket and what a lease computes, for every share that is asked for and every reading of the clocks
up to the year 3000, exactly if the lifetimes that the settings allow leave room for that year. -/
theorem fitsTheClock_iff (owner : OwnerInfo) (secret : Option Text) (s : Settings) :
    FitsTheClock owner secret s ↔
      s.auth.sessionTtlSecs + year3000 < 2 ^ 63 ∧
        s.sharing.maxDurationSecs + 2 * year3000 < 2 ^ 63 := by
  obtain ⟨sizes, hsizes, hfrom⟩ := Config.exists_fromSettings owner secret s
  obtain rfl := Option.some.inj ((sizing_eq s).symm.trans hsizes)
  have hiff : ∀ config, Config.fromSettings owner secret s = some config →
      (SocketsFit config ↔ max s.auth.sessionTtlSecs 60 + year3000 < 2 ^ 63) ∧
        (SharesFit config ↔ max s.sharing.maxDurationSecs 1 + 2 * year3000 < 2 ^ 63) := by
    intro config hconfig
    obtain rfl := Option.some.inj (hfrom.symm.trans hconfig)
    exact ⟨socketsFit_iff rfl, sharesFit_iff (Nat.lt_of_lt_of_le Nat.one_pos (le_max_right _ 1))⟩
  have hyear : year3000 = 32503680000 := rfl
  constructor
  · rintro ⟨config, hconfig, hsockets, hshares⟩
    have hsession := (hiff config hconfig).1.mp hsockets
    have hshare := (hiff config hconfig).2.mp hshares
    omega
  · rintro ⟨hsession, hshare⟩
    exact ⟨_, hfrom, (hiff _ hfrom).1.mpr (by omega), (hiff _ hfrom).2.mpr (by omega)⟩

end

/-! ### The longest session -/

open Text.Ascii

def longestSession : Settings := { auth := { sessionTtlSecs := 2 ^ 63 - 1 } }

/-- A session of the largest number of seconds that a file can hold. -/
theorem longest_session_overflows :
    ¬ ∀ (_ : Text.Lowercase) (owner : OwnerInfo) (secret : Option Text) (s : Settings),
      s.Expressible → FitsTheClock owner secret s := by
  intro h
  have hexpressible : longestSession.Expressible := by
    intro n hn
    have hall := List.all_iff_forall_prop.mp (by decide : [longestSession.auth.sessionTtlSecs,
      30, 10, 10, 128 * 1024, 30, 30 * 24 * 3600].all fun n => decide (n < 2 ^ 63))
    exact hall n hn
  obtain ⟨config, hconfig, hsockets, _⟩ := h asciiLowercase ⟨[], [], []⟩ none _ hexpressible
  -- a session that begins one second after the clock does, and a socket at once
  have hsecond : InRange (fromSecs 1) := by decide
  have hdeadline := hsockets ⟨true, false, [], none, 0, fromSecs 1, 0⟩ (fromSecs 1) (fromSecs 1)
    rfl hsecond hsecond hsecond
  obtain ⟨sizes, hsizes, hfrom⟩ := Config.exists_fromSettings ⟨[], [], []⟩ none longestSession
  obtain rfl := Option.some.inj ((sizing_eq longestSession).symm.trans hsizes)
  obtain rfl := Option.some.inj (hfrom.symm.trans hconfig)
  rw [socketDeadline, Checked.after_isSome_iff] at hdeadline
  exact absurd hdeadline (by decide)

end Webshell
