import Webshell.Auth.SecondFactor

/-!
# Lockouts

Wrong codes are counted for each identity in runs: a success ends a run, and so does a week
without a failure. Every fifth failure of a run locks the second factor, each time for twice as
long. Calls of the guard are compared with these runs.

## Main definitions

- `MfaCall`, `guardAfter`: the calls of the guard, and what it holds after some of them
- `Strikes`, `strikesOf`: the current run of an identity, and the end of its latest lock
- `lockout`: how long a lock lasts

## Main results

- `tracks_guardAfter`: what the guard holds is the current run of each identity
- `lockouts`: the locks double up to a day and persist
-/

namespace Webshell

/-- A call of the login guard. -/
inductive MfaCall
  | failed (identity : Text) (now : ℕ)
  | succeeded (identity : Text) (now : ℕ)
  | locked (identity : Text) (now : ℕ)

namespace MfaCall

def identity : MfaCall → Text
  | failed identity _ | succeeded identity _ | locked identity _ => identity

def now : MfaCall → ℕ
  | failed _ now | succeeded _ now | locked _ now => now

def isFailed : MfaCall → Bool
  | failed _ _ => true
  | _ => false

def isSucceeded : MfaCall → Bool
  | succeeded _ _ => true
  | _ => false

/-- What a call leaves of the strikes. -/
def exec (strikes : Table Text MfaStrikes) : MfaCall → Table Text MfaStrikes
  | failed identity now => (mfaFailed strikes identity now).2
  | succeeded identity _ => mfaSucceeded strikes identity
  | locked _ _ => strikes

end MfaCall

/-- The strikes after some calls of a new guard. -/
def guardAfter (calls : List MfaCall) : Table Text MfaStrikes := calls.foldl MfaCall.exec ∅

/-! ## Runs of failures -/

/-- How long the lock of the `n`-th failure of a run lasts. -/
def lockout (n : ℕ) : ℕ := min (mfaLockoutBase * 2 ^ (n / mfaMaxStrikes - 1)) mfaLockoutMax

/-- The failures of the current run, the latest first, and the end of the latest lock. -/
structure Strikes where
  run : List ℕ
  lockEnd : Option ℕ

/-- The run that a failure continues or begins. -/
def Strikes.failing (x : Strikes) (now : ℕ) : List ℕ :=
  now :: if x.run.head?.any fun last => mfaStrikeMemory < now - last then [] else x.run

def Strikes.next (identity : Text) (x : Strikes) : MfaCall → Strikes
  | .failed who now =>
    if who = identity then
      let n := (x.failing now).length
      ⟨x.failing now, if mfaMaxStrikes ∣ n then some (now + lockout n) else x.lockEnd⟩
    else x
  | .succeeded who _ => if who = identity then ⟨[], none⟩ else x
  | .locked _ _ => x

/-- The strikes of an identity after some calls. -/
def strikesOf (identity : Text) (calls : List MfaCall) : Strikes :=
  calls.foldl (Strikes.next identity) ⟨[], none⟩

theorem guardAfter_snoc (calls : List MfaCall) (call : MfaCall) :
    guardAfter (calls ++ [call]) = call.exec (guardAfter calls) := by
  rw [guardAfter, List.foldl_append]
  rfl

theorem strikesOf_snoc (identity : Text) (calls : List MfaCall) (call : MfaCall) :
    strikesOf identity (calls ++ [call]) = (strikesOf identity calls).next identity call := by
  rw [strikesOf, List.foldl_append]
  rfl

/-- A call for somebody else is not looked at. -/
theorem Strikes.next_of_ne {identity : Text} {call : MfaCall} (x : Strikes)
    (h : call.identity ≠ identity) : x.next identity call = x := by
  cases call with
  | failed who now => exact if_neg h
  | succeeded who now => exact if_neg h
  | locked who now => rfl

theorem Strikes.next_failed (x : Strikes) (identity : Text) (now : ℕ) :
    x.next identity (.failed identity now) =
      ⟨x.failing now, if mfaMaxStrikes ∣ (x.failing now).length then
        some (now + lockout (x.failing now).length) else x.lockEnd⟩ := if_pos rfl

/-- A call fails or succeeds for the identity, or changes nothing for it. -/
theorem Strikes.next_cases (x : Strikes) (identity : Text) (call : MfaCall) :
    (∃ now, call = .failed identity now) ∨
    (∃ now, call = .succeeded identity now ∧ x.next identity call = ⟨[], none⟩) ∨
    x.next identity call = x := by
  by_cases hwho : call.identity = identity
  · cases call with
    | failed who now =>
      obtain rfl : who = identity := hwho
      exact .inl ⟨now, rfl⟩
    | succeeded who now =>
      obtain rfl : who = identity := hwho
      exact .inr (.inl ⟨now, rfl, if_pos rfl⟩)
    | locked who now => exact .inr (.inr rfl)
  · exact .inr (.inr (x.next_of_ne hwho))

/-! ## How long a lock lasts -/

theorem lockout_mono {m n : ℕ} (h : m ≤ n) : lockout m ≤ lockout n := by
  have hround : m / mfaMaxStrikes - 1 ≤ n / mfaMaxStrikes - 1 :=
    Nat.sub_le_sub_right (Nat.div_le_div_right h) 1
  apply min_le_min_right
  exact Nat.mul_le_mul_left _ (Nat.pow_le_pow_right (by decide) hround)

theorem lockout_le (n : ℕ) : lockout n ≤ mfaLockoutMax := min_le_right _ _

/-- A lock is shorter than the memory of a run. -/
theorem mfaLockoutMax_lt : mfaLockoutMax < mfaStrikeMemory := by decide

/-- The shift of the source gives up at 32 bits, where the product is over the cap long since. -/
theorem lockout_eq (round : ℕ) :
    min (mfaLockoutBase * if round < 32 then 2 ^ round % 2 ^ 32 else 2 ^ 32 - 1) mfaLockoutMax =
      min (mfaLockoutBase * 2 ^ round) mfaLockoutMax := by
  by_cases hround : round < 32
  · rw [if_pos hround, Nat.mod_eq_of_lt (Nat.pow_lt_pow_right (by decide) hround)]
  · have hcap : ∀ {factor : ℕ}, 2 ^ 32 - 1 ≤ factor → mfaLockoutMax ≤ mfaLockoutBase * factor := by
      intro factor hfactor
      have hbase : mfaLockoutMax ≤ mfaLockoutBase * (2 ^ 32 - 1) := by decide
      exact hbase.trans (Nat.mul_le_mul_left _ hfactor)
    have hpow : 2 ^ 32 ≤ 2 ^ round := Nat.pow_le_pow_right (by decide) (not_lt.mp hround)
    rw [if_neg hround, min_eq_right (hcap le_rfl), min_eq_right (hcap (by omega))]

/-! ## The guard and the runs -/

/-- What the guard holds for an identity. -/
def Tracks (entry : Option MfaStrikes) (x : Strikes) : Prop :=
  match entry with
  | none => x = ⟨[], none⟩
  | some y => x.run.length = y.count ∧ x.run.head? = some y.last ∧ x.lockEnd = y.lockedUntil

variable {identity : Text} {strikes : Table Text MfaStrikes} {x : Strikes}

/-- The count of a failure is the length of its run. -/
theorem Tracks.length_failing (h : Tracks (strikes.lookup identity) x) (now : ℕ) :
    (x.failing now).length = strikeCount strikes identity now := by
  rw [strikeCount, Strikes.failing, List.length_cons]
  cases hentry : strikes.lookup identity with
  | none =>
    rw [hentry] at h
    obtain rfl : x = ⟨[], none⟩ := h
    rfl
  | some y =>
    rw [hentry] at h
    obtain ⟨hcount, hlast, _⟩ := h
    simp only [hlast, Option.any_some, decide_eq_true_eq]
    split
    · rfl
    · rw [hcount]

/-- What a failure returns, and what is held then. -/
theorem Tracks.failed (h : Tracks (strikes.lookup identity) x) (now : ℕ) :
    (mfaFailed strikes identity now).1 =
        (if mfaMaxStrikes ∣ (x.failing now).length then some (lockout (x.failing now).length)
        else none) ∧
      Tracks ((mfaFailed strikes identity now).2.lookup identity)
        (x.next identity (.failed identity now)) := by
  have hlength := h.length_failing now
  have hcount : (if mfaStrikeMemory < now - ((strikes.lookup identity).getD ⟨0, now, none⟩).last
      then 0 else ((strikes.lookup identity).getD ⟨0, now, none⟩).count) + 1 =
      (x.failing now).length := by
    rw [hlength, strikeCount]
    cases strikes.lookup identity with
    | none => simp
    | some y => rfl
  have hend : x.lockEnd = ((strikes.lookup identity).getD ⟨0, now, none⟩).lockedUntil := by
    cases hentry : strikes.lookup identity with
    | none =>
      rw [hentry] at h
      obtain rfl : x = ⟨[], none⟩ := h
      rfl
    | some y =>
      rw [hentry] at h
      exact h.2.2
  simp only [mfaFailed, hcount]
  by_cases hdvd : mfaMaxStrikes ∣ (x.failing now).length
  · have hmod : ¬ (x.failing now).length % mfaMaxStrikes ≠ 0 :=
      not_not.mpr (Nat.mod_eq_zero_of_dvd hdvd)
    rw [if_neg hmod, if_pos hdvd, lockout_eq]
    refine ⟨rfl, ?_⟩
    rw [AList.lookup_insert, Strikes.next_failed, if_pos hdvd]
    exact ⟨rfl, rfl, rfl⟩
  · have hmod : (x.failing now).length % mfaMaxStrikes ≠ 0 := fun hzero =>
      hdvd (Nat.dvd_of_mod_eq_zero hzero)
    rw [if_pos hmod, if_neg hdvd]
    refine ⟨rfl, ?_⟩
    rw [AList.lookup_insert, Strikes.next_failed, if_neg hdvd]
    exact ⟨rfl, rfl, hend⟩

theorem Tracks.exec (h : Tracks (strikes.lookup identity) x) (call : MfaCall) :
    Tracks ((call.exec strikes).lookup identity) (x.next identity call) := by
  by_cases hwho : call.identity = identity
  · cases call with
    | failed who now =>
      obtain rfl : who = identity := hwho
      exact (h.failed now).2
    | succeeded who now =>
      obtain rfl : who = identity := hwho
      show Tracks ((mfaSucceeded strikes who).lookup who) _
      rw [mfaSucceeded, AList.lookup_erase, Strikes.next, if_pos rfl]
      rfl
    | locked who now => exact h
  · rw [x.next_of_ne hwho]
    cases call with
    | failed who now =>
      have hne : identity ≠ who := fun heq => hwho heq.symm
      show Tracks ((mfaFailed strikes who now).2.lookup identity) x
      rwa [lookup_mfaFailed_of_ne hne]
    | succeeded who now =>
      have hne : identity ≠ who := fun heq => hwho heq.symm
      show Tracks ((mfaSucceeded strikes who).lookup identity) x
      rwa [lookup_mfaSucceeded_of_ne hne]
    | locked who now => exact h

/-- The guard holds the current run of every identity. -/
theorem tracks_guardAfter (identity : Text) (calls : List MfaCall) :
    Tracks ((guardAfter calls).lookup identity) (strikesOf identity calls) := by
  induction calls using List.reverseRecOn with
  | nil => rfl
  | append_singleton calls call ih =>
    rw [guardAfter_snoc, strikesOf_snoc]
    exact ih.exec call

/-- A run is held in one way. -/
theorem Tracks.unique {entry entry' : Option MfaStrikes} (h : Tracks entry x)
    (h' : Tracks entry' x) : entry = entry' := by
  cases entry with
  | none =>
    obtain rfl : x = ⟨[], none⟩ := h
    cases entry' with
    | none => rfl
    | some y => cases h'.2.1
  | some y =>
    cases entry' with
    | none =>
      obtain rfl : x = ⟨[], none⟩ := h'
      cases h.2.1
    | some y' =>
      obtain ⟨hcount, hlast, hend⟩ := h
      obtain ⟨hcount', hlast', hend'⟩ := h'
      obtain ⟨count, last, lockedUntil⟩ := y
      obtain ⟨count', last', lockedUntil'⟩ := y'
      obtain rfl : count = count' := hcount.symm.trans hcount'
      obtain rfl : last = last' := Option.some.inj (hlast.symm.trans hlast')
      obtain rfl : lockedUntil = lockedUntil' := hend.symm.trans hend'
      rfl

theorem strikesOf_filter (identity : Text) (calls : List MfaCall) :
    strikesOf identity (calls.filter fun call => call.identity = identity) =
      strikesOf identity calls := by
  induction calls using List.reverseRecOn with
  | nil => rfl
  | append_singleton calls call ih =>
    rw [List.filter_append, strikesOf_snoc, ← ih]
    by_cases hwho : call.identity = identity
    · have hkeep : decide (call.identity = identity) = true := decide_eq_true hwho
      simp only [List.filter_cons, hkeep, if_true, List.filter_nil, strikesOf_snoc]
    · rw [List.filter_cons_of_neg (by simpa using hwho), List.filter_nil, List.append_nil,
        Strikes.next_of_ne _ hwho]

theorem Tracks.mfaLocked (h : Tracks (strikes.lookup identity) x) (now : ℕ) :
    mfaLocked strikes identity now =
      x.lockEnd.bind fun lockEnd => if now < lockEnd then some (lockEnd - now) else none := by
  rw [Webshell.mfaLocked]
  cases hentry : strikes.lookup identity with
  | none =>
    rw [hentry] at h
    obtain rfl : x = ⟨[], none⟩ := h
    rfl
  | some y =>
    rw [hentry] at h
    obtain ⟨_, _, hend⟩ := h
    rw [hend]
    cases hlocked : y.lockedUntil with
    | none => simp only [hlocked, Option.bind_eq_bind, Option.bind_some, Option.bind_none]
    | some lockEnd =>
      simp only [hlocked, Option.bind_eq_bind, Option.bind_some]
      by_cases hlt : now < lockEnd
      · rw [if_pos hlt, if_neg (by omega)]
      · rw [if_neg hlt, if_pos (by omega)]

/-! ## Locks persist -/

/-- The latest lock ends no later than one that the last failure would set. -/
def Strikes.Bounded (x : Strikes) : Prop :=
  ∀ lockEnd, x.lockEnd = some lockEnd →
    ∃ last, x.run.head? = some last ∧ lockEnd ≤ last + lockout x.run.length

/-- **Step lemma**: a failure sets no lock that ends sooner. -/
theorem Strikes.Bounded.failing (h : x.Bounded) {now : ℕ} (hnow : ∀ last ∈ x.run, last ≤ now) :
    (x.next identity (.failed identity now)).Bounded ∧
      ∀ lockEnd, x.lockEnd = some lockEnd →
        ∃ lockEnd', (x.next identity (.failed identity now)).lockEnd = some lockEnd' ∧
          lockEnd ≤ lockEnd' := by
  have hle : ∀ lockEnd, x.lockEnd = some lockEnd →
      lockEnd ≤ now + lockout (x.failing now).length := by
    intro lockEnd hend
    obtain ⟨last, hlast, hbound⟩ := h lockEnd hend
    have hbefore := hnow last (List.mem_of_head? hlast)
    have hcap := lockout_le x.run.length
    have hmemory := mfaLockoutMax_lt
    rw [Strikes.failing, hlast]
    simp only [Option.any_some, decide_eq_true_eq]
    split
    -- a new run: a week has passed, and the lock lasted no more than a day
    · omega
    -- the same run, one longer: its lock would be no shorter
    · have hmono : lockout x.run.length ≤ lockout (now :: x.run).length :=
        lockout_mono (Nat.le_succ _)
      omega
  rw [Strikes.next_failed]
  by_cases hdvd : mfaMaxStrikes ∣ (x.failing now).length
  · rw [if_pos hdvd]
    refine ⟨fun lockEnd hend => ⟨now, rfl, (Option.some.inj hend).ge⟩, fun lockEnd hend => ?_⟩
    exact ⟨_, rfl, hle lockEnd hend⟩
  · rw [if_neg hdvd]
    exact ⟨fun lockEnd hend => ⟨now, rfl, hle lockEnd hend⟩, fun lockEnd hend =>
      ⟨lockEnd, hend, le_rfl⟩⟩

/-- The failures of a run are among the calls. -/
theorem mem_run {calls : List MfaCall} {t : ℕ} (h : t ∈ (strikesOf identity calls).run) :
    t ∈ calls.map MfaCall.now := by
  induction calls using List.reverseRecOn with
  | nil => cases h
  | append_singleton calls call ih =>
    rw [strikesOf_snoc] at h
    rw [List.map_append, List.mem_append]
    obtain ⟨now, rfl⟩ | ⟨now, rfl, heq⟩ | heq := (strikesOf identity calls).next_cases identity call
    · rw [Strikes.next_failed] at h
      obtain rfl | hold := List.mem_cons.mp h
      · exact .inr List.mem_cons_self
      · split at hold
        · cases hold
        · exact .inl (ih hold)
    · rw [heq] at h
      cases h
    · rw [heq] at h
      exact .inl (ih h)

/-- Clocks that do not run back. -/
def Ordered (calls : List MfaCall) : Prop := (calls.map MfaCall.now).Pairwise (· ≤ ·)

instance (calls : List MfaCall) : Decidable (Ordered calls) :=
  inferInstanceAs (Decidable (List.Pairwise (· ≤ ·) _))

theorem Ordered.init {calls : List MfaCall} {call : MfaCall} (h : Ordered (calls ++ [call])) :
    Ordered calls ∧ ∀ t ∈ calls.map MfaCall.now, t ≤ call.now := by
  rw [Ordered, List.map_append, List.pairwise_append] at h
  exact ⟨h.1, fun t ht => h.2.2 t ht call.now List.mem_cons_self⟩

theorem bounded_strikesOf {calls : List MfaCall} (h : Ordered calls) :
    (strikesOf identity calls).Bounded := by
  induction calls using List.reverseRecOn with
  | nil => exact fun lockEnd hend => by cases hend
  | append_singleton calls call ih =>
    obtain ⟨hinit, hlast⟩ := h.init
    rw [strikesOf_snoc]
    obtain ⟨now, rfl⟩ | ⟨now, rfl, heq⟩ | heq := (strikesOf identity calls).next_cases identity call
    · exact ((ih hinit).failing fun t ht => hlast t (mem_run ht)).1
    · rw [heq]
      exact fun lockEnd hend => by cases hend
    · rw [heq]
      exact ih hinit

/-- **Run lemma**: without a success, locks end later and later. -/
theorem lockEnd_le {calls later : List MfaCall} (h : Ordered (calls ++ later))
    (hno : ∀ call ∈ later, call.identity = identity → call.isSucceeded = false) {lockEnd : ℕ}
    (hend : (strikesOf identity calls).lockEnd = some lockEnd) :
    ∃ lockEnd', (strikesOf identity (calls ++ later)).lockEnd = some lockEnd' ∧
      lockEnd ≤ lockEnd' := by
  induction later using List.reverseRecOn with
  | nil => exact ⟨lockEnd, by rwa [List.append_nil], le_rfl⟩
  | append_singleton later call ih =>
    rw [← List.append_assoc] at h ⊢
    obtain ⟨hinit, hlast⟩ := h.init
    obtain ⟨lockEnd₁, hend₁, hle₁⟩ :=
      ih hinit fun call hcall => hno call (List.mem_append_left _ hcall)
    rw [strikesOf_snoc]
    obtain ⟨now, rfl⟩ | ⟨now, rfl, -⟩ | heq :=
      (strikesOf identity (calls ++ later)).next_cases identity call
    · obtain ⟨_, hlater⟩ := (bounded_strikesOf hinit).failing fun t ht => hlast t (mem_run ht)
      obtain ⟨lockEnd₂, hend₂, hle₂⟩ := hlater lockEnd₁ hend₁
      exact ⟨lockEnd₂, hend₂, hle₁.trans hle₂⟩
    · have hfalse := hno _ (List.mem_append_right later List.mem_cons_self) rfl
      cases hfalse
    · rw [heq]
      exact ⟨lockEnd₁, hend₁, hle₁⟩

/-- A run is no longer than there were failures, so that its count fits where these do. -/
theorem length_run_le (identity : Text) (calls : List MfaCall) :
    (strikesOf identity calls).run.length ≤ calls.countP MfaCall.isFailed := by
  induction calls using List.reverseRecOn with
  | nil => exact le_rfl
  | append_singleton calls call ih =>
    rw [strikesOf_snoc, List.countP_append]
    obtain ⟨now, rfl⟩ | ⟨now, rfl, heq⟩ | heq := (strikesOf identity calls).next_cases identity call
    · rw [Strikes.next_failed]
      show (now :: _).length ≤ _ + 1
      rw [List.length_cons]
      split
      · exact Nat.le_add_left ..
      · exact Nat.succ_le_succ ih
    · rw [heq]
      exact Nat.zero_le _
    · rw [heq]
      exact ih.trans (Nat.le_add_right ..)

/-- **Lockouts double, cap and persist.** A failure returns a lock exactly when the length of its
run is a multiple of five, and that lock is twice as long as the one before it, up to a day. A
failure that comes when a lock has just run out, or up to six days later, goes on with the run. No
lock ends sooner for what comes later, short of a success, and an identity is locked until its
latest lock ends. What the others do is not looked at, and no count is larger than the number of
failures there have been. -/
theorem lockouts (calls : List MfaCall) (identity : Text) (h : Ordered calls) :
    let strikes := guardAfter calls
    let x := strikesOf identity calls
    (∀ now, (mfaFailed strikes identity now).1 =
      if mfaMaxStrikes ∣ (x.failing now).length then some (lockout (x.failing now).length)
      else none) ∧
    (∀ lockEnd, x.lockEnd = some lockEnd → ∀ now,
      now ≤ lockEnd + (mfaStrikeMemory - mfaLockoutMax) → x.failing now = now :: x.run) ∧
    (∀ later, Ordered (calls ++ later) →
      (∀ call ∈ later, call.identity = identity → call.isSucceeded = false) →
      ∀ lockEnd, x.lockEnd = some lockEnd →
        ∃ lockEnd', (strikesOf identity (calls ++ later)).lockEnd = some lockEnd' ∧
          lockEnd ≤ lockEnd') ∧
    (∀ now, mfaLocked strikes identity now =
      x.lockEnd.bind fun lockEnd => if now < lockEnd then some (lockEnd - now) else none) ∧
    strikes.lookup identity =
      (guardAfter (calls.filter fun call => call.identity = identity)).lookup identity ∧
    ∀ y, strikes.lookup identity = some y → y.count ≤ calls.countP MfaCall.isFailed := by
  intro strikes x
  have htracks := tracks_guardAfter identity calls
  refine ⟨fun now => (htracks.failed now).1, fun lockEnd hend now hnow => ?_,
    fun later hlater hno lockEnd hend => lockEnd_le hlater hno hend, htracks.mfaLocked, ?_,
    fun y hy => ?_⟩
  · obtain ⟨last, hlast, hbound⟩ := bounded_strikesOf h lockEnd hend
    have hcap := lockout_le x.run.length
    have hmemory := mfaLockoutMax_lt
    -- the lock ended no later than a day after the last failure of the run
    have hgap : ¬ mfaStrikeMemory < now - last := by
      have hlength : lockEnd ≤ last + lockout x.run.length := hbound
      omega
    rw [Strikes.failing, hlast]
    simp [hgap]
  · refine htracks.unique ?_
    rw [← strikesOf_filter]
    exact tracks_guardAfter identity _
  · rw [show (guardAfter calls).lookup identity = some y from hy] at htracks
    rw [← htracks.1]
    exact length_run_le identity calls

/-! ## Ten wrong codes -/

/-- Ten wrong codes, the sixth one when the first lock has run out. -/
def tenFailures : List MfaCall :=
  ((List.range 5).map fun i => .failed "a".toList i) ++
    (List.range 5).map fun i => .failed "a".toList (mfaLockoutBase + 4 + i)

/-- The second lock is twice as long. -/
theorem lockouts_tenFailures :
    mfaLocked (guardAfter tenFailures) "a".toList (mfaLockoutBase + 9) =
      some (2 * mfaLockoutBase - 1) :=
  ((lockouts tenFailures "a".toList (by decide)).2.2.2.1 _).trans (by decide)

end Webshell
