import Webshell.Auth.SecondFactor
import Webshell.Lib.Transition

/-!
# The enrollment store and its file

The two mutations of the enrollment store change the map first and write the whole file then. As
long as every write succeeds the map is what the file says; after one that fails it is not, until
the next write that succeeds persists whatever the map holds.

## Main definitions

- `EnrollmentFile`: the map and the file, with the pins that have been confirmed
- `Together`: the map is what a reload would give, and confirmed pins are in the file
- `Saved`: an operation whose write succeeds, or changes nothing

## Main results

- `together_iff_saved`: map and file stay together in every run of such operations, and the first
  other one parts them
- `failed_enroll_enrolls`: a failed enrollment that the map keeps
-/

namespace Webshell

open Transition
open Text (Lowercase)

section
variable [Lowercase]

/-- The map, what the file holds, and the pins that `pin_subject` has answered `Ok(true)` for. -/
structure EnrollmentFile where
  memory : EnrollmentStore
  file : EnrollmentStore
  pins : List (Identity × Text)

inductive EnrollmentOp
  | get (id : Identity)
  | pinSubject (id : Identity) (sub : Text) (written : Bool)
  | enroll (id : Identity) (secret : Text) (now : ℕ) (written : Bool)
  /-- The server starts again. -/
  | load

namespace EnrollmentFile

/-- `write`, if it succeeds: the file is replaced by the map. -/
def write (s : EnrollmentFile) (written : Bool) : EnrollmentFile :=
  if written then { s with file := s.memory } else s

/-- The file is written only when the subject is new. -/
def pinSubject (s : EnrollmentFile) (id : Identity) (sub : Text) (written : Bool) :
    EnrollmentFile :=
  let pinned := s.memory.pinSubject id sub written
  let pins := if pinned.1 = some true then s.pins ++ [(id, sub)] else s.pins
  let s' : EnrollmentFile := ⟨pinned.2, s.file, pins⟩
  if (s.memory.entry id).sub = none then s'.write written else s'

def enroll (s : EnrollmentFile) (id : Identity) (secret : Text) (now : ℕ) (written : Bool) :
    EnrollmentFile :=
  { s with memory := (s.memory.enroll id secret now written).2 }.write written

def step (s : EnrollmentFile) : EnrollmentOp → EnrollmentFile
  | .get _ => s
  | .pinSubject id sub written => s.pinSubject id sub written
  | .enroll id secret now written => s.enroll id secret now written
  | .load => { s with memory := s.file }

/-- The operation returns an error. -/
def Fails (s : EnrollmentFile) : EnrollmentOp → Prop
  | .pinSubject id sub written => (s.memory.pinSubject id sub written).1 = none
  | .enroll id secret now written => (s.memory.enroll id secret now written).1 = false
  | _ => False

end EnrollmentFile

/-- The store after `load`, and its operations from then on. -/
def enrollmentSystem : System EnrollmentFile EnrollmentOp where
  init s := s.memory = s.file ∧ s.pins = []
  step s op := some (s.step op)

/-- A reload would give what the map holds, and after it every other subject than the one
confirmed is refused. -/
structure Together (s : EnrollmentFile) : Prop where
  same : ∀ id, s.memory.lookup id = s.file.lookup id
  pinned : ∀ p ∈ s.pins, ∀ sub, sub ≠ p.2 → ∀ written,
    (s.file.pinSubject p.1 sub written).1 = some false

/-- The write that the operation asks for succeeds, or has nothing new to write. -/
def Saved (s : EnrollmentFile) : EnrollmentOp → Prop
  | .pinSubject id _ written => (s.memory.entry id).sub = none → written = true
  | .enroll id secret now written =>
    written = true ∨ ∃ record, s.memory.lookup id = some record ∧
      record.mfaSecret = some secret ∧ record.enrolledAt = some now
  | _ => True

/-! ## What an operation does -/

variable {s s' : EnrollmentFile} {id : Identity} {sub secret : Text} {now : ℕ} {written : Bool}

/-- A subject is refused exactly where another one is pinned. -/
theorem pinSubject_eq_false {store : EnrollmentStore} :
    (store.pinSubject id sub written).1 = some false ↔
      ∃ known, (store.entry id).sub = some known ∧ known ≠ sub := by
  rw [EnrollmentStore.pinSubject]
  cases hsub : (store.entry id).sub with
  | none => cases written <;> simp
  | some known => simp

theorem pinSubject_eq_true {store : EnrollmentStore} :
    (store.pinSubject id sub written).1 = some true ↔
      (store.entry id).sub = some sub ∨ ((store.entry id).sub = none ∧ written = true) := by
  rw [EnrollmentStore.pinSubject]
  cases hsub : (store.entry id).sub with
  | none => cases written <;> simp
  | some known => simp

/-- Confirmed pins, as what the records say. -/
theorem pinned_iff {store : EnrollmentStore} {p : Identity × Text} :
    (∀ sub, sub ≠ p.2 → ∀ written, (store.pinSubject p.1 sub written).1 = some false) ↔
      (store.entry p.1).sub = some p.2 := by
  constructor
  · intro h
    obtain ⟨known, hknown, _⟩ := pinSubject_eq_false.mp (h ('x' :: p.2) (by simp) true)
    by_cases heq : known = p.2
    · rw [hknown, heq]
    · obtain ⟨known', hknown', hne⟩ := pinSubject_eq_false.mp (h known heq true)
      rw [hknown, Option.some.injEq] at hknown'
      exact absurd hknown'.symm hne
  · intro h sub hsub written
    exact pinSubject_eq_false.mpr ⟨p.2, h, hsub.symm⟩

/-- Pinning a subject that is there already changes nothing. -/
theorem lookup_pinSubject_of_some {store : EnrollmentStore} {known : Text} (id' : Identity)
    (h : (store.entry id).sub = some known) :
    (store.pinSubject id sub written).2.lookup id' = store.lookup id' := by
  simp only [EnrollmentStore.pinSubject, h]
  by_cases hid : id' = id
  · subst hid
    rw [AList.lookup_insert]
    cases hl : store.lookup id' with
    | none =>
      rw [EnrollmentStore.entry, hl] at h
      cases h
    | some record => rw [EnrollmentStore.entry, hl, Option.getD_some]
  · rw [AList.lookup_insert_ne hid]

theorem Together.entry (h : Together s) (id : Identity) : s.memory.entry id = s.file.entry id := by
  rw [EnrollmentStore.entry, h.same, EnrollmentStore.entry]

/-- A pin that was confirmed, in the file that a successful write leaves. -/
theorem entry_sub_of_write {store : EnrollmentStore} {p : Identity × Text}
    (h : (store.entry p.1).sub = some p.2) (hsub : (store.entry id).sub = none) :
    ((store.pinSubject id sub written).2.entry p.1).sub = some p.2 := by
  have hne : p.1 ≠ id := by
    rintro rfl
    rw [h] at hsub
    cases hsub
  simp only [EnrollmentStore.pinSubject, hsub]
  rw [EnrollmentStore.entry_insert_of_ne _ _ hne, h]

/-! ## Together as long as writes succeed -/

theorem Together.pinSubject (h : Together s) (hsaved : Saved s (.pinSubject id sub written)) :
    Together (s.pinSubject id sub written) := by
  cases hsub : (s.memory.entry id).sub with
  | some known =>
    -- nothing is written, and nothing has changed
    refine ⟨fun id' => ?_, fun p hp => ?_⟩
    · simp only [EnrollmentFile.pinSubject, hsub, reduceCtorEq, if_false]
      rw [lookup_pinSubject_of_some id' hsub, h.same]
    · simp only [EnrollmentFile.pinSubject, hsub, reduceCtorEq, if_false] at hp ⊢
      split at hp
      next htrue =>
        obtain hp | hp := List.mem_append.mp hp
        · exact h.pinned p hp
        · rw [List.mem_singleton.mp hp, pinned_iff, ← h.entry]
          obtain heq | ⟨hnone, _⟩ := pinSubject_eq_true.mp htrue
          · exact heq
          · rw [hsub] at hnone
            cases hnone
      · exact h.pinned p hp
  | none =>
    obtain rfl := hsaved hsub
    refine ⟨fun id' => ?_, fun p hp => ?_⟩
    · simp only [EnrollmentFile.pinSubject, hsub, if_true, EnrollmentFile.write]
    · simp only [EnrollmentFile.pinSubject, hsub, if_true, EnrollmentFile.write] at hp ⊢
      rw [if_pos (pinSubject_eq_true.mpr (.inr ⟨hsub, rfl⟩)), List.mem_append] at hp
      rw [pinned_iff]
      obtain hp | hp := hp
      · exact entry_sub_of_write (by rw [h.entry]; exact pinned_iff.mp (h.pinned p hp)) hsub
      · obtain rfl := List.mem_singleton.mp hp
        simp only [EnrollmentStore.pinSubject, hsub]
        rw [EnrollmentStore.entry_insert_self]

theorem sub_enroll (store : EnrollmentStore) (id' : Identity) :
    ((store.enroll id secret now written).2.entry id').sub = (store.entry id').sub := by
  rw [EnrollmentStore.enroll]
  by_cases hid : id' = id
  · subst hid
    rw [EnrollmentStore.entry_insert_self]
  · rw [EnrollmentStore.entry_insert_of_ne _ _ hid]

/-- An enrollment that says what the record says already. -/
theorem lookup_enroll_of_same {store : EnrollmentStore} {record : Record}
    (hrecord : store.lookup id = some record) (hsecret : record.mfaSecret = some secret)
    (hat : record.enrolledAt = some now) (written : Bool) (id' : Identity) :
    (store.enroll id secret now written).2.lookup id' = store.lookup id' := by
  rw [EnrollmentStore.enroll]
  by_cases hid : id' = id
  · subst hid
    rw [AList.lookup_insert, EnrollmentStore.entry, hrecord, Option.getD_some, ← hsecret, ← hat]
  · rw [AList.lookup_insert_ne hid]

theorem Together.enroll (h : Together s) (hsaved : Saved s (.enroll id secret now written)) :
    Together (s.enroll id secret now written) := by
  cases written with
  | true =>
    refine ⟨fun id' => ?_, fun p hp => ?_⟩
    · simp only [EnrollmentFile.enroll, EnrollmentFile.write, if_true]
    · simp only [EnrollmentFile.enroll, EnrollmentFile.write, if_true] at hp ⊢
      rw [pinned_iff, sub_enroll, h.entry]
      exact pinned_iff.mp (h.pinned p hp)
  | false =>
    obtain hfalse | ⟨record, hrecord, hsecret, hat⟩ := hsaved
    · cases hfalse
    · refine ⟨fun id' => ?_, h.pinned⟩
      exact (lookup_enroll_of_same hrecord hsecret hat false id').trans (h.same id')

theorem Together.step (h : Together s) {op : EnrollmentOp} (hsaved : Saved s op) :
    Together (s.step op) := by
  cases op with
  | get id => exact h
  | pinSubject id sub written => exact h.pinSubject hsaved
  | enroll id secret now written => exact h.enroll hsaved
  | load => exact ⟨fun _ => rfl, h.pinned⟩

/-! ## Apart after a write that fails -/

/-- What parts map and file is a change that the file does not get. -/
theorem Together.saved (h : Together s) {op : EnrollmentOp} (h' : Together (s.step op)) :
    Saved s op := by
  cases op with
  | get id => trivial
  | load => trivial
  | pinSubject id sub written =>
    intro hsub
    cases written with
    | true => rfl
    | false =>
      have hsame := h'.entry id
      simp only [EnrollmentFile.step, EnrollmentFile.pinSubject, hsub, if_true,
        EnrollmentFile.write, Bool.false_eq_true, if_false, EnrollmentStore.pinSubject] at hsame
      rw [EnrollmentStore.entry_insert_self, ← h.entry] at hsame
      rw [← hsame] at hsub
      cases hsub
  | enroll id secret now written =>
    cases written with
    | true => exact .inl rfl
    | false =>
      have hsame := h'.same id
      simp only [EnrollmentFile.step, EnrollmentFile.enroll, EnrollmentFile.write,
        Bool.false_eq_true, if_false, EnrollmentStore.enroll] at hsame
      rw [AList.lookup_insert, ← h.same] at hsame
      exact .inr ⟨_, hsame.symm, rfl, rfl⟩

/-- An operation that fails with nothing new to write changes nothing. -/
theorem unchanged_of_fails {op : EnrollmentOp} (hsaved : Saved s op) (hfails : s.Fails op)
    (id' : Identity) : (s.step op).memory.lookup id' = s.memory.lookup id' ∧
      (s.step op).file = s.file := by
  cases op with
  | get id => cases hfails
  | load => cases hfails
  | pinSubject id sub written =>
    have hnone : (s.memory.pinSubject id sub written).1 = none := hfails
    cases hsub : (s.memory.entry id).sub with
    | some known =>
      rw [EnrollmentStore.pinSubject, hsub] at hnone
      cases hnone
    | none =>
      have hwritten : written = true := hsaved hsub
      rw [EnrollmentStore.pinSubject, hsub, hwritten] at hnone
      cases hnone
  | enroll id secret now written =>
    obtain rfl : written = false := hfails
    obtain hfalse | ⟨record, hrecord, hsecret, hat⟩ := hsaved
    · cases hfalse
    · exact ⟨lookup_enroll_of_same hrecord hsecret hat false id', rfl⟩

/-- In a run whose writes succeed, the map is what the file says, a failure changes nothing, and a
confirmed pin survives a restart; the first write that fails with something new parts the map from
the file. -/
theorem together_iff_saved (h : enrollmentSystem.Reach Saved s) :
    Together s ∧
      (∀ op, Saved s op → s.Fails op → ∀ id,
        (s.step op).memory.lookup id = s.memory.lookup id ∧ (s.step op).file = s.file) ∧
      ∀ op s', enrollmentSystem.step s op = some s' → (Together s' ↔ Saved s op) := by
  have htogether : Together s := by
    refine System.Reach.invariant ?_ ?_ h
    · rintro s ⟨hsame, hpins⟩
      exact ⟨fun id => by rw [hsame], fun p hp => by rw [hpins] at hp; cases hp⟩
    · intro s op s' _ hs hsaved hstep
      obtain rfl := Option.some.inj hstep
      exact hs.step hsaved
  refine ⟨htogether, fun op hsaved hfails id => unchanged_of_fails hsaved hfails id, ?_⟩
  intro op s' hstep
  obtain rfl := Option.some.inj hstep
  exact ⟨fun h' => htogether.saved h', fun hsaved => htogether.step hsaved⟩

end

/-! ## A failed enrollment -/

namespace EnrollmentSample

open Text.Ascii

def alice : Identity := .new .google "alice@gmail.com".toList

def empty : EnrollmentFile := ⟨∅, ∅, []⟩

def secret : Text := "JBSWY3DPEHPK3PXP".toList

/-- Alice's subject is pinned, and she enrolls. -/
def aliceEnrolled : EnrollmentFile :=
  (empty.step (.pinSubject alice "1001".toList true)).step (.enroll alice secret 1000 true)

/-- The same enrollment within the same second, whose write fails. -/
def repetition : EnrollmentOp := .enroll alice secret 1000 false

/-- Her next login goes by the pin, and somebody else's subject is refused. -/
def mixedRun : EnrollmentFile :=
  ((aliceEnrolled.step repetition).step (.pinSubject alice "1001".toList false)).step
    (.pinSubject alice "2002".toList false)

theorem saved_pinSubject {s : EnrollmentFile} {known : Text} (sub : Text)
    (h : (s.memory.entry alice).sub = some known) : Saved s (.pinSubject alice sub false) := by
  intro hnone
  cases h.symm.trans hnone

theorem mixedRun_reach : enrollmentSystem.Reach Saved mixedRun := by
  have hrecord : aliceEnrolled.memory.lookup alice =
      some ⟨some "1001".toList, some secret, some 1000⟩ := rfl
  have hpin : Saved empty (.pinSubject alice "1001".toList true) := fun _ => rfl
  have henroll : Saved (empty.step (.pinSubject alice "1001".toList true))
      (.enroll alice secret 1000 true) := Or.inl rfl
  have hrepeat : Saved aliceEnrolled repetition := Or.inr ⟨_, hrecord, rfl, rfl⟩
  have hstart : enrollmentSystem.Reach Saved empty := .init ⟨rfl, rfl⟩
  have hrun : enrollmentSystem.Reach Saved (aliceEnrolled.step repetition) :=
    ((hstart.step hpin rfl).step henroll rfl).step hrepeat rfl
  have hagain := saved_pinSubject (s := aliceEnrolled.step repetition) "1001".toList rfl
  exact (hrun.step hagain rfl).step (saved_pinSubject "2002".toList rfl) rfl

end EnrollmentSample

open EnrollmentSample Text.Ascii

theorem together_iff_saved_mixedRun :
    aliceEnrolled.Fails repetition ∧ mixedRun.pins.length = 2 ∧ Together mixedRun ∧
      (∀ op, Saved mixedRun op → mixedRun.Fails op → ∀ id,
        (mixedRun.step op).memory.lookup id = mixedRun.memory.lookup id ∧
          (mixedRun.step op).file = mixedRun.file) ∧
      ∀ op s', enrollmentSystem.step mixedRun op = some s' → (Together s' ↔ Saved mixedRun op) :=
  ⟨rfl, by decide, together_iff_saved mixedRun_reach⟩

/-- The error is returned, and the next login is asked for a code of the secret. -/
theorem failed_enroll_enrolls :
    ¬ ∀ (_ : Lowercase) (s : EnrollmentFile), enrollmentSystem.Reachable s → Together s := by
  intro h
  have hfailed : enrollmentSystem.Reachable
      (empty.step (.enroll alice "JBSWY3DP".toList 1000 false)) :=
    .step (.init ⟨rfl, rfl⟩) trivial rfl
  have hsame := (h asciiLowercase _ hfailed).same alice
  have hmemory : ((empty.step (.enroll alice "JBSWY3DP".toList 1000 false)).memory.lookup
      alice).isSome = true := by decide
  rw [hsame] at hmemory
  exact absurd hmemory (by decide)

end Webshell
