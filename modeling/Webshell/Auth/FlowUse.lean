import Webshell.Auth.Stores

/-!
# The use of a Google flow

Callbacks that present the same session cookie and the same state. A callback compares the state
with the flow of the session it has read, and takes the flow off the session in a step of its own;
another callback may read the session in between. Where none does, a flow is used at most once in a
server process.

## Main definitions

- `FlowsFrom`: what an operation on the sessions does to their flows
- `passesState`: the flow whose state a callback has just presented
- `UsedOnce`: a flow that one callback has passed the check with is gone for all others
- `LooksAfterClear`: no callback finds a flow that another is about to clear

## Main results

- `flow_used_once`: flows are used once in every run in which callbacks look after the clear
- `flow_used_twice`: they are not in every run
-/

namespace Webshell

open Oidc (Flow)

/-! ## Flows of sessions -/

namespace SessionStore

/-- A session in memory that waits for Google. -/
def HasFlow (s : SessionStore) (id : ℕ) (flow : Flow) : Prop :=
  ∃ x, s.inner.lookup id = some x ∧ x.oauth = some flow

/-- A session in a file that waits for Google. -/
def FileFlow (s : SessionStore) (id : ℕ) (flow : Flow) : Prop :=
  ∃ path d, (s.disk path).lookup id = some d ∧ d.oauth = some flow

/-- An operation brings no flow but `fresh`, and files get theirs from memory. -/
structure FlowsFrom (fresh : Option Flow) (s s' : SessionStore) : Prop where
  memory : ∀ id flow, s'.HasFlow id flow → s.HasFlow id flow ∨ fresh = some flow
  file : ∀ id flow, s'.FileFlow id flow →
    s.FileFlow id flow ∨ s.HasFlow id flow ∨ fresh = some flow

variable {fresh : Option Flow} {s t : SessionStore} {now : Clock}

theorem FlowsFrom.refl (s : SessionStore) : FlowsFrom none s s :=
  ⟨fun _ _ h => .inl h, fun _ _ h => .inl h⟩

/-- What memory loses, or gets with the fresh flow. -/
theorem flowsFrom_of_inner {inner : Table ℕ Session}
    (h : ∀ id x flow, inner.lookup id = some x → x.oauth = some flow →
      s.HasFlow id flow ∨ fresh = some flow) :
    FlowsFrom fresh s { s with inner := inner } := by
  refine ⟨fun id flow hflow => ?_, fun _ _ hfile => .inl hfile⟩
  obtain ⟨x, hx, hxflow⟩ := hflow
  exact h id x flow hx hxflow

theorem FlowsFrom.persist (h : FlowsFrom fresh s t) (now : Clock) (written : Bool) :
    FlowsFrom fresh s (t.persist now written) := by
  refine ⟨fun id flow hflow => h.memory id flow ?_, fun id flow hflow => ?_⟩
  · obtain ⟨x, hx, hxflow⟩ := hflow
    rw [inner_persist] at hx
    exact ⟨x, hx, hxflow⟩
  · have hpersist : t.FileFlow id flow ∨ t.HasFlow id flow := by
      rw [SessionStore.persist] at hflow
      split at hflow
      · exact .inl hflow
      next path _ =>
        split at hflow
        · obtain ⟨path', d, hd, hdflow⟩ := hflow
          dsimp only at hd
          by_cases hpath : path' = path
          · subst hpath
            rw [Function.update_self, AList.lookup_filterMap, Option.bind_eq_some_iff] at hd
            obtain ⟨x, hx, hd⟩ := hd
            split at hd
            · obtain rfl := Option.some.inj hd
              exact .inr ⟨x, hx, hdflow⟩
            · cases hd
          · rw [Function.update_of_ne hpath] at hd
            exact .inl ⟨path', d, hd, hdflow⟩
        · exact .inl hflow
    obtain hfile | hmemory := hpersist
    · exact h.file id flow hfile
    · exact .inr (h.memory id flow hmemory)

theorem flowsFrom_erase (s : SessionStore) (id : ℕ) :
    FlowsFrom none s { s with inner := s.inner.erase id } :=
  flowsFrom_of_inner fun _ x _ hx hflow => .inl ⟨x, (AList.lookup_of_lookup_erase hx).2, hflow⟩

theorem flowsFrom_get (s : SessionStore) (id : ℕ) (now : Clock) (written : Bool) :
    FlowsFrom none s (s.get id now written).2 := by
  rw [get]
  split
  · split
    · exact (flowsFrom_erase s id).persist now written
    · exact .refl s
  · exact .refl s

theorem flowsFrom_remove (s : SessionStore) (id : ℕ) (now : Clock) (written : Bool) :
    FlowsFrom none s (s.remove id now written) := by
  rw [remove]
  split
  · exact (flowsFrom_erase s id).persist now written
  · exact .refl s

theorem flowsFrom_sweep (s : SessionStore) (now : Clock) (written : Bool) :
    FlowsFrom none s (s.sweep now written) := by
  have hretain : FlowsFrom none s
      { s with inner := s.inner.retain fun _ x => !x.expired s.ttl now.instant } :=
    flowsFrom_of_inner fun _ x _ hx hflow => .inl ⟨x, AList.lookup_of_lookup_retain hx, hflow⟩
  rw [sweep]
  split
  · exact hretain.persist now written
  · exact hretain

/-- A session that begins has no flow. -/
theorem flowsFrom_insert {inner : Table ℕ Session} {id : ℕ} {x : Session} (hx : x.oauth = none)
    (h : ∀ id' y, inner.lookup id' = some y → s.inner.lookup id' = some y) :
    FlowsFrom none s { s with inner := inner.insert id x } := by
  refine flowsFrom_of_inner fun id' y flow hy hflow => .inl ?_
  obtain ⟨rfl, rfl⟩ | ⟨_, hold⟩ := AList.lookup_of_lookup_insert hy
  · cases hx.symm.trans hflow
  · exact ⟨y, h id' y hold, hflow⟩

theorem flowsFrom_create (s : SessionStore) (id : ℕ) (now : Clock) :
    FlowsFrom none s (s.create id now) := by
  rw [create]
  split
  · split
    · exact flowsFrom_insert rfl fun _ _ hy => (AList.lookup_of_lookup_erase hy).2
    · exact flowsFrom_insert rfl fun _ _ hy => hy
  · exact flowsFrom_insert rfl fun _ _ hy => hy

theorem flowsFrom_promote (s : SessionStore) (oldId id : ℕ) (authenticated mfaPending : Bool)
    (username : Text) (now : Clock) (written : Bool) :
    FlowsFrom none s (s.promote oldId id authenticated mfaPending username now written) := by
  refine FlowsFrom.persist ?_ now written
  exact flowsFrom_insert rfl fun _ _ hy => (AList.lookup_of_lookup_erase hy).2

theorem flowsFrom_setOauth (s : SessionStore) (id : ℕ) (flow : Option Flow) (now : Clock)
    (written : Bool) : FlowsFrom flow s (s.setOauth id flow now written) := by
  rw [setOauth]
  split
  next x hx =>
    refine (flowsFrom_of_inner fun id' y flow' hy hflow => ?_).persist now written
    obtain ⟨rfl, rfl⟩ | ⟨_, hold⟩ := AList.lookup_of_lookup_insert hy
    · exact .inr hflow
    · exact .inl ⟨y, hold, hflow⟩
  · exact ⟨fun _ _ h => .inl h, fun _ _ h => .inl h⟩

/-- The session whose flow is cleared has none. -/
theorem not_hasFlow_setOauth (s : SessionStore) (id : ℕ) (now : Clock) (written : Bool)
    (flow : Flow) : ¬ (s.setOauth id none now written).HasFlow id flow := by
  rintro ⟨y, hy, hflow⟩
  rw [setOauth] at hy
  split at hy
  · rw [inner_persist, AList.lookup_insert, Option.some.injEq] at hy
    subst hy
    cases hflow
  next hnone => cases hnone.symm.trans hy

/-- A restart finds the flows of the files. -/
theorem fileFlow_of_load {path : Text} {ttl id : ℕ} {written : Bool} {flow : Flow}
    (h : (load path ttl s.disk now written).HasFlow id flow) : s.FileFlow id flow := by
  obtain ⟨x, hx, hflow⟩ := h
  obtain ⟨d, hd, hload⟩ := lookup_load hx
  have hoauth := congrArg DiskSession.oauth (DiskSession.toDisk_load hload)
  exact ⟨path, d, hd, hoauth.symm.trans hflow⟩

/-- The file that is loaded is written again, with the flows that have been loaded. -/
theorem fileFlow_load {path : Text} {ttl id : ℕ} {written : Bool} {flow : Flow}
    (h : (load path ttl s.disk now written).FileFlow id flow) : s.FileFlow id flow := by
  let loaded : SessionStore :=
    ⟨(s.disk path).filterMap fun _ d => d.load ttl now, ttl, some path, s.disk⟩
  have hflows : FlowsFrom none loaded (loaded.persist now written) :=
    (FlowsFrom.refl loaded).persist now written
  obtain hfile | hmemory | hnone := hflows.file id flow h
  · exact hfile
  · obtain ⟨x, hx, hflow⟩ := hmemory
    have hloaded : (load path ttl s.disk now written).HasFlow id flow :=
      ⟨x, by rw [load_inner]; exact hx, hflow⟩
    exact fileFlow_of_load hloaded
  · cases hnone

end SessionStore

end Webshell

namespace Webshell.Login

open Transition History
open Text (Lowercase)
open SessionStore (FlowsFrom)

section
variable [Lowercase]

/-! ## Callbacks -/

/-- The session and the state of the flow that a callback has passed the check with and is about to
clear. -/
def Pc.clears : Pc → Option (ℕ × ℕ)
  | .clearOauth id flow _ => some (id, flow.state)
  | _ => none

/-- The session and the state that a step passes the check with. -/
def passesState (e : Server × Act) : Option (ℕ × ℕ) :=
  match e.2 with
  | .step r written =>
    match e.1.runs r with
    | .arrived req =>
      (req.handle e.1.config (e.1.currentSession (req.looksUp e.1.config) written).1).clears
    | _ => none
  | _ => none

/-- A callback with a code presents a cookie and a state. -/
inductive Presents (id state : ℕ) : Server × Act → Prop
  | mk {s r written query} :
      s.runs r = .arrived (.oauthCallback query) → query.cookie = some id →
      query.state = some state → query.error.isSome = false → query.code.isSome = true →
      Presents id state (s, .step r written)

/-- Whoever looks the session up finds a flow with the state. -/
def Server.Offers (s : Server) (id state : ℕ) : Prop :=
  ∃ x flow, (s.sessions.get id s.clock true).1 = some x ∧ x.oauth = some flow ∧ flow.state = state

/-- Once a callback has passed the check with a flow, nobody passes it with this flow again in the
same process, and a callback that presents the same cookie and state does not find the flow. -/
def UsedOnce : Past → Prop :=
  Each fun before e => ∀ id state pre q mid, before = pre ++ q :: mid →
    (∀ k ∈ mid, k.2.isRestart = false) → passesState q = some (id, state) →
    passesState e ≠ some (id, state) ∧ (Presents id state e → ¬ e.1.Offers id state)

/-- No callback finds a flow that another callback has passed the check with and has not cleared. -/
def LooksAfterClear (s : Server) (a : Act) : Prop :=
  ∀ id state, Presents id state (s, a) → s.Offers id state →
    ∀ r, (s.runs r).clears ≠ some (id, state)

/-! ## What a step does to the flows -/

/-- The flow that a handler's step starts. -/
def Server.startedBy (s : Server) : Pc → Option Oidc.Flow
  | .startOauth _ => some (.new s.nextToken)
  | _ => none

/-- The flow that a step starts. -/
def startedFlow (s : Server) : Act → Option Oidc.Flow
  | .step r _ => s.startedBy (s.runs r)
  | _ => none

section
variable {crypto : Crypto} {past : Past} {s s' : Server} {a : Act} {r id state : ℕ}

theorem offers_hasFlow (h : s.Offers id state) :
    ∃ flow, s.sessions.HasFlow id flow ∧ flow.state = state := by
  obtain ⟨x, flow, hx, hflow, hstate⟩ := h
  exact ⟨flow, ⟨x, (SessionStore.lookup_of_get hx).1, hflow⟩, hstate⟩

theorem flowsFrom_currentSession (s : Server) (cookie : Option ℕ) (written : Bool) :
    FlowsFrom none s.sessions (s.currentSession cookie written).2 := by
  cases cookie with
  | none => exact .refl _
  | some id => exact SessionStore.flowsFrom_get ..

theorem flows_of_advance {written : Bool} (hs : s.advance crypto r written = some s') :
    FlowsFrom (s.startedBy (s.runs r)) s.sessions s'.sessions := by
  rw [(stores_of_advance hs).sessions]
  cases s.runs r with
  | arrived | render | ensureSession | logout => exact flowsFrom_currentSession ..
  | createSession => exact SessionStore.flowsFrom_create ..
  | startOauth | clearOauth => exact SessionStore.flowsFrom_setOauth ..
  | removeSession | lockedOut => exact SessionStore.flowsFrom_remove ..
  | login | beginMfa | mfaLogin => exact SessionStore.flowsFrom_promote ..
  | _ => exact .refl _

theorem flows_of_step (hs : loginStep crypto s a = some s') (ha : a.isRestart = false) :
    FlowsFrom (startedFlow s a) s.sessions s'.sessions := by
  by_cases hstep : ∃ r written, a = .step r written
  · obtain ⟨r, written, rfl⟩ := hstep
    exact flows_of_advance hs
  · have hnot : ∀ r written, a ≠ .step r written := fun r written heq => hstep ⟨r, written, heq⟩
    have hnone : startedFlow s a = none := by
      cases a with
      | step r written => exact absurd rfl (hnot r written)
      | _ => rfl
    rw [hnone]
    obtain ⟨-, -, hsame | ⟨written, -, hswept⟩⟩ := stores_of_step hs ha hnot
    · rw [hsame]
      exact .refl _
    · rw [hswept]
      exact SessionStore.flowsFrom_sweep ..

/-- Tokens are drawn in order. -/
theorem nextToken_of_step (h : Inv crypto past s) (hs : loginStep crypto s a = some s') :
    s.nextToken ≤ s'.nextToken := by
  obtain ⟨r, hok⟩ | henv | ⟨_, _, _, _, _, _, rfl⟩ := loginStep_cases h hs
  · exact hok.nextToken
  · exact (henv.frame 0).nextToken
  · exact le_rfl

/-- A flow that starts takes three of them. -/
theorem lt_nextToken_of_started {flow : Oidc.Flow} (hs : loginStep crypto s a = some s')
    (hflow : startedFlow s a = some flow) :
    flow.state = s.nextToken ∧ s.nextToken < s'.nextToken := by
  cases a with
  | step r written =>
    cases hpc : s.runs r with
    | startOauth id =>
      simp only [startedFlow, hpc, Server.startedBy, Option.some.injEq] at hflow
      simp only [loginStep, Server.advance, hpc, Option.some.injEq] at hs
      subst hflow hs
      exact ⟨rfl, Nat.lt_add_of_pos_right three_pos⟩
    | _ =>
      simp only [startedFlow, hpc, Server.startedBy] at hflow
      cases hflow
  | _ => cases hflow

/-- Every flow has been started. -/
structure Started (s : Server) : Prop where
  memory : ∀ id flow, s.sessions.HasFlow id flow → flow.state < s.nextToken
  file : ∀ id flow, s.sessions.FileFlow id flow → flow.state < s.nextToken

theorem Started.step (h : Started s) (hinv : Inv crypto past s)
    (hs : loginStep crypto s a = some s') (ha : a.isRestart = false) : Started s' := by
  have hnext := nextToken_of_step hinv hs
  have hflows := flows_of_step hs ha
  have hfresh : ∀ flow, startedFlow s a = some flow → flow.state < s'.nextToken := by
    intro flow hflow
    obtain ⟨heq, hlt⟩ := lt_nextToken_of_started hs hflow
    rwa [heq]
  refine ⟨fun id flow hflow => ?_, fun id flow hflow => ?_⟩
  · obtain hold | hnew := hflows.memory id flow hflow
    · exact (h.memory id flow hold).trans_le hnext
    · exact hfresh flow hnew
  · obtain hold | hold | hnew := hflows.file id flow hflow
    · exact (h.file id flow hold).trans_le hnext
    · exact (h.memory id flow hold).trans_le hnext
    · exact hfresh flow hnew

theorem started_start {config : Config} {enrollment : EnrollmentStore} {devices : DeviceStore}
    {clock : Clock} {written : Bool} {store : SessionStore} {n : ℕ} {runs : ℕ → Pc}
    (h : ∀ id flow, store.FileFlow id flow → flow.state < n) :
    Started (.start config enrollment devices clock written store.disk n runs) := by
  refine ⟨fun id flow hflow => ?_, fun id flow hflow => ?_⟩
  · simp only [Server.start] at hflow
    split at hflow
    · exact h id flow (SessionStore.fileFlow_of_load hflow)
    · obtain ⟨x, hx, _⟩ := hflow
      rw [SessionStore.new, AList.lookup_empty] at hx
      cases hx
  · simp only [Server.start] at hflow
    split at hflow
    · exact h id flow (SessionStore.fileFlow_load hflow)
    · exact h id flow hflow

theorem started_of_trace (h : (loginSystem crypto).Trace past s) : Started s := by
  induction h with
  | init hinit =>
    obtain ⟨config, enrollment, devices, clock, written, rfl⟩ := hinit
    have hnone : ∀ id flow, ¬ (SessionStore.new 0 fun _ => ∅).FileFlow id flow := by
      rintro id flow ⟨path, d, hd, _⟩
      rw [SessionStore.new, AList.lookup_empty] at hd
      cases hd
    exact started_start fun id flow hflow => absurd hflow (hnone id flow)
  | @step past s s' a htrace hs ih =>
    cases ha : a.isRestart with
    | true =>
      cases a with
      | restart =>
        obtain rfl := Option.some.inj hs
        exact started_start ih.file
      | _ => cases ha
    | false => exact ih.step (inv_of_trace htrace) hs ha

/-! ## Between the check and the clear -/

/-- A callback that passes the check presents its cookie and state, and finds the flow. -/
theorem presents_of_passesState (h : passesState (s, a) = some (id, state)) :
    Presents id state (s, a) ∧ s.Offers id state := by
  simp only [passesState] at h
  split at h
  next r written =>
    split at h
    next req hpc =>
      cases req with
      | oauthCallback query =>
        simp only [Request.handle, oauthCallback] at h
        split at h
        · cases h
        next husable =>
          split at h
          · cases h
          next id' session hcurrent =>
            split at h
            · cases h
            next herror =>
              split at h
              next flow code returned hflow hcode hstate =>
                split at h
                · cases h
                next hmatch =>
                  obtain ⟨rfl, rfl⟩ := Prod.mk.inj (Option.some.inj h)
                  rw [not_not] at hmatch
                  have husable : s.config.googleUsable = true := by simpa using husable
                  simp only [Request.looksUp, husable, if_true] at hcurrent
                  cases hcookie : query.cookie with
                  | none =>
                    rw [hcookie] at hcurrent
                    cases hcurrent
                  | some id'' =>
                    rw [hcookie] at hcurrent
                    obtain ⟨x, hx, hpair⟩ := Option.map_eq_some_iff.mp hcurrent
                    obtain ⟨rfl, rfl⟩ := Prod.mk.inj hpair
                    refine ⟨.mk hpc hcookie (hmatch ▸ hstate) (by simpa using herror)
                      (by rw [hcode]; rfl), x, flow, ?_, hflow, rfl⟩
                    have hlookup := SessionStore.lookup_of_get hx
                    rw [SessionStore.get, hlookup.1]
                    simp only [hlookup.2, Bool.false_eq_true, if_false]
              · cases h
      | loginPage cookie =>
        simp only [Request.handle, loginPage] at h
        repeat' split at h
        all_goals cases h
      | localLogin form =>
        simp only [Request.handle, localLogin] at h
        repeat' split at h
        all_goals cases h
      | oauthStart form =>
        simp only [Request.handle, oauthStart] at h
        repeat' split at h
        all_goals cases h
      | mfaSubmit form =>
        simp only [Request.handle, mfaSubmit] at h
        repeat' split at h
        all_goals cases h
      | mfaCancel form =>
        simp only [Request.handle, mfaCancel] at h
        repeat' split at h
        all_goals cases h
      | logout form | privatePage cookie =>
        simp only [Request.handle, requireAuth] at h
        split at h <;> cases h
    · cases h
  · cases h

/-- A handler that has passed the check is about to clear the flow. -/
theorem clears_of_passesState (hs : loginStep crypto s a = some s')
    (h : passesState (s, a) = some (id, state)) :
    ∃ r, (s'.runs r).clears = some (id, state) := by
  simp only [passesState] at h
  split at h
  next r written =>
    split at h
    next req hpc =>
      simp only [loginStep, Server.advance, hpc, Option.some.injEq] at hs
      refine ⟨r, ?_⟩
      rw [← hs, Server.lookUp, goto_runs_self]
      exact h
    · cases h
  · cases h

/-- The handler that a step is about. -/
def Act.actor : Act → Option ℕ
  | .arrive r _ | .step r _ | .answer r _ | .abandon r => some r
  | _ => none

/-- Nobody moves a handler but its own steps. -/
theorem runs_of_step (h : Inv crypto past s) (hs : loginStep crypto s a = some s')
    (ha : a.isRestart = false) (hr : a.actor ≠ some r) : s'.runs r = s.runs r := by
  have hne : ∀ r', a.actor = some r' → r ≠ r' := fun r' hr' heq => hr (heq ▸ hr')
  cases a with
  | restart => cases ha
  | step r' written => exact ((advance_ok h hs).others r (hne r' rfl)).runs
  | arrive r' req | abandon r' =>
    simp only [Login.loginStep] at hs
    split at hs <;> cases hs
    exact Function.update_of_ne (hne r' rfl) ..
  | answer r' claims =>
    simp only [Login.loginStep] at hs
    split at hs <;> cases hs
    rw [Server.exchanged]
    repeat' split
    all_goals exact Function.update_of_ne (hne r' rfl) ..
  | tick clock =>
    simp only [Login.loginStep] at hs
    split at hs <;> cases hs
    rfl
  | sweep | sweepDevices | revokeDevice =>
    obtain rfl := Option.some.inj hs
    rfl

/-- A handler that has never been named is idle. -/
theorem idle_of_trace (h : (loginSystem crypto).Trace past s)
    (hr : ∀ e ∈ past, e.2.actor ≠ some r) : s.runs r = .idle := by
  induction h with
  | init hinit =>
    obtain ⟨config, enrollment, devices, clock, written, rfl⟩ := hinit
    rfl
  | @step past s s' a htrace hs ih =>
    have hidle := ih fun e he => hr e (List.mem_append_left _ he)
    cases ha : a.isRestart with
    | true =>
      cases a with
      | restart =>
        obtain rfl := Option.some.inj hs
        show (s.runs r).killed = .idle
        rw [hidle]
        rfl
      | _ => cases ha
    | false =>
      rw [runs_of_step (inv_of_trace htrace) hs ha]
      · exact hidle
      · exact hr (s, a) (List.mem_append_right _ (List.mem_singleton_self _))

/-- A handler that is about to clear a flow stays where it is, or clears it. -/
theorem clears_of_step (h : Inv crypto past s) (hs : loginStep crypto s a = some s')
    (ha : a.isRestart = false) (hr : (s.runs r).clears = some (id, state)) :
    (s'.runs r).clears = some (id, state) ∨ ∀ flow, ¬ s'.sessions.HasFlow id flow := by
  obtain ⟨flow, device, hpc, rfl⟩ :
      ∃ flow device, s.runs r = .clearOauth id flow device ∧ flow.state = state := by
    cases hpc : s.runs r <;> rw [hpc] at hr <;> cases hr
    exact ⟨_, _, rfl, rfl⟩
  by_cases hactor : a.actor = some r
  · right
    intro flow'
    cases a with
    | step r' written =>
      obtain rfl : r' = r := Option.some.inj hactor
      simp only [loginStep, Server.advance, hpc] at hs
      split at hs <;> cases hs
      · exact SessionStore.not_hasFlow_setOauth s.sessions id s.clock written flow'
      · exact SessionStore.not_hasFlow_setOauth s.sessions id s.clock written flow'
    | arrive r' req | answer r' claims | abandon r' =>
      -- these are for a handler that stands elsewhere
      obtain rfl : r' = r := Option.some.inj hactor
      simp only [Login.loginStep, hpc, Pc.awaits] at hs
      cases hs
    | _ => cases hactor
  · left
    rw [runs_of_step h hs ha hactor]
    exact hr

variable (s id state) in
/-- What has become of a flow that a callback has passed the check with: it has been started, and
the callback is about to clear it, or it is gone. -/
structure Passed : Prop where
  started : state < s.nextToken
  gone : (∃ r, (s.runs r).clears = some (id, state)) ∨
    ∀ flow, s.sessions.HasFlow id flow → flow.state ≠ state

theorem Passed.step (h : Passed s id state) (hinv : Inv crypto past s)
    (hs : loginStep crypto s a = some s') (ha : a.isRestart = false) : Passed s' id state := by
  refine ⟨h.started.trans_le (nextToken_of_step hinv hs), ?_⟩
  obtain ⟨r, hr⟩ | hgone := h.gone
  · obtain hstill | hnone := clears_of_step hinv hs ha hr
    · exact .inl ⟨r, hstill⟩
    · exact .inr fun flow hflow => absurd hflow (hnone flow)
  · refine .inr fun flow hflow => ?_
    obtain hold | hnew := (flows_of_step hs ha).memory id flow hflow
    · exact hgone flow hold
    · -- a flow that starts has a token that has not been drawn before
      rw [(lt_nextToken_of_started hs hnew).1]
      exact h.started.ne'

theorem passed_of_passesState (htrace : (loginSystem crypto).Trace past s)
    (hs : loginStep crypto s a = some s') (h : passesState (s, a) = some (id, state)) :
    Passed s' id state := by
  obtain ⟨flow, hflow, rfl⟩ := offers_hasFlow (presents_of_passesState h).2
  refine ⟨?_, .inl (clears_of_passesState hs h)⟩
  have hlt := (started_of_trace htrace).memory id flow hflow
  exact hlt.trans_le (nextToken_of_step (inv_of_trace htrace) hs)

variable (crypto) in
/-- In every run in which no callback finds a flow that another is about to clear, a flow is used
at most once in a process. -/
theorem flow_used_once (h : (loginSystem crypto).Trace past s)
    (hok : ∀ e ∈ past, LooksAfterClear e.1 e.2) : UsedOnce past := by
  rintro before ⟨t, a⟩ after rfl id state pre q mid rfl hmid hpass
  have hpassed : Passed t id state := by
    refine h.before.after (I := fun mid s => (∀ k ∈ mid, k.2.isRestart = false) →
      Passed s id state) (fun s' htrace hs _ => passed_of_passesState htrace hs hpass)
      (fun mid s a s' htrace ih hs hall => ?_) hmid
    refine (ih fun k hk => hall k (List.mem_append_left _ hk)).step (inv_of_trace htrace) hs ?_
    exact hall (s, a) (List.mem_append_right _ (List.mem_singleton_self _))
  have hgone : Presents id state (t, a) → ¬ t.Offers id state := by
    intro hpresents hoffers
    obtain ⟨r, hr⟩ | hgone := hpassed.gone
    · exact hok (t, a) (by simp) id state hpresents hoffers r hr
    · obtain ⟨flow, hflow, hstate⟩ := offers_hasFlow hoffers
      exact hgone flow hflow hstate
  refine ⟨fun hagain => ?_, hgone⟩
  obtain ⟨hpresents, hoffers⟩ := presents_of_passesState hagain
  exact hgone hpresents hoffers

end

end

/-! ## Two callbacks with one flow -/

namespace Sample

open Text.Ascii

def googleConfig : Config :=
  { config alice with
    loginMethods := [.google]
    googleClientId := some "client".toList
    googleClientSecret := some "secret".toList
    publicBaseUrl := some "https://shell.example".toList }

def googleStarted : Server :=
  .start googleConfig ∅ ∅ clock true (fun _ => ∅) 0 fun _ => .idle

def callback : CallbackQuery := ⟨some 0, none, some "code".toList, some 2, none⟩

/-- The session with the id 0 starts a flow with the state 2, and two callbacks present both. -/
def googleRun : List Act :=
  [.arrive 0 (.loginPage none), .step 0 true, .step 0 true, .step 0 true, .step 0 true,
    .arrive 1 (.oauthStart ⟨some 0, 1⟩), .step 1 true, .step 1 true,
    .arrive 2 (.oauthCallback callback), .arrive 3 (.oauthCallback callback)]

/-- The second callback looks its session up after the first has cleared the flow. -/
def orderlyRun : List Act := googleRun ++ [.step 2 true, .step 2 true, .step 3 true]

/-- Both callbacks look their session up before either has cleared the flow. -/
def overlappingRun : List Act :=
  googleRun ++ [.step 2 true, .step 3 true, .step 2 true, .step 3 true]

/-- A handler has found no one about to clear a flow, among those that there are. -/
def looksAfterClear (e : Server × Act) : Bool :=
  match e.2 with
  | .step r _ =>
    match e.1.runs r with
    | .arrived (.oauthCallback _) => (List.range 4).all fun r' => (e.1.runs r').clears.isNone
    | _ => true
  | _ => true

example :
    ((loginSystem crypto).steps googleStarted overlappingRun).all looksAfterClear = false := by
  decide

theorem orderlyRun_trace : ∃ s,
    (loginSystem crypto).Trace ((loginSystem crypto).steps googleStarted orderlyRun) s := by
  have hinit : (loginSystem crypto).init googleStarted := ⟨_, _, _, _, _, rfl⟩
  have hruns : ((loginSystem crypto).run googleStarted orderlyRun).isSome = true := by decide
  obtain ⟨s, hs⟩ := Option.isSome_iff_exists.mp hruns
  exact ⟨s, (System.Trace.init hinit).run_steps hs⟩

theorem orderlyRun_looks :
    ∀ e ∈ (loginSystem crypto).steps googleStarted orderlyRun, LooksAfterClear e.1 e.2 := by
  intro e he id state hpresents _ r'
  obtain ⟨t, htrace⟩ := orderlyRun_trace
  obtain ⟨before, after, heq⟩ := List.append_of_mem he
  have hall :
      (((loginSystem crypto).steps googleStarted orderlyRun).all looksAfterClear) = true := by
    decide
  have hlook := List.all_eq_true.mp hall e he
  have hactors : (orderlyRun.all fun a => a.actor.all (· < 4)) = true := by decide
  rw [heq] at htrace
  obtain ⟨s, a⟩ := e
  cases hpresents with
  | @mk _ r written query hpc =>
    have hlook : ((List.range 4).all fun r' => (s.runs r').clears.isNone) = true := by
      simp only [looksAfterClear] at hlook
      rw [hpc] at hlook
      exact hlook
    simp only [List.all_eq_true, List.mem_range, Option.isNone_iff_eq_none] at hlook
    by_cases hr' : r' < 4
    · rw [hlook r' hr']
      simp
    · have hidle : s.runs r' = .idle := by
        refine idle_of_trace htrace.before fun q hq hactor => hr' ?_
        have hmem : q ∈ (loginSystem crypto).steps googleStarted orderlyRun := by
          rw [heq]
          exact List.mem_append_left _ hq
        have hlt := List.all_eq_true.mp hactors q.2 (System.mem_of_mem_steps hmem)
        rw [hactor] at hlt
        exact of_decide_eq_true hlt
      rw [hidle]
      simp [Pc.clears]

/-- A handler waits for Google's answer to a code. -/
def exchanging : Pc → Bool
  | .exchange .. => true
  | _ => false

/-- Two callbacks pass the check with one flow, and both exchange their code. -/
def exchangesTwice : Bool :=
  ((loginSystem crypto).run googleStarted googleRun).any fun s =>
    passesState (s, .step 2 true) == some (0, 2) &&
      ((loginSystem crypto).step s (.step 2 true)).any fun s' =>
        passesState (s', .step 3 true) == some (0, 2) &&
          ((loginSystem crypto).step s' (.step 3 true)).any fun t =>
            ((loginSystem crypto).run t [.step 2 true, .step 3 true]).any fun t' =>
              exchanging (t'.runs 2) && exchanging (t'.runs 3)

end Sample

open Sample Text.Ascii

theorem flow_used_once_orderlyRun :
    ∃ past s, (loginSystem crypto).Trace past s ∧ (∃ e ∈ past, passesState e = some (0, 2)) ∧
      UsedOnce past := by
  obtain ⟨s, htrace⟩ := orderlyRun_trace
  have hany : ((loginSystem crypto).steps googleStarted orderlyRun).any (fun e =>
      passesState e == some (0, 2)) = true := by decide
  obtain ⟨e, he, hpass⟩ := List.any_eq_true.mp hany
  exact ⟨_, s, htrace, ⟨e, he, eq_of_beq hpass⟩, flow_used_once crypto htrace orderlyRun_looks⟩

theorem flow_used_twice :
    ∃ past s, (loginSystem crypto).Trace past s ∧ exchanging (s.runs 2) = true ∧
      exchanging (s.runs 3) = true ∧ ¬ UsedOnce past := by
  have htwice : exchangesTwice = true := by decide
  obtain ⟨s, hs, hrest⟩ := (Option.any_eq_true ..).mp htwice
  obtain ⟨hfirst, hrest⟩ := Bool.and_eq_true_iff.mp hrest
  obtain ⟨s', hs', hrest⟩ := (Option.any_eq_true ..).mp hrest
  obtain ⟨hsecond, hrest⟩ := Bool.and_eq_true_iff.mp hrest
  obtain ⟨t, ht, hrest⟩ := (Option.any_eq_true ..).mp hrest
  obtain ⟨t', ht', hrest⟩ := (Option.any_eq_true ..).mp hrest
  obtain ⟨htwo, hthree⟩ := Bool.and_eq_true_iff.mp hrest
  have hinit : (loginSystem crypto).init googleStarted := ⟨_, _, _, _, _, rfl⟩
  have htrace := ((((System.Trace.init hinit).run_steps hs).step hs').step ht).run_steps ht'
  refine ⟨_, t', htrace, htwo, hthree, fun hused => ?_⟩
  have hsplit := hused (_ ++ [(s, .step 2 true)]) (s', .step 3 true)
    ((loginSystem crypto).steps t [.step 2 true, .step 3 true]) (List.append_assoc _ _ _)
  exact (hsplit 0 2 _ (s, .step 2 true) [] rfl (List.forall_mem_nil _) (eq_of_beq hfirst)).1
    (eq_of_beq hsecond)

end Webshell.Login
