import Webshell.Lib.Transition

/-!
# A slot's terminal in the page

The page's side of an attachment. Frames of all slots arrive on one socket and are dealt out; a
hello waits for the terminal to parse what it was given before, resets it, writes the modes and
releases what has arrived in the meantime. The terminal parses what is written in order, and the
callback of a write runs some time after it was parsed. What the reset does to the mouse state is
left to `Browser.Mouse`.

## Main definitions

- `Xterm`: what is still to be parsed, what has been parsed since the last reset, and callbacks
- `Session`: `sendOpen`, `onHello`, `onOutput`, `redraw`, `flushSnapshot`
- `pageSystem`: the sessions of a page, with the messages they get and the callbacks they run
- `attachment`: the last hello and the data frames that belong to it

## Main results

- `Stage.step`: how far a terminal is with its last hello
- `renders_attachment`: a terminal that has parsed everything shows the last attachment
- `open_drops_data`: data frames that arrive after an open are not shown
-/

namespace Webshell.Browser

open Transition

/-! ## The terminal -/

/-- What a write is for: a barrier that writes nothing, the modes of a hello, a data frame, or the
screen of a redraw. -/
inductive Source
  | mark
  | init
  | data
  | screen
deriving DecidableEq

inductive Callback
  | barrier (gen : ℕ) (init : List UInt8)
  | ready (gen : ℕ)
  | clear (gen : ℕ)
  | paint
deriving DecidableEq

structure Write where
  source : Source
  bytes : List UInt8
  callback : Option Callback

/-- What is parsed of a write. -/
def Write.item (w : Write) : Source × List UInt8 := (w.source, w.bytes)

/-- `shown` is what has been parsed since the last reset, `due` the callbacks that are to run. -/
structure Xterm where
  cols : ℕ
  rows : ℕ
  queue : List Write
  shown : List (Source × List UInt8)
  due : List Callback

namespace Xterm

def write (t : Xterm) (source : Source) (bytes : List UInt8) (callback : Option Callback) :
    Xterm :=
  { t with queue := t.queue ++ [⟨source, bytes, callback⟩] }

def reset (t : Xterm) : Xterm := { t with shown := [] }

/-- The next write is parsed. -/
def parse (t : Xterm) : Option Xterm :=
  match t.queue with
  | [] => none
  | w :: queue =>
    some { t with
      queue := queue
      shown := t.shown ++ [w.item]
      due := t.due ++ w.callback.toList }

/-- Chunks in order, with a callback behind the last one. -/
def writeAll (t : Xterm) (callback : Callback) : List (List UInt8) → Xterm
  | [] => t
  | [chunk] => t.write .data chunk (some callback)
  | chunk :: chunks => (t.write .data chunk none).writeAll callback chunks

end Xterm

/-! ## The session -/

structure Session where
  /-- An open was sent; data frames are dropped until the hello. -/
  awaitingHello : Bool
  expectFirst : Bool
  snapshotBuffer : Option (List (List UInt8))
  snapshotBarrierReady : Bool
  renderGeneration : ℕ
  suppressReports : Bool
  /-- The fallbacks that are set, each with its generation. -/
  timers : List ℕ
  term : Xterm

namespace Session

/-- A new session; the size is what fits its pane. -/
def new (cols rows : ℕ) : Session where
  awaitingHello := false
  expectFirst := false
  snapshotBuffer := none
  snapshotBarrierReady := false
  renderGeneration := 0
  suppressReports := false
  timers := []
  term := ⟨cols, rows, [], [], []⟩

def sendOpen (s : Session) : Session := { s with awaitingHello := true }

def onHello (s : Session) (init : List UInt8) : Session :=
  let gen := s.renderGeneration + 1
  { s with
    awaitingHello := false
    expectFirst := true
    snapshotBuffer := some []
    snapshotBarrierReady := false
    renderGeneration := gen
    suppressReports := true
    term := s.term.write .mark [] (some (.barrier gen init)) }

def flushSnapshot (s : Session) (gen : ℕ) : Session :=
  if gen ≠ s.renderGeneration ∨ s.snapshotBarrierReady = false ∨ s.expectFirst = true then s
  else
    match s.snapshotBuffer with
    | none => s
    | some chunks =>
      { s with
        snapshotBuffer := none
        timers := s.timers ++ [gen]
        term := if chunks = [] then s.term.write .mark [] (some (.clear gen))
          else s.term.writeAll (.clear gen) chunks }

def onOutput (s : Session) (data : List UInt8) : Session :=
  if s.awaitingHello then s
  else
    match s.snapshotBuffer with
    | some chunks =>
      { s with snapshotBuffer := some (chunks ++ [data]), expectFirst := false }.flushSnapshot
        s.renderGeneration
    | none => { s with term := s.term.write .data data none }

/-- A redraw without a screen only repaints. -/
def redraw (s : Session) (cols rows : ℕ) (screen : Option (List UInt8)) : Session :=
  if s.awaitingHello = true ∨ s.snapshotBuffer ≠ none ∨ cols ≠ s.term.cols ∨ rows ≠ s.term.rows
  then s
  else
    match screen with
    | some bytes => { s with term := s.term.write .screen bytes (some .paint) }
    | none => s

def ready (s : Session) (gen : ℕ) : Session :=
  if gen ≠ s.renderGeneration then s
  else { s with snapshotBarrierReady := true }.flushSnapshot gen

def call (s : Session) : Callback → Session
  | .barrier gen init =>
    if gen ≠ s.renderGeneration then s
    else
      let s := { s with term := s.term.reset }
      if init ≠ [] then { s with term := s.term.write .init init (some (.ready gen)) }
      else s.ready gen
  | .ready gen => s.ready gen
  | .clear gen => if gen = s.renderGeneration then { s with suppressReports := false } else s
  | .paint => s

end Session

/-! ## The page -/

/-- A message of the socket. A closed frame leaves the terminal as it is. -/
inductive Message
  | hello (term : ℕ) (init : List UInt8)
  | closed (term : ℕ)
  | redraw (term cols rows : ℕ) (screen : Option (List UInt8))
  | binary (bytes : List UInt8)

/-- The sessions, by slot. -/
abbrev Page := ℕ → Option Session

namespace Page

/-- A session that is there is changed. -/
def modify (p : Page) (term : ℕ) (f : Session → Session) : Page :=
  Function.update p term ((p term).map f)

/-- `sock.onmessage` -/
def onMessage (p : Page) : Message → Page
  | .hello term init => p.modify term (·.onHello init)
  | .closed _ => p
  | .redraw term cols rows screen => p.modify term (·.redraw cols rows screen)
  | .binary [] => p
  | .binary (b :: data) => p.modify b.toNat (·.onOutput data)

end Page

inductive Act
  | message (m : Message)
  | sendOpen (term : ℕ)
  | parse (term : ℕ)
  /-- One of the callbacks that are due, in any order. -/
  | callback (term : ℕ) (cb : Callback)
  | timeout (term i : ℕ)
  | resize (term cols rows : ℕ)

/-- A step that one session takes. -/
def Page.stepSession (p : Page) (term : ℕ) (f : Session → Option Session) : Option Page := do
  let s ← p term
  let s ← f s
  some (Function.update p term (some s))

def pageStep (p : Page) : Act → Option Page
  | .message m => some (p.onMessage m)
  | .sendOpen term => some (p.modify term Session.sendOpen)
  | .parse term => p.stepSession term fun s => s.term.parse.map fun t => { s with term := t }
  | .callback term cb => p.stepSession term fun s =>
    if cb ∈ s.term.due then
      some ({ s with term := { s.term with due := s.term.due.erase cb } }.call cb)
    else none
  | .timeout term i => p.stepSession term fun s =>
    s.timers[i]?.map fun gen =>
      { s with
        timers := s.timers.eraseIdx i
        suppressReports := if gen = s.renderGeneration then false else s.suppressReports }
  | .resize term cols rows =>
    some (p.modify term fun s => { s with term := { s.term with cols := cols, rows := rows } })

/-- A page that has just built its sessions. -/
def pageSystem : System Page Act where
  init p := ∀ term s, p term = some s → ∃ cols rows, s = .new cols rows
  step := pageStep

/-! ## What a terminal should show -/

/-- What happens to a slot. -/
inductive Event
  | opened
  | hello (init : List UInt8)
  | data (bytes : List UInt8)

def Act.event (slot : ℕ) : Act → Option Event
  | .sendOpen term => if term = slot then some .opened else none
  | .message (.hello term init) => if term = slot then some (.hello init) else none
  | .message (.binary (b :: data)) => if b.toNat = slot then some (.data data) else none
  | _ => none

/-- The events of a slot in a run. -/
def events (slot : ℕ) (past : List (Page × Act)) : List Event :=
  past.filterMap fun e => e.2.event slot

/-- The modes and the data frames of the last hello, if there was one, and whether a later open
awaits another one. -/
structure Attached where
  latest : Option (List UInt8 × List (List UInt8))
  awaiting : Bool

def Attached.next (v : Attached) : Event → Attached
  | .opened => { v with awaiting := true }
  | .hello init => ⟨some (init, []), false⟩
  | .data bytes =>
    if v.awaiting then v else { v with latest := v.latest.map fun a => (a.1, a.2 ++ [bytes]) }

def attached (events : List Event) : Attached := events.foldl Attached.next ⟨none, false⟩

/-- The last hello and the data frames between it and the next open. -/
def attachment (events : List Event) : Option (List UInt8 × List (List UInt8)) :=
  (attached events).latest

def Event.isOpened : Event → Bool
  | .opened => true
  | _ => false

/-- The last hello and all data frames after it. -/
def attachmentDespiteOpens (events : List Event) : Option (List UInt8 × List (List UInt8)) :=
  attachment (events.filter fun e => !e.isOpened)

/-- The modes, if there are any, are written on their own. -/
def initPart (init : List UInt8) : List (Source × List UInt8) :=
  if init = [] then [] else [(.init, init)]

/-- The modes, then the data frames in order, each once, with screens of redraws behind the first
of them. -/
def Renders (shown : List (Source × List UInt8)) (init : List UInt8)
    (chunks : List (List UInt8)) : Prop :=
  ∃ rest, shown = initPart init ++ rest ∧
    (∀ item ∈ rest, item.1 = .data ∨ item.1 = .screen) ∧
    (rest.filter fun item => item.1 = .data).map Prod.snd = chunks ∧
    ∀ item ∈ rest.head?, item.1 = .data

/-- Everything is parsed and all callbacks have run. -/
def Xterm.Idle (t : Xterm) : Prop := t.queue = [] ∧ t.due = []

theorem renders_initPart (init : List UInt8) : Renders (initPart init) init [] :=
  ⟨[], (List.append_nil _).symm, List.forall_mem_nil _, rfl, fun _ h => by cases h⟩

theorem Renders.append_data {shown : List (Source × List UInt8)} {init : List UInt8}
    {chunks : List (List UInt8)} (h : Renders shown init chunks) (bytes : List UInt8) :
    Renders (shown ++ [(.data, bytes)]) init (chunks ++ [bytes]) := by
  obtain ⟨rest, rfl, hsource, rfl, hhead⟩ := h
  refine ⟨rest ++ [(.data, bytes)], List.append_assoc .., ?_, ?_, ?_⟩
  · intro item hitem
    obtain hold | hnew := List.mem_append.mp hitem
    · exact hsource item hold
    · rw [List.mem_singleton.mp hnew]
      exact .inl rfl
  · rw [List.filter_append, List.map_append]
    rfl
  · cases rest with
    | nil =>
      intro item hitem
      obtain rfl := Option.some.inj hitem
      rfl
    | cons first rest => exact hhead

theorem Renders.append_screen {shown : List (Source × List UInt8)} {init : List UInt8}
    {chunks : List (List UInt8)} (h : Renders shown init chunks) (hchunks : chunks ≠ [])
    (bytes : List UInt8) : Renders (shown ++ [(.screen, bytes)]) init chunks := by
  obtain ⟨rest, rfl, hsource, rfl, hhead⟩ := h
  refine ⟨rest ++ [(.screen, bytes)], List.append_assoc .., ?_, ?_, ?_⟩
  · intro item hitem
    obtain hold | hnew := List.mem_append.mp hitem
    · exact hsource item hold
    · rw [List.mem_singleton.mp hnew]
      exact .inr rfl
  · rw [List.filter_append, List.map_append]
    exact List.append_nil _
  · cases rest with
    | nil => exact absurd rfl hchunks
    | cons first rest => exact hhead

/-! ## How far a terminal is -/

/-- The callback belongs to a generation before `gen`, or to none. -/
def Callback.Before (gen : ℕ) : Callback → Prop
  | .barrier n _ => n < gen
  | .ready n => n < gen
  | _ => True

/-- No callback that waits can do more than repaint. -/
def Callback.AllBefore (gen : ℕ) (queue : List Write) (due : List Callback) : Prop :=
  (∀ w ∈ queue, ∀ cb ∈ w.callback, cb.Before gen) ∧ ∀ cb ∈ due, cb.Before gen

/-- What has arrived is kept until the terminal has been reset. -/
def Session.Holds (s : Session) (chunks : List (List UInt8)) : Prop :=
  s.snapshotBuffer = some chunks ∧ s.snapshotBarrierReady = false

open Callback in
/-- How far a terminal is with a hello. -/
inductive Stage (s : Session) (init : List UInt8) (chunks : List (List UInt8)) : Prop
  /-- The barrier is the last write. -/
  | draining (before : List Write) :
      s.term.queue = before ++ [⟨.mark, [], some (.barrier s.renderGeneration init)⟩] →
      AllBefore s.renderGeneration before s.term.due → s.Holds chunks → Stage s init chunks
  | drained (others : List Callback) : s.term.queue = [] →
      s.term.due.Perm (.barrier s.renderGeneration init :: others) →
      AllBefore s.renderGeneration [] others → s.Holds chunks → Stage s init chunks
  /-- The terminal was reset, and the modes are the only write. -/
  | priming : s.term.queue = [⟨.init, init, some (.ready s.renderGeneration)⟩] →
      s.term.shown = [] → init ≠ [] → AllBefore s.renderGeneration [] s.term.due →
      s.Holds chunks → Stage s init chunks
  | primed (others : List Callback) : s.term.queue = [] →
      s.term.due.Perm (.ready s.renderGeneration :: others) → s.term.shown = initPart init →
      AllBefore s.renderGeneration [] others → s.Holds chunks → Stage s init chunks
  /-- The snapshot has not arrived. -/
  | ready : s.term.queue = [] → s.term.shown = initPart init →
      AllBefore s.renderGeneration [] s.term.due → s.snapshotBuffer = some [] →
      s.snapshotBarrierReady = true → chunks = [] → Stage s init chunks
  | released : AllBefore s.renderGeneration s.term.queue s.term.due → s.snapshotBuffer = none →
      chunks ≠ [] →
      Renders (s.term.shown ++ s.term.queue.map Write.item) init chunks →
      Stage s init chunks

/-- A session with what happened to it. -/
structure SessionInv (v : Attached) (s : Session) : Prop where
  awaiting : s.awaitingHello = v.awaiting
  /-- No callback is of a generation to come. -/
  past : Callback.AllBefore (s.renderGeneration + 1) s.term.queue s.term.due
  first : ∀ init chunks, v.latest = some (init, chunks) → s.expectFirst = chunks.isEmpty
  stage : ∀ init chunks, v.latest = some (init, chunks) → Stage s init chunks

section
variable {s s' : Session} {init : List UInt8} {chunks : List (List UInt8)} {v : Attached}

namespace Callback

variable {gen gen' : ℕ} {queue queue' : List Write} {due due' : List Callback}

theorem Before.mono {cb : Callback} (h : cb.Before gen) (hle : gen ≤ gen') : cb.Before gen' := by
  cases cb with
  | barrier n init => exact lt_of_lt_of_le h hle
  | ready n => exact lt_of_lt_of_le h hle
  | clear n => trivial
  | paint => trivial

theorem AllBefore.mono (h : AllBefore gen queue due) (hle : gen ≤ gen') :
    AllBefore gen' queue due :=
  ⟨fun w hw cb hcb => (h.1 w hw cb hcb).mono hle, fun cb hcb => (h.2 cb hcb).mono hle⟩

theorem AllBefore.sublist (h : AllBefore gen queue due) (hqueue : queue' ⊆ queue)
    (hdue : due' ⊆ due) : AllBefore gen queue' due' :=
  ⟨fun w hw => h.1 w (hqueue hw), fun cb hcb => h.2 cb (hdue hcb)⟩

theorem AllBefore.write (h : AllBefore gen queue due) {w : Write}
    (hw : ∀ cb ∈ w.callback, cb.Before gen) : AllBefore gen (queue ++ [w]) due := by
  refine ⟨fun w' hw' => ?_, h.2⟩
  obtain hold | hnew := List.mem_append.mp hw'
  · exact h.1 w' hold
  · rw [List.mem_singleton.mp hnew]
    exact hw

/-- A callback becomes due when its write is parsed. -/
theorem AllBefore.parse {w : Write} (h : AllBefore gen (w :: queue) due) :
    AllBefore gen queue (due ++ w.callback.toList) := by
  refine ⟨fun w' hw' => h.1 w' (List.mem_cons_of_mem w hw'), fun cb hcb => ?_⟩
  obtain hold | hnew := List.mem_append.mp hcb
  · exact h.2 cb hold
  · exact h.1 w List.mem_cons_self cb (Option.mem_toList.mp hnew)

end Callback

/-- What a stage depends on. -/
theorem Stage.congr (h : Stage s init chunks) (hgen : s'.renderGeneration = s.renderGeneration)
    (hqueue : s'.term.queue = s.term.queue) (hshown : s'.term.shown = s.term.shown)
    (hdue : s'.term.due = s.term.due) (hbuffer : s'.snapshotBuffer = s.snapshotBuffer)
    (hready : s'.snapshotBarrierReady = s.snapshotBarrierReady) : Stage s' init chunks := by
  have hholds : s.Holds chunks → s'.Holds chunks :=
    fun hs => ⟨hbuffer.trans hs.1, hready.trans hs.2⟩
  cases h with
  | draining before hq hb hh =>
    exact .draining before (by rw [hqueue, hgen, hq]) (by rwa [hgen, hdue]) (hholds hh)
  | drained others hq hd hb hh =>
    exact .drained others (hqueue.trans hq) (by rwa [hdue, hgen]) (by rwa [hgen]) (hholds hh)
  | priming hq hs hne hb hh =>
    exact .priming (by rw [hqueue, hgen, hq]) (hshown.trans hs) hne (by rwa [hgen, hdue])
      (hholds hh)
  | primed others hq hd hs hb hh =>
    exact .primed others (hqueue.trans hq) (by rwa [hdue, hgen]) (hshown.trans hs)
      (by rwa [hgen]) (hholds hh)
  | ready hq hs hb hbuf hr hc =>
    exact .ready (hqueue.trans hq) (hshown.trans hs) (by rwa [hgen, hdue]) (hbuffer.trans hbuf)
      (hready.trans hr) hc
  | released hb hbuf hc hr =>
    exact .released (by rwa [hgen, hqueue, hdue]) (hbuffer.trans hbuf) hc
      (by rwa [hshown, hqueue])

/-- An idle terminal shows its attachment. -/
theorem Stage.renders (h : Stage s init chunks) (hidle : s.term.Idle) :
    Renders s.term.shown init chunks := by
  cases h with
  | draining before hq =>
    rw [hidle.1] at hq
    exact absurd hq.symm (List.append_ne_nil_of_right_ne_nil before (List.cons_ne_nil _ []))
  | drained others _ hd =>
    rw [hidle.2] at hd
    cases hd.nil_eq
  | priming hq =>
    rw [hidle.1] at hq
    cases hq
  | primed others _ hd =>
    rw [hidle.2] at hd
    cases hd.nil_eq
  | ready _ hs _ _ _ hc =>
    rw [hs, hc]
    exact renders_initPart init
  | released _ _ _ hr =>
    rw [hidle.1] at hr
    exact (List.append_nil s.term.shown) ▸ hr

/-- Nothing is kept any more. -/
theorem Stage.of_released (h : Stage s init chunks) (hnone : s.snapshotBuffer = none) :
    Callback.AllBefore s.renderGeneration s.term.queue s.term.due ∧ chunks ≠ [] ∧
      Renders (s.term.shown ++ s.term.queue.map Write.item) init chunks := by
  cases h with
  | draining _ _ _ hh => cases hnone.symm.trans hh.1
  | drained _ _ _ _ hh => cases hnone.symm.trans hh.1
  | priming _ _ _ _ hh => cases hnone.symm.trans hh.1
  | primed _ _ _ _ _ hh => cases hnone.symm.trans hh.1
  | ready _ _ _ hbuf => cases hnone.symm.trans hbuf
  | released hb _ hc hr => exact ⟨hb, hc, hr⟩

/-! ### The frames -/

theorem SessionInv.sendOpen (h : SessionInv v s) : SessionInv (v.next .opened) s.sendOpen where
  awaiting := rfl
  past := h.past
  first := h.first
  stage init chunks hv := (h.stage init chunks hv).congr rfl rfl rfl rfl rfl rfl

/-- From any stage, a hello begins a new one. -/
theorem SessionInv.onHello (h : SessionInv v s) (init : List UInt8) :
    SessionInv (v.next (.hello init)) (s.onHello init) := by
  have hlatest : ∀ init' chunks, (v.next (.hello init)).latest = some (init', chunks) →
      init' = init ∧ chunks = [] := by
    intro init' chunks hv
    cases hv
    exact ⟨rfl, rfl⟩
  refine ⟨rfl, ?_, fun init' chunks hv => ?_, fun init' chunks hv => ?_⟩
  · refine (h.past.mono (Nat.le_succ _)).write fun cb hcb => ?_
    obtain rfl := Option.some.inj hcb
    exact Nat.lt_succ_self _
  · obtain ⟨rfl, rfl⟩ := hlatest init' chunks hv
    rfl
  · obtain ⟨rfl, rfl⟩ := hlatest init' chunks hv
    exact .draining s.term.queue rfl h.past ⟨rfl, rfl⟩

/-! ### The release -/

theorem Xterm.writeAll_spec (cb : Callback) (chunks : List (List UInt8)) (t : Xterm) :
    (t.writeAll cb chunks).shown = t.shown ∧ (t.writeAll cb chunks).due = t.due ∧
      (t.writeAll cb chunks).queue.map Write.item =
        t.queue.map Write.item ++ chunks.map (Prod.mk Source.data) ∧
      ∀ w ∈ (t.writeAll cb chunks).queue, w ∈ t.queue ∨ ∀ cb' ∈ w.callback, cb' = cb := by
  induction t, chunks using Xterm.writeAll.induct with
  | case1 t => exact ⟨rfl, rfl, (List.append_nil _).symm, fun w hw => .inl hw⟩
  | case2 t chunk =>
    refine ⟨rfl, rfl, List.map_append, fun w hw => ?_⟩
    obtain hold | hnew := List.mem_append.mp hw
    · exact .inl hold
    · rw [List.mem_singleton.mp hnew]
      exact .inr fun cb' hcb => (Option.some.inj hcb).symm
  | case3 t chunk chunks hne ih =>
    obtain ⟨hshown, hdue, hqueue, hcallback⟩ := ih
    have heq : t.writeAll cb (chunk :: chunks) =
        (t.write .data chunk none).writeAll cb chunks := by
      cases chunks with
      | nil => exact (hne rfl).elim
      | cons _ _ => rfl
    rw [heq]
    refine ⟨hshown, hdue, ?_, fun w hw => ?_⟩
    · rw [hqueue]
      simp [Xterm.write, Write.item]
    · obtain hold | hnew := hcallback w hw
      · obtain hold | hnew := List.mem_append.mp hold
        · exact .inl hold
        · rw [List.mem_singleton.mp hnew]
          exact .inr fun cb' hcb => by cases hcb
      · exact .inr hnew

theorem renders_chunks (init : List UInt8) (chunks : List (List UInt8)) :
    Renders (initPart init ++ chunks.map (Prod.mk Source.data)) init chunks := by
  refine ⟨_, rfl, fun item hitem => ?_, ?_, fun item hitem => ?_⟩
  · obtain ⟨c, _, rfl⟩ := List.mem_map.mp hitem
    exact .inl rfl
  · rw [List.filter_eq_self.mpr, List.map_map]
    · exact List.map_id chunks
    · intro item hitem
      obtain ⟨c, _, rfl⟩ := List.mem_map.mp hitem
      rfl
  · obtain ⟨c, _, rfl⟩ := List.mem_map.mp (List.mem_of_mem_head? hitem)
    rfl

theorem Session.allBefore_flushSnapshot {gen n : ℕ}
    (h : Callback.AllBefore gen s.term.queue s.term.due) :
    Callback.AllBefore gen (s.flushSnapshot n).term.queue (s.flushSnapshot n).term.due := by
  rw [flushSnapshot]
  split
  · exact h
  · split
    · exact h
    next chunks _ =>
      dsimp only
      split
      · exact h.write fun cb hcb => Option.some.inj hcb ▸ trivial
      · obtain ⟨_, hdue, _, hcallback⟩ := s.term.writeAll_spec (.clear n) chunks
        rw [hdue]
        refine ⟨fun w hw cb hcb => ?_, h.2⟩
        obtain hold | hnew := hcallback w hw
        · exact h.1 w hold cb hcb
        · rw [hnew cb hcb]
          trivial

@[simp] theorem Session.flushSnapshot_awaitingHello (n : ℕ) :
    (s.flushSnapshot n).awaitingHello = s.awaitingHello := by
  rw [flushSnapshot]
  split
  · rfl
  · split <;> rfl

@[simp] theorem Session.flushSnapshot_renderGeneration (n : ℕ) :
    (s.flushSnapshot n).renderGeneration = s.renderGeneration := by
  rw [flushSnapshot]
  split
  · rfl
  · split <;> rfl

@[simp] theorem Session.flushSnapshot_expectFirst (n : ℕ) :
    (s.flushSnapshot n).expectFirst = s.expectFirst := by
  rw [flushSnapshot]
  split
  · rfl
  · split <;> rfl

/-- A snapshot that may not go yet stays. -/
theorem Session.flushSnapshot_of_not_ready (h : s.snapshotBarrierReady = false) (n : ℕ) :
    s.flushSnapshot n = s := by
  rw [flushSnapshot, if_pos (.inr (.inl h))]

/-- When the terminal is ready and the snapshot is there, all that was kept is written. -/
theorem Stage.release (hqueue : s.term.queue = []) (hshown : s.term.shown = initPart init)
    (hdue : Callback.AllBefore s.renderGeneration [] s.term.due)
    (hbuffer : s.snapshotBuffer = some chunks) (hready : s.snapshotBarrierReady = true)
    (hfirst : s.expectFirst = chunks.isEmpty) :
    Stage (s.flushSnapshot s.renderGeneration) init chunks := by
  cases chunks with
  | nil =>
    have hsame : s.flushSnapshot s.renderGeneration = s := by
      rw [Session.flushSnapshot, if_pos (.inr (.inr hfirst))]
    rw [hsame]
    exact .ready hqueue hshown hdue hbuffer hready rfl
  | cons chunk chunks =>
    obtain ⟨hshown', hdue', hqueue', hcallback⟩ :=
      s.term.writeAll_spec (.clear s.renderGeneration) (chunk :: chunks)
    have hflush : s.flushSnapshot s.renderGeneration =
        { s with
          snapshotBuffer := none
          timers := s.timers ++ [s.renderGeneration]
          term := s.term.writeAll (.clear s.renderGeneration) (chunk :: chunks) } := by
      simp [Session.flushSnapshot, hready, hfirst, hbuffer]
    rw [hflush]
    refine .released ⟨fun w hw cb hcb => ?_, ?_⟩ rfl (List.cons_ne_nil _ _) ?_
    · obtain hold | hnew := hcallback w hw
      · rw [hqueue] at hold
        cases hold
      · rw [hnew cb hcb]
        trivial
    · show ∀ cb ∈ (s.term.writeAll (.clear s.renderGeneration) (chunk :: chunks)).due, _
      rw [hdue']
      exact hdue.2
    · show Renders ((s.term.writeAll _ (chunk :: chunks)).shown ++
        (s.term.writeAll _ (chunk :: chunks)).queue.map Write.item) init (chunk :: chunks)
      rw [hshown', hqueue', hshown, hqueue]
      exact renders_chunks init (chunk :: chunks)

/-! ### The steps -/

theorem Attached.next_data_eq_some {data : List UInt8}
    (h : (v.next (.data data)).latest = some (init, chunks)) (hv : v.awaiting = false) :
    ∃ chunks', v.latest = some (init, chunks') ∧ chunks = chunks' ++ [data] := by
  simp only [Attached.next, hv, Bool.false_eq_true, if_false] at h
  obtain ⟨a, ha, heq⟩ := Option.map_eq_some_iff.mp h
  obtain ⟨rfl, rfl⟩ := Prod.mk.inj heq
  exact ⟨a.2, ha, rfl⟩

/-- A data frame while frames are kept. -/
theorem Stage.keep (h : Stage s init chunks) {kept : List (List UInt8)}
    (hkept : s.snapshotBuffer = some kept) (data : List UInt8) :
    Stage ({ s with snapshotBuffer := some (kept ++ [data]), expectFirst := false }.flushSnapshot
      s.renderGeneration) init (chunks ++ [data]) := by
  have hstay : s.snapshotBarrierReady = false →
      { s with snapshotBuffer := some (kept ++ [data]), expectFirst := false }.flushSnapshot
        s.renderGeneration =
          { s with snapshotBuffer := some (kept ++ [data]), expectFirst := false } := by
    intro hready
    apply Session.flushSnapshot_of_not_ready
    exact hready
  have hchunks : ∀ {cs}, s.snapshotBuffer = some cs → kept = cs :=
    fun hcs => Option.some.inj (hkept.symm.trans hcs)
  cases h with
  | draining before hq hb hh =>
    rw [hstay hh.2, hchunks hh.1]
    exact .draining before hq hb ⟨rfl, hh.2⟩
  | drained others hq hd hb hh =>
    rw [hstay hh.2, hchunks hh.1]
    exact .drained others hq hd hb ⟨rfl, hh.2⟩
  | priming hq hs hne hb hh =>
    rw [hstay hh.2, hchunks hh.1]
    exact .priming hq hs hne hb ⟨rfl, hh.2⟩
  | primed others hq hd hs hb hh =>
    rw [hstay hh.2, hchunks hh.1]
    exact .primed others hq hd hs hb ⟨rfl, hh.2⟩
  | ready hq hs hb hbuf hr hc =>
    rw [hchunks hbuf, hc]
    -- the snapshot arrives at a terminal that is ready for it
    exact Stage.release
      (s := { s with snapshotBuffer := some ([] ++ [data]), expectFirst := false })
      hq hs hb rfl hr rfl
  | released _ hbuf =>
    rw [hbuf] at hkept
    cases hkept

theorem SessionInv.onOutput (h : SessionInv v s) (data : List UInt8) :
    SessionInv (v.next (.data data)) (s.onOutput data) := by
  cases hv : v.awaiting with
  | true =>
    have hdrop : s.onOutput data = s := if_pos (h.awaiting.trans hv)
    have hnext : v.next (.data data) = v := if_pos hv
    rw [hdrop, hnext]
    exact h
  | false =>
    have hawaiting : (v.next (.data data)).awaiting = false := by
      rw [Attached.next, if_neg (by rw [hv]; exact Bool.false_ne_true)]
      exact hv
    have htake : ¬ s.awaitingHello = true := by
      rw [h.awaiting, hv]
      exact Bool.false_ne_true
    have hs : s.awaitingHello = false := h.awaiting.trans hv
    rw [Session.onOutput, if_neg htake]
    split
    next kept hkept =>
      refine ⟨?_, ?_, fun init chunks hl => ?_, fun init chunks hl => ?_⟩
      · rw [Session.flushSnapshot_awaitingHello, hawaiting]
        exact hs
      · rw [Session.flushSnapshot_renderGeneration]
        exact Session.allBefore_flushSnapshot h.past
      · obtain ⟨chunks', _, rfl⟩ := Attached.next_data_eq_some hl hv
        rw [Session.flushSnapshot_expectFirst]
        simp
      · obtain ⟨chunks', hl', rfl⟩ := Attached.next_data_eq_some hl hv
        exact (h.stage init chunks' hl').keep hkept data
    next hnone =>
      refine ⟨hs.trans hawaiting.symm, ?_, fun init chunks hl => ?_, fun init chunks hl => ?_⟩
      · exact h.past.write fun cb hcb => by cases hcb
      all_goals
        obtain ⟨chunks', hl', rfl⟩ := Attached.next_data_eq_some hl hv
        obtain ⟨hb, hc, hr⟩ := (h.stage init chunks' hl').of_released hnone
      · show s.expectFirst = (chunks' ++ [data]).isEmpty
        rw [h.first init chunks' hl', List.isEmpty_eq_false_iff.mpr hc,
          List.isEmpty_eq_false_iff.mpr (List.append_ne_nil_of_left_ne_nil hc _)]
      · refine .released (hb.write fun cb hcb => by cases hcb) hnone (by simp) ?_
        show Renders (s.term.shown ++ (s.term.queue ++ [_]).map Write.item) init _
        rw [List.map_append, ← List.append_assoc]
        exact hr.append_data data

/-- A redraw is written only when the snapshot was released. -/
theorem SessionInv.redraw (h : SessionInv v s) (cols rows : ℕ) (screen : Option (List UInt8)) :
    SessionInv v (s.redraw cols rows screen) := by
  unfold Session.redraw
  split
  · exact h
  next hfree =>
    simp only [not_or, ne_eq, not_not] at hfree
    obtain ⟨_, hnone, _⟩ := hfree
    split
    next bytes =>
      refine ⟨h.awaiting, h.past.write fun cb hcb => ?_, h.first, fun init chunks hl => ?_⟩
      · exact Option.some.inj hcb ▸ trivial
      · obtain ⟨hb, hc, hr⟩ := (h.stage init chunks hl).of_released hnone
        refine .released (hb.write fun cb hcb => Option.some.inj hcb ▸ trivial) hnone hc ?_
        show Renders (s.term.shown ++ (s.term.queue ++ [_]).map Write.item) init chunks
        rw [List.map_append, ← List.append_assoc]
        exact hr.append_screen hc bytes
    · exact h

theorem SessionInv.parse (h : SessionInv v s) {t : Xterm} (ht : s.term.parse = some t) :
    SessionInv v { s with term := t } := by
  rw [Xterm.parse] at ht
  split at ht
  · cases ht
  next w queue hqueue =>
    obtain rfl := Option.some.inj ht
    refine ⟨h.awaiting, ?_, h.first, fun init chunks hl => ?_⟩
    · exact Callback.AllBefore.parse (hqueue ▸ h.past)
    · cases h.stage init chunks hl with
      | draining before hq hb hh =>
        rw [hqueue] at hq
        cases before with
        | nil =>
          obtain ⟨rfl, rfl⟩ := List.cons.inj hq
          refine .drained s.term.due rfl ?_ hb hh
          exact List.perm_append_singleton ..
        | cons first before =>
          obtain ⟨rfl, rfl⟩ := List.cons.inj hq
          exact .draining before rfl hb.parse hh
      | priming hq hs hne hb hh =>
        rw [hqueue] at hq
        obtain ⟨rfl, rfl⟩ := List.cons.inj hq
        refine .primed s.term.due rfl (List.perm_append_singleton ..) ?_ hb hh
        show s.term.shown ++ [_] = initPart init
        rw [hs, initPart, if_neg hne]
        rfl
      | released hb hbuf hc hr =>
        rw [hqueue] at hb hr
        refine .released hb.parse hbuf hc ?_
        show Renders (s.term.shown ++ [w.item] ++ queue.map Write.item) init chunks
        rwa [List.append_assoc]
      | drained _ hq => cases hqueue.symm.trans hq
      | primed _ hq => cases hqueue.symm.trans hq
      | ready hq => cases hqueue.symm.trans hq

/-- A stale callback has run. -/
theorem Stage.erase (h : Stage s init chunks) {cb : Callback}
    (hcb : cb.Before s.renderGeneration) :
    Stage { s with term := { s.term with due := s.term.due.erase cb } } init chunks := by
  have herase : ∀ {others : List Callback} {own : Callback}, ¬ own.Before s.renderGeneration →
      s.term.due.Perm (own :: others) → (s.term.due.erase cb).Perm (own :: others.erase cb) := by
    intro others own hown hperm
    have hne : ¬ (own == cb) = true := by
      rw [beq_iff_eq]
      rintro rfl
      exact hown hcb
    have herased := hperm.erase cb
    rwa [List.erase_cons_tail hne] at herased
  cases h with
  | draining before hq hb hh =>
    exact .draining before hq (hb.sublist (List.Subset.refl _) (List.erase_subset)) hh
  | drained others hq hd hb hh =>
    exact .drained (others.erase cb) hq (herase (lt_irrefl _) hd)
      (hb.sublist (List.Subset.refl _) (List.erase_subset)) hh
  | priming hq hs hne hb hh =>
    exact .priming hq hs hne (hb.sublist (List.Subset.refl _) (List.erase_subset)) hh
  | primed others hq hd hs hb hh =>
    exact .primed (others.erase cb) hq (herase (lt_irrefl _) hd) hs
      (hb.sublist (List.Subset.refl _) (List.erase_subset)) hh
  | ready hq hs hb hbuf hr hc =>
    exact .ready hq hs (hb.sublist (List.Subset.refl _) (List.erase_subset)) hbuf hr hc
  | released hb hbuf hc hr =>
    exact .released (hb.sublist (List.Subset.refl _) (List.erase_subset)) hbuf hc hr

/-- A stale callback does at most allow reports again. -/
theorem Session.call_of_before {cb : Callback} (hcb : cb.Before s.renderGeneration) :
    ∃ suppress, s.call cb = { s with suppressReports := suppress } := by
  cases cb with
  | barrier n init => exact ⟨s.suppressReports, if_pos (Nat.ne_of_lt hcb)⟩
  | ready n => exact ⟨s.suppressReports, if_pos (Nat.ne_of_lt hcb)⟩
  | clear n =>
    rw [call]
    split
    · exact ⟨false, rfl⟩
    · exact ⟨s.suppressReports, rfl⟩
  | paint => exact ⟨s.suppressReports, rfl⟩

/-- The reset: the modes are written, if there are any, or the snapshot is. -/
theorem Stage.call_barrier (hqueue : s.term.queue = [])
    (hdue : Callback.AllBefore s.renderGeneration [] s.term.due) (hholds : s.Holds chunks)
    (hfirst : s.expectFirst = chunks.isEmpty) :
    Stage (s.call (.barrier s.renderGeneration init)) init chunks := by
  rw [Session.call, if_neg (not_not.mpr rfl)]
  by_cases hinit : init = []
  · subst hinit
    rw [if_neg (not_not.mpr rfl), Session.ready, if_neg (not_not.mpr rfl)]
    exact Stage.release hqueue rfl hdue hholds.1 rfl hfirst
  · rw [if_pos hinit]
    refine .priming ?_ rfl hinit hdue hholds
    show s.term.queue ++ [_] = _
    rw [hqueue]
    rfl

theorem Stage.call_ready (hqueue : s.term.queue = []) (hshown : s.term.shown = initPart init)
    (hdue : Callback.AllBefore s.renderGeneration [] s.term.due) (hholds : s.Holds chunks)
    (hfirst : s.expectFirst = chunks.isEmpty) :
    Stage (s.call (.ready s.renderGeneration)) init chunks := by
  rw [Session.call, Session.ready, if_neg (not_not.mpr rfl)]
  exact Stage.release hqueue hshown hdue hholds.1 rfl hfirst

/-- A callback of the current generation runs in one stage only. -/
theorem Stage.callback (h : Stage s init chunks) (hfirst : s.expectFirst = chunks.isEmpty)
    {cb : Callback} (hcb : cb ∈ s.term.due) :
    Stage ({ s with term := { s.term with due := s.term.due.erase cb } }.call cb) init chunks := by
  by_cases hbefore : cb.Before s.renderGeneration
  · have hstage := h.erase hbefore
    have hbefore' : cb.Before
        { s with term := { s.term with due := s.term.due.erase cb } }.renderGeneration := hbefore
    obtain ⟨suppress, hcall⟩ := Session.call_of_before hbefore'
    rw [hcall]
    exact hstage.congr rfl rfl rfl rfl rfl rfl
  · -- what is left in `due` once the session's own callback is taken out
    have hown : ∀ {others : List Callback} {own : Callback},
        s.term.due.Perm (own :: others) → Callback.AllBefore s.renderGeneration [] others →
          cb = own ∧ Callback.AllBefore s.renderGeneration [] (s.term.due.erase cb) := by
      intro others own hperm hothers
      obtain rfl | hmem := List.mem_cons.mp (hperm.subset hcb)
      · refine ⟨rfl, List.forall_mem_nil _, fun cb' hcb' => ?_⟩
        have herased := hperm.erase cb
        rw [List.erase_cons_head] at herased
        exact hothers.2 cb' (herased.subset hcb')
      · exact absurd (hothers.2 cb hmem) hbefore
    cases h with
    | draining before hq hb hh => exact absurd (hb.2 cb hcb) hbefore
    | drained others hq hd hb hh =>
      obtain ⟨rfl, hrest⟩ := hown hd hb
      exact Stage.call_barrier hq hrest hh hfirst
    | priming hq hs hne hb hh => exact absurd (hb.2 cb hcb) hbefore
    | primed others hq hd hs hb hh =>
      obtain ⟨rfl, hrest⟩ := hown hd hb
      exact Stage.call_ready hq hs hrest hh hfirst
    | ready hq hs hb hbuf hr hc => exact absurd (hb.2 cb hcb) hbefore
    | released hb hbuf hc hr => exact absurd (hb.2 cb hcb) hbefore

theorem Session.call_keeps (s : Session) (cb : Callback) :
    (s.call cb).awaitingHello = s.awaitingHello ∧ (s.call cb).expectFirst = s.expectFirst ∧
      (s.call cb).renderGeneration = s.renderGeneration := by
  have hready : ∀ (s : Session) (n : ℕ), (s.ready n).awaitingHello = s.awaitingHello ∧
      (s.ready n).expectFirst = s.expectFirst ∧
      (s.ready n).renderGeneration = s.renderGeneration := by
    intro s n
    rw [ready]
    split
    · exact ⟨rfl, rfl, rfl⟩
    · exact ⟨flushSnapshot_awaitingHello n, flushSnapshot_expectFirst n,
        flushSnapshot_renderGeneration n⟩
  cases cb with
  | barrier n init =>
    simp only [call]
    split
    · exact ⟨rfl, rfl, rfl⟩
    · split
      · exact ⟨rfl, rfl, rfl⟩
      · exact hready _ n
  | ready n => exact hready s n
  | clear n =>
    rw [call]
    split
    · exact ⟨rfl, rfl, rfl⟩
    · exact ⟨rfl, rfl, rfl⟩
  | paint => exact ⟨rfl, rfl, rfl⟩

/-- A callback that is not of a generation to come brings none that is. -/
theorem Session.allBefore_call {cb : Callback} {gen : ℕ} (hcb : cb.Before gen)
    (h : Callback.AllBefore gen s.term.queue s.term.due) :
    Callback.AllBefore gen (s.call cb).term.queue (s.call cb).term.due := by
  have hready : ∀ {s : Session} (n : ℕ), Callback.AllBefore gen s.term.queue s.term.due →
      Callback.AllBefore gen (s.ready n).term.queue (s.ready n).term.due := by
    intro s n h
    rw [ready]
    split
    · exact h
    · exact allBefore_flushSnapshot h
  cases cb with
  | barrier n init =>
    simp only [call]
    split
    · exact h
    · split
      · exact h.write fun cb' hcb' => Option.some.inj hcb' ▸ hcb
      · exact hready n h
  | ready n => exact hready n h
  | clear n =>
    rw [call]
    split
    · exact h
    · exact h
  | paint => exact h

theorem SessionInv.callback (h : SessionInv v s) {cb : Callback} (hcb : cb ∈ s.term.due) :
    SessionInv v ({ s with term := { s.term with due := s.term.due.erase cb } }.call cb) := by
  obtain ⟨hawaiting, hfirst, hgen⟩ :=
    Session.call_keeps { s with term := { s.term with due := s.term.due.erase cb } } cb
  refine ⟨hawaiting.trans h.awaiting, ?_, fun init chunks hl => ?_, fun init chunks hl => ?_⟩
  · rw [hgen]
    apply Session.allBefore_call (h.past.2 cb hcb)
    exact h.past.sublist (List.Subset.refl _) List.erase_subset
  · exact hfirst.trans (h.first init chunks hl)
  · exact (h.stage init chunks hl).callback (h.first init chunks hl) hcb

/-- The timers and the size of the terminal do not matter here. -/
theorem SessionInv.congr (h : SessionInv v s) (hawaiting : s'.awaitingHello = s.awaitingHello)
    (hfirst : s'.expectFirst = s.expectFirst)
    (hgen : s'.renderGeneration = s.renderGeneration) (hqueue : s'.term.queue = s.term.queue)
    (hshown : s'.term.shown = s.term.shown) (hdue : s'.term.due = s.term.due)
    (hbuffer : s'.snapshotBuffer = s.snapshotBuffer)
    (hready : s'.snapshotBarrierReady = s.snapshotBarrierReady) : SessionInv v s' := by
  refine ⟨hawaiting.trans h.awaiting, ?_, fun init chunks hl => ?_, fun init chunks hl => ?_⟩
  · rw [hgen, hqueue, hdue]
    exact h.past
  · exact hfirst.trans (h.first init chunks hl)
  · exact (h.stage init chunks hl).congr hgen hqueue hshown hdue hbuffer hready

end

/-! ## The page -/

section
variable {p p' : Page} {past : List (Page × Act)} {slot : ℕ} {s : Session}

/-- Every session of the page has taken part in the run. -/
def PageInv (past : List (Page × Act)) (p : Page) : Prop :=
  ∀ slot s, p slot = some s → SessionInv (attached (events slot past)) s

theorem attached_snoc (slot : ℕ) (past : List (Page × Act)) (p : Page) (a : Act) :
    attached (events slot (past ++ [(p, a)])) =
      (a.event slot).elim (attached (events slot past)) (attached (events slot past)).next := by
  have hevents : events slot (past ++ [(p, a)]) =
      events slot past ++ (a.event slot).toList := by
    rw [events, List.filterMap_append, events]
    cases h : a.event slot <;> simp [h]
  rw [hevents]
  cases a.event slot with
  | none => exact congrArg attached (List.append_nil _)
  | some e => exact List.foldl_append ..

/-- A step that one session takes, and that is an event of its slot or of none. -/
theorem PageInv.modify (h : PageInv past p) {term : ℕ} {f : Session → Session} {a : Act}
    (hevent : ∀ slot, slot ≠ term → a.event slot = none)
    (hf : ∀ s, p term = some s → SessionInv (attached (events term past)) s →
      SessionInv ((a.event term).elim (attached (events term past))
        (attached (events term past)).next) (f s)) :
    PageInv (past ++ [(p, a)]) (p.modify term f) := by
  intro slot s hs
  rw [attached_snoc]
  by_cases hslot : slot = term
  · subst hslot
    rw [Page.modify, Function.update_self, Option.map_eq_some_iff] at hs
    obtain ⟨s₀, hs₀, rfl⟩ := hs
    exact hf s₀ hs₀ (h slot s₀ hs₀)
  · rw [hevent slot hslot]
    rw [Page.modify, Function.update_of_ne hslot] at hs
    exact h slot s hs

theorem PageInv.stepSession (h : PageInv past p) {term : ℕ} {f : Session → Option Session} {a : Act}
    (hevent : ∀ slot, a.event slot = none)
    (hf : ∀ v s s', SessionInv v s → f s = some s' → SessionInv v s')
    (hstep : p.stepSession term f = some p') : PageInv (past ++ [(p, a)]) p' := by
  obtain ⟨s, hs, hrest⟩ := Option.bind_eq_some_iff.mp hstep
  obtain ⟨s', hs', hp'⟩ := Option.bind_eq_some_iff.mp hrest
  obtain rfl := Option.some.inj hp'
  intro slot t ht
  rw [attached_snoc, hevent slot]
  by_cases hslot : slot = term
  · subst hslot
    rw [Function.update_self, Option.some.injEq] at ht
    exact ht ▸ hf _ s s' (h slot s hs) hs'
  · rw [Function.update_of_ne hslot] at ht
    exact h slot t ht

theorem PageInv.message (h : PageInv past p) (m : Message) :
    PageInv (past ++ [(p, .message m)]) (p.onMessage m) := by
  have hsame : ∀ {a : Act}, (∀ slot, a.event slot = none) → PageInv (past ++ [(p, a)]) p := by
    intro a ha slot s hs
    rw [attached_snoc, ha slot]
    exact h slot s hs
  cases m with
  | hello term init =>
    refine h.modify (fun slot hslot => if_neg (Ne.symm hslot)) fun s _ hs => ?_
    have hevent : (Act.message (.hello term init)).event term = some (.hello init) := if_pos rfl
    rw [hevent]
    exact hs.onHello init
  | closed term => exact hsame fun slot => rfl
  | redraw term cols rows screen =>
    exact h.modify (fun slot _ => rfl) fun s _ hs => hs.redraw cols rows screen
  | binary bytes =>
    cases bytes with
    | nil => exact hsame fun slot => rfl
    | cons b data =>
      refine h.modify (fun slot hslot => if_neg (Ne.symm hslot)) fun s _ hs => ?_
      have hevent : (Act.message (.binary (b :: data))).event b.toNat = some (.data data) :=
        if_pos rfl
      rw [hevent]
      exact hs.onOutput data

theorem PageInv.step (h : PageInv past p) {a : Act} (hstep : pageStep p a = some p') :
    PageInv (past ++ [(p, a)]) p' := by
  cases a with
  | message m => exact Option.some.inj hstep ▸ h.message m
  | sendOpen term =>
    obtain rfl := Option.some.inj hstep
    refine h.modify (fun slot hslot => if_neg (Ne.symm hslot)) fun s _ hs => ?_
    have hevent : (Act.sendOpen term).event term = some .opened := if_pos rfl
    rw [hevent]
    exact hs.sendOpen
  | parse term =>
    refine h.stepSession (fun slot => rfl) (fun v s s' hs hs' => ?_) hstep
    obtain ⟨t, ht, rfl⟩ := Option.map_eq_some_iff.mp hs'
    exact hs.parse ht
  | callback term cb =>
    refine h.stepSession (fun slot => rfl) (fun v s s' hs hs' => ?_) hstep
    obtain ⟨hcb, hs'⟩ := Option.ite_none_right_eq_some.mp hs'
    exact Option.some.inj hs' ▸ hs.callback hcb
  | timeout term i =>
    refine h.stepSession (fun slot => rfl) (fun v s s' hs hs' => ?_) hstep
    obtain ⟨gen, _, rfl⟩ := Option.map_eq_some_iff.mp hs'
    exact hs.congr rfl rfl rfl rfl rfl rfl rfl rfl
  | resize term cols rows =>
    obtain rfl := Option.some.inj hstep
    exact h.modify (fun slot _ => rfl) fun s _ hs => hs.congr rfl rfl rfl rfl rfl rfl rfl rfl

theorem pageInv_of_trace (h : pageSystem.Trace past p) : PageInv past p := by
  refine h.invariant (fun p hp slot s hs => ?_) fun past p a p' _ hinv hstep => hinv.step hstep
  obtain ⟨cols, rows, rfl⟩ := hp slot s hs
  exact ⟨rfl, ⟨List.forall_mem_nil _, List.forall_mem_nil _⟩, fun _ _ hl => (by cases hl),
    fun _ _ hl => (by cases hl)⟩

/-- A terminal that has parsed everything shows the modes of the last hello and then the data
frames that arrived between it and the next open, in order and each once, with screens of redraws
only behind the snapshot. -/
theorem renders_attachment (h : pageSystem.Trace past p) (hs : p slot = some s)
    (hidle : s.term.Idle) {init : List UInt8} {chunks : List (List UInt8)}
    (hlatest : attachment (events slot past) = some (init, chunks)) :
    Renders s.term.shown init chunks :=
  ((pageInv_of_trace h slot s hs).stage init chunks hlatest).renders hidle

/-- A page with one slot. -/
def onePage : Page := fun slot => if slot = 0 then some (.new 80 24) else none

theorem onePage_init : pageSystem.init onePage := by
  intro slot s hs
  rw [onePage] at hs
  split at hs
  · exact ⟨80, 24, (Option.some.inj hs).symm⟩
  · cases hs

/-- `ESC [ ? 25 h` -/
def showCursor : List UInt8 := [0x1b, 0x5b, 0x3f, 0x32, 0x35, 0x68]

/-- `ESC [ ? 25 l` -/
def hideCursor : List UInt8 := [0x1b, 0x5b, 0x3f, 0x32, 0x35, 0x6c]

/-- An attachment with a snapshot, output and a redraw; a second open with a frame that is still on
its way; and the attachment that follows, with a redraw between two frames of output. -/
def reattaching : List Act :=
  [.sendOpen 0, .message (.hello 0 showCursor), .message (.binary [0, 65]), .parse 0,
    .callback 0 (.barrier 1 showCursor), .parse 0, .callback 0 (.ready 1), .parse 0,
    .callback 0 (.clear 1), .message (.binary [0, 66]), .message (.redraw 0 80 24 (some [83])),
    .parse 0, .parse 0, .callback 0 .paint,
    .sendOpen 0, .message (.binary [0, 67]), .message (.hello 0 hideCursor),
    .message (.binary [0, 68]), .parse 0, .callback 0 (.barrier 2 hideCursor), .parse 0,
    .callback 0 (.ready 2), .message (.binary [0, 69]), .message (.redraw 0 80 24 (some [83])),
    .message (.binary [0, 70]), .parse 0, .parse 0, .parse 0, .parse 0, .callback 0 .paint,
    .callback 0 (.clear 2)]

theorem renders_attachment_reattaching :
    ∃ p s, pageSystem.run onePage reattaching = some p ∧ p 0 = some s ∧
      s.term.shown = [(.init, hideCursor), (.data, [68]), (.data, [69]), (.screen, [83]),
        (.data, [70])] ∧
      Renders s.term.shown hideCursor [[68], [69], [70]] := by
  refine ⟨_, _, rfl, rfl, rfl, ?_⟩
  have htrace := System.Trace.run_steps (.init onePage_init)
    (rfl : pageSystem.run onePage reattaching = some _)
  exact @renders_attachment _ _ 0 _ htrace rfl ⟨rfl, rfl⟩ _ _ rfl

/-- An open and its hello, an empty snapshot, a second open, and a frame of the attachment that
is being replaced. -/
def reopening : List Act :=
  [.sendOpen 0, .message (.hello 0 []), .message (.binary [0]), .sendOpen 0,
    .message (.binary [0, 66]), .parse 0, .callback 0 (.barrier 1 []), .parse 0,
    .callback 0 (.clear 1)]

/-- The frame that arrives after the second open is not shown. -/
theorem open_drops_data :
    ¬ ∀ past p slot s init chunks, pageSystem.Trace past p → p slot = some s → s.term.Idle →
      attachmentDespiteOpens (events slot past) = some (init, chunks) →
      Renders s.term.shown init chunks := by
  intro h
  have htrace := System.Trace.run_steps (.init onePage_init)
    (rfl : pageSystem.run onePage reopening = some _)
  obtain ⟨rest, hshown, _, hchunks, _⟩ := h _ _ 0 _ [] [[], [66]] htrace rfl ⟨rfl, rfl⟩ rfl
  have hrest : [(Source.data, [])] = rest := hshown
  rw [← hrest] at hchunks
  exact absurd hchunks (by decide)

end

end Webshell.Browser
