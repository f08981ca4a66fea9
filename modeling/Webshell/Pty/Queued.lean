import Webshell.Pty.Mux
import Webshell.Pty.StreamIntegrity
import Webshell.Terminals.Screen

/-!
# What is queued for a client

The frames of a client on their way from the tasks of its connection to its socket, and what they
amount to: the data since the last hello is a segment of the stream of one shell.

## Main definitions

- `queued`: the frames queued for a client in a run
- `served`: the data since the last hello, with its epoch and base
- `Effect`: what a step does to the frames that a client has coming

## Main results

- `slotStep_shells`: a step changes at most one shell
- `slotStep_effect`: what a step does, as any client sees it
- `shows_of_trace`: the screens of all shells render their streams
-/

namespace Webshell.Snapshot

open Transition
open MuxBridge (validSize)

variable {P : Type}

/-- The step ends a client's connection or its forward task, or attaches it. -/
def Detaches (c : ℕ) : Act → Prop
  | .connect c' => c' = c
  | .connectView c' _ => c' = c
  | .drop c' => c' = c
  | .endForward c' => c' = c
  | .attach c' _ _ _ => c' = c
  | _ => False

/-- The frames that the connection loop and the forward task of a client have yet to queue. -/
def coming (c : ℕ) (s : State P) : List Frame :=
  (s.peers c).conn.elim [] fun conn => conn.phase.frames ++ conn.forward.elim [] Forward.hand

/-- The shell whose output follows these frames, and where its receiver stands. -/
def target (c : ℕ) (s : State P) : Option (ℕ × ℕ) := (s.peers c).conn.bind Conn.target

/-- The receiver of a client has been overrun. -/
def Overrun (c : ℕ) (s : State P) : Prop :=
  ∃ t ∈ target c s, ∃ sh, s.shells t.1 = some sh ∧
    sh.output.capacity < sh.output.sent.length - t.2

/-- The frame that a step queues for a client. -/
def queues (c : ℕ) (e : State P × Act) : Option Frame :=
  match e.2 with
  | .queue c' =>
    if c' = c then (e.1.peers c).conn.bind fun conn => conn.phase.frames.head? else none
  | .queueHand c' =>
    if c' = c then (e.1.peers c).conn.bind fun conn => conn.forward.bind fun fwd => fwd.hand.head?
    else none
  | _ => none

/-- The frames that are queued for a client by some steps. -/
def queued (c : ℕ) (past : List (State P × Act)) : List Frame := past.filterMap (queues c)

/-- What a client was sent by the attachment that last said hello. -/
structure Served where
  epoch : ℕ
  base : ℕ
  bytes : List UInt8
deriving DecidableEq

def Served.next (v : Option Served) : Frame → Option Served
  | .hello _ epoch base _ => some ⟨epoch, base, []⟩
  | .data bytes => v.map fun x => { x with bytes := x.bytes ++ bytes }
  | _ => v

def served (frames : List Frame) : Option Served := frames.foldl Served.next none

/-! ## What is served -/

/-- Up to the next hello, the same attachment is served. -/
theorem foldl_next {new : List Frame} (hnew : helloModes new = []) (v : Option Served) :
    new.foldl Served.next v = v.map fun x => { x with bytes := x.bytes ++ dataBytes new } := by
  induction new generalizing v with
  | nil =>
    cases v with
    | none => rfl
    | some x => rw [List.foldl_nil, Option.map_some, dataBytes, List.flatMap_nil, List.append_nil]
  | cons f new ih =>
    rw [helloModes_cons, List.append_eq_nil_iff] at hnew
    rw [List.foldl_cons, ih hnew.2]
    cases f with
    | hello => cases hnew.1
    | closed => rfl
    | redraw => rfl
    | data bytes =>
      rw [Served.next, Option.map_map]
      congr 1
      funext x
      change (⟨_, _, (x.bytes ++ bytes) ++ dataBytes new⟩ : Served) = _
      rw [List.append_assoc]
      rfl

theorem served_append {new : List Frame} (hnew : helloModes new = []) (frames : List Frame) :
    served (frames ++ new) =
      (served frames).map fun x => { x with bytes := x.bytes ++ dataBytes new } := by
  rw [served, List.foldl_append, foldl_next hnew]
  rfl

theorem served_hello (frames : List Frame) (mode : AttachMode) (epoch base : ℕ)
    (init : List UInt8) :
    served (frames ++ [.hello mode epoch base init]) = some ⟨epoch, base, []⟩ := by
  rw [served, List.foldl_append]
  rfl

/-- At no point among the frames has anything been served but a segment of a stream. -/
def Unbroken (w : World P) (frames : List Frame) : Prop :=
  ∀ part, part <+: frames → ∀ v ∈ served part, ∃ sh, w.shells v.epoch = some sh ∧
    v.base ≤ sh.stream.length ∧ v.bytes <+: sh.stream.drop v.base

/-- Shells stay, and put out more. -/
def Grown (w w' : World P) : Prop :=
  ∀ e sh, w.shells e = some sh → ∃ sh', w'.shells e = some sh' ∧ sh.output.sent <+: sh'.output.sent

variable {w w' : World P} {frames new : List Frame}

theorem stream_prefix {sh sh' : Shell P} (h : sh.output.sent <+: sh'.output.sent) :
    sh.stream <+: sh'.stream := by
  obtain ⟨rest, hrest⟩ := h
  exact ⟨rest.flatten, by rw [Shell.stream, Shell.stream, ← hrest, List.flatten_append]⟩

theorem Unbroken.mono (h : Unbroken w frames) (hw : Grown w w') : Unbroken w' frames := by
  intro part hpart v hv
  obtain ⟨sh, hsh, hbase, hbytes⟩ := h part hpart v hv
  obtain ⟨sh', hsh', hsent⟩ := hw _ sh hsh
  obtain ⟨more, hmore⟩ := stream_prefix hsent
  refine ⟨sh', hsh', ?_, hbytes.trans ?_⟩
  · rw [← hmore, List.length_append]
    omega
  · rw [← hmore, List.drop_append_of_le_length hbase]
    exact List.prefix_append _ _

/-- The attachment's output, up to a place of its receiver. -/
def Stands (w : World P) (frames : List Frame) (t : ℕ × ℕ) : Prop :=
  ∃ sh base, w.shells t.1 = some sh ∧ t.2 ≤ sh.output.sent.length ∧
    base ≤ (sh.output.sent.take t.2).flatten.length ∧
    served frames = some ⟨t.1, base, (sh.output.sent.take t.2).flatten.drop base⟩

theorem Stands.mono {t : ℕ × ℕ} (h : Stands w frames t) (hw : Grown w w') :
    Stands w' frames t := by
  obtain ⟨sh, base, hsh, hle, hbase, hserved⟩ := h
  obtain ⟨sh', hsh', more, hmore⟩ := hw _ sh hsh
  have htake : sh'.output.sent.take t.2 = sh.output.sent.take t.2 := by
    rw [← hmore, List.take_append_of_le_length hle]
  refine ⟨sh', base, hsh', ?_, htake ▸ hbase, htake ▸ hserved⟩
  rw [← hmore, List.length_append]
  omega

/-- The receiver moves on over the data that is served. -/
theorem Stands.data {epoch rx rx' : ℕ} {sh : Shell P} (h : Stands w frames (epoch, rx))
    (hsh : w.shells epoch = some sh) (hrx : rx ≤ rx') (hle : rx' ≤ sh.output.sent.length)
    (hnew : helloModes new = [])
    (hdata : dataBytes new = ((sh.output.sent.take rx').drop rx).flatten) :
    Stands w (frames ++ new) (epoch, rx') := by
  obtain ⟨sh₁, base, hsh₁, _, hbase, hserved⟩ := h
  obtain rfl := Option.some.inj (hsh.symm.trans hsh₁)
  have hsplit : (sh.output.sent.take rx').flatten =
      (sh.output.sent.take rx).flatten ++ dataBytes new := by
    rw [hdata, ← List.flatten_append, ← sh.output.take_eq hrx]
  refine ⟨sh, base, hsh, hle, ?_, ?_⟩
  · show base ≤ (sh.output.sent.take rx').flatten.length
    rw [hsplit, List.length_append]
    exact hbase.trans (Nat.le_add_right _ _)
  · rw [served_append hnew, hserved, Option.map_some]
    show some (⟨epoch, base, (sh.output.sent.take rx).flatten.drop base ++ dataBytes new⟩ :
      Served) = some ⟨epoch, base, (sh.output.sent.take rx').flatten.drop base⟩
    rw [hsplit, List.drop_append_of_le_length hbase]

theorem Unbroken.of_prefix (h : Unbroken w frames) (hpre : new <+: frames) : Unbroken w new :=
  fun part hpart => h part (hpart.trans hpre)

theorem Unbroken.hello (h : Unbroken w frames) {epoch base : ℕ} {sh : Shell P}
    (hsh : w.shells epoch = some sh) (hbase : base ≤ sh.stream.length) (mode : AttachMode)
    (init : List UInt8) : Unbroken w (frames ++ [.hello mode epoch base init]) := by
  intro part hpart v hv
  obtain rfl | hpart := List.prefix_concat_iff.mp hpart
  · rw [served_hello] at hv
    obtain rfl := Option.some.inj hv
    exact ⟨sh, hsh, hbase, List.nil_prefix⟩
  · exact h part hpart v hv

/-- More of the stream is served. -/
theorem Unbroken.append (h : Unbroken w frames) (hnew : helloModes new = [])
    (hv : ∀ v ∈ served frames, ∃ sh, w.shells v.epoch = some sh ∧
      v.base ≤ sh.stream.length ∧ v.bytes ++ dataBytes new <+: sh.stream.drop v.base) :
    Unbroken w (frames ++ new) := by
  intro part hpart v hserved
  -- the part ends among the old frames, or somewhere in the new ones
  obtain hin | ⟨more, rfl⟩ :=
    List.prefix_or_prefix_of_prefix hpart (List.prefix_append frames new)
  · exact h part hin v hserved
  · obtain ⟨rest, rfl⟩ := (List.prefix_append_right_inj frames).mp hpart
    rw [helloModes_append, List.append_eq_nil_iff] at hnew
    rw [served_append hnew.1] at hserved
    obtain ⟨x, hx, rfl⟩ := Option.mem_map.mp hserved
    obtain ⟨sh, hsh, hbase, hpre⟩ := hv x hx
    refine ⟨sh, hsh, hbase, List.IsPrefix.trans ?_ hpre⟩
    rw [dataBytes_append, ← List.append_assoc]
    exact List.prefix_append _ _

theorem Unbroken.append_of_stands (h : Unbroken w frames) (hnew : helloModes new = []) {t : ℕ × ℕ}
    (ht : Stands w (frames ++ new) t) : Unbroken w (frames ++ new) := by
  refine h.append hnew fun v hv => ?_
  obtain ⟨sh, base, hsh, _, hbase, hserved⟩ := ht
  rw [served_append hnew, hv, Option.map_some, Option.some.injEq] at hserved
  obtain ⟨rest, hrest⟩ : (sh.output.sent.take t.2).flatten <+: sh.stream :=
    ⟨(sh.output.sent.drop t.2).flatten, by
      rw [← List.flatten_append, List.take_append_drop, Shell.stream]⟩
  obtain ⟨hepoch, rfl, hbytes⟩ := Served.mk.inj hserved
  refine ⟨sh, hepoch ▸ hsh, ?_, ?_⟩
  · rw [← hrest, List.length_append]
    exact hbase.trans (Nat.le_add_right _ _)
  · rw [hbytes, ← hrest, List.drop_append_of_le_length hbase]
    exact List.prefix_append _ _

/-- Frames without data. -/
theorem Unbroken.append_of_nil (h : Unbroken w frames) (hnew : helloModes new = [])
    (hdata : dataBytes new = []) : Unbroken w (frames ++ new) := by
  refine h.append hnew fun v hv => ?_
  rw [hdata, List.append_nil]
  exact h frames List.prefix_rfl v hv

/-! ## What a client has coming -/

variable {s s' : State P} {c c' : ℕ} {conn : Conn} {fwd : Forward}

theorem peers_setPeer_of_ne (s : State P) (hc : c ≠ c') (p : Peer) :
    (s.setPeer c' p).peers c = s.peers c := by
  show Function.update s.peers c' p c = s.peers c
  exact Function.update_of_ne hc p s.peers

theorem conn_setConn (s : State P) (c : ℕ) (conn : Option Conn) :
    ((s.setConn c conn).peers c).conn = conn := by
  show (Function.update s.peers c { s.peers c with conn := conn } c).conn = conn
  rw [Function.update_self]

theorem coming_eq (hconn : (s.peers c).conn = some conn) :
    coming c s = conn.phase.frames ++ conn.forward.elim [] Forward.hand := by
  rw [coming, hconn]
  rfl

theorem target_eq (hconn : (s.peers c).conn = some conn) : target c s = conn.target := by
  rw [target, hconn]
  rfl

/-! ## The shells -/

section
variable [Vt100 P] {cap : ℕ} {foreign : List ℕ} {a : Act}
  {past : List (State P × Act)}

/-- What a step makes of a shell. -/
inductive Evolves (cap : ℕ) : Act → Option (Shell P) → Shell P → Prop
  | spawn {c cols rows : ℕ} {spawn : Option ℕ} :
      Evolves cap (.attach c cols rows spawn) none
        (Shell.spawn cap (validSize cols rows).1 (validSize cols rows).2)
  | output {epoch : ℕ} {chunk : List UInt8} {sh : Shell P} :
      Evolves cap (.output epoch chunk) (some sh) (sh.readChunk chunk)
  | exit {epoch : ℕ} {sh : Shell P} :
      Evolves cap (.exit epoch) (some sh) { sh with alive := false }
  | resize {epoch cols rows : ℕ} {sh : Shell P} :
      Evolves cap (.resize epoch cols rows) (some sh)
        { sh with scrollback :=
            sh.scrollback.resize (validSize cols rows).1 (validSize cols rows).2 }
  | redraw {c : ℕ} {sh : Shell P} :
      Evolves cap (.redraw c) (some sh)
        { sh with scrollback := sh.scrollback.screenSnapshot.2 }

theorem attachStep_shells {c cols rows : ℕ} {spawn : Option ℕ}
    (hs : attachStep cap foreign s c (validSize cols rows).1 (validSize cols rows).2 spawn =
      some s') : s'.shells = s.shells ∨
      ∃ epoch sh, Evolves cap (.attach c cols rows spawn) (s.shells epoch) sh ∧
        s'.shells = Function.update s.shells epoch (some sh) := by
  obtain ⟨conn, hconn, hmatch⟩ := Option.bind_eq_some_iff.mp hs
  split at hmatch
  case h_2 => cases hmatch
  split at hmatch
  · obtain rfl := Option.some.inj hmatch
    exact .inl rfl
  · obtain rfl := Option.some.inj hmatch
    exact .inl rfl
  · obtain rfl := Option.some.inj hmatch
    exact .inl rfl
  case h_4 epoch _ _ =>
    rw [Option.ite_none_right_eq_some] at hmatch
    obtain ⟨⟨hnone, _⟩, hsome⟩ := hmatch
    obtain rfl := Option.some.inj hsome
    exact .inr ⟨epoch, _, hnone ▸ .spawn, rfl⟩

/-- A step changes at most one shell. -/
theorem slotStep_shells (hs : slotStep cap foreign s a = some s') : s'.shells = s.shells ∨
    ∃ epoch sh, Evolves cap a (s.shells epoch) sh ∧
      s'.shells = Function.update s.shells epoch (some sh) := by
  cases a with
  | output epoch chunk =>
    obtain ⟨sh, hsh, hsome⟩ := Option.bind_eq_some_iff.mp hs
    rw [Option.ite_none_right_eq_some] at hsome
    obtain rfl := Option.some.inj hsome.2
    exact .inr ⟨epoch, _, hsh ▸ .output, rfl⟩
  | exit epoch =>
    obtain ⟨sh, hsh, hsome⟩ := Option.bind_eq_some_iff.mp hs
    obtain rfl := Option.some.inj hsome
    exact .inr ⟨epoch, _, hsh ▸ .exit, rfl⟩
  | resize epoch cols rows =>
    obtain ⟨sh, hsh, hsome⟩ := Option.bind_eq_some_iff.mp hs
    obtain rfl := Option.some.inj hsome
    exact .inr ⟨epoch, _, hsh ▸ .resize, rfl⟩
  | attach c cols rows spawn => exact attachStep_shells hs
  | redraw c =>
    obtain ⟨conn, _, hbind⟩ := Option.bind_eq_some_iff.mp hs
    obtain ⟨fwd, _, hbind⟩ := Option.bind_eq_some_iff.mp hbind
    obtain ⟨sh, hsh, hsome⟩ := Option.bind_eq_some_iff.mp hbind
    obtain rfl := Option.some.inj hsome
    exact .inr ⟨fwd.epoch, _, hsh ▸ .redraw, rfl⟩
  | reset | connect c | connectView c carry | drop c =>
    obtain rfl := Option.some.inj hs
    exact .inl rfl
  | sendOpen c carry =>
    obtain ⟨conn, _, hsome⟩ := Option.bind_eq_some_iff.mp hs
    rw [Option.ite_none_right_eq_some] at hsome
    obtain rfl := Option.some.inj hsome.2
    exact .inl rfl
  | readOpen c | deliver c =>
    obtain ⟨conn, _, hmatch⟩ := Option.bind_eq_some_iff.mp hs
    split at hmatch
    · obtain rfl := Option.some.inj hmatch
      exact .inl rfl
    · cases hmatch
  | endForward c =>
    obtain ⟨conn, _, hsome⟩ := Option.bind_eq_some_iff.mp hs
    obtain rfl := Option.some.inj hsome
    exact .inl rfl
  | queue c | queueHand c =>
    obtain ⟨conn, _, hbind⟩ := Option.bind_eq_some_iff.mp hs
    obtain ⟨conn', _, hsome⟩ := Option.bind_eq_some_iff.mp hbind
    obtain rfl := Option.some.inj hsome
    exact .inl rfl
  | receive c =>
    obtain ⟨conn, _, hbind⟩ := Option.bind_eq_some_iff.mp hs
    obtain ⟨fwd, _, hbind⟩ := Option.bind_eq_some_iff.mp hbind
    obtain ⟨sh, _, hbind⟩ := Option.bind_eq_some_iff.mp hbind
    obtain ⟨fwd', _, hsome⟩ := Option.bind_eq_some_iff.mp hbind
    obtain rfl := Option.some.inj hsome
    exact .inl rfl
  | shutdown c =>
    obtain ⟨conn, _, hbind⟩ := Option.bind_eq_some_iff.mp hs
    obtain ⟨fwd, _, hbind⟩ := Option.bind_eq_some_iff.mp hbind
    obtain ⟨sh, _, hsome⟩ := Option.bind_eq_some_iff.mp hbind
    rw [Option.ite_none_right_eq_some] at hsome
    obtain rfl := Option.some.inj hsome.2
    exact .inl rfl

theorem Evolves.sent {o : Option (Shell P)} {sh sh' : Shell P} (h : Evolves cap a o sh')
    (ho : o = some sh) : sh.output.sent <+: sh'.output.sent := by
  cases h with
  | spawn => cases ho
  | output =>
    obtain rfl := Option.some.inj ho
    exact List.prefix_append _ _
  | exit | resize | redraw =>
    obtain rfl := Option.some.inj ho
    exact List.prefix_rfl

theorem shells_grow (hs : slotStep cap foreign s a = some s') : Grown s.toWorld s'.toWorld := by
  intro e sh hsh
  obtain heq | ⟨epoch, sh', hev, heq⟩ := slotStep_shells hs
  · exact ⟨sh, by rw [heq, hsh], List.prefix_rfl⟩
  · by_cases he : e = epoch
    · subst he
      exact ⟨sh', by rw [heq, Function.update_self], hev.sent hsh⟩
    · exact ⟨sh, by rw [heq, Function.update_of_ne he, hsh], List.prefix_rfl⟩

theorem shells_grow_after {before after : List (State P × Act)} {e : State P × Act}
    (h : (slotSystem P cap foreign).Trace (before ++ e :: after) s) :
    Grown e.1.toWorld s.toWorld := by
  -- the steps after `e`, of which each keeps what the ones before have put out
  refine System.Trace.after (I := fun _ s => Grown e.1.toWorld s.toWorld) ?_ ?_ h
  · intro t _ hstep
    exact shells_grow hstep
  · intro mid t a t' _ hgrown hstep epoch sh hsh
    obtain ⟨sh₁, hsh₁, hpre⟩ := hgrown epoch sh hsh
    obtain ⟨sh₂, hsh₂, hpre'⟩ := shells_grow hstep epoch sh₁ hsh₁
    exact ⟨sh₂, hsh₂, hpre.trans hpre'⟩

theorem Evolves.shows {o : Option (Shell P)} {sh : Shell P} (h : Evolves cap a o sh)
    (ho : ∀ sh ∈ o, sh.Consistent ∧ sh.scrollback.Shows sh.stream) :
    sh.scrollback.Shows sh.stream := by
  -- `valid_size` lets nothing below two through
  have hpos : ∀ cols rows, 0 < (validSize cols rows).1 ∧ 0 < (validSize cols rows).2 :=
    fun cols rows => ⟨lt_max_of_lt_left two_pos, lt_max_of_lt_left two_pos⟩
  cases h with
  | spawn => exact Scrollback.shows_new cap (hpos _ _).1 (hpos _ _).2
  | output =>
    rw [Shell.stream_readChunk]
    exact (ho _ rfl).2.push _
  | exit => exact (ho _ rfl).2
  | resize => exact (ho _ rfl).2.resize (hpos _ _).1 (hpos _ _).2
  | redraw => exact ((ho _ rfl).2.screenSnapshot (ho _ rfl).1).1

theorem slotInv_of_trace (h : (slotSystem P cap foreign).Trace past s) : SlotInv foreign s := by
  refine System.Trace.invariant (I := fun _ s => SlotInv foreign s) ?_ ?_ h
  · intro s hinit
    exact slotInv_init hinit
  · intro past s a s' _ hinv hstep
    exact hinv.step hstep

/-- All screens render their streams. -/
theorem shows_of_trace (h : (slotSystem P cap foreign).Trace past s) {epoch : ℕ} {sh : Shell P}
    (hsh : s.shells epoch = some sh) : sh.scrollback.Shows sh.stream := by
  suffices hall : ∀ epoch sh, s.shells epoch = some sh → sh.scrollback.Shows sh.stream from
    hall epoch sh hsh
  refine System.Trace.invariant (I := fun _ s =>
    ∀ epoch sh, s.shells epoch = some sh → sh.scrollback.Shows sh.stream) ?_ ?_ h
  · rintro s ⟨hnone, _, _⟩ epoch sh hsh
    rw [hnone] at hsh
    cases hsh
  · intro past s a s' htrace hbefore hstep epoch sh hsh
    obtain heq | ⟨epoch', sh', hev, heq⟩ := slotStep_shells hstep
    · exact hbefore epoch sh (heq ▸ hsh)
    · by_cases he : epoch = epoch'
      · subst he
        rw [heq, Function.update_self, Option.some.injEq] at hsh
        subst hsh
        refine hev.shows fun sh₀ hsh₀ => ?_
        exact ⟨(slotInv_of_trace htrace).consistent epoch sh₀ hsh₀, hbefore epoch sh₀ hsh₀⟩
      · rw [heq, Function.update_of_ne he] at hsh
        exact hbefore epoch sh hsh

/-! ## The clients -/

/-- What a step does to the frames a client has coming: at most one is queued, and the connection
loop or the forward task takes new ones in hand once there are none left. -/
inductive Effect (c : ℕ) (s : State P) (a : Act) (s' : State P) : Prop
  | same (hq : queues c (s, a) = none) (ha : a ≠ .redraw c) (hcoming : coming c s' = coming c s)
      (htarget : target c s' = target c s)
  | clear (hq : queues c (s, a) = none) (ha : Detaches c a) (hcoming : coming c s' = [])
      (htarget : target c s' = none)
  | queue (f : Frame) (hq : queues c (s, a) = some f) (ha : a ≠ .redraw c)
      (hcoming : coming c s = f :: coming c s') (htarget : target c s' = target c s)
  | attach (mode : AttachMode) (epoch base : ℕ) (init : List UInt8) (sh : Shell P)
      (hq : queues c (s, a) = none) (ha : Detaches c a) (hnil : coming c s = [])
      (hsh : s'.shells epoch = some sh) (hbase : base ≤ sh.stream.length)
      (hcoming : coming c s' = [.hello mode epoch base init, .data (sh.stream.drop base)])
      (htarget : target c s' = some (epoch, sh.output.sent.length))
  | receive (epoch rx : ℕ) (sh : Shell P) (hq : queues c (s, a) = none) (hnil : coming c s = [])
      (hsh : s.shells epoch = some sh) (hrx : target c s = some (epoch, rx))
      (hlt : rx < sh.output.sent.length) (hcoming : coming c s' = [.data sh.output.sent[rx]])
      (htarget : target c s' = some (epoch, rx + 1))
  | redraw (epoch rx : ℕ) (sh : Shell P) (hq : queues c (s, a) = none) (ha : a = .redraw c)
      (hnil : coming c s = []) (hsh : s.shells epoch = some sh)
      (hrx : target c s = some (epoch, rx))
      (hcoming : coming c s' = (sh.output.sent.drop rx).map Frame.data ++
        [.redraw sh.scrollback.size.1 sh.scrollback.size.2 sh.scrollback.screenSnapshot.1])
      (htarget : target c s' = some (epoch, sh.output.sent.length))
  | close (reason : Reason) (hq : queues c (s, a) = none)
      (hrefused : target c s = none → Detaches c a ∧ reason = .error) (hnil : coming c s = [])
      (hcoming : coming c s' = [.closed reason]) (htarget : target c s' = none)

theorem Effect.other (hq : queues c (s, a) = none) (ha : a ≠ .redraw c)
    (hpeer : s'.peers c = s.peers c) : Effect c s a s' :=
  .same hq ha (by rw [coming, coming, hpeer]) (by rw [target, target, hpeer])

omit [Vt100 P] in
/-- Taking new frames in hand: before, nothing was coming. -/
theorem coming_of_selecting (hinv : SlotInv foreign s) (hconn : (s.peers c).conn = some conn)
    (hsel : conn.selecting = some fwd) :
    coming c s = [] ∧ target c s = some (fwd.epoch, fwd.rx) ∧ conn.phase.frames = [] := by
  obtain ⟨hfwd, hhand, hlast⟩ := Conn.selecting_eq_some hsel
  have hqueue := ((hinv.peers c).conn conn hconn).not_queueing hfwd
  have hframes : conn.phase.frames = [] ∧ conn.target = some (fwd.epoch, fwd.rx) := by
    cases hphase : conn.phase with
    | queueing frames forward => exact absurd hphase (hqueue frames forward)
    | reading => simp [Phase.frames, Conn.target, hphase, hfwd, hlast]
    | stopping => simp [Phase.frames, Conn.target, hphase, hfwd, hlast]
  refine ⟨?_, (target_eq hconn).trans hframes.2, hframes.1⟩
  rw [coming_eq hconn, hframes.1, hfwd]
  exact hhand

omit [Vt100 P] in
/-- What is coming from a forward task with new frames in hand. -/
theorem coming_setForward (hinv : SlotInv foreign s) (hconn : (s.peers c).conn = some conn)
    (hsel : conn.selecting = some fwd) (t : State P) (fwd' : Forward) :
    coming c (t.setConn c (some { conn with forward := some fwd' })) = fwd'.hand ∧
      target c (t.setConn c (some { conn with forward := some fwd' })) =
        if fwd'.last then none else some (fwd'.epoch, fwd'.rx) := by
  obtain ⟨hfwd, _, _⟩ := Conn.selecting_eq_some hsel
  have hqueue := ((hinv.peers c).conn conn hconn).not_queueing hfwd
  rw [coming_eq (conn_setConn t c _), target_eq (conn_setConn t c _)]
  cases hphase : conn.phase with
  | queueing frames forward => exact absurd hphase (hqueue frames forward)
  | reading => exact ⟨rfl, rfl⟩
  | stopping => exact ⟨rfl, rfl⟩

/-- A redraw takes the drained frames and the snapshot in hand, or closes the channel. -/
theorem redraw_coming (hinv : SlotInv foreign s)
    (hs : slotStep cap foreign s (.redraw c) = some s') :
    ∃ epoch rx sh, coming c s = [] ∧ target c s = some (epoch, rx) ∧ s.shells epoch = some sh ∧
      ((sh.output.capacity < sh.output.sent.length - rx ∧
          coming c s' = [.closed .error] ∧ target c s' = none) ∨
        (¬ sh.output.capacity < sh.output.sent.length - rx ∧
          coming c s' = (sh.output.sent.drop rx).map Frame.data ++
            [.redraw sh.scrollback.size.1 sh.scrollback.size.2 sh.scrollback.screenSnapshot.1] ∧
          target c s' = some (epoch, sh.output.sent.length))) := by
  obtain ⟨conn, hconn, hbind⟩ := Option.bind_eq_some_iff.mp hs
  obtain ⟨fwd, hsel, hbind⟩ := Option.bind_eq_some_iff.mp hbind
  obtain ⟨sh, hsh, hsome⟩ := Option.bind_eq_some_iff.mp hbind
  obtain ⟨hnil, htarget, _⟩ := coming_of_selecting hinv hconn hsel
  have hle : fwd.rx ≤ sh.output.sent.length := by
    obtain ⟨sh₁, hsh₁, hle, _⟩ := ((hinv.peers c).conn conn hconn).target_of_selecting hsel
    obtain rfl := Option.some.inj (hsh.symm.trans hsh₁)
    exact hle
  refine ⟨fwd.epoch, fwd.rx, sh, hnil, htarget, hsh, ?_⟩
  -- a drain that does not lag at once does not lag at all: the reader thread is locked out
  by_cases hlag : sh.output.capacity < sh.output.sent.length - fwd.rx
  · obtain ⟨_, htry⟩ | ⟨hno, _⟩ := sh.output.tryRecv_cases fwd.rx
    · refine .inl ⟨hlag, ?_⟩
      rw [Shell.redraw, Broadcast.Channel.drain_of_lagged htry] at hsome
      obtain rfl := Option.some.inj hsome
      exact coming_setForward hinv hconn hsel _ _
    · exact absurd hlag hno
  · refine .inr ⟨hlag, ?_⟩
    rw [Shell.redraw, Broadcast.Channel.drain_of_not_lagged hle hlag] at hsome
    obtain rfl := Option.some.inj hsome
    exact coming_setForward hinv hconn hsel _ _

/-- On an overrun receiver, all that a redraw leads to is the end of the channel. -/
theorem coming_of_overrun (hinv : SlotInv foreign s)
    (hs : slotStep cap foreign s (.redraw c) = some s') (hover : Overrun c s) :
    coming c s' = [.closed .error] ∧ target c s' = none := by
  obtain ⟨epoch, rx, sh, _, htarget, hsh, ⟨_, hclosed⟩ | ⟨hnot, _⟩⟩ := redraw_coming hinv hs
  · exact hclosed
  · obtain ⟨t, ht, sh', hsh', hlag⟩ := hover
    obtain rfl : (epoch, rx) = t := Option.some.inj (htarget.symm.trans ht)
    obtain rfl := Option.some.inj (hsh.symm.trans hsh')
    exact absurd hlag hnot

theorem attachStep_effect (hinv : SlotInv foreign s) {cols rows : ℕ} {spawn : Option ℕ}
    (hs : attachStep cap foreign s c (validSize cols rows).1 (validSize cols rows).2 spawn =
      some s') :
    Effect c s (.attach c cols rows spawn) s' := by
  obtain ⟨conn, hconn, hmatch⟩ := Option.bind_eq_some_iff.mp hs
  -- whatever the shell, the seam is that of its attachment
  have hseam : ∀ {t : State P} {epoch : ℕ} {sh : Shell P} (resume : Option (ℕ × ℕ)),
      coming c s = [] → conn.forward = none → t.shells epoch = some sh → sh.Consistent →
      Effect c s (.attach c cols rows spawn)
        (t.setConn c (some (conn.attached (attachment epoch sh resume)))) := by
    intro t epoch sh resume hnil hforward hsh hcons
    obtain ⟨hepoch, hrx, hbase, hreplay, _⟩ := attachment_cases hcons epoch resume
    generalize attachment epoch sh resume = att at *
    refine .attach att.mode epoch att.baseOffset att.init sh rfl rfl hnil hsh hbase ?_ ?_
    · rw [coming_eq (conn_setConn t c _), ← hepoch, ← hreplay]
      show [att.hello, .data att.replay] ++ conn.forward.elim [] Forward.hand = _
      rw [hforward]
      rfl
    · rw [target_eq (conn_setConn t c _), ← hepoch, ← hrx]
      rfl
  split at hmatch
  case h_2 => cases hmatch
  case h_1 resume hphase hforward =>
    have hnil : coming c s = [] := by
      rw [coming_eq hconn, hphase, hforward]
      rfl
    split at hmatch
    case h_1 epoch sh hrun =>
      obtain rfl := Option.some.inj hmatch
      have hsh : s.shells epoch = some sh := World.running_eq_some hrun
      exact hseam resume hnil hforward hsh (hinv.consistent epoch sh hsh)
    case h_2 =>
      obtain rfl := Option.some.inj hmatch
      refine .clear rfl rfl ?_ ?_
      · rw [coming, conn_setConn]
        rfl
      · rw [target, conn_setConn]
        rfl
    case h_3 =>
      obtain rfl := Option.some.inj hmatch
      refine .close .error rfl (fun _ => ⟨rfl, rfl⟩) hnil ?_ ?_
      · rw [coming_eq (conn_setConn s c _), hforward]
        rfl
      · rw [target_eq (conn_setConn s c _)]
        rfl
    case h_4 epoch _ _ =>
      rw [Option.ite_none_right_eq_some] at hmatch
      obtain rfl := Option.some.inj hmatch.2
      refine hseam resume hnil hforward ?_ (Shell.consistent_spawn cap _ _)
      show Function.update s.shells epoch _ epoch = _
      rw [Function.update_self]

theorem attachStep_peers {cols rows : ℕ} {spawn : Option ℕ}
    (hs : attachStep cap foreign s c' cols rows spawn = some s') (hc : c ≠ c') :
    s'.peers c = s.peers c := by
  obtain ⟨conn, hconn, hmatch⟩ := Option.bind_eq_some_iff.mp hs
  split at hmatch
  case h_2 => cases hmatch
  split at hmatch
  case h_4 =>
    rw [Option.ite_none_right_eq_some] at hmatch
    obtain rfl := Option.some.inj hmatch.2
    exact peers_setPeer_of_ne _ hc _
  all_goals
    obtain rfl := Option.some.inj hmatch
    exact peers_setPeer_of_ne s hc _

/-- The connection loop queues a frame, or spawns the forward task after the last one. -/
theorem queue_effect (hinv : SlotInv foreign s) {conn' : Conn}
    (hconn : (s.peers c).conn = some conn) (hq : conn.queue = some conn') :
    Effect c s (.queue c) (s.setConn c (some conn')) := by
  have hexcl := ((hinv.peers c).conn conn hconn).exclusive
  have hqueues : queues c (s, .queue c) = conn.phase.frames.head? := by
    show (if c = c then (s.peers c).conn.bind _ else none) = _
    rw [if_pos rfl, hconn]
    rfl
  rw [Conn.queue] at hq
  split at hq
  case h_1 f frames forward hphase =>
    obtain rfl := Option.some.inj hq
    refine .queue f (by rw [hqueues, hphase]; rfl) (by simp) ?_ ?_
    · rw [coming_eq hconn, coming_eq (conn_setConn s c _), hphase]
      rfl
    · rw [target_eq hconn, target_eq (conn_setConn s c _), Conn.target, Conn.target, hphase]
  case h_2 epoch rx hphase =>
    -- the forward task is spawned with the receiver that was the target all along
    obtain rfl := Option.some.inj hq
    refine .same (by rw [hqueues, hphase]; rfl) (by simp) ?_ ?_
    · rw [coming_eq hconn, coming_eq (conn_setConn s c _), hphase, hexcl [] _ hphase]
      rfl
    · rw [target_eq hconn, target_eq (conn_setConn s c _), Conn.target, Conn.target, hphase]
      rfl
  case h_3 hphase =>
    obtain rfl := Option.some.inj hq
    refine .same (by rw [hqueues, hphase]; rfl) (by simp) ?_ ?_
    · rw [coming_eq hconn, coming_eq (conn_setConn s c _), hphase]
      rfl
    · rw [target_eq hconn, target_eq (conn_setConn s c _), Conn.target, Conn.target, hphase,
        hexcl [] none hphase]
      rfl
  case h_4 => cases hq

/-- The forward task queues a frame, or ends after the last one. -/
theorem queueHand_effect (hinv : SlotInv foreign s) {conn' : Conn}
    (hconn : (s.peers c).conn = some conn) (hq : conn.queueHand = some conn') :
    Effect c s (.queueHand c) (s.setConn c (some conn')) := by
  obtain ⟨fwd, hfwd, hmatch⟩ := Option.bind_eq_some_iff.mp hq
  have hqueue := ((hinv.peers c).conn conn hconn).not_queueing hfwd
  have hframes : conn.phase.frames = [] := by
    cases hphase : conn.phase with
    | queueing frames forward => exact absurd hphase (hqueue frames forward)
    | reading => rfl
    | stopping => rfl
  have htarget : ∀ forward, ({ conn with forward := forward } : Conn).target =
      forward.bind fun fwd => if fwd.last then none else some (fwd.epoch, fwd.rx) := by
    intro forward
    cases hphase : conn.phase with
    | queueing frames forward => exact absurd hphase (hqueue frames forward)
    | reading => rfl
    | stopping => rfl
  have hqueues : queues c (s, .queueHand c) = fwd.hand.head? := by
    show (if c = c then (s.peers c).conn.bind _ else none) = _
    rw [if_pos rfl, hconn, Option.bind_some, hfwd]
    rfl
  have hbefore : conn.target = if fwd.last then none else some (fwd.epoch, fwd.rx) := by
    refine (htarget conn.forward).trans ?_
    rw [hfwd]
    rfl
  split at hmatch
  next f hand hhand =>
    obtain rfl := Option.some.inj hmatch
    refine .queue f (by rw [hqueues, hhand]; rfl) (by simp) ?_ ?_
    · rw [coming_eq hconn, coming_eq (conn_setConn s c _), hframes, hfwd, Option.elim_some, hhand]
      rfl
    · rw [target_eq hconn, target_eq (conn_setConn s c _), hbefore]
      exact htarget _
  next hhand =>
    -- a task that ends after its last frame has had no target since it took that in hand
    rw [Option.ite_none_right_eq_some] at hmatch
    obtain ⟨hlast, hsome⟩ := hmatch
    obtain rfl := Option.some.inj hsome
    refine .same (by rw [hqueues, hhand]; rfl) (by simp) ?_ ?_
    · rw [coming_eq hconn, coming_eq (conn_setConn s c _), hframes, hfwd, Option.elim_some, hhand]
      rfl
    · rw [target_eq hconn, target_eq (conn_setConn s c _), hbefore, htarget, hlast]
      rfl

/-- Every step, as any client sees it. -/
theorem slotStep_effect (hinv : SlotInv foreign s) (hs : slotStep cap foreign s a = some s')
    (c : ℕ) : Effect c s a s' := by
  cases a with
  | output epoch chunk =>
    obtain ⟨sh, _, hsome⟩ := Option.bind_eq_some_iff.mp hs
    rw [Option.ite_none_right_eq_some] at hsome
    obtain rfl := Option.some.inj hsome.2
    exact .other rfl (by simp) rfl
  | exit epoch =>
    obtain ⟨sh, _, hsome⟩ := Option.bind_eq_some_iff.mp hs
    obtain rfl := Option.some.inj hsome
    exact .other rfl (by simp) rfl
  | resize epoch cols rows =>
    obtain ⟨sh, _, hsome⟩ := Option.bind_eq_some_iff.mp hs
    obtain rfl := Option.some.inj hsome
    exact .other rfl (by simp) rfl
  | reset =>
    obtain rfl := Option.some.inj hs
    exact .other rfl (by simp) rfl
  | connect c' =>
    obtain rfl := Option.some.inj hs
    by_cases hc : c = c'
    · subst hc
      refine .clear rfl rfl ?_ ?_
      · simp [coming, State.setPeer, Conn.mux, Phase.frames]
      · simp [target, State.setPeer, Conn.mux, Conn.target]
    · exact .other rfl (by simp) (peers_setPeer_of_ne s hc _)
  | connectView c' carry =>
    obtain rfl := Option.some.inj hs
    by_cases hc : c = c'
    · subst hc
      refine .clear rfl rfl ?_ ?_
      · simp [coming, State.setPeer, Conn.mux, Phase.frames]
      · simp [target, State.setPeer, Conn.mux, Conn.target]
    · exact .other rfl (by simp) (peers_setPeer_of_ne s hc _)
  | drop c' =>
    obtain rfl := Option.some.inj hs
    by_cases hc : c = c'
    · subst hc
      refine .clear rfl rfl ?_ ?_
      · rw [coming, conn_setConn]
        rfl
      · rw [target, conn_setConn]
        rfl
    · exact .other rfl (by simp) (peers_setPeer_of_ne s hc _)
  | sendOpen c' carry =>
    obtain ⟨conn, hconn, hsome⟩ := Option.bind_eq_some_iff.mp hs
    rw [Option.ite_none_right_eq_some] at hsome
    obtain rfl := Option.some.inj hsome.2
    by_cases hc : c = c'
    · subst hc
      refine .same rfl (by simp) ?_ ?_
      · rw [coming_eq hconn]
        simp [coming, State.setPeer]
      · rw [target_eq hconn]
        simp [target, State.setPeer, Conn.target]
    · exact .other rfl (by simp) (peers_setPeer_of_ne s hc _)
  | readOpen c' =>
    obtain ⟨conn, hconn, hmatch⟩ := Option.bind_eq_some_iff.mp hs
    split at hmatch
    case h_2 => cases hmatch
    case h_1 resume opens hphase _ =>
      obtain rfl := Option.some.inj hmatch
      by_cases hc : c = c'
      · subst hc
        refine .same rfl (by simp) ?_ ?_
        · rw [coming_eq hconn, coming_eq (conn_setConn s c _), hphase]
          rfl
        · rw [target_eq hconn, target_eq (conn_setConn s c _), Conn.target, Conn.target, hphase]
      · exact .other rfl (by simp) (peers_setPeer_of_ne s hc _)
  | endForward c' =>
    obtain ⟨conn, hconn, hsome⟩ := Option.bind_eq_some_iff.mp hs
    obtain rfl := Option.some.inj hsome
    by_cases hc : c = c'
    · subst hc
      -- while the connection loop queues frames there is no forward task to end
      cases hphase : conn.phase with
      | queueing frames forward =>
        have hforward := ((hinv.peers c).conn conn hconn).exclusive frames forward hphase
        refine .same rfl (by simp) ?_ ?_
        · rw [coming_eq hconn, coming_eq (conn_setConn s c _), hforward, hphase]
        · rw [target_eq hconn, target_eq (conn_setConn s c _), Conn.target, Conn.target, hphase]
      | reading =>
        refine .clear rfl rfl ?_ ?_
        · rw [coming_eq (conn_setConn s c _)]
          rfl
        · rw [target_eq (conn_setConn s c _)]
          rfl
      | stopping =>
        refine .clear rfl rfl ?_ ?_
        · rw [coming_eq (conn_setConn s c _)]
          rfl
        · rw [target_eq (conn_setConn s c _)]
          rfl
    · exact .other rfl (by simp) (peers_setPeer_of_ne s hc _)
  | attach c' cols rows spawn =>
    by_cases hc : c = c'
    · subst hc
      exact attachStep_effect hinv hs
    · exact .other rfl (by simp) (attachStep_peers hs hc)
  | queue c' =>
    obtain ⟨conn, hconn, hbind⟩ := Option.bind_eq_some_iff.mp hs
    obtain ⟨conn', hq, hsome⟩ := Option.bind_eq_some_iff.mp hbind
    obtain rfl := Option.some.inj hsome
    by_cases hc : c = c'
    · subst hc
      exact queue_effect hinv hconn hq
    · exact .other (if_neg (Ne.symm hc)) (by simp) (peers_setPeer_of_ne s hc _)
  | receive c' =>
    obtain ⟨conn, hconn, hbind⟩ := Option.bind_eq_some_iff.mp hs
    obtain ⟨fwd, hsel, hbind⟩ := Option.bind_eq_some_iff.mp hbind
    obtain ⟨sh, hsh, hbind⟩ := Option.bind_eq_some_iff.mp hbind
    obtain ⟨fwd', hrecv, hsome⟩ := Option.bind_eq_some_iff.mp hbind
    obtain rfl := Option.some.inj hsome
    by_cases hc : c = c'
    · subst hc
      obtain ⟨hnil, hrx, _⟩ := coming_of_selecting hinv hconn hsel
      obtain ⟨hcoming, htarget⟩ := coming_setForward hinv hconn hsel s fwd'
      obtain ⟨_, hlag⟩ | ⟨_, ⟨hlt, hvalue⟩ | ⟨_, hempty⟩⟩ := sh.output.tryRecv_cases fwd.rx
      · rw [Forward.receive, hlag, Option.some.injEq] at hrecv
        subst hrecv
        refine .close .error rfl (fun hnone => ?_) hnil hcoming htarget
        rw [hrx] at hnone
        cases hnone
      · obtain ⟨_, _, hlast⟩ := Conn.selecting_eq_some hsel
        rw [Forward.receive, hvalue, Option.some.injEq] at hrecv
        subst hrecv
        refine .receive fwd.epoch fwd.rx sh rfl hnil hsh hrx hlt hcoming ?_
        rw [htarget, hlast]
        rfl
      · rw [Forward.receive, hempty] at hrecv
        cases hrecv
    · exact .other rfl (by simp) (peers_setPeer_of_ne s hc _)
  | redraw c' =>
    by_cases hc : c = c'
    · subst hc
      obtain ⟨epoch, rx, sh, hnil, hrx, hsh, ⟨_, hclosed, htarget⟩ | ⟨_, hdrawn, htarget⟩⟩ :=
        redraw_coming hinv hs
      · refine .close .error rfl (fun hnone => ?_) hnil hclosed htarget
        rw [hrx] at hnone
        cases hnone
      · exact .redraw epoch rx sh rfl rfl hnil hsh hrx hdrawn htarget
    · obtain ⟨conn, _, hbind⟩ := Option.bind_eq_some_iff.mp hs
      obtain ⟨fwd, _, hbind⟩ := Option.bind_eq_some_iff.mp hbind
      obtain ⟨sh, _, hsome⟩ := Option.bind_eq_some_iff.mp hbind
      obtain rfl := Option.some.inj hsome
      exact .other rfl (fun heq => hc (Act.redraw.inj heq).symm) (peers_setPeer_of_ne _ hc _)
  | shutdown c' =>
    obtain ⟨conn, hconn, hbind⟩ := Option.bind_eq_some_iff.mp hs
    obtain ⟨fwd, hsel, hbind⟩ := Option.bind_eq_some_iff.mp hbind
    obtain ⟨sh, _, hsome⟩ := Option.bind_eq_some_iff.mp hbind
    rw [Option.ite_none_right_eq_some] at hsome
    obtain rfl := Option.some.inj hsome.2
    by_cases hc : c = c'
    · subst hc
      obtain ⟨hnil, hrx, _⟩ := coming_of_selecting hinv hconn hsel
      obtain ⟨hcoming, htarget⟩ := coming_setForward hinv hconn hsel s
        { fwd with hand := [.closed .exit], last := true }
      refine .close .exit rfl (fun hnone => ?_) hnil hcoming htarget
      rw [hrx] at hnone
      cases hnone
    · exact .other rfl (by simp) (peers_setPeer_of_ne s hc _)
  | queueHand c' =>
    obtain ⟨conn, hconn, hbind⟩ := Option.bind_eq_some_iff.mp hs
    obtain ⟨conn', hq, hsome⟩ := Option.bind_eq_some_iff.mp hbind
    obtain rfl := Option.some.inj hsome
    by_cases hc : c = c'
    · subst hc
      exact queueHand_effect hinv hconn hq
    · exact .other (if_neg (Ne.symm hc)) (by simp) (peers_setPeer_of_ne s hc _)
  | deliver c' =>
    obtain ⟨conn, hconn, hmatch⟩ := Option.bind_eq_some_iff.mp hs
    split at hmatch
    case h_2 => cases hmatch
    case h_1 f wire hwire =>
      obtain rfl := Option.some.inj hmatch
      by_cases hc : c = c'
      · subst hc
        refine .same rfl (by simp) ?_ ?_
        · rw [coming_eq hconn]
          simp [coming, State.setPeer]
        · rw [target_eq hconn]
          simp [target, State.setPeer, Conn.target]
      · exact .other rfl (by simp) (peers_setPeer_of_ne s hc _)

end

end Webshell.Snapshot
