import Webshell.Pty.Queued

/-!
# Redraws

A redraw is taken in one critical section and its frames are queued one by one, with anything in
between: output, resizes, redraws of other clients of the shell. What was served before such a
frame ends where its snapshot was taken, and what is served after it begins there.

## Main definitions

- `ClientInv`: the frames queued and coming, against the stream and the last redraw
- `Seamless`: a redraw frame's place in the stream

## Main results

- `ClientInv.step`: every step keeps the invariant
- `redraw_consistent`: every redraw is consistent with the stream
-/

namespace Webshell.Snapshot

open Transition

variable {P : Type} [Vt100 P] {cap : ℕ} {foreign : List ℕ} {c : ℕ} {s s' : State P} {a : Act}
  {past : List (State P × Act)}

/-! ## The invariant -/

/-- The snapshot is the one last taken for the client, of the shell and at the place where its
receiver has stood since. -/
def Drawn (c : ℕ) (past : List (State P × Act)) (t : Option (ℕ × ℕ)) (cols rows : ℕ)
    (screen : List UInt8) : Prop :=
  ∃ pre u mid epoch sh, past = pre ++ (u, .redraw c) :: mid ∧ (∀ e ∈ mid, e.2 ≠ .redraw c) ∧
    u.shells epoch = some sh ∧ sh.scrollback.size = (cols, rows) ∧
    sh.scrollback.screenSnapshot.1 = screen ∧ t = some (epoch, sh.output.sent.length)

theorem Drawn.snoc {t : Option (ℕ × ℕ)} {cols rows : ℕ} {screen : List UInt8}
    (h : Drawn c past t cols rows screen) (ha : a ≠ .redraw c) :
    Drawn c (past ++ [(s, a)]) t cols rows screen := by
  obtain ⟨pre, u, mid, epoch, sh, rfl, hmid, hrest⟩ := h
  refine ⟨pre, u, mid ++ [(s, a)], epoch, sh, by rw [List.append_assoc]; rfl, ?_, hrest⟩
  intro e he
  obtain he | he := List.mem_append.mp he
  · exact hmid e he
  · rw [List.mem_singleton.mp he]
    exact ha

/-- What was queued for a client and is about to be, after some steps. -/
structure ClientInv (c : ℕ) (past : List (State P × Act)) (s : State P) : Prop where
  unbroken : Unbroken s.toWorld (queued c past ++ coming c s)
  stands : ∀ t ∈ target c s, Stands s.toWorld (queued c past ++ coming c s) t
  /-- A redraw comes last, behind nothing but data. -/
  drawn : ∀ cols rows screen, .redraw cols rows screen ∈ coming c s →
    (∃ chunks : List (List UInt8),
        coming c s = chunks.map Frame.data ++ [.redraw cols rows screen]) ∧
      Drawn c past (target c s) cols rows screen

omit [Vt100 P] in
theorem queued_append (a b : List (State P × Act)) : queued c (a ++ b) = queued c a ++ queued c b :=
  List.filterMap_append

omit [Vt100 P] in
theorem queued_of_none (hq : queues c (s, a) = none) :
    queued c (past ++ [(s, a)]) = queued c past := by
  rw [queued_append, queued, queued, List.filterMap_cons_none hq, List.filterMap_nil,
    List.append_nil]

omit [Vt100 P] in
theorem queued_of_some {f : Frame} (hq : queues c (s, a) = some f) :
    queued c (past ++ [(s, a)]) = queued c past ++ [f] := by
  rw [queued_append, queued, queued, List.filterMap_cons_some hq, List.filterMap_nil]

theorem clientInv_init (h : (slotSystem P cap foreign).init s) : ClientInv c [] s := by
  have hconn : (s.peers c).conn = none := (h.2.2 c).1
  have hcoming : coming c s = [] := by
    rw [coming, hconn]
    rfl
  refine ⟨?_, ?_, ?_⟩
  · intro part hpart v hv
    rw [hcoming] at hpart
    rw [List.prefix_nil.mp hpart] at hv
    cases hv
  · intro t ht
    rw [target, hconn] at ht
    cases ht
  · intro cols rows screen hmem
    rw [hcoming] at hmem
    cases hmem

/-- **Step lemma**: every step keeps the frames of a client in agreement with the stream. -/
theorem ClientInv.step (h : ClientInv c past s) (hinv : SlotInv foreign s)
    (hs : slotStep cap foreign s a = some s') : ClientInv c (past ++ [(s, a)]) s' := by
  have hw : Grown s.toWorld s'.toWorld := shells_grow hs
  have hunbroken := h.unbroken.mono hw
  have hstands : ∀ t ∈ target c s, Stands s'.toWorld (queued c past ++ coming c s) t :=
    fun t ht => (h.stands t ht).mono hw
  cases slotStep_effect hinv hs c with
  | same hq ha hcoming htarget =>
    refine ⟨?_, ?_, ?_⟩
    · rw [queued_of_none hq, hcoming]
      exact hunbroken
    · rw [queued_of_none hq, hcoming, htarget]
      exact hstands
    · rw [hcoming, htarget]
      intro cols rows screen hmem
      obtain ⟨hlast, hdrawn⟩ := h.drawn cols rows screen hmem
      exact ⟨hlast, hdrawn.snoc ha⟩
  | clear hq _ hcoming htarget =>
    refine ⟨?_, ?_, ?_⟩
    · rw [queued_of_none hq, hcoming, List.append_nil]
      exact hunbroken.of_prefix (List.prefix_append _ _)
    · rw [htarget]
      exact fun t ht => by cases ht
    · rw [hcoming]
      intro cols rows screen hmem
      cases hmem
  | queue f hq ha hcoming htarget =>
    -- the frame only moves over
    have hall : queued c (past ++ [(s, a)]) ++ coming c s' = queued c past ++ coming c s := by
      rw [queued_of_some hq, hcoming, List.append_assoc]
      rfl
    refine ⟨?_, ?_, ?_⟩
    · rw [hall]
      exact hunbroken
    · rw [hall, htarget]
      exact hstands
    · intro cols rows screen hmem
      obtain ⟨⟨chunks, hlast⟩, hdrawn⟩ := h.drawn cols rows screen
        (by rw [hcoming]; exact List.mem_cons_of_mem f hmem)
      refine ⟨?_, htarget ▸ hdrawn.snoc ha⟩
      rw [hcoming] at hlast
      cases chunks with
      | nil =>
        obtain ⟨_, hnil⟩ := List.cons_eq_cons.mp hlast
        rw [hnil] at hmem
        cases hmem
      | cons chunk chunks => exact ⟨chunks, (List.cons_eq_cons.mp hlast).2⟩
  | attach mode epoch base init sh hq _ hnil hsh hbase hcoming htarget =>
    -- the hello starts over, and the replay goes up to the new receiver
    rw [hnil, List.append_nil] at hunbroken
    have hall : queued c (past ++ [(s, a)]) ++ coming c s' =
        (queued c past ++ [.hello mode epoch base init]) ++ [.data (sh.stream.drop base)] := by
      rw [queued_of_none hq, hcoming, List.append_assoc]
      rfl
    have hreplay : Stands s'.toWorld ((queued c past ++ [.hello mode epoch base init]) ++
        [.data (sh.stream.drop base)]) (epoch, sh.output.sent.length) := by
      refine ⟨sh, base, hsh, le_rfl, ?_, ?_⟩
      · rw [List.take_length]
        exact hbase
      · have hdata : helloModes [.data (sh.stream.drop base)] = [] := rfl
        rw [List.take_length, served_append hdata, served_hello]
        show some (⟨epoch, base, [] ++ ([Frame.data (sh.stream.drop base)].flatMap _)⟩ : Served) = _
        simp [Shell.stream]
    refine ⟨?_, ?_, ?_⟩
    · rw [hall]
      exact (hunbroken.hello hsh hbase mode init).append_of_stands rfl hreplay
    · rw [hall, htarget]
      rintro t ⟨⟩
      exact hreplay
    · rw [hcoming]
      intro cols rows screen hmem
      simp at hmem
  | receive epoch rx sh hq hnil hsh hrx hlt hcoming htarget =>
    have hbefore := h.stands (epoch, rx) hrx
    rw [hnil, List.append_nil] at hunbroken hbefore
    have hdata : dataBytes [.data sh.output.sent[rx]] =
        ((sh.output.sent.take (rx + 1)).drop rx).flatten := by
      rw [List.drop_take_succ_eq_cons_getElem _ _ hlt]
      rfl
    have hafter := (hbefore.data hsh (Nat.le_add_right rx 1) hlt rfl hdata).mono hw
    refine ⟨?_, ?_, ?_⟩
    · rw [queued_of_none hq, hcoming]
      exact hunbroken.append_of_stands rfl hafter
    · rw [queued_of_none hq, hcoming, htarget]
      rintro t ⟨⟩
      exact hafter
    · rw [hcoming]
      intro cols rows screen hmem
      simp at hmem
  | redraw epoch rx sh hq ha hnil hsh hrx hcoming htarget =>
    subst ha
    -- the drained frames are the data between the receiver and the end of the stream
    have hbefore := h.stands (epoch, rx) hrx
    rw [hnil, List.append_nil] at hunbroken hbefore
    have hle : rx ≤ sh.output.sent.length := by
      obtain ⟨sh₁, _, hsh₁, hle, _⟩ := hbefore
      obtain rfl := Option.some.inj (hsh.symm.trans hsh₁)
      exact hle
    have hnew : helloModes (coming c s') = [] := by
      rw [hcoming, helloModes_append, helloModes_data]
      rfl
    have hdata : dataBytes (coming c s') =
        ((sh.output.sent.take sh.output.sent.length).drop rx).flatten := by
      rw [hcoming, dataBytes_append, dataBytes_data, List.take_length]
      exact List.append_nil _
    have hafter := (hbefore.data hsh hle le_rfl hnew hdata).mono hw
    refine ⟨?_, ?_, ?_⟩
    · rw [queued_of_none hq]
      exact hunbroken.append_of_stands hnew hafter
    · rw [queued_of_none hq, htarget]
      rintro t ⟨⟩
      exact hafter
    · rw [hcoming, htarget]
      intro cols rows screen hmem
      obtain hmem | hmem := List.mem_append.mp hmem
      · obtain ⟨_, _, heq⟩ := List.mem_map.mp hmem
        cases heq
      · obtain ⟨rfl, rfl, rfl⟩ := Frame.redraw.inj (List.mem_singleton.mp hmem)
        exact ⟨⟨_, rfl⟩, past, s, [], epoch, sh, rfl, by simp, hsh, rfl, rfl, rfl⟩
  | close reason hq _ hnil hcoming htarget =>
    rw [hnil, List.append_nil] at hunbroken
    refine ⟨?_, ?_, ?_⟩
    · rw [queued_of_none hq, hcoming]
      exact hunbroken.append_of_nil rfl rfl
    · rw [htarget]
      exact fun t ht => by cases ht
    · rw [hcoming]
      intro cols rows screen hmem
      simp at hmem

theorem clientInv_of_trace (h : (slotSystem P cap foreign).Trace past s) (c : ℕ) :
    ClientInv c past s := by
  refine System.Trace.invariant (I := ClientInv c) ?_ ?_ h
  · intro s hinit
    exact clientInv_init hinit
  · intro past s a s' htrace hinv hstep
    exact hinv.step (slotInv_of_trace htrace) hstep

omit [Vt100 P] in
/-- A frame that is queued is the next one coming. -/
theorem coming_of_queues (hinv : SlotInv foreign s) {f : Frame} (hq : queues c (s, a) = some f) :
    ∃ rest, coming c s = f :: rest := by
  rw [queues] at hq
  split at hq
  case h_1 c' heq =>
    rw [Option.ite_none_right_eq_some] at hq
    obtain ⟨conn, hconn, hhead⟩ := Option.bind_eq_some_iff.mp hq.2
    obtain ⟨frames, hframes⟩ := List.head?_eq_some_iff.mp hhead
    exact ⟨_, by rw [coming_eq hconn, hframes]; rfl⟩
  case h_2 c' heq =>
    rw [Option.ite_none_right_eq_some] at hq
    obtain ⟨conn, hconn, hbind⟩ := Option.bind_eq_some_iff.mp hq.2
    obtain ⟨fwd, hfwd, hhead⟩ := Option.bind_eq_some_iff.mp hbind
    obtain ⟨hand, hhand⟩ := List.head?_eq_some_iff.mp hhead
    have hqueue := ((hinv.peers c).conn conn hconn).not_queueing hfwd
    refine ⟨hand, ?_⟩
    rw [coming_eq hconn, hfwd, Option.elim_some, hhand]
    cases hphase : conn.phase with
    | queueing frames forward => exact absurd hphase (hqueue frames forward)
    | reading => rfl
    | stopping => rfl
  case h_3 => cases hq

/-! ## Redraw frames -/

/-- A redraw frame of the shell `sh`, as it stood when its snapshot was taken: queued between
`before` and `after` in a run that ends in `s`. -/
structure Seamless (c : ℕ) (before after : List (State P × Act)) (s : State P) (epoch base : ℕ)
    (sh : Shell P) (cols rows : ℕ) (screen : List UInt8) : Prop where
  total : sh.scrollback.total = sh.stream.length
  base_le : base ≤ sh.scrollback.total
  /-- What was served ends at the snapshot. -/
  before : served (queued c before) =
    some ⟨epoch, base, (sh.stream.take sh.scrollback.total).drop base⟩
  /-- The snapshot is of a screen of the frame's grid that shows all of the stream up to there. -/
  renders : ∃ p : P, Renders cols rows (sh.stream.take sh.scrollback.total) p ∧
    Vt100.contentsFormatted p = screen
  size : sh.scrollback.size = (cols, rows)
  /-- What is served from there on goes on behind the snapshot. -/
  after : ∃ sh', s.shells epoch = some sh' ∧ sh.stream <+: sh'.stream ∧
    (helloModes (queued c after) = [] →
      dataBytes (queued c after) <+: sh'.stream.drop sh.scrollback.total)

/-- A redraw frame comes from the redraw last taken, and fits the stream there. -/
theorem seamless_of_queues {before after : List (State P × Act)} {e : State P × Act}
    (h : (slotSystem P cap foreign).Trace (before ++ e :: after) s)
    {cols rows : ℕ} {screen : List UInt8}
    (hq : queues c e = some (.redraw cols rows screen)) :
    ∃ pre u mid epoch base sh, before = pre ++ (u, .redraw c) :: mid ∧
      (∀ q ∈ mid, q.2 ≠ .redraw c) ∧ u.shells epoch = some sh ∧
      Seamless c before after s epoch base sh cols rows screen := by
  have hbefore := h.before
  have hinv := clientInv_of_trace hbefore c
  -- the redraw is all that is coming, so everything taken with it has been queued
  obtain ⟨rest, hrest⟩ := coming_of_queues (slotInv_of_trace hbefore) hq
  obtain ⟨⟨chunks, hlast⟩, pre, u, mid, epoch, sh, rfl, hmid, hsh, hsize, hscreen, htarget⟩ :=
    hinv.drawn cols rows screen (hrest ▸ List.mem_cons_self)
  have hcoming : coming c e.1 = [.redraw cols rows screen] := by
    cases chunks with
    | nil => exact hlast
    | cons chunk chunks =>
      rw [hrest] at hlast
      cases (List.cons_eq_cons.mp hlast).1
  obtain ⟨shₑ, base, hshₑ, _, hbase, hserved⟩ := hinv.stands _ htarget
  obtain ⟨sh₁, hsh₁, hsent⟩ := shells_grow_after hbefore epoch sh hsh
  obtain rfl := Option.some.inj (hsh₁.symm.trans hshₑ)
  -- the shell may have put out more since, behind the place of the snapshot
  have htake : (sh₁.output.sent.take sh.output.sent.length).flatten = sh.stream := by
    rw [← List.prefix_iff_eq_take.mp hsent, Shell.stream]
  have hat : served (queued c (pre ++ (u, .redraw c) :: mid)) =
      some ⟨epoch, base, sh.stream.drop base⟩ := by
    rw [hcoming, served, List.foldl_append, htake] at hserved
    exact hserved
  rw [htake] at hbase
  have hpre : (slotSystem P cap foreign).Trace pre u := hbefore.before
  have hcons : sh.Consistent := (slotInv_of_trace hpre).consistent epoch sh hsh
  have htotal : sh.scrollback.total = sh.stream.length := hcons.total
  have hall : sh.stream.take sh.scrollback.total = sh.stream := by
    rw [htotal, List.take_length]
  refine ⟨pre, u, mid, epoch, base, sh, rfl, hmid, hsh, htotal, htotal ▸ hbase, ?_, ?_, hsize, ?_⟩
  · rw [hall]
    exact hat
  · rw [hall]
    have hshows := shows_of_trace hpre hsh
    obtain ⟨hafter, hfresh, hsame, hcontents⟩ := hshows.screenSnapshot hcons
    have hrenders := hafter.screen hfresh
    rw [hsame, hsize] at hrenders
    exact ⟨_, hrenders, hcontents.symm.trans hscreen⟩
  · obtain ⟨sh', hsh', hsent'⟩ := shells_grow_after h epoch sh₁ hsh₁
    obtain ⟨more, hmore⟩ := stream_prefix (hsent.trans hsent')
    refine ⟨sh', hsh', ⟨more, hmore⟩, fun hsame => ?_⟩
    -- without another hello, all that has been served at the end is one segment
    have hend := (clientInv_of_trace h c).unbroken (queued c _) (List.prefix_append _ _)
    have hqueued : queued c ((pre ++ (u, .redraw c) :: mid) ++ e :: after) =
        queued c (pre ++ (u, .redraw c) :: mid) ++ .redraw cols rows screen :: queued c after := by
      rw [queued_append]
      exact congrArg _ (List.filterMap_cons_some hq)
    have hserved' : served (queued c ((pre ++ (u, .redraw c) :: mid) ++ e :: after)) =
        some ⟨epoch, base, sh.stream.drop base ++ dataBytes (queued c after)⟩ := by
      have hnew : helloModes (.redraw cols rows screen :: queued c after) = [] := hsame
      rw [hqueued, served_append hnew, hat]
      rfl
    obtain ⟨sh'', hsh'', _, hbytes⟩ := hend _ hserved'
    obtain rfl := Option.some.inj (hsh'.symm.trans hsh'')
    rw [← hmore, List.drop_append_of_le_length hbase] at hbytes
    rw [← hmore, htotal, List.drop_left]
    exact (List.prefix_append_right_inj _).mp hbytes

/-! ## Overrun receivers -/

/-- What a client gets after the redraw of an overrun receiver. -/
structure Ended (c : ℕ) (after : List (State P × Act)) (s : State P) : Prop where
  only : helloModes (queued c after) = [] → ∀ f ∈ queued c after, f = .closed .error
  /-- Either the client has been attached again, or there is nothing to follow. -/
  next : helloModes (queued c after) = [] →
    (∃ f rest, coming c s = f :: rest ∧ helloModes [f] ≠ []) ∨
      (target c s = none ∧ ∀ f ∈ coming c s, f = .closed .error)
  closes : (∀ e ∈ after, ¬ Detaches c e.2) →
    queued c after ++ coming c s = [.closed .error] ∧ target c s = none

omit [Vt100 P] in
/-- A step that queues nothing. -/
theorem Ended.of_none {after : List (State P × Act)} (h : Ended c after s)
    (hq : queues c (s, a) = none)
    (hnext : helloModes (queued c after) = [] →
      (∃ f rest, coming c s' = f :: rest ∧ helloModes [f] ≠ []) ∨
        (target c s' = none ∧ ∀ f ∈ coming c s', f = .closed .error))
    (hcloses : ¬ Detaches c a → queued c after ++ coming c s = [.closed .error] →
      target c s = none → coming c s' = coming c s ∧ target c s' = none) :
    Ended c (after ++ [(s, a)]) s' := by
  refine ⟨?_, ?_, fun hno => ?_⟩
  · rw [queued_of_none hq]
    exact h.only
  · rw [queued_of_none hq]
    exact hnext
  · obtain ⟨hall, hnone⟩ := h.closes fun e he => hno e (List.mem_append_left _ he)
    have ha : ¬ Detaches c a := hno (s, a) (List.mem_append_right _ List.mem_cons_self)
    obtain ⟨hsame, htarget⟩ := hcloses ha hall hnone
    rw [queued_of_none hq, hsame]
    exact ⟨hall, htarget⟩

omit [Vt100 P] in
/-- With nothing coming, no hello is. -/
theorem Ended.target_eq_none {after : List (State P × Act)} (h : Ended c after s)
    (hnil : coming c s = []) (hno : helloModes (queued c after) = []) : target c s = none := by
  obtain ⟨f, rest, hcoming, _⟩ | ⟨hnone, _⟩ := h.next hno
  · rw [hnil] at hcoming
    cases hcoming
  · exact hnone

omit [Vt100 P] in
/-- Only a task of a new attachment selects. -/
theorem Ended.of_selecting {after : List (State P × Act)} (h : Ended c after s)
    (hq : queues c (s, a) = none) (hnil : coming c s = []) {t : ℕ × ℕ}
    (ht : target c s = some t) : Ended c (after ++ [(s, a)]) s' := by
  refine h.of_none hq (fun hno => ?_) fun _ _ hnone => ?_
  · rw [h.target_eq_none hnil hno] at ht
    cases ht
  · rw [hnone] at ht
    cases ht

theorem Ended.step {after : List (State P × Act)} (h : Ended c after s) (hinv : SlotInv foreign s)
    (hs : slotStep cap foreign s a = some s') : Ended c (after ++ [(s, a)]) s' := by
  cases slotStep_effect hinv hs c with
  | same hq _ hcoming htarget =>
    refine h.of_none hq ?_ fun _ _ hnone => ⟨hcoming, htarget.trans hnone⟩
    rw [hcoming, htarget]
    exact h.next
  | clear hq ha hcoming htarget =>
    refine h.of_none hq (fun _ => .inr ⟨htarget, ?_⟩) fun hno => absurd ha hno
    rw [hcoming]
    nofun
  | queue f hq _ hcoming htarget =>
    -- a frame that is not a hello was coming from the task that ended
    have hsplit : helloModes (queued c after ++ [f]) = [] →
        helloModes (queued c after) = [] ∧ f = .closed .error ∧ target c s = none ∧
          ∀ g ∈ coming c s', g = .closed .error := by
      intro hno
      rw [helloModes_append, List.append_eq_nil_iff] at hno
      obtain ⟨g, rest, hhead, hhello⟩ | ⟨hnone, hall⟩ := h.next hno.1
      · rw [hcoming] at hhead
        obtain ⟨rfl, _⟩ := List.cons_eq_cons.mp hhead
        exact absurd hno.2 hhello
      · rw [hcoming] at hall
        exact ⟨hno.1, hall f List.mem_cons_self, hnone,
          fun g hg => hall g (List.mem_cons_of_mem f hg)⟩
    refine ⟨?_, ?_, fun hno => ?_⟩
    · rw [queued_of_some hq]
      intro hhello g hg
      obtain ⟨hbefore, hf, _⟩ := hsplit hhello
      obtain hg | hg := List.mem_append.mp hg
      · exact h.only hbefore g hg
      · exact (List.mem_singleton.mp hg).trans hf
    · rw [queued_of_some hq, htarget]
      exact fun hhello => .inr (hsplit hhello).2.2
    · rw [queued_of_some hq, htarget, List.append_assoc, List.singleton_append, ← hcoming]
      exact h.closes fun e he => hno e (List.mem_append_left _ he)
  | attach mode epoch base init sh hq ha _ _ _ hcoming _ =>
    refine h.of_none hq (fun _ => .inl ⟨_, _, hcoming, ?_⟩) fun hno => absurd ha hno
    exact List.cons_ne_nil mode []
  | receive epoch rx sh hq hnil _ hrx => exact h.of_selecting hq hnil hrx
  | redraw epoch rx sh hq _ hnil _ hrx => exact h.of_selecting hq hnil hrx
  | close reason hq hrefused hnil hcoming htarget =>
    refine h.of_none hq (fun hno => .inr ⟨htarget, ?_⟩) fun hno _ hnone =>
      absurd (hrefused hnone).1 hno
    rw [hcoming, (hrefused (h.target_eq_none hnil hno)).2]
    exact fun f hf => List.mem_singleton.mp hf

/-- On a lag, the redraw closes the channel, and the client gets nothing else. -/
theorem ended_of_overrun {before after : List (State P × Act)} {u : State P}
    (h : (slotSystem P cap foreign).Trace (before ++ (u, .redraw c) :: after) s)
    (hover : Overrun c u) : Ended c after s := by
  refine System.Trace.after (I := Ended c) ?_ ?_ h
  · intro t ht hstep
    have hstep' : slotStep cap foreign u (.redraw c) = some t := hstep
    obtain ⟨hcoming, htarget⟩ := coming_of_overrun (slotInv_of_trace ht) hstep' hover
    refine ⟨fun _ => nofun, fun _ => .inr ⟨htarget, ?_⟩, fun _ => ⟨hcoming, htarget⟩⟩
    rw [hcoming]
    exact fun f hf => List.mem_singleton.mp hf
  · intro mid t a t' htrace hended hstep
    exact hended.step (slotInv_of_trace htrace) hstep

/-- Every redraw frame queued is the snapshot last taken for the client, and fits the stream. -/
def RedrawsSeamless (c : ℕ) (past : List (State P × Act)) (s : State P) : Prop :=
  ∀ before e after cols rows screen, past = before ++ e :: after →
    queues c e = some (.redraw cols rows screen) →
    ∃ pre u mid epoch base sh, before = pre ++ (u, .redraw c) :: mid ∧
      (∀ q ∈ mid, q.2 ≠ .redraw c) ∧ u.shells epoch = some sh ∧
      Seamless c before after s epoch base sh cols rows screen

omit [Vt100 P] in
/-- A redraw of an overrun receiver sends nothing but the end of the channel: nothing else before
the next hello, and that for certain unless the connection or the task is ended first. -/
def OverrunsClosed (c : ℕ) (past : List (State P × Act)) (s : State P) : Prop :=
  ∀ before u after, past = before ++ (u, .redraw c) :: after → Overrun c u →
    (helloModes (queued c after) = [] → ∀ f ∈ queued c after, f = .closed .error) ∧
    ((∀ e ∈ after, ¬ Detaches c e.2) → queued c after ++ coming c s = [.closed .error])

/-- **Redraws are consistent with the stream**: whatever the schedule, a redraw frame is queued
between what its snapshot shows and what comes after, and an overrun receiver gets none. -/
theorem redraw_consistent (h : (slotSystem P cap foreign).Trace past s) (c : ℕ) :
    RedrawsSeamless c past s ∧ OverrunsClosed c past s := by
  refine ⟨?_, ?_⟩
  · rintro before e after cols rows screen rfl hq
    exact seamless_of_queues h hq
  · rintro before u after rfl hover
    have hended := ended_of_overrun h hover
    exact ⟨hended.only, fun hno => (hended.closes hno).1⟩

/-! ## A run -/

/-- A resize before a redraw, and a chunk while the frames of the redraw are being queued. -/
def redrawRun : List Act :=
  [.connect 0, .sendOpen 0 false, .readOpen 0, .attach 0 80 24 (some 7), .queue 0, .queue 0,
    .queue 0, .output 7 [97], .resize 7 100 30, .redraw 0, .queueHand 0, .output 7 [98],
    .queueHand 0, .receive 0, .queueHand 0]

theorem redraw_consistent_redrawRun :
    ∃ past s, (slotSystem Unit 4 []).Trace past s ∧
      queued 0 past = [.hello .replay 7 0 [], .data [], .data [97], .redraw 100 30 [],
        .data [98]] ∧
      RedrawsSeamless 0 past s ∧ OverrunsClosed 0 past s := by
  have hrun : ((slotSystem Unit 4 []).run emptySlot redrawRun).isSome = true := by decide +kernel
  obtain ⟨s, hs⟩ := Option.isSome_iff_exists.mp hrun
  have hinit : (slotSystem Unit 4 []).Trace [] emptySlot := .init init_emptySlot
  have htrace := hinit.run_steps hs
  exact ⟨_, s, htrace, by decide +kernel, redraw_consistent htrace 0⟩

end Webshell.Snapshot
