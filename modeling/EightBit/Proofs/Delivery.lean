import EightBit.Proofs.Traces

/-!
How commands reach a machine while it works.

A quantum is cut into moves here: taking a command from the queue and carrying it out, finding the
queue empty, a turn, an observer's command, the return. Between any two of them commands can be
sent. With nothing sent, the moves from one rest to the next come to `quantum`.
-/

namespace EightBit.Machine

variable {C : Type} [Cpu C]

/-- What the thread that runs quanta does next. -/
inductive Stage where
  /-- It is between two quanta. -/
  | resting
  /-- It takes commands from the queue until it finds none. -/
  | receiving
  | stepping (turns : List System.Turn)
  /-- An observer sends these, and then the quantum returns. -/
  | leaving (flow : Flow) (commands : List Command)

inductive Note where
  | accepted (c : Command)
  | began
  | handled (c : Command) (result : Except MachineError Unit)
  /-- The queue was found empty. -/
  | drained
  | turned (turn : System.Turn)
  | returned (flow : Flow)

inductive Move where
  | send (c : Command)
  /-- The thread does what it does next. -/
  | work

/-- A machine in use, with all moves on record. -/
structure Service (C : Type := Core) where
  machine : Machine C
  stage : Stage := .resting
  notes : List Note := []

/-- What the thread does once it has found the queue empty. -/
def proceed (m : Machine C) : Stage :=
  if m.quitting then .leaving .quit []
  else if m.status = .run then .stepping (m.system.schedule m.rounds)
  else .leaving .goOn []

def Stage.advance (m : Machine C) : Stage → Note × Stage × Machine C
  | .resting => (.began, .receiving, m)
  | .receiving =>
    match m.queue with
    | c :: cs => (.handled c (m.perform c).2, .receiving, { m with queue := cs }.handle c)
    | [] => (.drained, m.proceed, m)
  | .stepping [] => (.returned .goOn, .resting, { m with executing := none })
  | .stepping (turn :: turns) =>
    match m.take turn with
    | (.completed, m) => (.turned turn, .stepping turns, m)
    | (.arrived, m) =>
      (.turned turn, .leaving .goOn m.onStop, { m with executing := none }.setStatus .stopped)
    | (.brokeDown, m) => (.turned turn, .resting, { m with poisoned := true })
  | .leaving flow [] => (.returned flow, .resting, m)
  | .leaving flow (c :: cs) => (.accepted c, .leaving flow cs, m.send c)

namespace Service

def move (s : Service C) : Move → Service C
  | .send c => { s with machine := s.machine.send c, notes := s.notes ++ [.accepted c] }
  | .work =>
    let (note, stage, machine) := s.stage.advance s.machine
    ⟨machine, stage, s.notes ++ [note]⟩

def serve (s : Service C) (moves : List Move) : Service C := moves.foldl move s

end Service

def acceptedIn (notes : List Note) : List Command :=
  notes.filterMap fun
    | .accepted c => some c
    | _ => none

def handledIn (notes : List Note) : List Command :=
  notes.filterMap fun
    | .handled c _ => some c
    | _ => none

def failuresIn (notes : List Note) : List String :=
  notes.filterMap fun
    | .handled _ (.error e) => some e.message
    | _ => none

def errors (m : Machine C) : List String :=
  m.events.toList.filterMap fun
    | .error message => some message
    | _ => none

/-- There is such a note, and behind it there are only notes of the given kind. -/
def Since (mark : Note) (kind : Note → Prop) (notes : List Note) : Prop :=
  ∃ front back, notes = front ++ mark :: back ∧ ∀ n ∈ back, kind n

def Note.OfReceiving : Note → Prop
  | .accepted _ | .handled _ _ => True
  | _ => False

def Note.OfStepping : Note → Prop
  | .accepted _ | .turned _ => True
  | _ => False

def Note.Proceeds : Note → Prop
  | .turned _ | .returned _ => True
  | _ => False

/-- What a note says of the ones before it, in a record that begins with the machine `m`. -/
def Note.InOrder (m : Machine C) (before : List Note) : Note → Prop
  | .handled c _ =>
    -- A quantum has begun and not yet found the queue empty, and `c` is next in line.
    Since .began Note.OfReceiving before ∧
      ∃ rest, m.queue ++ acceptedIn before = handledIn before ++ c :: rest
  | .drained =>
    -- Everything that was accepted has been handled.
    Since .began Note.OfReceiving before ∧ m.queue ++ acceptedIn before = handledIn before
  | .turned _ =>
    -- The quantum has found the queue empty, and no quit command has ever been handled.
    Since .drained Note.OfStepping before ∧ m.quitting = false ∧ .quit ∉ handledIn before
  | .returned flow =>
    Since .drained Note.OfStepping before ∧
      (flow = .quit ↔ m.quitting = true ∨ .quit ∈ handledIn before)
  | _ => True

/-- Left alone, the thread comes to rest with the machine `m`; and unless a processor broke down,
the quantum returns `flow`. -/
def Service.Settles (s : Service C) (m : Machine C) (flow : Flow) : Prop :=
  ∃ n notes, s.serve (List.replicate n .work) = ⟨m, .resting, s.notes ++ notes⟩ ∧
    (m.poisoned = false → notes.getLast? = some (.returned flow))

theorem Since.mark (mark : Note) (kind : Note → Prop) (notes : List Note) :
    Since mark kind (notes ++ [mark]) :=
  ⟨notes, [], rfl, nofun⟩

theorem Since.concat {mark n : Note} {kind : Note → Prop} {notes : List Note}
    (h : Since mark kind notes) (hn : kind n) : Since mark kind (notes ++ [n]) := by
  obtain ⟨front, back, rfl, hback⟩ := h
  refine ⟨front, back ++ [n], by simp, fun k hk => ?_⟩
  rcases List.mem_append.mp hk with hk | hk
  · exact hback k hk
  · exact List.mem_singleton.mp hk ▸ hn

section Append

variable (front back : List Note)

theorem acceptedIn_append : acceptedIn (front ++ back) = acceptedIn front ++ acceptedIn back :=
  List.filterMap_append

theorem handledIn_append : handledIn (front ++ back) = handledIn front ++ handledIn back :=
  List.filterMap_append

theorem failuresIn_append : failuresIn (front ++ back) = failuresIn front ++ failuresIn back :=
  List.filterMap_append

end Append

omit [Cpu C] in
theorem errors_of_events {m m' : Machine C} {told : List Event}
    (h : m'.events.toList = m.events.toList ++ told) (htold : ∀ message, .error message ∉ told) :
    m'.errors = m.errors := by
  have hnone : told.filterMap (fun | .error message => some message | _ => none) = [] := by
    refine List.filterMap_eq_nil_iff.mpr fun e he => ?_
    cases e with
    | error message => exact absurd he (htold message)
    | _ => rfl
  rw [errors, h, List.filterMap_append, hnone, List.append_nil, errors]

theorem errors_take (m : Machine C) (turn : System.Turn) : (m.take turn).2.errors = m.errors :=
  errors_of_events (m.events_take turn) fun _ he => isTrace_published _ _ he

omit [Cpu C] in
theorem errors_setStatus (m : Machine C) (s : Status) : (m.setStatus s).errors = m.errors := by
  have hevents : (m.setStatus s).events.toList = m.events.toList ++ [.status s] :=
    Array.toList_push
  exact errors_of_events hevents (by simp)

omit [Cpu C] in
theorem Outcome.errors {m m' : Machine C} {c : Command} {result : Except MachineError Unit}
    (h : m.Outcome c m' result) : m'.errors = m.errors := by
  cases h with
  | started => exact m.errors_setStatus .run
  | paused => exact m.errors_setStatus .pause
  | _ => rfl

theorem errors_handle (m : Machine C) (c : Command) :
    (m.handle c).errors = m.errors ++ failuresIn [.handled c (m.perform c).2] := by
  have houtcome := ((m.record .debug ("command: " ++ c.describe)).perform_outcome c).errors
  rcases m.handle_cases c with ⟨hresult, hhandle⟩ | ⟨e, hresult, hhandle⟩ <;>
    rw [hresult, hhandle]
  · exact houtcome.trans (List.append_nil _).symm
  · have hpublish (m : Machine C) :
        (m.publish (.error e.message)).errors = m.errors ++ [e.message] := by
      simp [errors, publish]
    exact (hpublish _).trans (congrArg (· ++ [e.message]) houtcome)

structure Note.Tells (n : Note) (m m' : Machine C) : Prop where
  queue : m.queue ++ acceptedIn [n] = handledIn [n] ++ m'.queue
  errors : m'.errors = m.errors ++ failuresIn [n]
  quitting : m'.quitting = true ↔ m.quitting = true ∨ .quit ∈ handledIn [n]

omit [Cpu C] in
theorem Note.Tells.of_same {n : Note} {m m' m'' : Machine C} (h : n.Tells m m')
    (hqueue : m''.queue = m'.queue) (herrors : m''.errors = m'.errors)
    (hquitting : m''.quitting = m'.quitting) : n.Tells m m'' :=
  ⟨hqueue ▸ h.queue, herrors ▸ h.errors, hquitting ▸ h.quitting⟩

omit [Cpu C] in
theorem tells_nothing {n : Note} (haccepted : acceptedIn [n] = []) (hhandled : handledIn [n] = [])
    (hfailed : failuresIn [n] = []) (m : Machine C) : n.Tells m m := by
  refine ⟨?_, ?_, ?_⟩
  · rw [haccepted, hhandled, List.append_nil, List.nil_append]
  · rw [hfailed, List.append_nil]
  · simp [hhandled]

omit [Cpu C] in
theorem tells_send (m : Machine C) (c : Command) : (Note.accepted c).Tells m (m.send c) :=
  ⟨rfl, (List.append_nil _).symm, by simp [handledIn, send]⟩

theorem tells_handle {m : Machine C} {c : Command} {cs : List Command} (h : m.queue = c :: cs) :
    (Note.handled c (m.perform c).2).Tells m ({ m with queue := cs }.handle c) := by
  have hqueue : ({ m with queue := cs }.handle c).queue = cs :=
    ({ m with queue := cs }.handle_heeds c).queue
  have hresult := congrArg Prod.snd (m.perform_update m.rounds cs c)
  refine ⟨?_, ?_, ?_⟩
  · rw [hqueue, h]
    exact List.append_nil _
  · rw [errors_handle]
    exact congrArg (fun result => m.errors ++ failuresIn [.handled c result]) hresult
  · have hnote : .quit ∈ handledIn [.handled c (m.perform c).2] ↔ c = .quit :=
      List.mem_singleton.trans eq_comm
    rw [quitting_handle, hnote]

theorem tells_take (m : Machine C) (turn : System.Turn) :
    (Note.turned turn).Tells m (m.take turn).2 :=
  (tells_nothing rfl rfl rfl m).of_same (m.take_spares turn).queue (m.errors_take turn)
    (m.take_spares turn).quitting

theorem tells_advance (m : Machine C) (stage : Stage) :
    (stage.advance m).1.Tells m (stage.advance m).2.2 := by
  cases stage with
  | resting => exact tells_nothing rfl rfl rfl m
  | receiving =>
    rw [Stage.advance]
    split
    · next c cs hqueue => exact tells_handle hqueue
    · exact tells_nothing rfl rfl rfl m
  | stepping turns =>
    cases turns with
    | nil => exact (tells_nothing rfl rfl rfl m).of_same rfl rfl rfl
    | cons turn turns =>
      have hturn := m.tells_take turn
      rw [Stage.advance]
      rcases hresult : m.take turn with ⟨_ | _ | _, m'⟩ <;> rw [hresult] at hturn
      · exact hturn
      · exact hturn.of_same rfl (errors_setStatus _ .stopped) rfl
      · exact hturn.of_same rfl rfl rfl
  | leaving flow commands =>
    cases commands with
    | nil => exact tells_nothing rfl rfl rfl m
    | cons c cs => exact m.tells_send c

/-- What is known of a machine, of the stage of its thread and of the record that has led there
from the machine `m`. -/
def Stage.Fits (m' : Machine C) (notes : List Note) : Stage → Prop
  | .resting => True
  | .receiving => Since .began Note.OfReceiving notes
  | .stepping _ => Since .drained Note.OfStepping notes ∧ m'.quitting = false
  | .leaving flow _ => Since .drained Note.OfStepping notes ∧ (flow = .quit ↔ m'.quitting = true)

/-- A service that has come from the machine `m`, with its record. -/
structure Service.Records (m : Machine C) (s : Service C) : Prop where
  queue : m.queue ++ acceptedIn s.notes = handledIn s.notes ++ s.machine.queue
  order : ∀ before n after, s.notes = before ++ n :: after → n.InOrder m before
  errors : s.machine.errors = m.errors ++ failuresIn s.notes
  quitting : s.machine.quitting = true ↔ m.quitting = true ∨ .quit ∈ handledIn s.notes
  stage : s.stage.Fits s.machine s.notes

omit [Cpu C] in
theorem Service.Records.concat {m m' : Machine C} {s : Service C} {n : Note} {stage : Stage}
    (h : s.Records m) (htells : n.Tells s.machine m') (horder : n.InOrder m s.notes)
    (hstage : stage.Fits m' (s.notes ++ [n])) : Records m ⟨m', stage, s.notes ++ [n]⟩ := by
  refine ⟨?_, ?_, ?_, ?_, hstage⟩
  · calc m.queue ++ acceptedIn (s.notes ++ [n])
        = handledIn s.notes ++ (s.machine.queue ++ acceptedIn [n]) := by
          rw [acceptedIn_append, ← List.append_assoc, h.queue, List.append_assoc]
      _ = handledIn (s.notes ++ [n]) ++ m'.queue := by
          rw [htells.queue, handledIn_append, List.append_assoc]
  · intro before k after hsplit
    rcases split_concat hsplit with ⟨rfl, rfl⟩ | ⟨rest, hrest⟩
    · exact horder
    · exact h.order before k rest hrest
  · rw [htells.errors, h.errors, failuresIn_append, List.append_assoc]
  · rw [htells.quitting, h.quitting, handledIn_append, List.mem_append, or_assoc]

omit [Cpu C] in
/-- Sending a command does not disturb the thread. -/
theorem fits_send {m : Machine C} {notes : List Note} {stage : Stage} (h : stage.Fits m notes)
    (c : Command) : stage.Fits (m.send c) (notes ++ [.accepted c]) := by
  cases stage with
  | resting => trivial
  | receiving => exact Since.concat h trivial
  | stepping turns => exact ⟨h.1.concat trivial, h.2⟩
  | leaving flow commands => exact ⟨h.1.concat trivial, h.2⟩

omit [Cpu C] in
theorem fits_proceed (m : Machine C) (notes : List Note) :
    m.proceed.Fits m (notes ++ [.drained]) := by
  have hsince := Since.mark .drained Note.OfStepping notes
  rw [proceed]
  split
  · next hquit => exact ⟨hsince, by simp [hquit]⟩
  · next hquit =>
    split
    · exact ⟨hsince, by simpa using hquit⟩
    · exact ⟨hsince, by simp [hquit]⟩

theorem fits_advance {m : Machine C} {notes : List Note} {stage : Stage} (h : stage.Fits m notes) :
    (stage.advance m).2.1.Fits (stage.advance m).2.2 (notes ++ [(stage.advance m).1]) := by
  cases stage with
  | resting => exact .mark ..
  | receiving =>
    rw [Stage.advance]
    split
    · exact Since.concat h trivial
    · exact m.fits_proceed notes
  | stepping turns =>
    obtain ⟨hsince, hquit⟩ := h
    cases turns with
    | nil => trivial
    | cons turn turns =>
      have hquit' := (m.take_spares turn).quitting.trans hquit
      rw [Stage.advance]
      rcases hresult : m.take turn with ⟨_ | _ | _, m'⟩ <;> rw [hresult] at hquit'
      · exact ⟨hsince.concat trivial, hquit'⟩
      · refine ⟨hsince.concat trivial, nofun, fun hquitting => ?_⟩
        exact absurd (hquit'.symm.trans hquitting) Bool.false_ne_true
      · trivial
  | leaving flow commands =>
    cases commands with
    | nil => trivial
    | cons c cs => exact ⟨h.1.concat trivial, h.2⟩

theorem order_advance {m m' : Machine C} {stage : Stage} {notes : List Note}
    (h : Service.Records m ⟨m', stage, notes⟩) : (stage.advance m').1.InOrder m notes := by
  have hqueue : m.queue ++ acceptedIn notes = handledIn notes ++ m'.queue := h.queue
  cases stage with
  | resting => trivial
  | receiving =>
    rw [Stage.advance]
    split
    · next c cs hnext => exact ⟨h.stage, cs, hnext ▸ hqueue⟩
    · next hnext => exact ⟨h.stage, by rw [hqueue, hnext, List.append_nil]⟩
  | stepping turns =>
    obtain ⟨hsince, hquit⟩ := h.stage
    have hquitting := h.quitting
    rw [hquit] at hquitting
    cases turns with
    | nil => exact ⟨hsince, by simpa using hquitting⟩
    | cons turn turns =>
      rw [Stage.advance]
      rcases m'.take turn with ⟨_ | _ | _, m''⟩ <;> exact ⟨hsince, by simpa using hquitting⟩
  | leaving flow commands =>
    obtain ⟨hsince, hflow⟩ := h.stage
    cases commands with
    | nil => exact ⟨hsince, hflow.trans h.quitting⟩
    | cons c cs => trivial

theorem Service.Records.move {m : Machine C} {s : Service C} (h : s.Records m) (move : Move) :
    (s.move move).Records m := by
  cases move with
  | send c => exact h.concat (tells_send s.machine c) trivial (fits_send h.stage c)
  | work =>
    exact h.concat (tells_advance s.machine s.stage) (order_advance h) (fits_advance h.stage)

theorem Service.Records.serve {m : Machine C} {s : Service C} (h : s.Records m)
    (moves : List Move) : (s.serve moves).Records m := by
  induction moves generalizing s with
  | nil => exact h
  | cons move moves ih => exact ih (h.move move)

omit [Cpu C] in
theorem records_first (m : Machine C) : Service.Records m ⟨m, .resting, []⟩ :=
  ⟨List.append_nil _, by simp, (List.append_nil _).symm, by simp [handledIn], trivial⟩

omit [Cpu C] in
/-- Whatever was accepted before a quantum began is handled before the quantum steps or returns. -/
theorem Service.Records.handled_before {m : Machine C} {s : Service C} (h : s.Records m)
    {front back after : List Note} {n : Note} (hn : n.Proceeds)
    (hsplit : s.notes = front ++ .began :: back ++ n :: after) :
    m.queue ++ acceptedIn front <+: handledIn (front ++ .began :: back) := by
  have hsince : Since .drained Note.OfStepping (front ++ .began :: back) := by
    have horder := h.order _ n after hsplit
    cases n with
    | turned turn => exact horder.1
    | returned flow => exact horder.1
    | _ => exact hn.elim
  obtain ⟨before, rest, hdrained, hrest⟩ := hsince
  have hall : m.queue ++ acceptedIn before = handledIn before :=
    (h.order before .drained (rest ++ n :: after) (by rw [hsplit, hdrained]; simp)).2
  -- The queue was found empty after the quantum began: since then it has only stepped.
  have hfront : front <+: before := by
    rcases List.append_eq_append_iff.mp hdrained with ⟨mid, hmid, -⟩ | ⟨mid, -, hmid⟩
    · exact ⟨mid, hmid.symm⟩
    · have hbegan : Note.began ∈ .drained :: rest := hmid ▸ List.mem_append_right mid (by simp)
      exact ((List.mem_cons.mp hbegan).elim nofun (hrest .began)).elim
  have hbefore : m.queue ++ acceptedIn front <+: handledIn before :=
    hall ▸ (List.prefix_append_right_inj _).mpr (hfront.filterMap _)
  have hbehind : handledIn before <+: handledIn (front ++ .began :: back) := by
    rw [hdrained, handledIn_append]
    exact List.prefix_append _ _
  exact hbefore.trans hbehind

theorem Service.Settles.of_work {s : Service C} {m : Machine C} {flow : Flow}
    (h : (s.move .work).Settles m flow) : s.Settles m flow := by
  obtain ⟨n, notes, hserve, hlast⟩ := h
  refine ⟨n + 1, (s.stage.advance s.machine).1 :: notes, ?_, fun hsound => ?_⟩
  · rw [List.replicate_succ, serve, List.foldl_cons]
    exact hserve.trans (by simp [move])
  · rw [List.getLast?_cons, hlast hsound, Option.getD_some]

theorem settles_broken {m : Machine C} (h : m.poisoned = true) (notes : List Note) (flow : Flow) :
    Service.Settles ⟨m, .resting, notes⟩ m flow :=
  ⟨0, [], by simp [Service.serve], by simp [h]⟩

theorem settles_returned {s : Service C} {m : Machine C} {flow : Flow}
    (h : s.stage.advance s.machine = (.returned flow, .resting, m)) : s.Settles m flow :=
  ⟨1, [.returned flow], by simp [Service.serve, Service.move, h], fun _ => rfl⟩

theorem settles_leaving (m : Machine C) (flow : Flow) (cs : List Command) (notes : List Note) :
    Service.Settles ⟨m, .leaving flow cs, notes⟩ { m with queue := m.queue ++ cs } flow := by
  induction cs generalizing m notes with
  | nil =>
    rw [List.append_nil]
    exact settles_returned rfl
  | cons c cs ih =>
    have hrest := ih (m.send c) (notes ++ [.accepted c])
    simp only [send, List.append_assoc] at hrest
    exact .of_work hrest

theorem settles_stepping (m : Machine C) (turns : List System.Turn) (notes : List Note) :
    Service.Settles ⟨m, .stepping turns, notes⟩ (conclude (m.walk turns)) .goOn := by
  induction turns generalizing m notes with
  | nil => exact settles_returned rfl
  | cons turn turns ih =>
    refine .of_work ?_
    simp only [Service.move, Stage.advance, walk]
    rcases m.take turn with ⟨_ | _ | _, m'⟩
    · exact ih m' _
    · exact settles_leaving _ _ _ _
    · exact settles_broken rfl _ _

theorem settles_proceed (m : Machine C) (notes : List Note) (h : m.queue = []) :
    Service.Settles ⟨m, m.proceed, notes⟩ m.quantum.2 m.quantum.1 := by
  rw [quantum, drain_of_empty h, proceed]
  split
  · exact settles_returned rfl
  · split
    · rw [execute_eq, ← conclude_walk]
      exact settles_stepping m _ notes
    · exact settles_returned rfl

theorem settles_receiving (m : Machine C) (notes : List Note) :
    Service.Settles ⟨m, .receiving, notes⟩ m.quantum.2 m.quantum.1 := by
  generalize hqueue : m.queue = cs
  induction cs generalizing m notes with
  | nil =>
    have hadvance : Stage.receiving.advance m = (.drained, m.proceed, m) := by
      rw [Stage.advance, hqueue]
    refine .of_work ?_
    rw [Service.move, hadvance]
    exact m.settles_proceed _ hqueue
  | cons c cs ih =>
    have hadvance : Stage.receiving.advance m =
        (.handled c (m.perform c).2, .receiving, { m with queue := cs }.handle c) := by
      rw [Stage.advance, hqueue]
    have hquantum : m.quantum = ({ m with queue := cs }.handle c).quantum := by
      rw [quantum, quantum, drain_cons hqueue]
    have hrest : ({ m with queue := cs }.handle c).queue = cs :=
      ({ m with queue := cs }.handle_heeds c).queue
    refine .of_work ?_
    rw [Service.move, hadvance, hquantum]
    exact ih _ _ hrest

theorem settles_resting (m : Machine C) (notes : List Note) :
    Service.Settles ⟨m, .resting, notes⟩ m.quantum.2 m.quantum.1 :=
  Service.Settles.of_work (m.settles_receiving (notes ++ [Note.began]))

theorem Service.settles (s : Service C) : ∃ m flow, s.Settles m flow := by
  obtain ⟨m, stage, notes⟩ := s
  cases stage with
  | resting => exact ⟨_, _, m.settles_resting notes⟩
  | receiving => exact ⟨_, _, m.settles_receiving notes⟩
  | stepping turns => exact ⟨_, _, m.settles_stepping turns notes⟩
  | leaving flow cs => exact ⟨_, _, m.settles_leaving flow cs notes⟩

/-- However commands are sent while a machine works, they are handled one by one in the order in
which they were accepted. All that were accepted before a quantum began have been handled before it
steps or returns. A failure is made known once, and changes nothing of how the machine runs. After
a quit command nothing steps, and every quantum returns that. When nothing more is sent the thread
comes to rest, and from one rest to the next it does what `quantum` does. -/
theorem commands_delivered (m : Machine C) (moves : List Move) :
    let s := Service.serve ⟨m, .resting, []⟩ moves
    m.queue ++ acceptedIn s.notes = handledIn s.notes ++ s.machine.queue ∧
      (∀ before n after, s.notes = before ++ n :: after → n.InOrder m before) ∧
      (∀ front back n after, n.Proceeds → s.notes = front ++ .began :: back ++ n :: after →
        m.queue ++ acceptedIn front <+: handledIn (front ++ .began :: back)) ∧
      s.machine.errors = m.errors ++ failuresIn s.notes ∧
      (∀ (m' : Machine C) c e, (m'.perform c).2 = .error e →
        (m'.handle c).events = m'.events.push (.error e.message) ∧
          (m'.handle c).status = m'.status ∧ (m'.handle c).watches = m'.watches) ∧
      (∃ m' flow, s.Settles m' flow) ∧
      (s.stage = .resting → s.Settles s.machine.quantum.2 s.machine.quantum.1) := by
  intro s
  have hrecords : s.Records m := m.records_first.serve moves
  refine ⟨hrecords.queue, hrecords.order, fun _ _ _ _ => hrecords.handled_before, hrecords.errors,
    fun _ _ _ => handle_of_error, s.settles, fun hresting => ?_⟩
  have hfirst := s.machine.settles_resting s.notes
  rwa [← hresting] at hfirst

/-- The second command is sent while the first one is handled, and the third when the queue has been
found empty. So it takes a second quantum to quit. -/
example :
    let s := Service.serve ⟨watched, .resting, []⟩
      ([.send (.trace "c" none), .work, .work, .send .start, .work, .work, .send .quit] ++
        List.replicate 9 .work)
    handledIn s.notes = [.trace "c" none, .start, .quit] ∧
      failuresIn s.notes = ["no such processor: c"] ∧ s.machine.status = .stopped := by
  decide +kernel

end EightBit.Machine
