import EightBit.Machine
import EightBit.Proofs.Turns

/-!
How far a quantum gets.

The schedule of a quantum is a list of turns. The quantum performs its turns in order and ends
with the first one that arrives at a breakpoint, or before the first one that would break down.
-/

namespace EightBit

namespace System

variable {C : Type} [Cpu C]

def location (sys : System C) (i : Nat) : Nat :=
  match sys.processors[i]? with
  | some p => Cpu.location p.core
  | none => 0

/-- A step of a processor that ends at one of its own breakpoints and elsewhere than it began. -/
def Arrives (breakpoints : Nat → List Nat) (sys : System C) : Turn → Prop
  | .processor i =>
    (sys.perform (.processor i)).location i ≠ sys.location i ∧
      (sys.perform (.processor i)).location i ∈ breakpoints i
  | .ticker _ => False

def BreaksDown (sys : System C) : Turn → Prop
  | .processor i => ∃ p, sys.processors[i]? = some p ∧ Cpu.breaksDown p.core = true
  | .ticker _ => False

instance (breakpoints : Nat → List Nat) (sys : System C) (turn : Turn) :
    Decidable (sys.Arrives breakpoints turn) :=
  match turn with
  | .processor _ => inferInstanceAs (Decidable (_ ∧ _))
  | .ticker _ => inferInstanceAs (Decidable False)

instance (sys : System C) (turn : Turn) : Decidable (sys.BreaksDown turn) :=
  match turn with
  | .processor i =>
    match h : sys.processors[i]? with
    | some p => decidable_of_iff (Cpu.breaksDown p.core = true) (by simp [BreaksDown, h])
    | none => isFalse (by simp [BreaksDown, h])
  | .ticker _ => inferInstanceAs (Decidable False)

/-- Turns that neither arrive anywhere nor break down, performed in order. -/
def Quiet (breakpoints : Nat → List Nat) (sys : System C) : List Turn → Prop
  | [] => True
  | turn :: turns =>
    ¬ sys.BreaksDown turn ∧ ¬ sys.Arrives breakpoints turn ∧
      (sys.perform turn).Quiet breakpoints turns

instance (breakpoints : Nat → List Nat) (sys : System C) (turns : List Turn) :
    Decidable (sys.Quiet breakpoints turns) :=
  decideQuiet breakpoints sys turns
where
  decideQuiet (breakpoints : Nat → List Nat) (sys : System C) :
      (turns : List Turn) → Decidable (sys.Quiet breakpoints turns)
    | [] => inferInstanceAs (Decidable True)
    | turn :: turns =>
      have := decideQuiet breakpoints (sys.perform turn) turns
      inferInstanceAs (Decidable (_ ∧ _ ∧ _))

/-- How performing turns in order ends, and which of them are performed. -/
inductive Course (breakpoints : Nat → List Nat) (sys : System C) (turns : List Turn) :
    Progress → List Turn → Prop
  | completed (hquiet : sys.Quiet breakpoints turns) : Course breakpoints sys turns .completed turns
  /-- The first arrival is the last turn performed. -/
  | arrived {before rest : List Turn} {turn : Turn} (hturns : turns = before ++ turn :: rest)
      (hquiet : sys.Quiet breakpoints before) (hsound : ¬ (sys.run before).BreaksDown turn)
      (harrives : (sys.run before).Arrives breakpoints turn) :
      Course breakpoints sys turns .arrived (before ++ [turn])
  /-- The turn that breaks down is not performed. -/
  | brokeDown {before rest : List Turn} {turn : Turn} (hturns : turns = before ++ turn :: rest)
      (hquiet : sys.Quiet breakpoints before) (hbreaks : (sys.run before).BreaksDown turn) :
      Course breakpoints sys turns .brokeDown before

section Course

variable {breakpoints : Nat → List Nat} {sys : System C}

theorem quiet_append (front back : List Turn) :
    sys.Quiet breakpoints (front ++ back) ↔
      sys.Quiet breakpoints front ∧ (sys.run front).Quiet breakpoints back := by
  induction front generalizing sys with
  | nil => simp [Quiet]
  | cons turn front ih => simp only [List.cons_append, Quiet, ih, run_cons, and_assoc]

/-- Tickers neither arrive nor break down. -/
theorem quiet_tickers (js : List Nat) : sys.Quiet breakpoints (js.map .ticker) := by
  induction js generalizing sys with
  | nil => trivial
  | cons j js ih => exact ⟨id, id, ih⟩

/-- Quiet turns in front only delay what happens. -/
theorem Course.prepend {front back done : List Turn} {p : Progress}
    (hfront : sys.Quiet breakpoints front) (h : (sys.run front).Course breakpoints back p done) :
    sys.Course breakpoints (front ++ back) p (front ++ done) := by
  cases h with
  | completed hquiet => exact .completed ((quiet_append _ _).mpr ⟨hfront, hquiet⟩)
  | @arrived before rest turn hturns hquiet hsound harrives =>
    rw [← run_append] at hsound harrives
    rw [← List.append_assoc, hturns]
    exact .arrived (List.append_assoc _ _ _).symm ((quiet_append _ _).mpr ⟨hfront, hquiet⟩)
      hsound harrives
  | brokeDown hturns hquiet hbreaks =>
    rw [← run_append] at hbreaks
    rw [hturns]
    exact .brokeDown (List.append_assoc _ _ _).symm ((quiet_append _ _).mpr ⟨hfront, hquiet⟩)
      hbreaks

/-- What follows an early end is not performed. -/
theorem Course.stop {front back done : List Turn} {p : Progress}
    (h : sys.Course breakpoints front p done) (hp : p ≠ .completed) :
    sys.Course breakpoints (front ++ back) p done := by
  cases h with
  | completed hquiet => contradiction
  | arrived hturns hquiet hsound harrives =>
    exact .arrived (by rw [hturns, List.append_assoc, List.cons_append]) hquiet hsound harrives
  | brokeDown hturns hquiet hbreaks =>
    exact .brokeDown (by rw [hturns, List.append_assoc, List.cons_append]) hquiet hbreaks

theorem not_quiet_of_event {before rest : List Turn} {turn : Turn}
    (h : (sys.run before).BreaksDown turn ∨ (sys.run before).Arrives breakpoints turn) :
    ¬ sys.Quiet breakpoints (before ++ turn :: rest) := by
  intro hquiet
  obtain ⟨-, hbreaks, harrives, -⟩ := (quiet_append _ _).mp hquiet
  exact h.elim hbreaks harrives

/-- There is only one first arrival or breakdown. -/
theorem first_event_unique {front before rest after : List Turn} {t u : Turn}
    (hturns : front ++ t :: rest = before ++ u :: after)
    (hfront : sys.Quiet breakpoints front) (hbefore : sys.Quiet breakpoints before)
    (ht : (sys.run front).BreaksDown t ∨ (sys.run front).Arrives breakpoints t)
    (hu : (sys.run before).BreaksDown u ∨ (sys.run before).Arrives breakpoints u) :
    front = before ∧ t = u := by
  rcases List.append_eq_append_iff.mp hturns with ⟨mid, hmid, hrest⟩ | ⟨mid, hmid, hrest⟩
  · cases mid with
    | nil => exact ⟨by simpa using hmid.symm, (List.cons.inj hrest).1⟩
    | cons v mid =>
      obtain ⟨rfl, -⟩ := List.cons.inj hrest
      exact absurd (hmid ▸ hbefore) (not_quiet_of_event ht)
  · cases mid with
    | nil => exact ⟨by simpa using hmid, (List.cons.inj hrest).1.symm⟩
    | cons v mid =>
      obtain ⟨rfl, -⟩ := List.cons.inj hrest
      exact absurd (hmid ▸ hfront) (not_quiet_of_event hu)

/-- Turns have a single course. -/
theorem Course.unique {turns done done' : List Turn} {p p' : Progress}
    (h : sys.Course breakpoints turns p done) (h' : sys.Course breakpoints turns p' done') :
    p = p' ∧ done = done' := by
  cases h with
  | completed hquiet =>
    cases h' with
    | completed => exact ⟨rfl, rfl⟩
    | arrived hturns _ _ harrives =>
      exact absurd (hturns ▸ hquiet) (not_quiet_of_event (.inr harrives))
    | brokeDown hturns _ hbreaks =>
      exact absurd (hturns ▸ hquiet) (not_quiet_of_event (.inl hbreaks))
  | arrived hturns hquiet hsound harrives =>
    cases h' with
    | completed hquiet' => exact absurd (hturns ▸ hquiet') (not_quiet_of_event (.inr harrives))
    | arrived hturns' hquiet' _ harrives' =>
      obtain ⟨rfl, rfl⟩ := first_event_unique (hturns.symm.trans hturns') hquiet hquiet'
        (.inr harrives) (.inr harrives')
      exact ⟨rfl, rfl⟩
    | brokeDown hturns' hquiet' hbreaks' =>
      obtain ⟨rfl, rfl⟩ := first_event_unique (hturns.symm.trans hturns') hquiet hquiet'
        (.inr harrives) (.inl hbreaks')
      exact absurd hbreaks' hsound
  | brokeDown hturns hquiet hbreaks =>
    cases h' with
    | completed hquiet' => exact absurd (hturns ▸ hquiet') (not_quiet_of_event (.inl hbreaks))
    | arrived hturns' hquiet' hsound' harrives' =>
      obtain ⟨rfl, rfl⟩ := first_event_unique (hturns.symm.trans hturns') hquiet hquiet'
        (.inl hbreaks) (.inr harrives')
      exact absurd hbreaks hsound'
    | brokeDown hturns' hquiet' hbreaks' =>
      obtain ⟨rfl, rfl⟩ := first_event_unique (hturns.symm.trans hturns') hquiet hquiet'
        (.inl hbreaks) (.inl hbreaks')
      exact ⟨rfl, rfl⟩

/-- The course ends with an arrival exactly if some turn arrives and none before it ends it. -/
theorem Course.arrived_iff {turns done : List Turn} {p : Progress}
    (h : sys.Course breakpoints turns p done) :
    p = .arrived ↔ ∃ before turn rest, turns = before ++ turn :: rest ∧
      sys.Quiet breakpoints before ∧ ¬ (sys.run before).BreaksDown turn ∧
      (sys.run before).Arrives breakpoints turn := by
  constructor
  · rintro rfl
    cases h with
    | arrived hturns hquiet hsound harrives =>
      exact ⟨_, _, _, hturns, hquiet, hsound, harrives⟩
  · rintro ⟨before, turn, rest, hturns, hquiet, hsound, harrives⟩
    exact (h.unique (.arrived hturns hquiet hsound harrives)).1

end Course

end System

def Event.IsTrace : Event → Prop
  | .trace _ _ => True
  | _ => False

namespace Machine

variable {C : Type} [Cpu C]

/-- What performing turns changes of a machine and what it leaves alone. -/
structure Advances (m m' : Machine C) (turns : List System.Turn) : Prop where
  system : m'.system = m.system.run turns
  breakpoints : ∀ i, (m'.watch i).breakpoints = (m.watch i).breakpoints
  status : m'.status = m.status
  onStop : m'.onStop = m.onStop
  traces : ∃ traces, m'.events.toList = m.events.toList ++ traces ∧ ∀ e ∈ traces, e.IsTrace

theorem Advances.refl (m : Machine C) : m.Advances m [] :=
  ⟨rfl, fun _ => rfl, rfl, rfl, [], by simp, by simp⟩

theorem Advances.trans {m m' m'' : Machine C} {front back : List System.Turn}
    (h : m.Advances m' front) (h' : m'.Advances m'' back) : m.Advances m'' (front ++ back) := by
  obtain ⟨traces, hevents, htraces⟩ := h.traces
  obtain ⟨traces', hevents', htraces'⟩ := h'.traces
  refine ⟨?_, ?_, h'.status.trans h.status, h'.onStop.trans h.onStop, traces ++ traces', ?_, ?_⟩
  · rw [h'.system, h.system, System.run_append]
  · intro i
    rw [h'.breakpoints, h.breakpoints]
  · rw [hevents', hevents, List.append_assoc]
  · intro e he
    exact (List.mem_append.mp he).elim (htraces e) (htraces' e)

@[simp] theorem system_announce (m : Machine C) (i : Nat) : (m.announce i).system = m.system := by
  simp only [announce]
  split <;> rfl

omit [Cpu C] in
theorem watch_updateWatch (m : Machine C) (i k : Nat) {f : Watch → Watch}
    (hf : ∀ w, (f w).breakpoints = w.breakpoints) :
    ((m.updateWatch i f).watch k).breakpoints = (m.watch k).breakpoints := by
  simp only [updateWatch, watch, Array.getD_eq_getD_getElem?, Array.getElem?_modify]
  split
  · cases m.watches[k]? <;> simp [hf]
  · rfl

def begun (m : Machine C) (i : Nat) : Machine C :=
  { m.announce i with executing := some (i, m.location i) }

def stepped (m : Machine C) (i : Nat) : Machine C :=
  { m.begun i with system := m.system.perform (.processor i) }.updateWatch i fun w =>
    { w with stuck := (m.system.perform (.processor i)).location i == m.location i }

theorem advances_begun (m : Machine C) (i : Nat) : m.Advances (m.begun i) [] := by
  simp only [begun, announce]
  split
  · exact ⟨rfl, fun _ => rfl, rfl, rfl, [_], Array.toList_push, by simp [Event.IsTrace]⟩
  · exact ⟨rfl, fun _ => rfl, rfl, rfl, [], by simp, by simp⟩

theorem advances_stepped (m : Machine C) (i : Nat) : m.Advances (m.stepped i) [.processor i] := by
  have h := m.advances_begun i
  refine ⟨rfl, ?_, h.status, h.onStop, h.traces⟩
  intro k
  rw [stepped, watch_updateWatch]
  · exact h.breakpoints k
  · exact fun _ => rfl

theorem stepProcessor_eq (m : Machine C) (i : Nat) :
    m.stepProcessor i =
      if m.breaksDown i then (.brokeDown, m.begun i)
      else if (m.system.perform (.processor i)).location i ≠ m.location i ∧
          (m.system.perform (.processor i)).location i ∈ (m.watch i).breakpoints then
        (.arrived, m.stepped i)
      else (.completed, m.stepped i) := by
  have hbreaks : (m.begun i).breaksDown i = m.breaksDown i := by
    simp only [breaksDown, begun, system_announce]
  have hstepped : { m.begun i with system := (m.begun i).system.update i Cpu.step }.updateWatch i
      (fun w => { w with
        stuck := ({ m.begun i with
          system := (m.begun i).system.update i Cpu.step } : Machine C).location i ==
            m.location i }) = m.stepped i := by
    simp only [stepped, begun, system_announce]
    rfl
  have hlocation : ({ m.begun i with system := (m.begun i).system.update i Cpu.step } :
      Machine C).location i = (m.system.perform (.processor i)).location i := by
    simp only [begun, system_announce]
    rfl
  have hstep : m.stepProcessor i =
      if (m.begun i).breaksDown i then (.brokeDown, m.begun i)
      else
        (if !(m.system.perform (.processor i)).location i == m.location i &&
            ((m.stepped i).watch i).breakpoints.contains
              ((m.system.perform (.processor i)).location i) then .arrived else .completed,
          m.stepped i) := by
    rw [← hstepped, ← hlocation]
    rfl
  rw [hstep, hbreaks, (m.advances_stepped i).breakpoints]
  split
  · rfl
  · split <;> split <;> simp_all

theorem breaksDown_iff (m : Machine C) (i : Nat) :
    m.breaksDown i = true ↔ m.system.BreaksDown (.processor i) := by
  simp only [breaksDown, System.BreaksDown]
  cases m.system.processors[i]? <;> simp

abbrev breakpointsOf (m : Machine C) (i : Nat) : List Nat := (m.watch i).breakpoints

/-- A part of a quantum is a course of its turns. -/
def Follows (m : Machine C) (turns : List System.Turn) (result : Progress × Machine C) : Prop :=
  ∃ done, m.system.Course m.breakpointsOf turns result.1 done ∧ m.Advances result.2 done

theorem stepProcessor_follows (m : Machine C) (i : Nat) :
    m.Follows [.processor i] (m.stepProcessor i) := by
  rw [stepProcessor_eq]
  by_cases hbreaks : m.breaksDown i = true
  · rw [if_pos hbreaks]
    have hturns : [System.Turn.processor i] = [] ++ .processor i :: [] := rfl
    exact ⟨[], .brokeDown hturns trivial ((breaksDown_iff m i).mp hbreaks), m.advances_begun i⟩
  · have hsound : ¬ m.system.BreaksDown (.processor i) :=
      fun h => hbreaks ((breaksDown_iff m i).mpr h)
    rw [if_neg hbreaks]
    split
    · next harrives =>
      have hturns : [System.Turn.processor i] = [] ++ .processor i :: [] := rfl
      exact ⟨_, .arrived hturns trivial hsound harrives, m.advances_stepped i⟩
    · next hquiet => exact ⟨_, .completed ⟨hsound, hquiet, trivial⟩, m.advances_stepped i⟩

/-- When a part has completed, the next one goes on from there. -/
theorem Follows.next {m m' : Machine C} {front back : List System.Turn}
    {result : Progress × Machine C} (h : m.Follows front (.completed, m'))
    (h' : m'.Follows back result) : m.Follows (front ++ back) result := by
  obtain ⟨done, hcourse, hadvances⟩ := h
  obtain ⟨done', hcourse', hadvances'⟩ := h'
  have hbreakpoints : m'.breakpointsOf = m.breakpointsOf := funext hadvances.breakpoints
  cases hcourse with
  | completed hquiet =>
    rw [hadvances.system, hbreakpoints] at hcourse'
    exact ⟨_, hcourse'.prepend hquiet, hadvances.trans hadvances'⟩

/-- When a part has not completed, that is the end. -/
theorem Follows.stop {m : Machine C} {front back : List System.Turn} {result : Progress × Machine C}
    (h : m.Follows front result) (hp : result.1 ≠ .completed) :
    m.Follows (front ++ back) result := by
  obtain ⟨done, hcourse, hadvances⟩ := h
  exact ⟨done, hcourse.stop hp, hadvances⟩

theorem stepProcessors_follows (m : Machine C) (i k : Nat) :
    m.Follows ((List.range' i k).map .processor) (m.stepProcessors i k) := by
  induction k generalizing m i with
  | zero => exact ⟨[], .completed trivial, .refl m⟩
  | succ k ih =>
    have hfirst := stepProcessor_follows m i
    simp only [List.range'_succ, List.map_cons, stepProcessors]
    split
    · next m' hstep =>
      rw [hstep] at hfirst
      exact hfirst.next (ih m' (i + 1))
    · next hstop =>
      refine hfirst.stop ?_
      intro hp
      exact hstop (m.stepProcessor i).2 (Prod.ext hp rfl)

theorem round_follows (m : Machine C) : m.Follows m.system.round m.round := by
  have hprocessors := stepProcessors_follows m 0 m.system.processors.size
  rw [← List.range_eq_range'] at hprocessors
  simp only [round, System.round]
  split
  · next m' hstep =>
    rw [hstep] at hprocessors
    have htickers : m'.system.tickers = m.system.tickers := by
      obtain ⟨done, -, hadvances⟩ := hprocessors
      rw [hadvances.system, System.tickers_run]
    refine hprocessors.next ⟨_, .completed (System.quiet_tickers _), ?_⟩
    refine ⟨?_, fun _ => rfl, rfl, rfl, [], by simp, by simp⟩
    rw [← htickers, System.run_tickers]
  · next hstop =>
    refine hprocessors.stop ?_
    intro hp
    exact hstop (m.stepProcessors 0 m.system.processors.size).2 (Prod.ext hp rfl)

theorem runRounds_follows (m : Machine C) (n : Nat) :
    m.Follows (m.system.schedule n) (m.runRounds n) := by
  induction n generalizing m with
  | zero => exact ⟨[], .completed trivial, .refl m⟩
  | succ n ih =>
    have hfirst := round_follows m
    rw [System.schedule_succ]
    simp only [runRounds]
    split
    · next m' hround =>
      rw [hround] at hfirst
      have hschedule : m'.system.schedule n = m.system.schedule n := by
        obtain ⟨done, -, hadvances⟩ := hfirst
        rw [hadvances.system, System.schedule_run]
      exact hfirst.next (hschedule ▸ ih m')
    · next hstop =>
      refine hfirst.stop ?_
      intro hp
      exact hstop m.round.2 (Prod.ext hp rfl)

theorem drain_of_empty {m : Machine C} (h : m.queue = []) : m.drain = m := by
  obtain ⟨⟩ := m
  simp_all [drain]

/-- A quantum without commands, of a machine that runs and has not been told to quit, goes through
its rounds turn by turn. It performs them all, or ends with the first arrival, or before a
breakdown. After an arrival, and only then, the machine has stopped, and made that known behind
everything it traced. -/
theorem quantum_course (m : Machine C) (hrun : m.status = .run) (hqueue : m.queue = [])
    (hquit : m.quitting = false) :
    ∃ p done traces,
      m.system.Course m.breakpointsOf (m.system.schedule m.rounds) p done ∧
      m.quantum.1 = .goOn ∧
      m.quantum.2.system = m.system.run done ∧
      (∀ e ∈ traces, e.IsTrace) ∧
      m.quantum.2.events.toList =
        m.events.toList ++ traces ++ (if p = .arrived then [.status .stopped] else []) ∧
      m.quantum.2.status = (if p = .arrived then .stopped else .run) ∧
      (p = .arrived ↔ ∃ before turn rest,
        m.system.schedule m.rounds = before ++ turn :: rest ∧
        m.system.Quiet m.breakpointsOf before ∧ ¬ (m.system.run before).BreaksDown turn ∧
        (m.system.run before).Arrives m.breakpointsOf turn) := by
  have hdrain := drain_of_empty hqueue
  have hquantum : m.quantum = (.goOn, m.execute) := by
    simp [quantum, hdrain, hrun, hquit]
  obtain ⟨done, hcourse, hadvances⟩ := runRounds_follows m m.rounds
  obtain ⟨traces, hevents, htraces⟩ := hadvances.traces
  refine ⟨_, done, traces, hcourse, by rw [hquantum], ?_, htraces, ?_, ?_, hcourse.arrived_iff⟩ <;>
    rw [hquantum] <;>
    simp only [execute]
  · rw [← hadvances.system]
    split <;> simp_all [setStatus, publish, record]
  · rw [← hevents]
    split <;> simp_all [setStatus, publish, record]
  · rw [← hrun, ← hadvances.status]
    split <;> simp_all [setStatus, publish, record]

def counters (fault : Option Nat) : System where
  name := "counters"
  processors := #[⟨"a", .counter ⟨0, none, Memory.empty 0 1, {}⟩⟩,
    ⟨"b", .counter ⟨8, fault, Memory.empty 0 1, {}⟩⟩]
  latches := ⟨#[0]⟩
  tickers := [⟨"t", 0⟩]
  catalog := Catalog.basic
  saved := none
  screen := none

/-- A machine in which the first processor is about to count to its breakpoint, and the second sits
on its own. -/
def watched : Machine := { assemble (fun _ => .ok []) (counters none) 3 with
  status := .run, watches := #[{ breakpoints := [2] }, { breakpoints := [8] }] }

/-- The first processor arrives in the second round, before the second processor and the ticker have
had their turns. -/
theorem quantum_course_watched :
    watched.quantum.2.status = .stopped ∧ watched.quantum.2.system =
      watched.system.run [.processor 0, .processor 1, .ticker 0, .processor 0] := by
  obtain ⟨p, done, traces, hcourse, -, hsystem, -, -, hstatus, -⟩ :=
    quantum_course watched rfl rfl rfl
  have hturns : watched.system.schedule watched.rounds =
      [.processor 0, .processor 1, .ticker 0] ++ .processor 0 ::
        [.processor 1, .ticker 0, .processor 0, .processor 1, .ticker 0] := by decide
  obtain ⟨rfl, rfl⟩ := hcourse.unique (.arrived hturns (by decide) (by decide) (by decide))
  exact ⟨hstatus, hsystem⟩

def quitted : Machine :=
  (((assemble (fun _ => .ok []) (counters none) 1).send .start).quantum.2.send .quit).quantum.2

/-- A machine whose second processor is about to break down. -/
def doomed : Machine := ((assemble (fun _ => .ok []) (counters (some 9)) 1).send .start).quantum.2

/-- After a quit the status is still that of a running machine, but nothing is performed; and a
breakdown ends a quantum before its rounds complete although there is nowhere to arrive. -/
theorem quantum_incomplete :
    (quitted.status = .run ∧ quitted.queue = [] ∧ quitted.onStop = [] ∧
      quitted.system.Quiet quitted.breakpointsOf (quitted.system.schedule quitted.rounds) ∧
      quitted.quantum.2.system ≠ quitted.system.run (quitted.system.schedule quitted.rounds)) ∧
    (doomed.status = .run ∧ doomed.queue = [] ∧ doomed.onStop = [] ∧
      (∀ w ∈ doomed.watches.toList, w.breakpoints = []) ∧ doomed.quantum.2.status = .run ∧
      doomed.quantum.2.system ≠ doomed.system.run (doomed.system.schedule doomed.rounds)) := by
  refine ⟨⟨rfl, rfl, rfl, by decide, ?_⟩, ⟨rfl, rfl, rfl, by decide, rfl, ?_⟩⟩
  · intro h
    have hlocation := congrArg (System.location · 0) h
    revert hlocation
    decide
  · intro h
    have hlocation := congrArg (System.location · 1) h
    revert hlocation
    decide

end Machine

end EightBit
