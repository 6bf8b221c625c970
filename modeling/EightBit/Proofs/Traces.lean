import Mathlib.Data.List.Basic
import EightBit.Proofs.History

/-!
What a machine makes known of the steps of its traced processors.

Before a traced processor steps, its name and location are made known, unless the machine takes the
processor to be stuck. It goes by how the processor's step before has ended. That is where the
processor still is, unless it has been moved between the two steps.
-/

namespace EightBit

variable {C : Type} [Cpu C]

namespace System

theorem location_update_of_ne (sys : System C) {i k : Nat} (h : k ≠ i) (f : C → C) :
    (sys.update k f).location i = sys.location i := by
  have hprocessor : (sys.update k f).processors[i]? = sys.processors[i]? := by
    rw [← Array.getElem?_toList, processors_update]
    simp [h]
  simp only [location, hprocessor]

theorem location_ticker (sys : System C) (j i : Nat) :
    (sys.perform (.ticker j)).location i = sys.location i := by
  simp only [perform]
  split <;> rfl

end System

namespace Machine

instance : DecidablePred Event.IsTrace := fun e =>
  match e with
  | .trace _ _ => isTrue trivial
  | .status _ => isFalse id
  | .error _ => isFalse id

def Beat.published (b : Beat C) : List Event :=
  (b.machine.take b.turn).2.events.toList.drop b.machine.events.size

def latest (h : List (Beat C)) (i : Nat) : Option (Beat C) :=
  (h.filter fun b => b.turn = .processor i).getLast?

omit [Cpu C] in
theorem latest_concat (h : List (Beat C)) (b : Beat C) (i : Nat) :
    latest (h ++ [b]) i = if b.turn = .processor i then some b else latest h i := by
  by_cases hb : b.turn = .processor i <;> simp [latest, List.filter_append, hb]

theorem events_announce (m : Machine C) (i : Nat) :
    (m.announce i).events.toList = m.events.toList ++
      if (m.watch i).tracing ∧ (m.watch i).stuck = false then
        [.trace (m.processorName i) (m.location i)]
      else [] := by
  simp only [announce]
  cases (m.watch i).tracing <;> cases (m.watch i).stuck <;> simp [publish]

/-- The step itself makes nothing known. -/
theorem events_stepProcessor (m : Machine C) (i : Nat) :
    (m.stepProcessor i).2.events = (m.announce i).events := by
  rw [stepProcessor_eq]
  split
  · rfl
  · split <;> rfl

theorem published_processor (m : Machine C) (i : Nat) :
    Beat.published ⟨.processor i, m⟩ =
      if (m.watch i).tracing ∧ (m.watch i).stuck = false then
        [.trace (m.processorName i) (m.location i)]
      else [] := by
  rw [Beat.published, take, events_stepProcessor, events_announce, ← Array.length_toList,
    List.drop_left]

theorem published_ticker (m : Machine C) (j : Nat) : Beat.published ⟨.ticker j, m⟩ = [] := by
  simp [Beat.published, take]

theorem events_take (m : Machine C) (turn : System.Turn) :
    (m.take turn).2.events.toList = m.events.toList ++ Beat.published ⟨turn, m⟩ := by
  cases turn with
  | processor i => rw [take, events_stepProcessor, events_announce, published_processor]
  | ticker j => rw [published_ticker, List.append_nil, take]

theorem isTrace_published (b : Beat C) : ∀ e ∈ b.published, e.IsTrace := by
  obtain ⟨turn | j, m⟩ := b
  · rw [published_processor]
    split <;> simp [Event.IsTrace]
  · simp [published_ticker]

/-- A processor that is taken to be stuck is where its latest step began. -/
def Recalls (h : List (Beat C)) (m : Machine C) : Prop :=
  ∀ i, (m.watch i).stuck = true →
    ∃ b, latest h i = some b ∧ b.machine.location i = m.location i

theorem watch_begun (m : Machine C) (k i : Nat) : (m.begun k).watch i = m.watch i := by
  rw [begun_eq]
  rfl

theorem watch_stepped (m : Machine C) (k i : Nat) :
    (m.stepped k).watch i =
      if k = i ∧ i < m.watches.size then
        { m.watch i with
          stuck := (m.system.perform (.processor k)).location k == m.location k }
      else m.watch i := by
  have hwatches : (m.begun k).watches = m.watches := by rw [begun_eq]
  rw [stepped, watch_updateWatch_eq]
  simp only [watch, hwatches]

theorem stuck_stepped {m : Machine C} {k : Nat} (h : ((m.stepped k).watch k).stuck = true) :
    (m.stepped k).location k = m.location k := by
  rw [watch_stepped] at h
  split at h
  · exact eq_of_beq h
  · next hsize =>
    have hnone : m.watches[k]? = none := Array.getElem?_eq_none (by omega)
    simp [watch, Array.getD_eq_getD_getElem?, hnone] at h

theorem recalls_take {h : List (Beat C)} {m : Machine C} (hm : Recalls h m) (turn : System.Turn) :
    Recalls (h ++ [⟨turn, m⟩]) (m.take turn).2 := by
  intro i hi
  rw [latest_concat]
  cases turn with
  | ticker j =>
    obtain ⟨b, hb, hlocation⟩ := hm i hi
    exact ⟨b, by simpa using hb, hlocation.trans (m.system.location_ticker j i).symm⟩
  | processor k =>
    -- A step moves its own processor only, and changes no other one's flag.
    have hcases : (m.take (.processor k)).2 = m.begun k ∨
        (m.take (.processor k)).2 = m.stepped k := by
      rw [take, stepProcessor_eq]
      split
      · exact .inl rfl
      · split <;> exact .inr rfl
    by_cases hk : k = i
    · subst hk
      refine ⟨⟨.processor k, m⟩, if_pos rfl, ?_⟩
      rcases hcases with heq | heq <;> rw [heq] at hi ⊢
      · rw [begun_eq]
        rfl
      · exact (stuck_stepped hi).symm
    · have hother : m.location i = (m.take (.processor k)).2.location i := by
        rcases hcases with heq | heq <;> rw [heq]
        · rw [begun_eq]
          rfl
        · exact (m.system.location_update_of_ne hk Cpu.step).symm
      have hstuck : (m.watch i).stuck = true := by
        rcases hcases with heq | heq <;> rw [heq] at hi
        · rwa [watch_begun] at hi
        · rwa [watch_stepped, if_neg (by simp [hk])] at hi
      obtain ⟨b, hb, hlocation⟩ := hm i hstuck
      exact ⟨b, by simpa [hk] using hb, hlocation.trans hother⟩

/-- Before the processor steps, its name and location are made known, and nothing else is. -/
structure Beat.Told (b : Beat C) (i : Nat) : Prop where
  published : b.published = [.trace (b.machine.processorName i) (b.machine.location i)]
  before : (b.machine.announce i).events.toList = b.machine.events.toList ++ b.published
  unmoved : (b.machine.announce i).system = b.machine.system

/-- Nothing is made known of a step, and the one before it began at the same location. -/
def Beat.Repeats (b : Beat C) (i : Nat) (before : List (Beat C)) : Prop :=
  b.published = [] ∧
    ∃ previous, latest before i = some previous ∧
      previous.machine.location i = b.machine.location i

/-- Every step of a traced processor is made known before it happens, unless the processor's step
before began at the same location. -/
def Complete (h : List (Beat C)) : Prop :=
  ∀ before b after i, h = before ++ b :: after → b.turn = .processor i →
    (b.machine.watch i).tracing = true → b.Told i ∨ b.Repeats i before

theorem told_or_repeats {h : List (Beat C)} {m : Machine C} (hm : Recalls h m) {i : Nat}
    (htracing : (m.watch i).tracing = true) :
    Beat.Told ⟨.processor i, m⟩ i ∨ Beat.Repeats ⟨.processor i, m⟩ i h := by
  cases hstuck : (m.watch i).stuck with
  | false =>
    have hpublished := m.published_processor i
    rw [if_pos ⟨htracing, hstuck⟩] at hpublished
    refine .inl ⟨hpublished, ?_, m.system_announce i⟩
    rw [hpublished, events_announce, if_pos ⟨htracing, hstuck⟩]
  | true =>
    refine .inr ⟨?_, hm i hstuck⟩
    rw [published_processor, if_neg (by simp [hstuck])]

theorem split_concat {α : Type} {front before after : List α} {x y : α}
    (h : front ++ [x] = before ++ y :: after) :
    before = front ∧ y = x ∨ ∃ rest, front = before ++ y :: rest := by
  rcases List.eq_nil_or_concat after with rfl | ⟨rest, z, rfl⟩
  · obtain ⟨hfront, hlast⟩ := List.append_inj' h rfl
    exact .inl ⟨hfront.symm, (List.cons.inj hlast).1.symm⟩
  · rw [List.concat_eq_append, ← List.cons_append, ← List.append_assoc] at h
    exact .inr ⟨rest, (List.append_inj' h rfl).1⟩

theorem complete_concat {h : List (Beat C)} {m : Machine C} (hcomplete : Complete h)
    (hm : Recalls h m) (turn : System.Turn) : Complete (h ++ [⟨turn, m⟩]) := by
  intro before b after i hsplit hturn htracing
  rcases split_concat hsplit with ⟨rfl, rfl⟩ | ⟨rest, hrest⟩
  · subst hturn
    exact told_or_repeats hm htracing
  · exact hcomplete before b rest i hrest hturn htracing

structure Accounts (old : List Event) (h : List (Beat C)) (m : Machine C) : Prop where
  recalls : Recalls h m
  complete : Complete h
  events : m.events.toList.filter Event.IsTrace = old ++ h.flatMap Beat.published

theorem accounts_take {old : List Event} {h : List (Beat C)} {m : Machine C} (hm : Accounts old h m)
    (turn : System.Turn) : Accounts old (h ++ [⟨turn, m⟩]) (m.take turn).2 := by
  refine ⟨recalls_take hm.recalls turn, complete_concat hm.complete hm.recalls turn, ?_⟩
  have hpublished : (Beat.published ⟨turn, m⟩).filter Event.IsTrace = Beat.published ⟨turn, m⟩ :=
    List.filter_eq_self.mpr fun e he => by simpa using isTrace_published _ e he
  rw [events_take, List.filter_append, hpublished, hm.events, List.flatMap_append,
    List.flatMap_singleton, List.append_assoc]

theorem accounts_walk {old : List Event} {h : List (Beat C)} {m : Machine C} (hm : Accounts old h m)
    (turns : List System.Turn) : Accounts old (h ++ m.beats turns) (m.walk turns).2 := by
  induction turns generalizing h m with
  | nil => simpa [beats, walk] using hm
  | cons turn turns ih =>
    have hfirst := accounts_take hm turn
    rw [walk, beats]
    rcases hresult : m.take turn with ⟨_ | _ | _, m'⟩ <;> rw [hresult] at hfirst
    · rw [← List.singleton_append, ← List.append_assoc]
      exact ih hfirst
    · exact hfirst
    · exact hfirst

theorem accounts_conclude {old : List Event} {h : List (Beat C)} {r : Progress × Machine C}
    (hr : Accounts old h r.2) : Accounts old h (conclude r) := by
  obtain ⟨p, m⟩ := r
  have hstatus (s : Status) : ¬ (Event.status s).IsTrace := id
  refine ⟨?_, hr.complete, ?_⟩
  · cases p <;> exact hr.recalls
  · rw [← hr.events]
    cases p <;> simp [conclude, setStatus, record, publish, hstatus]

/-- A processor that the machine goes on taking to be stuck has been moved. -/
def Misplaces (m m' : Machine C) : Prop :=
  ∃ i, (m'.watch i).stuck = true ∧ m'.location i ≠ m.location i

theorem accounts_rests {old : List Event} {h : List (Beat C)} {m m' : Machine C}
    (hm : Accounts old h m) (hrests : m.Rests m') (hplaced : ¬ m.Misplaces m') :
    Accounts old h m' := by
  refine ⟨?_, hm.complete, ?_⟩
  · intro i hi
    -- What is taken to be stuck was so before, and has not been moved since.
    obtain ⟨b, hb, hlocation⟩ := hm.recalls i (hrests.stuck i hi)
    refine ⟨b, hb, hlocation.trans ?_⟩
    exact Decidable.byContradiction fun hmoved => hplaced ⟨i, hi, Ne.symm hmoved⟩
  · obtain ⟨told, hevents, htold⟩ := hrests.events
    have hnone : told.filter Event.IsTrace = [] :=
      List.filter_eq_nil_iff.mpr fun e he => by simpa using (htold e he).1
    rw [hevents, List.filter_append, hnone, List.append_nil, hm.events]

theorem misplaces_outcome {m m' : Machine C} {c : Command} {result : Except MachineError Unit}
    (h : m.Outcome c m' result) (hm : m.Misplaces m') :
    ∃ path e, c = .restore path ∧ result = .error (.stream e) := by
  obtain ⟨i, hi, hmoved⟩ := hm
  cases h with
  | incomplete e hparts => exact ⟨_, e, rfl, rfl⟩
  | restored hparts =>
    have hreleased : ((m.watches.map Watch.release).getD i {}).stuck = false := by
      simp only [Array.getD_eq_getD_getElem?, Array.getElem?_map]
      cases m.watches[i]? <;> rfl
    exact absurd (hreleased.symm.trans hi) Bool.false_ne_true
  | _ => exact absurd rfl hmoved

theorem Misplaces.split {m m' m'' : Machine C} (h : m.Misplaces m'') (hrests : m'.Rests m'') :
    m.Misplaces m' ∨ m'.Misplaces m'' := by
  obtain ⟨i, hi, hmoved⟩ := h
  by_cases hsame : m'.location i = m.location i
  · exact .inr ⟨i, hi, hsame ▸ hmoved⟩
  · exact .inl ⟨i, hrests.stuck i hi, hsame⟩

/-- Of the commands, only one whose file cannot be read to its end misplaces a processor. -/
theorem misplaces_handle {m : Machine C} {c : Command} (h : m.Misplaces (m.handle c)) :
    ∃ path e, c = .restore path ∧ (m.perform c).2 = .error (.stream e) := by
  have houtcome := (m.record .debug ("command: " ++ c.describe)).perform_outcome c
  have hperformed : m.Misplaces ((m.record .debug ("command: " ++ c.describe)).perform c).1 := by
    rcases m.handle_cases c with ⟨-, hhandle⟩ | ⟨e, -, hhandle⟩ <;> rw [hhandle] at h <;> exact h
  obtain ⟨path, e, rfl, hresult⟩ := misplaces_outcome houtcome hperformed
  exact ⟨path, e, rfl, (m.perform_record _ _ (.restore path)).symm.trans hresult⟩

theorem misplaces_foldl {m : Machine C} {cs : List Command} (h : m.Misplaces (cs.foldl handle m)) :
    ∃ front path back e, cs = front ++ .restore path :: back ∧
      ((front.foldl handle m).perform (.restore path)).2 = .error (.stream e) := by
  induction cs generalizing m with
  | nil =>
    obtain ⟨i, -, hmoved⟩ := h
    exact absurd rfl hmoved
  | cons c cs ih =>
    rcases h.split (foldl_handle_heeds (m.handle c) cs).toRests with hfirst | hrest
    · obtain ⟨path, e, rfl, hresult⟩ := misplaces_handle hfirst
      exact ⟨[], path, cs, e, rfl, hresult⟩
    · obtain ⟨front, path, back, e, rfl, hresult⟩ := ih hrest
      exact ⟨c :: front, path, back, e, rfl, hresult⟩

/-- What misplaces a processor is an edit that moves it while it is stuck, or a file that cannot be
read to its end. -/
theorem misplaces_prepare {m : Machine C} {a : Act C} (h : m.Misplaces (m.prepare a)) :
    match a with
    | .edit i f => (m.watch i).stuck = true ∧ (m.system.update i f).location i ≠ m.location i
    | .perform c => ∃ path e, c = .restore path ∧ (m.perform c).2 = .error (.stream e)
    | .quantum => ∃ front path back e, m.queue = front ++ .restore path :: back ∧
        ((front.foldl handle { m with queue := [] }).perform (.restore path)).2 =
          .error (.stream e)
    | _ => False := by
  have hsame {m' : Machine C} (h : m.Misplaces m') (hsystem : m'.system = m.system) : False := by
    obtain ⟨i, -, hmoved⟩ := h
    rw [location, hsystem] at hmoved
    exact hmoved rfl
  cases a with
  | send c => exact hsame h rfl
  | quantum =>
    rw [prepare] at h
    split at h
    · exact (hsame h rfl).elim
    · exact misplaces_foldl (m := { m with queue := [] }) h
  | perform c => exact misplaces_outcome (m.perform_outcome c) h
  | setBreakpoint name location =>
    rcases m.prepare_setBreakpoint name location with heq | ⟨i, heq⟩ <;> rw [heq] at h
    · exact hsame h rfl
    · exact hsame h rfl
  | clearBreakpoint name location =>
    rcases m.prepare_clearBreakpoint name location with heq | ⟨i, heq⟩ <;> rw [heq] at h
    · exact hsame h rfl
    · exact hsame h rfl
  | edit k f =>
    obtain ⟨i, hi, hmoved⟩ := h
    by_cases hk : k = i
    · subst hk
      exact ⟨hi, hmoved⟩
    · exact absurd (m.system.location_update_of_ne hk f) hmoved

/-- No act moves a processor that the machine goes on taking to be stuck. -/
def Steady (m : Machine C) : List (Act C) → Prop
  | [] => True
  | a :: as => ¬ m.Misplaces (m.prepare a) ∧ (m.act a).Steady as

theorem accounts_act {old : List Event} {h : List (Beat C)} {m : Machine C} (hm : Accounts old h m)
    {a : Act C} (hplaced : ¬ m.Misplaces (m.prepare a)) :
    Accounts old (h ++ m.beatsOf a) (m.act a) := by
  have hprepare := accounts_rests hm (m.prepare_rests a) hplaced
  rcases m.act_cases a with ⟨hbeats, hact⟩ | ⟨-, hbeats, hact⟩ <;> rw [hbeats, hact]
  · rwa [List.append_nil]
  · exact accounts_conclude (accounts_walk hprepare _)

theorem accounts_live {old : List Event} {h : List (Beat C)} {m : Machine C} (hm : Accounts old h m)
    {acts : List (Act C)} (hsteady : m.Steady acts) :
    Accounts old (h ++ m.history acts) (m.live acts) := by
  induction acts generalizing h m with
  | nil => simpa [history, live] using hm
  | cons a acts ih =>
    have hrest := ih (accounts_act hm hsteady.1) hsteady.2
    rwa [List.append_assoc] at hrest

/-- As long as no processor is moved that the machine goes on taking to be stuck, what it makes
known of steps is what it makes known during its turns, one after the other; and before every step
of a traced processor that is the processor's name and location, unless its step before began at
the same location. -/
theorem trace_complete (m : Machine C) (acts : List (Act C))
    (hfresh : ∀ i, (m.watch i).stuck = false) (hsteady : m.Steady acts) :
    (m.live acts).events.toList.filter Event.IsTrace =
      m.events.toList.filter Event.IsTrace ++ (m.history acts).flatMap Beat.published ∧
    Complete (m.history acts) := by
  have hfirst : Accounts (m.events.toList.filter Event.IsTrace) [] m := by
    refine ⟨?_, ?_, by simp⟩
    · intro i hi
      rw [hfresh i] at hi
      contradiction
    · intro before b after i hsplit
      simp at hsplit
  have hlast := accounts_live hfirst hsteady
  exact ⟨hlast.events, hlast.complete⟩

theorem misplaces_iff (m m' : Machine C) :
    m.Misplaces m' ↔
      ∃ i < m'.watches.size, (m'.watch i).stuck = true ∧ m'.location i ≠ m.location i := by
  constructor
  · rintro ⟨i, hi, hmoved⟩
    refine ⟨i, ?_, hi, hmoved⟩
    refine Decidable.byContradiction fun hsize => ?_
    have hnone : m'.watches[i]? = none := Array.getElem?_eq_none (by omega)
    simp [watch, Array.getD_eq_getD_getElem?, hnone] at hi
  · rintro ⟨i, -, hi⟩
    exact ⟨i, hi⟩

instance (m m' : Machine C) : Decidable (m.Misplaces m') :=
  decidable_of_iff _ (misplaces_iff m m').symm

instance decideSteady (m : Machine C) : (acts : List (Act C)) → Decidable (m.Steady acts)
  | [] => inferInstanceAs (Decidable True)
  | a :: as =>
    have := decideSteady (m.act a) as
    inferInstanceAs (Decidable (_ ∧ _))

/-- A traced 6502 whose memory holds nothing but the instruction that leads to address 0. -/
def looping : Machine where
  system := {
    name := "looping"
    processors := #[⟨"cpu", .mos6502 (Mos6502.powerOn (Memory.ram 16) {})⟩]
    latches := {}
    tickers := []
    catalog := Catalog.basic
    saved := none
    screen := none }
  rounds := 1
  encode _ := .ok []
  status := .run
  watches := #[{ tracing := true }]

def settled : List Act :=
  [.edit 0 (Core.setPc 3), .quantum, .quantum, .edit 0 (Core.setPc 0), .quantum]

theorem fresh_looping (i : Nat) : (looping.watch i).stuck = false := by
  cases i <;> rfl

theorem trace_complete_looping :
    (∀ i, (looping.watch i).stuck = false) ∧ looping.Steady settled ∧
      (looping.history settled).length = 3 ∧
      (looping.live settled).events.toList.filter Event.IsTrace =
        [.trace "cpu" 3, .trace "cpu" 0] := by
  have hsteady : looping.Steady settled := by decide +kernel
  obtain ⟨hevents, -⟩ := trace_complete looping settled fresh_looping hsteady
  refine ⟨fresh_looping, hsteady, by decide +kernel, ?_⟩
  rw [hevents]
  decide +kernel

/-- The processor is moved away from where it is stuck. -/
def astray : List Act := [.quantum, .edit 0 (Core.setPc 5), .quantum]

/-- The step at the new location is not made known. -/
theorem trace_missing :
    (∀ i, (looping.watch i).stuck = false) ∧ ¬ Complete (looping.history astray) := by
  refine ⟨fresh_looping, fun hcomplete => ?_⟩
  have hlength : (looping.history astray).length = 2 := by decide +kernel
  have hbeats : (looping.history astray).map
      (fun b => (b.turn, b.machine.location 0, (b.machine.watch 0).tracing, b.published)) =
        [(.processor 0, 0, true, [.trace "cpu" 0]), (.processor 0, 5, true, [])] := by
    decide +kernel
  obtain ⟨first, second, hhistory⟩ := List.length_eq_two.mp hlength
  simp only [hhistory, List.map_cons, List.map_nil, List.cons.injEq, Prod.mk.injEq] at hbeats
  obtain ⟨⟨hturn, hbegan, -⟩, ⟨hturn', hbegan', htracing, hpublished⟩, -⟩ := hbeats
  rcases hcomplete [first] second [] 0 hhistory hturn' htracing with
    htold | ⟨-, previous, hlatest, hsame⟩
  · exact List.cons_ne_nil _ _ (htold.published.symm.trans hpublished)
  · have hfirst : first = previous := by simpa [latest, hturn] using hlatest
    rw [← hfirst, hbegan, hbegan'] at hsame
    exact absurd hsame (by decide)

end Machine

end EightBit
