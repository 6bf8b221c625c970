import Mathlib.Data.List.Iterate
import EightBit.Proofs.History

/-!
The states that a lone processor goes through.

Breakpoints, tracing and commands decide how many steps of it a quantum takes, and nothing more.
Whatever a machine is told, short of being edited or restored, the processor goes from each of its
states to the one that a step leads to.
-/

namespace EightBit

variable {C : Type}

namespace System

/-- One processor, and nothing else that steps. -/
structure Lone (sys : System C) : Prop where
  processors : sys.processors.size = 1
  tickers : sys.tickers = []

theorem Lone.of_sameParts {sys sys' : System C} (h : sys.Lone) (hparts : sys.SameParts sys') :
    sys'.Lone :=
  ⟨hparts.processors.trans h.processors, hparts.tickers.trans h.tickers⟩

theorem Lone.schedule {sys : System C} (h : sys.Lone) (n : Nat) :
    sys.schedule n = List.replicate n (.processor 0) := by
  have hround : sys.round = [.processor 0] := by
    rw [round, h.processors, h.tickers]
    rfl
  induction n with
  | zero => rfl
  | succ n ih => rw [schedule_succ, hround, ih, List.replicate_succ, List.singleton_append]

variable [Cpu C]

/-- A changed processor is connected to the registers that the change left behind. -/
theorem core?_update (sys : System C) (i : Nat) (f : C → C) :
    (sys.update i f).core? i = (sys.core? i).map f := by
  have hprocessors : (sys.update i f).processors[i]? = sys.processors[i]?.map fun p =>
      { p with core := Cpu.connect {} (f (Cpu.connect sys.latches p.core)) } := by
    rw [← Array.getElem?_toList, processors_update]
    simp
  simp only [core?, hprocessors, latches_update]
  cases sys.processors[i]? with
  | none => rfl
  | some p => simp

end System

def Command.Restores (c : Command) : Prop := ∃ path, c = .restore path

namespace Machine

theorem system_outcome {m m' : Machine C} {c : Command} {result : Except MachineError Unit}
    (h : m.Outcome c m' result) (hc : ¬ c.Restores) : m'.system = m.system := by
  cases h with
  | incomplete => exact absurd ⟨_, rfl⟩ hc
  | restored => exact absurd ⟨_, rfl⟩ hc
  | _ => rfl

variable [Cpu C]

theorem system_handle (m : Machine C) {c : Command} (hc : ¬ c.Restores) :
    (m.handle c).system = m.system := by
  have hperform := system_outcome
    ((m.record .debug ("command: " ++ c.describe)).perform_outcome c) hc
  rcases m.handle_cases c with ⟨-, hhandle⟩ | ⟨e, -, hhandle⟩ <;>
    rw [hhandle] <;> exact hperform

theorem system_foldl_handle (m : Machine C) {cs : List Command} (hcs : ∀ c ∈ cs, ¬ c.Restores) :
    (cs.foldl handle m).system = m.system := by
  induction cs generalizing m with
  | nil => rfl
  | cons c cs ih =>
    obtain ⟨hc, hcs⟩ := List.forall_mem_cons.mp hcs
    exact (ih (m.handle c) hcs).trans (m.system_handle hc)

/-- An act that changes the state of a processor, or tells the machine to. -/
def Act.Intrudes : Act C → Prop
  | .edit _ _ => True
  | .send c | .perform c => c.Restores
  | _ => False

structure Undisturbed (m : Machine C) (acts : List (Act C)) : Prop where
  acts : ∀ a ∈ acts, ¬ a.Intrudes
  queue : ∀ c ∈ m.queue, ¬ c.Restores
  onStop : ∀ c ∈ m.onStop, ¬ c.Restores

theorem system_prepare {m : Machine C} {a : Act C} {acts : List (Act C)}
    (h : m.Undisturbed (a :: acts)) :
    (m.prepare a).system = m.system := by
  have ha : ¬ a.Intrudes := h.acts a List.mem_cons_self
  cases a with
  | send c => rfl
  | quantum =>
    rw [prepare]
    split
    · rfl
    · exact system_foldl_handle _ h.queue
  | perform c => exact system_outcome (m.perform_outcome c) ha
  | setBreakpoint name location =>
    rcases m.prepare_setBreakpoint name location with heq | ⟨i, heq⟩ <;> rw [heq]
    rfl
  | clearBreakpoint name location =>
    rcases m.prepare_clearBreakpoint name location with heq | ⟨i, heq⟩ <;> rw [heq]
    rfl
  | edit i f => exact absurd trivial ha

theorem commands_prepare (m : Machine C) (a : Act C) :
    (m.prepare a).onStop = m.onStop ∧
      ∀ c ∈ (m.prepare a).queue, c ∈ m.queue ∨ a = .send c := by
  cases a with
  | send c =>
    refine ⟨rfl, fun c' hc' => ?_⟩
    rcases List.mem_append.mp hc' with hc' | hc'
    · exact .inl hc'
    · exact .inr (congrArg Act.send (List.mem_singleton.mp hc').symm)
  | quantum =>
    rw [prepare]
    split
    · exact ⟨rfl, fun _ => .inl⟩
    · refine ⟨m.drain_heeds.onStop, fun c hc => ?_⟩
      rw [m.drain_heeds.queue] at hc
      exact absurd hc List.not_mem_nil
  | perform c =>
    have hheeds := (m.perform_outcome c).heeds
    exact ⟨hheeds.onStop, fun c' hc' => .inl (hheeds.queue ▸ hc')⟩
  | setBreakpoint name location =>
    rcases m.prepare_setBreakpoint name location with heq | ⟨i, heq⟩ <;> rw [heq] <;>
      exact ⟨rfl, fun _ => .inl⟩
  | clearBreakpoint name location =>
    rcases m.prepare_clearBreakpoint name location with heq | ⟨i, heq⟩ <;> rw [heq] <;>
      exact ⟨rfl, fun _ => .inl⟩
  | edit i f => exact ⟨rfl, fun _ => .inl⟩

omit [Cpu C] in
theorem commands_conclude (r : Progress × Machine C) :
    (conclude r).onStop = r.2.onStop ∧
      ∀ c ∈ (conclude r).queue, c ∈ r.2.queue ∨ c ∈ r.2.onStop := by
  rcases r with ⟨_ | _ | _, m⟩
  · exact ⟨rfl, fun _ => .inl⟩
  · exact ⟨rfl, fun _ => List.mem_append.mp⟩
  · exact ⟨rfl, fun _ => .inl⟩

theorem Undisturbed.act {m : Machine C} {a : Act C} {acts : List (Act C)}
    (h : m.Undisturbed (a :: acts)) : (m.act a).Undisturbed acts := by
  obtain ⟨ha, hacts⟩ := List.forall_mem_cons.mp h.acts
  obtain ⟨honStop, hqueue⟩ := m.commands_prepare a
  have hprepared : (m.prepare a).Undisturbed acts := by
    refine ⟨hacts, fun c hc => ?_, fun c hc => h.onStop c (honStop ▸ hc)⟩
    rcases hqueue c hc with hc | rfl
    · exact h.queue c hc
    · exact ha
  rcases m.act_cases a with ⟨-, hact⟩ | ⟨-, -, hact⟩ <;> rw [hact]
  · exact hprepared
  · have hspares := (m.prepare a).walk_spares ((m.prepare a).system.schedule m.rounds)
    obtain ⟨honStop', hqueue'⟩ :=
      commands_conclude ((m.prepare a).walk ((m.prepare a).system.schedule m.rounds))
    rw [hspares.onStop] at honStop' hqueue'
    rw [hspares.queue] at hqueue'
    refine ⟨hacts, fun c hc => ?_, fun c hc => hprepared.onStop c (honStop' ▸ hc)⟩
    exact (hqueue' c hc).elim (hprepared.queue c) (hprepared.onStop c)

/-- The turns that end: of a processor that breaks down the last one does not. -/
def steps (h : List (Beat C)) : List (Beat C) :=
  h.filter fun b => (b.machine.take b.turn).1 ≠ .brokeDown

theorem steps_append (front back : List (Beat C)) :
    steps (front ++ back) = steps front ++ steps back :=
  List.filter_append ..

def Beat.after (b : Beat C) : Option C := (b.machine.take b.turn).2.system.core? 0

/-- The states that the first processor is in before and after its steps. -/
def visited (m : Machine C) (acts : List (Act C)) : List (Option C) :=
  m.system.core? 0 :: (steps (m.history acts)).map Beat.after

/-- The lone processor of `sys` has come there from `c` by the steps in `h`. -/
structure Leads (c : C) (h : List (Beat C)) (sys : System C) : Prop where
  lone : sys.Lone
  core : sys.core? 0 = some (Cpu.step^[(steps h).length] c)
  visits : (steps h).map Beat.after = (List.iterate Cpu.step (Cpu.step c) (steps h).length).map some

theorem Leads.nil {c : C} {sys : System C} (hlone : sys.Lone) (hcore : sys.core? 0 = some c) :
    Leads c [] sys := ⟨hlone, hcore, rfl⟩

theorem Leads.append {c : C} {front back : List (Beat C)} {sys sys' : System C}
    (h : Leads c front sys) (h' : Leads (Cpu.step^[(steps front).length] c) back sys') :
    Leads c (front ++ back) sys' := by
  refine ⟨h'.lone, ?_, ?_⟩
  · rw [steps_append, List.length_append, Nat.add_comm, Function.iterate_add_apply]
    exact h'.core
  · rw [steps_append, List.map_append, List.length_append, List.iterate_add, List.map_append,
      h.visits, h'.visits, ← Function.iterate_succ_apply, Function.iterate_succ_apply']

theorem leads_take {m : Machine C} {c : C} (hlone : m.system.Lone)
    (hcore : m.system.core? 0 = some c) :
    Leads c [⟨.processor 0, m⟩] (m.take (.processor 0)).2.system := by
  have hsystem := m.system_take (.processor 0)
  by_cases hbreaks : (m.take (.processor 0)).1 = .brokeDown
  · have hsteps : steps [⟨.processor 0, m⟩] = [] := by simp [steps, hbreaks]
    rw [hsystem, if_pos hbreaks]
    refine ⟨hlone, ?_, ?_⟩ <;> rw [hsteps]
    · exact hcore
    · rfl
  · have hsteps : steps [⟨.processor 0, m⟩] = [⟨.processor 0, m⟩] := by simp [steps, hbreaks]
    have hstep : (m.take (.processor 0)).2.system.core? 0 = some (Cpu.step c) := by
      rw [hsystem, if_neg hbreaks, System.perform, System.core?_update, hcore, Option.map_some]
    refine ⟨?_, ?_, ?_⟩
    · rw [hsystem, if_neg hbreaks]
      exact hlone.of_sameParts (m.system.sameParts_perform (.processor 0))
    · rw [hsteps]
      exact hstep
    · rw [hsteps]
      exact congrArg ([·]) hstep

theorem leads_walk {m : Machine C} {c : C} (hlone : m.system.Lone)
    (hcore : m.system.core? 0 = some c) (n : Nat) :
    Leads c (m.beats (List.replicate n (.processor 0)))
      (m.walk (List.replicate n (.processor 0))).2.system := by
  induction n generalizing m c with
  | zero => exact .nil hlone hcore
  | succ n ih =>
    have hfirst := leads_take hlone hcore
    rw [List.replicate_succ, walk, beats]
    rcases hresult : m.take (.processor 0) with ⟨_ | _ | _, m'⟩ <;> rw [hresult] at hfirst
    · exact hfirst.append (ih hfirst.lone hfirst.core)
    · exact hfirst
    · exact hfirst

theorem leads_act {m : Machine C} {c : C} {a : Act C} {acts : List (Act C)} (hlone : m.system.Lone)
    (hcore : m.system.core? 0 = some c) (h : m.Undisturbed (a :: acts)) :
    Leads c (m.beatsOf a) (m.act a).system := by
  have hsystem := system_prepare h
  rcases m.act_cases a with ⟨hbeats, hact⟩ | ⟨-, hbeats, hact⟩ <;> rw [hbeats, hact]
  · rw [hsystem]
    exact .nil hlone hcore
  · rw [system_conclude, hsystem, hlone.schedule]
    exact leads_walk (hsystem ▸ hlone) (hsystem ▸ hcore) m.rounds

theorem leads_live {m : Machine C} {c : C} {acts : List (Act C)} (hlone : m.system.Lone)
    (hcore : m.system.core? 0 = some c) (h : m.Undisturbed acts) :
    Leads c (m.history acts) (m.live acts).system := by
  induction acts generalizing m c with
  | nil => exact .nil hlone hcore
  | cons a acts ih =>
    have hfirst := leads_act hlone hcore h
    exact hfirst.append (ih hfirst.lone hfirst.core h.act)

theorem visited_eq {m : Machine C} {c : C} {acts : List (Act C)} (hlone : m.system.Lone)
    (hcore : m.system.core? 0 = some c) (h : m.Undisturbed acts) :
    m.visited acts =
      (List.iterate Cpu.step c ((steps (m.history acts)).length + 1)).map some := by
  rw [visited, hcore, (leads_live hlone hcore h).visits, List.iterate, List.map_cons]

/-- A lone processor that has taken some steps is where so many steps lead, whatever breakpoints
and commands have cut them into quanta; and of two machines with the same processor in the same
state, the one that goes farther goes through all the states of the other. -/
theorem lone_processor_undisturbed {m : Machine C} {c : C} {acts : List (Act C)}
    (hlone : m.system.Lone) (hcore : m.system.core? 0 = some c) (h : m.Undisturbed acts) :
    let k := (steps (m.history acts)).length
    (m.live acts).system.core? 0 = some (Cpu.step^[k] c) ∧
      m.visited acts = (List.iterate Cpu.step c (k + 1)).map some ∧
      ∀ (m' : Machine C) (acts' : List (Act C)), m'.system.Lone → m'.system.core? 0 = some c →
        m'.Undisturbed acts' →
        m.visited acts <+: m'.visited acts' ∨ m'.visited acts' <+: m.visited acts := by
  refine ⟨(leads_live hlone hcore h).core, visited_eq hlone hcore h, ?_⟩
  intro m' acts' hlone' hcore' h'
  rw [visited_eq hlone hcore h, visited_eq hlone' hcore' h']
  have hinitial {n k : Nat} (hn : n ≤ k) :
      (List.iterate Cpu.step c n).map some <+: (List.iterate Cpu.step c k).map some := by
    obtain ⟨d, rfl⟩ := Nat.exists_eq_add_of_le hn
    rw [List.iterate_add, List.map_append]
    exact List.prefix_append _ _
  rcases Nat.le_total ((steps (m.history acts)).length + 1)
    ((steps (m'.history acts')).length + 1) with hn | hn
  · exact .inl (hinitial hn)
  · exact .inr (hinitial hn)

/-- A 6502 that counts in its register x, and goes back after every count. -/
def loop : Mos6502 :=
  Mos6502.powerOn ((Memory.empty 16 1).mapData 0 #[0xe8, 0x4c, 0, 0] true) {}

def counting (breakpoints : List Nat) : Machine where
  system := {
    name := "loop"
    processors := #[⟨"cpu", .mos6502 loop⟩]
    latches := {}
    tickers := []
    catalog := Catalog.basic
    saved := none
    screen := none }
  rounds := 3
  encode _ := .ok []
  status := .run
  watches := #[{ breakpoints }]

def interrupted : List Act := [.quantum, .send (.trace "cpu" none), .send .start, .quantum]

/-- The breakpoint stops the machine behind its first step and behind its third. Undisturbed, it
takes the same three steps in one quantum. -/
theorem lone_processor_undisturbed_counting :
    (counting [1]).system.Lone ∧ (counting [1]).Undisturbed interrupted ∧
      ((counting [1]).live interrupted).status = .stopped ∧
      ((counting [1]).live interrupted).system.core? 0 = some (Core.step^[3] (.mos6502 loop)) ∧
      ((counting []).live [.quantum]).system.core? 0 = some (Core.step^[3] (.mos6502 loop)) := by
  have hlone (breakpoints : List Nat) : (counting breakpoints).system.Lone := ⟨rfl, rfl⟩
  have hcore (breakpoints : List Nat) :
      (counting breakpoints).system.core? 0 = some (.mos6502 loop) := rfl
  have hinterrupted : (counting [1]).Undisturbed interrupted :=
    ⟨by simp [interrupted, Act.Intrudes, Command.Restores], nofun, nofun⟩
  have hplain : (counting []).Undisturbed [.quantum] := ⟨by simp [Act.Intrudes], nofun, nofun⟩
  have hsteps : (steps ((counting [1]).history interrupted)).length = 3 := by decide +kernel
  have hsteps' : (steps ((counting []).history [.quantum])).length = 3 := by decide +kernel
  obtain ⟨hstate, -, -⟩ := lone_processor_undisturbed (hlone [1]) (hcore [1]) hinterrupted
  obtain ⟨hstate', -, -⟩ := lone_processor_undisturbed (hlone []) (hcore []) hplain
  rw [hsteps] at hstate
  rw [hsteps'] at hstate'
  exact ⟨hlone [1], hinterrupted, by decide +kernel, hstate, hstate'⟩

end Machine

end EightBit
