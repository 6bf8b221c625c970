import EightBit.Proofs.Pacing

/-!
The history of a machine: the turns that its processors and tickers have taken while it was used.

A machine is used by acts, of which only the quanta take turns. Every turn is kept together with
the machine as it was when the turn came.
-/

namespace EightBit.Machine

variable {C : Type} [Cpu C]

/-- One turn of a quantum. A ticker always completes its turn. -/
def take (m : Machine C) : System.Turn → Progress × Machine C
  | .processor i => m.stepProcessor i
  | .ticker j => (.completed, { m with system := m.system.perform (.ticker j) })

/-- Turns are taken in order until one of them does not complete. -/
def walk (m : Machine C) : List System.Turn → Progress × Machine C
  | [] => (.completed, m)
  | turn :: turns =>
    match m.take turn with
    | (.completed, m') => m'.walk turns
    | stopped => stopped

/-- A turn, and the machine whose turn it was. -/
structure Beat (C : Type := Core) where
  turn : System.Turn
  machine : Machine C

/-- The turns that a walk takes, with the one that does not complete, if there is one. -/
def beats (m : Machine C) : List System.Turn → List (Beat C)
  | [] => []
  | turn :: turns =>
    ⟨turn, m⟩ ::
      match m.take turn with
      | (.completed, m') => m'.beats turns
      | _ => []

inductive Act (C : Type := Core) where
  /-- A command is queued. -/
  | send (c : Command)
  | quantum
  /-- A command is carried out at once. -/
  | perform (c : Command)
  | setBreakpoint (name : String) (location : Nat)
  | clearBreakpoint (name : String) (location : Nat)
  /-- The registers of a processor, its memory or its program counter are edited. -/
  | edit (i : Nat) (f : C → C)

/-- What an act leads to before anything steps. -/
def prepare (m : Machine C) : Act C → Machine C
  | .send c => m.send c
  | .quantum => if m.poisoned then m else m.drain
  | .perform c => (m.perform c).1
  | .setBreakpoint name location => (m.orElse (m.setBreakpoint name location)).1
  | .clearBreakpoint name location => (m.orElse ((m.clearBreakpoint name location).map (·.2))).1
  | .edit i f => { m with system := m.system.update i f }

/-- A machine in which a processor broke down has no more quanta. -/
def act (m : Machine C) : Act C → Machine C
  | .quantum => if m.poisoned then m else m.quantum.2
  | a => m.prepare a

def live (m : Machine C) (acts : List (Act C)) : Machine C := acts.foldl act m

def beatsOf (m : Machine C) : Act C → List (Beat C)
  | .quantum =>
    if m.poisoned = false ∧ m.drain.Active then m.drain.beats (m.drain.system.schedule m.rounds)
    else []
  | _ => []

def history (m : Machine C) : List (Act C) → List (Beat C)
  | [] => []
  | a :: as => m.beatsOf a ++ (m.act a).history as

theorem walk_append (m : Machine C) (front back : List System.Turn) :
    m.walk (front ++ back) =
      match m.walk front with
      | (.completed, m') => m'.walk back
      | stopped => stopped := by
  induction front generalizing m with
  | nil => rfl
  | cons turn front ih =>
    simp only [List.cons_append, walk]
    rcases m.take turn with ⟨_ | _ | _, m'⟩
    · exact ih m'
    · rfl
    · rfl

theorem beats_append (m : Machine C) (front back : List System.Turn) :
    m.beats (front ++ back) = m.beats front ++
      match m.walk front with
      | (.completed, m') => m'.beats back
      | _ => [] := by
  induction front generalizing m with
  | nil => rfl
  | cons turn front ih =>
    simp only [List.cons_append, walk, beats]
    rcases m.take turn with ⟨_ | _ | _, m'⟩
    · exact congrArg (_ :: ·) (ih m')
    · rfl
    · rfl

theorem walk_processors (m : Machine C) (i k : Nat) :
    m.walk ((List.range' i k).map .processor) = m.stepProcessors i k := by
  induction k generalizing m i with
  | zero => rfl
  | succ k ih =>
    simp only [List.range'_succ, List.map_cons, walk, take, stepProcessors]
    rcases m.stepProcessor i with ⟨_ | _ | _, m'⟩
    · exact ih m' (i + 1)
    · rfl
    · rfl

theorem walk_tickers (m : Machine C) (js : List Nat) :
    m.walk (js.map .ticker) =
      (.completed, { m with system := m.system.run (js.map .ticker) }) := by
  induction js generalizing m with
  | nil => rfl
  | cons j js ih => exact ih { m with system := m.system.perform (.ticker j) }

theorem take_follows (m : Machine C) (turn : System.Turn) : m.Follows [turn] (m.take turn) := by
  cases turn with
  | processor i => exact m.stepProcessor_follows i
  | ticker j =>
    refine ⟨_, .completed ⟨id, id, trivial⟩, ?_⟩
    exact ⟨rfl, fun _ => rfl, rfl, rfl, [], by simp [take], by simp⟩

theorem walk_follows (m : Machine C) (turns : List System.Turn) :
    m.Follows turns (m.walk turns) := by
  induction turns generalizing m with
  | nil => exact ⟨[], .completed trivial, .refl m⟩
  | cons turn turns ih =>
    have hfirst := m.take_follows turn
    rw [walk, ← List.singleton_append]
    rcases hresult : m.take turn with ⟨_ | _ | _, m'⟩ <;> rw [hresult] at hfirst
    · exact hfirst.next (ih m')
    · exact hfirst.stop nofun
    · exact hfirst.stop nofun

theorem walk_advances (m : Machine C) (turns : List System.Turn) :
    ∃ done, m.Advances (m.walk turns).2 done := by
  obtain ⟨done, -, hadvances⟩ := m.walk_follows turns
  exact ⟨done, hadvances⟩

theorem take_spares (m : Machine C) (turn : System.Turn) : m.Spares (m.take turn).2 := by
  cases turn with
  | processor i => exact m.stepProcessor_spares i
  | ticker j => exact ⟨rfl, rfl, rfl, rfl, rfl, rfl⟩

theorem walk_spares (m : Machine C) (turns : List System.Turn) : m.Spares (m.walk turns).2 := by
  induction turns generalizing m with
  | nil => exact ⟨rfl, rfl, rfl, rfl, rfl, rfl⟩
  | cons turn turns ih =>
    have hfirst := m.take_spares turn
    rw [walk]
    rcases hresult : m.take turn with ⟨_ | _ | _, m'⟩ <;> rw [hresult] at hfirst
    · exact hfirst.trans (ih m')
    · exact hfirst
    · exact hfirst

/-- A turn that breaks down is not performed. -/
theorem system_take (m : Machine C) (turn : System.Turn) :
    (m.take turn).2.system =
      if (m.take turn).1 = .brokeDown then m.system else m.system.perform turn := by
  cases turn with
  | ticker j => rfl
  | processor i =>
    rw [take, stepProcessor_eq]
    by_cases hbreaks : m.breaksDown i = true
    · rw [if_pos hbreaks, if_pos rfl, begun, system_announce]
    · rw [if_neg hbreaks]
      split <;> rfl

/-- The turns on record are the ones that were performed. -/
theorem system_walk {m : Machine C} {turns : List System.Turn}
    (h : (m.walk turns).1 ≠ .brokeDown) :
    (m.walk turns).2.system = m.system.run ((m.beats turns).map (·.turn)) := by
  induction turns generalizing m with
  | nil => rfl
  | cons turn turns ih =>
    have hfirst : (m.take turn).1 ≠ .brokeDown →
        (m.take turn).2.system = m.system.perform turn := fun h => by rw [system_take, if_neg h]
    rw [walk] at h ⊢
    rw [beats, List.map_cons, System.run_cons]
    rcases hresult : m.take turn with ⟨_ | _ | _, m'⟩ <;> rw [hresult] at h hfirst
    · rw [← hfirst nofun]
      exact ih h
    · exact hfirst nofun
    · contradiction

theorem round_walk (m : Machine C) :
    m.round =
      match m.walk m.system.round with
      | (.completed, m') => (.completed, { m' with executing := none })
      | stopped => stopped := by
  have hprocessors := m.walk_processors 0 m.system.processors.size
  rw [← List.range_eq_range'] at hprocessors
  rw [System.round, walk_append, hprocessors]
  simp only [round]
  have hparts := (m.stepProcessors_follows 0 m.system.processors.size).sameParts
  rcases hresult : m.stepProcessors 0 m.system.processors.size with ⟨_ | _ | _, m'⟩
  · rw [hresult] at hparts
    simp only [walk_tickers, ← hparts.tickers, System.run_tickers]
  · rfl
  · rfl

/-- A walk through the schedule ends as the rounds of a quantum do. -/
theorem conclude_walk (m : Machine C) (n : Nat) :
    conclude (m.walk (m.system.schedule n)) = conclude (m.runRounds n) := by
  induction n generalizing m with
  | zero => rfl
  | succ n ih =>
    rw [System.schedule_succ, walk_append]
    simp only [runRounds, round_walk]
    have hparts := (m.walk_follows m.system.round).sameParts
    rcases hresult : m.walk m.system.round with ⟨_ | _ | _, m'⟩
    · rw [hresult] at hparts
      -- The walk leaves the note of what executes to the end of the quantum.
      simp only [← hparts.schedule n, ih m', conclude_runRounds_executing]
    · rfl
    · rfl

theorem prepare_setBreakpoint (m : Machine C) (name : String) (location : Nat) :
    m.prepare (.setBreakpoint name location) = m ∨
      ∃ i, m.prepare (.setBreakpoint name location) =
        m.updateWatch i fun w => { w with breakpoints := Watch.insert location w.breakpoints } := by
  simp only [prepare, setBreakpoint]
  cases m.indexOf name with
  | error e => exact .inl rfl
  | ok i => exact .inr ⟨i, rfl⟩

theorem prepare_clearBreakpoint (m : Machine C) (name : String) (location : Nat) :
    m.prepare (.clearBreakpoint name location) = m ∨
      ∃ i, m.prepare (.clearBreakpoint name location) =
        m.updateWatch i fun w => { w with breakpoints := w.breakpoints.erase location } := by
  simp only [prepare, clearBreakpoint]
  cases m.indexOf name with
  | error e => exact .inl rfl
  | ok i => exact .inr ⟨i, rfl⟩

omit [Cpu C] in
theorem rests_updateWatch (m : Machine C) (i : Nat) {f : Watch → Watch}
    (hf : ∀ w, (f w).stuck = true → w.stuck = true) : m.Rests (m.updateWatch i f) :=
  .of_same (.refl _) (fun k => stuck_of_cases (m.watch_updateWatch_cases i f k) hf) rfl rfl

/-- Short of stepping, nothing is done to a machine but what commands and edits do. -/
theorem prepare_rests (m : Machine C) (a : Act C) : m.Rests (m.prepare a) := by
  cases a with
  | send c => exact .of_same (.refl _) (fun _ => id) rfl rfl
  | quantum =>
    have hqueue : m.Rests { m with queue := [] } := .of_same (.refl _) (fun _ => id) rfl rfl
    rw [prepare]
    split
    · exact .refl m
    · exact hqueue.trans m.drain_heeds.toRests
  | perform c => exact (m.perform_outcome c).heeds.toRests
  | setBreakpoint name location =>
    rcases m.prepare_setBreakpoint name location with h | ⟨i, h⟩ <;> rw [h]
    · exact .refl m
    · exact m.rests_updateWatch i fun _ => id
  | clearBreakpoint name location =>
    rcases m.prepare_clearBreakpoint name location with h | ⟨i, h⟩ <;> rw [h]
    · exact .refl m
    · exact m.rests_updateWatch i fun _ => id
  | edit i f =>
    exact .of_same ⟨by simp [prepare, System.update], rfl, rfl⟩ (fun _ => id) rfl rfl

/-- An act takes no turns, or it walks through a schedule once it is prepared. -/
theorem act_cases (m : Machine C) (a : Act C) :
    (m.beatsOf a = [] ∧ m.act a = m.prepare a) ∨
      m.poisoned = false ∧
        m.beatsOf a = (m.prepare a).beats ((m.prepare a).system.schedule m.rounds) ∧
        m.act a = conclude ((m.prepare a).walk ((m.prepare a).system.schedule m.rounds)) := by
  cases a with
  | quantum =>
    cases hsound : m.poisoned with
    | true => simp [beatsOf, act, prepare, hsound]
    | false =>
      by_cases hactive : m.drain.Active
      · right
        simp [beatsOf, act, prepare, hsound, quantum_snd, hactive, conclude_walk]
      · left
        simp [beatsOf, act, prepare, hsound, quantum_snd, hactive]
  | _ => exact .inl ⟨rfl, rfl⟩

omit [Cpu C] in
theorem system_conclude (r : Progress × Machine C) : (conclude r).system = r.2.system := by
  rcases r with ⟨_ | _ | _, m⟩ <;> rfl

omit [Cpu C] in
theorem ne_brokeDown_of_conclude {r : Progress × Machine C} (h : (conclude r).poisoned = false) :
    r.1 ≠ .brokeDown := by
  rcases r with ⟨_ | _ | _, m⟩
  · nofun
  · nofun
  · exact absurd h Bool.true_eq_false.mp

theorem act_sameParts (m : Machine C) (a : Act C) : m.system.SameParts (m.act a).system := by
  have hprepare := (m.prepare_rests a).parts
  rcases m.act_cases a with ⟨-, hact⟩ | ⟨-, -, hact⟩
  · rwa [hact]
  · rw [hact, system_conclude]
    exact hprepare.trans ((m.prepare a).walk_follows _).sameParts

/-- A breakdown cannot be undone. -/
theorem poisoned_act {m : Machine C} (h : m.poisoned = true) (a : Act C) :
    (m.act a).poisoned = true := by
  rcases m.act_cases a with ⟨-, hact⟩ | ⟨hsound, -⟩
  · rw [hact, (m.prepare_rests a).poisoned, h]
  · exact absurd h (by simp [hsound])

theorem sound_of_live {m : Machine C} {acts : List (Act C)} (h : (m.live acts).poisoned = false) :
    m.poisoned = false := by
  induction acts generalizing m with
  | nil => exact h
  | cons a acts ih =>
    have hnext : (m.act a).poisoned = false := ih h
    cases hbroken : m.poisoned with
    | true => exact absurd (poisoned_act hbroken a) (by simp [hnext])
    | false => rfl

end EightBit.Machine
