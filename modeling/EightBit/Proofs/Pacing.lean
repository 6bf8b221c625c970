import EightBit.Proofs.Commands

/-!
How the rounds of a machine are cut into quanta.

A quantum of some rounds and a quantum of some more come to one quantum of them all: the machine
ends the same, down to what it has made known. Whatever ends the first quantum early keeps the
second from doing anything.
-/

namespace EightBit.Machine

variable {C : Type} [Cpu C]

/-- What every step and every ticking of the tickers keeps, a round keeps. -/
theorem round_keeps {P : Machine C → Prop} (hstep : ∀ m i, P m → P (m.stepProcessor i).2)
    (htick : ∀ m, P m → P { m with executing := none, system := m.system.tick })
    {m : Machine C} (h : P m) : P m.round.2 := by
  have hprocessors (k i : Nat) {m : Machine C} (h : P m) : P (m.stepProcessors i k).2 := by
    induction k generalizing m i with
    | zero => exact h
    | succ k ih =>
      have hfirst := hstep m i h
      simp only [stepProcessors]
      split
      · next m' hm' => exact ih (i + 1) (by rwa [hm'] at hfirst)
      · exact hfirst
  have hall := hprocessors m.system.processors.size 0 h
  simp only [round]
  split
  · next m' hm' => exact htick m' (by rwa [hm'] at hall)
  · exact hall

theorem runRounds_keeps {P : Machine C → Prop} (hstep : ∀ m i, P m → P (m.stepProcessor i).2)
    (htick : ∀ m, P m → P { m with executing := none, system := m.system.tick })
    {m : Machine C} (h : P m) (n : Nat) : P (m.runRounds n).2 := by
  induction n generalizing m with
  | zero => exact h
  | succ n ih =>
    have hround := round_keeps hstep htick h
    simp only [runRounds]
    split
    · next m' hm' => exact ih (by rwa [hm'] at hround)
    · exact hround

/-- When a processor is about to step, only the events and the note of what executes differ. -/
theorem begun_eq (m : Machine C) (i : Nat) :
    m.begun i = { m with
      events := if (m.watch i).tracing && !(m.watch i).stuck then
          m.events.push (.trace (m.processorName i) (m.location i))
        else m.events
      executing := some (i, m.location i) } := by
  simp only [begun, announce, publish]
  split <;> rfl

/-- A step neither asks how long a quantum is nor which processor stepped before. -/
theorem stepProcessor_update (m : Machine C) (n : Nat) (x : Option (Nat × Nat)) (i : Nat) :
    { m with rounds := n, executing := x }.stepProcessor i =
      ((m.stepProcessor i).1, { (m.stepProcessor i).2 with rounds := n }) := by
  have hbegun : { m with rounds := n, executing := x }.begun i =
      { m.begun i with rounds := n } := by
    rw [begun_eq, begun_eq]
    rfl
  have hstepped : { m with rounds := n, executing := x }.stepped i =
      { m.stepped i with rounds := n } := by
    simp only [stepped, hbegun]
    rfl
  have hdown : { m with rounds := n, executing := x }.breaksDown i = m.breaksDown i := rfl
  rw [stepProcessor_eq, stepProcessor_eq, hbegun, hstepped, hdown]
  split
  · rfl
  · split <;> split <;> first | rfl | contradiction

theorem stepProcessors_update (m : Machine C) (n i k : Nat) :
    { m with rounds := n }.stepProcessors i k =
      ((m.stepProcessors i k).1, { (m.stepProcessors i k).2 with rounds := n }) := by
  induction k generalizing m i with
  | zero => rfl
  | succ k ih =>
    simp only [stepProcessors, stepProcessor_update m n m.executing i]
    rcases m.stepProcessor i with ⟨_ | _ | _, m'⟩
    · exact ih m' (i + 1)
    · rfl
    · rfl

theorem round_update (m : Machine C) (n : Nat) (x : Option (Nat × Nat)) :
    { m with rounds := n, executing := x }.round = (m.round.1, { m.round.2 with rounds := n }) := by
  simp only [round]
  cases m.system.processors.size with
  | zero => rfl
  | succ k =>
    -- The first step forgets `x`, so only the rounds are left to carry along.
    simp only [stepProcessors, stepProcessor_update]
    rcases m.stepProcessor 0 with ⟨_ | _ | _, m'⟩
    · simp only [stepProcessors_update]
      rcases m'.stepProcessors (0 + 1) k with ⟨_ | _ | _, m''⟩ <;> rfl
    · rfl
    · rfl

def conclude : Progress × Machine C → Machine C
  | (.completed, m) => { m with executing := none }
  | (.arrived, m) =>
    let m := { m with executing := none }.setStatus .stopped
    { m with queue := m.queue ++ m.onStop }
  | (.brokeDown, m) => { m with poisoned := true }

theorem execute_eq (m : Machine C) : m.execute = conclude (m.runRounds m.rounds) := by
  simp only [execute]
  rcases m.runRounds m.rounds with ⟨_ | _ | _, m'⟩ <;> rfl

theorem conclude_runRounds_update (m : Machine C) (n : Nat) (x : Option (Nat × Nat)) (k : Nat) :
    conclude ({ m with rounds := n, executing := x }.runRounds k) =
      { conclude (m.runRounds k) with rounds := n } := by
  induction k generalizing m x with
  | zero => rfl
  | succ k ih =>
    simp only [runRounds, round_update]
    rcases m.round with ⟨_ | _ | _, m'⟩
    · exact ih m' m'.executing
    · rfl
    · rfl

/-- Rounds go on where the ones before them have ended. -/
theorem runRounds_add (m : Machine C) (n k : Nat) :
    m.runRounds (n + k) =
      match m.runRounds n with
      | (.completed, m') => m'.runRounds k
      | stopped => stopped := by
  induction n generalizing m with
  | zero => rw [Nat.zero_add, runRounds]
  | succ n ih =>
    rw [Nat.succ_add]
    simp only [runRounds]
    rcases m.round with ⟨_ | _ | _, m'⟩
    · exact ih m'
    · rfl
    · rfl

/-- What running leaves alone of a machine: all that only commands and the end of a quantum
change. -/
structure Spares (m m' : Machine C) : Prop where
  rounds : m'.rounds = m.rounds
  status : m'.status = m.status
  queue : m'.queue = m.queue
  onStop : m'.onStop = m.onStop
  quitting : m'.quitting = m.quitting
  poisoned : m'.poisoned = m.poisoned

theorem stepProcessor_spares (m : Machine C) (i : Nat) : m.Spares (m.stepProcessor i).2 := by
  have hbegun : m.Spares (m.begun i) := by
    rw [begun_eq]
    exact ⟨rfl, rfl, rfl, rfl, rfl, rfl⟩
  rw [stepProcessor_eq]
  split
  · exact hbegun
  · split <;> exact ⟨hbegun.1, hbegun.2, hbegun.3, hbegun.4, hbegun.5, hbegun.6⟩

omit [Cpu C] in
theorem Spares.trans {m m' m'' : Machine C} (h : m.Spares m') (h' : m'.Spares m'') :
    m.Spares m'' :=
  ⟨h'.1.trans h.1, h'.2.trans h.2, h'.3.trans h.3, h'.4.trans h.4, h'.5.trans h.5, h'.6.trans h.6⟩

theorem runRounds_spares (m : Machine C) (n : Nat) : m.Spares (m.runRounds n).2 :=
  runRounds_keeps (P := m.Spares) (fun m' i h => h.trans (m'.stepProcessor_spares i))
    (fun _ h => h.trans ⟨rfl, rfl, rfl, rfl, rfl, rfl⟩) ⟨rfl, rfl, rfl, rfl, rfl, rfl⟩ n

/-- A quantum of so many rounds, whatever the machine's own quanta have. A machine in which a
processor broke down has no more quanta. -/
def quantumOf (m : Machine C) (n : Nat) : Machine C :=
  if m.poisoned then m
  else { { m with rounds := n }.quantum.2 with rounds := m.rounds }

omit [Cpu C] in
theorem rounds_conclude (p : Progress) (m : Machine C) : (conclude (p, m)).rounds = m.rounds := by
  cases p <;> rfl

omit [Cpu C] in
theorem update_rounds {m : Machine C} {n : Nat} (h : m.rounds = n) :
    { m with rounds := n } = m := by
  rw [← h]

theorem rounds_conclude_runRounds (m : Machine C) (n : Nat) :
    (conclude (m.runRounds n)).rounds = m.rounds :=
  (rounds_conclude _ _).trans (m.runRounds_spares n).rounds

theorem conclude_runRounds_executing (m : Machine C) (x : Option (Nat × Nat)) (n : Nat) :
    conclude ({ m with executing := x }.runRounds n) = conclude (m.runRounds n) :=
  (conclude_runRounds_update m m.rounds x n).trans (update_rounds (m.rounds_conclude_runRounds n))

def Active (m : Machine C) : Prop := m.quitting = false ∧ m.status = .run

instance (m : Machine C) : Decidable m.Active := inferInstanceAs (Decidable (_ ∧ _))

/-- A quantum carries out what is queued; then it runs its rounds, if that leaves it active. -/
theorem quantum_snd (m : Machine C) :
    m.quantum.2 = if m.drain.Active then conclude (m.drain.runRounds m.rounds) else m.drain := by
  have hrounds : m.drain.rounds = m.rounds := m.drain_heeds.rounds
  by_cases hquit : m.drain.quitting <;> by_cases hrun : m.drain.status = .run <;>
    simp [quantum, Active, hquit, hrun, execute_eq, hrounds]

theorem quantumOf_eq {m : Machine C} (hsound : m.poisoned = false) (n : Nat) :
    m.quantumOf n = if m.drain.Active then conclude (m.drain.runRounds n) else m.drain := by
  have hdrain : m.drain.rounds = m.rounds := m.drain_heeds.rounds
  have hquantum : ({ m with rounds := n } : Machine C).quantum.2 =
      if m.drain.Active then { conclude (m.drain.runRounds n) with rounds := n }
      else { m.drain with rounds := n } := by
    rw [quantum_snd, m.drain_rounds n, ← conclude_runRounds_update m.drain n m.drain.executing]
    rfl
  rw [quantumOf, if_neg (by simp [hsound]), hquantum]
  split
  · exact update_rounds ((m.drain.rounds_conclude_runRounds n).trans hdrain)
  · exact update_rounds hdrain

/-- A machine's own quantum has as many rounds as the machine was made for. -/
theorem quantumOf_rounds {m : Machine C} (hsound : m.poisoned = false) :
    m.quantumOf m.rounds = m.quantum.2 := by
  rw [quantumOf_eq hsound, quantum_snd]

/-- A machine that broke down, or has nothing to do, lets a quantum pass. -/
theorem quantumOf_idle {m : Machine C} (h : m.poisoned = true ∨ m.queue = [] ∧ ¬ m.Active)
    (n : Nat) : m.quantumOf n = m := by
  cases hsound : m.poisoned with
  | true => rw [quantumOf, if_pos hsound]
  | false =>
    obtain ⟨hqueue, hidle⟩ := h.resolve_left (by simp [hsound])
    rw [quantumOf_eq hsound, drain_of_empty hqueue, if_neg hidle]

theorem quantumOf_active {m : Machine C} (hsound : m.poisoned = false) (hqueue : m.queue = [])
    (hactive : m.Active) (n : Nat) : m.quantumOf n = conclude (m.runRounds n) := by
  rw [quantumOf_eq hsound, drain_of_empty hqueue, if_pos hactive]

/-- Without commands, a quantum goes on where the rounds before it have ended. -/
theorem conclude_add {m : Machine C} (hsound : m.poisoned = false) (hqueue : m.queue = [])
    (honStop : m.onStop = []) (hactive : m.Active) (n k : Nat) :
    conclude (m.runRounds (n + k)) = (conclude (m.runRounds n)).quantumOf k := by
  rw [runRounds_add]
  rcases hresult : m.runRounds n with ⟨p, m'⟩
  have hspares : m.Spares m' := by simpa only [hresult] using m.runRounds_spares n
  cases p with
  | completed =>
    have hactive' : ({ m' with executing := none } : Machine C).Active :=
      ⟨hspares.quitting.trans hactive.1, hspares.status.trans hactive.2⟩
    have hnext := quantumOf_active (m := { m' with executing := none })
      (hspares.poisoned.trans hsound) (hspares.queue.trans hqueue) hactive' k
    exact (hnext.trans (conclude_runRounds_executing m' none k)).symm
  | arrived =>
    -- The status alone keeps the second quantum from running.
    refine (quantumOf_idle (.inr ⟨?_, ?_⟩) k).symm
    · simp [conclude, setStatus, record, publish, hspares.queue, hqueue, hspares.onStop, honStop]
    · simp [conclude, setStatus, record, publish, Active]
  | brokeDown => exact (quantumOf_idle (.inl rfl) k).symm

/-- A quantum of some rounds and then one of some more are one quantum of them all, if the observer
sends no commands. -/
theorem quantumOf_add (m : Machine C) (n k : Nat) (h : m.onStop = []) :
    m.quantumOf (n + k) = (m.quantumOf n).quantumOf k := by
  cases hsound : m.poisoned with
  | true => rw [quantumOf_idle (.inl hsound), quantumOf_idle (.inl hsound),
      quantumOf_idle (.inl hsound)]
  | false =>
    have hheeds := m.drain_heeds
    rw [quantumOf_eq hsound, quantumOf_eq hsound]
    by_cases hactive : m.drain.Active
    · rw [if_pos hactive, if_pos hactive]
      exact conclude_add (hheeds.poisoned.trans hsound) hheeds.queue (hheeds.onStop.trans h)
        hactive n k
    · rw [if_neg hactive, if_neg hactive, quantumOf_idle (.inr ⟨hheeds.queue, hactive⟩)]

/-- A machine that stops in the second of three rounds, as one quantum and as two. -/
theorem quantumOf_add_watched :
    (watched.quantumOf (1 + 2)).status = .stopped ∧ (watched.quantumOf 1).status = .run ∧
      watched.quantumOf (1 + 2) = (watched.quantumOf 1).quantumOf 2 :=
  ⟨rfl, rfl, quantumOf_add watched 1 2 rfl⟩

end EightBit.Machine
