import Mathlib.Algebra.BigOperators.Intervals
import Mathlib.Algebra.BigOperators.Ring.Finset
import EightBit.Proofs.History

/-!
How far the processors and tickers of a machine drift apart.

A round gives each of them one turn, unless a processor arrives at a breakpoint: then everything
behind it is left out, and the next quantum begins with a new round. Every arrival therefore puts
the processor that arrives, and those in front of it, one step ahead of all the others.
-/

namespace EightBit

variable {C : Type}

namespace System

theorem count_map_range {f : Nat → Turn} (hf : Function.Injective f) (k i : Nat) :
    ((List.range k).map f).count (f i) = if i < k then 1 else 0 := by
  rw [List.count_map_of_injective _ f hf, List.nodup_range.count]
  simp only [List.mem_range]

theorem processor_injective : Function.Injective Turn.processor := fun _ _ h => by cases h; rfl

theorem ticker_injective : Function.Injective Turn.ticker := fun _ _ h => by cases h; rfl

theorem count_processor_round (sys : System C) (i : Nat) :
    sys.round.count (.processor i) = if i < sys.processors.size then 1 else 0 := by
  have hnone : ((List.range sys.tickers.length).map Turn.ticker).count (.processor i) = 0 :=
    List.count_eq_zero.mpr (by simp)
  rw [round, List.count_append, count_map_range processor_injective, hnone, Nat.add_zero]

theorem count_ticker_round (sys : System C) (j : Nat) :
    sys.round.count (.ticker j) = if j < sys.tickers.length then 1 else 0 := by
  have hnone : ((List.range sys.processors.size).map Turn.processor).count (.ticker j) = 0 :=
    List.count_eq_zero.mpr (by simp)
  rw [round, List.count_append, count_map_range ticker_injective, hnone, Nat.zero_add]

/-- In front of a processor's turn are those of the processors before it. -/
theorem round_split {sys : System C} {front rest : List Turn} {k : Nat}
    (h : sys.round = front ++ .processor k :: rest) :
    k < sys.processors.size ∧ front = (List.range k).map .processor := by
  have hat : sys.round[front.length]? = some (.processor k) := by simp [h]
  have hlength : front.length < sys.processors.size := by
    by_contra hge
    rw [round, List.getElem?_append_right (by simpa using hge), List.getElem?_map] at hat
    simp only [Option.map_eq_some_iff] at hat
    obtain ⟨j, -, hj⟩ := hat
    cases hj
  have hk : front.length = k := by
    rw [round, List.getElem?_append_left (by simpa using hlength), List.getElem?_map,
      List.getElem?_range hlength] at hat
    simpa using hat
  have htake : sys.round.take front.length = (List.range front.length).map .processor := by
    rw [round, List.take_append_of_le_length (by simpa using hlength.le), ← List.map_take,
      List.take_range, Nat.min_eq_left hlength.le]
  have hfront : sys.round.take front.length = front := by simp [h]
  subst hk
  exact ⟨hlength, hfront.symm.trans htake⟩

end System

variable [Cpu C]

namespace Machine

def Beat.Arrives (b : Beat C) : Prop := (b.machine.take b.turn).1 = .arrived

instance (b : Beat C) : Decidable b.Arrives := inferInstanceAs (Decidable (_ = _))

def turnsOf (h : List (Beat C)) (turn : System.Turn) : Nat := (h.map (·.turn)).count turn

def arrivals (h : List (Beat C)) (i : Nat) : Nat :=
  h.countP fun b => b.turn = .processor i ∧ b.Arrives

omit [Cpu C] in
theorem turnsOf_append (front back : List (Beat C)) (turn : System.Turn) :
    turnsOf (front ++ back) turn = turnsOf front turn + turnsOf back turn := by
  rw [turnsOf, List.map_append, List.count_append, turnsOf, turnsOf]

theorem arrivals_append (front back : List (Beat C)) (i : Nat) :
    arrivals (front ++ back) i = arrivals front i + arrivals back i :=
  List.countP_append

/-- Only a last turn can arrive. -/
inductive Walked (turns : List System.Turn) (h : List (Beat C)) : Progress → Prop
  | completed (hturns : h.map (·.turn) = turns) (hquiet : ∀ b ∈ h, ¬ b.Arrives) :
      Walked turns h .completed
  | arrived {front : List (Beat C)} {k : Nat} {m : Machine C} {rest : List System.Turn}
      (hbeats : h = front ++ [⟨.processor k, m⟩])
      (hturns : turns = front.map (·.turn) ++ .processor k :: rest)
      (hquiet : ∀ b ∈ front, ¬ b.Arrives) (harrives : Beat.Arrives ⟨.processor k, m⟩) :
      Walked turns h .arrived
  | brokeDown : Walked turns h .brokeDown

theorem walked (m : Machine C) (turns : List System.Turn) :
    Walked turns (m.beats turns) (m.walk turns).1 := by
  induction turns generalizing m with
  | nil => exact .completed rfl (by simp [beats])
  | cons turn turns ih =>
    rw [walk, beats]
    rcases hresult : m.take turn with ⟨_ | _ | _, m'⟩
    -- A first turn that completes does not arrive, so the rest decides.
    · have hfirst : ¬ Beat.Arrives ⟨turn, m⟩ := by simp [Beat.Arrives, hresult]
      have hrest := ih m'
      simp only
      generalize (m'.walk turns).1 = p at hrest ⊢
      cases hrest with
      | completed hturns hquiet =>
        refine .completed (congrArg (turn :: ·) hturns) ?_
        exact List.forall_mem_cons.mpr ⟨hfirst, hquiet⟩
      | @arrived front k last rest hbeats hturns hquiet harrives =>
        have hbeats' : ⟨turn, m⟩ :: m'.beats turns =
            (⟨turn, m⟩ :: front) ++ [⟨.processor k, last⟩] := congrArg (⟨turn, m⟩ :: ·) hbeats
        refine .arrived hbeats' (congrArg (turn :: ·) hturns) ?_ harrives
        exact List.forall_mem_cons.mpr ⟨hfirst, hquiet⟩
      | brokeDown => exact .brokeDown
    · have harrives : Beat.Arrives ⟨turn, m⟩ := by simp [Beat.Arrives, hresult]
      cases turn with
      | processor k => exact .arrived (List.nil_append _).symm rfl (by simp) harrives
      | ticker j => cases hresult
    · exact .brokeDown

theorem arrivals_of_quiet {h : List (Beat C)} (hquiet : ∀ b ∈ h, ¬ b.Arrives) (i : Nat) :
    arrivals h i = 0 := by
  rw [arrivals, List.countP_eq_zero]
  intro b hb
  simpa using fun _ => hquiet b hb

theorem arrivals_of_arrives {front : List (Beat C)} {k : Nat} {m : Machine C}
    (hquiet : ∀ b ∈ front, ¬ b.Arrives) (harrives : Beat.Arrives ⟨.processor k, m⟩) (i : Nat) :
    arrivals (front ++ [⟨.processor k, m⟩]) i = if k = i then 1 else 0 := by
  rw [arrivals_append, arrivals_of_quiet hquiet, Nat.zero_add]
  simp [arrivals, harrives]

/-- Neighbouring processors differ by the arrivals of the first one, and the tickers fall behind
with those of the last one. -/
structure Balanced (sys : System C) (h : List (Beat C)) : Prop where
  processors : ∀ i, i + 1 < sys.processors.size →
    turnsOf h (.processor i) = turnsOf h (.processor (i + 1)) + arrivals h i
  tickers : ∀ i j, i + 1 = sys.processors.size → j < sys.tickers.length →
    turnsOf h (.processor i) = turnsOf h (.ticker j) + arrivals h i

theorem Balanced.nil (sys : System C) : Balanced sys [] := by
  constructor <;> intros <;> rfl

theorem Balanced.append {sys : System C} {front back : List (Beat C)} (h : Balanced sys front)
    (h' : Balanced sys back) : Balanced sys (front ++ back) := by
  constructor
  · intro i hi
    have := h.processors i hi
    have := h'.processors i hi
    simp only [turnsOf_append, arrivals_append]
    omega
  · intro i j hi hj
    have := h.tickers i j hi hj
    have := h'.tickers i j hi hj
    simp only [turnsOf_append, arrivals_append]
    omega

theorem Balanced.of_sameParts {sys sys' : System C} {h : List (Beat C)}
    (hparts : sys.SameParts sys') (hbalanced : Balanced sys' h) : Balanced sys h := by
  constructor
  · simpa only [hparts.processors] using hbalanced.processors
  · simpa only [hparts.processors, hparts.tickers] using hbalanced.tickers

/-- A round is balanced, whether it completes or a processor arrives. -/
theorem balanced_round {sys : System C} {h : List (Beat C)} {p : Progress}
    (hwalked : Walked sys.round h p) (hp : p ≠ .brokeDown) : Balanced sys h := by
  cases hwalked with
  | completed hturns hquiet =>
    constructor
    · intro i hi
      rw [turnsOf, turnsOf, hturns, System.count_processor_round, System.count_processor_round,
        arrivals_of_quiet hquiet, if_pos (by omega), if_pos hi]
    · intro i j hi hj
      rw [turnsOf, turnsOf, hturns, System.count_processor_round, System.count_ticker_round,
        arrivals_of_quiet hquiet, if_pos (by omega), if_pos hj]
  | @arrived front k m rest hbeats hturns hquiet harrives =>
    -- The processors up to the one that arrives have had their turns; nothing else has.
    obtain ⟨hk, hfront⟩ := System.round_split hturns
    have hprefix : h.map (·.turn) = (List.range (k + 1)).map .processor := by
      rw [hbeats, List.map_append, hfront, List.range_succ, List.map_append]
      rfl
    have hticker (j : Nat) :
        ((List.range (k + 1)).map System.Turn.processor).count (.ticker j) = 0 :=
      List.count_eq_zero.mpr (by simp)
    have harrivals (i : Nat) : arrivals h i = if k = i then 1 else 0 := by
      rw [hbeats, arrivals_of_arrives hquiet harrives]
    constructor
    · intro i hi
      simp only [turnsOf, hprefix, System.count_map_range System.processor_injective, harrivals]
      split <;> split <;> split <;> omega
    · intro i j hi hj
      simp only [turnsOf, hprefix, System.count_map_range System.processor_injective, harrivals,
        hticker]
      split <;> split <;> omega
  | brokeDown => contradiction

/-- The law of a whole schedule is that of each of its rounds. -/
theorem balanced_schedule (m : Machine C) (n : Nat)
    (h : (m.walk (m.system.schedule n)).1 ≠ .brokeDown) :
    Balanced m.system (m.beats (m.system.schedule n)) := by
  induction n generalizing m with
  | zero => exact .nil m.system
  | succ n ih =>
    have hround := m.walked m.system.round
    have hparts := (m.walk_follows m.system.round).sameParts
    rw [System.schedule_succ, walk_append] at h
    rw [System.schedule_succ, beats_append]
    rcases hresult : m.walk m.system.round with ⟨_ | _ | _, m'⟩ <;> rw [hresult] at h hround hparts
    · rw [← hparts.schedule n] at h ⊢
      exact (balanced_round hround nofun).append ((ih m' h).of_sameParts hparts)
    · rw [List.append_nil]
      exact balanced_round hround nofun
    · contradiction

theorem balanced_beatsOf {m : Machine C} {a : Act C} (hsound : (m.act a).poisoned = false) :
    Balanced m.system (m.beatsOf a) := by
  rcases m.act_cases a with ⟨hbeats, -⟩ | ⟨-, hbeats, hact⟩
  · rw [hbeats]
    exact .nil m.system
  · rw [hact] at hsound
    rw [hbeats]
    exact (balanced_schedule _ _ (ne_brokeDown_of_conclude hsound)).of_sameParts
      (m.prepare_rests a).parts

theorem balanced_history (m : Machine C) (acts : List (Act C))
    (hsound : (m.live acts).poisoned = false) : Balanced m.system (m.history acts) := by
  induction acts generalizing m with
  | nil => exact .nil m.system
  | cons a acts ih =>
    have hnext : ((m.act a).live acts).poisoned = false := hsound
    exact (balanced_beatsOf (sound_of_live hnext)).append
      ((ih (m.act a) hnext).of_sameParts (m.act_sameParts a))

theorem Balanced.drift {sys : System C} {h : List (Beat C)} (hbalanced : Balanced sys h) {i j : Nat}
    (hij : i ≤ j) (hj : j < sys.processors.size) :
    turnsOf h (.processor i) =
      turnsOf h (.processor j) + ∑ k ∈ Finset.Ico i j, arrivals h k := by
  induction j, hij using Nat.le_induction with
  | base => simp
  | succ j hij ih =>
    have hnext := hbalanced.processors j hj
    rw [ih (by omega), Finset.sum_Ico_succ_top hij]
    omega

theorem arrivals_total {turns : List System.Turn} {h : List (Beat C)} {p : Progress} {n : Nat}
    (hwalked : Walked turns h p) (hp : p ≠ .brokeDown)
    (hn : ∀ k, .processor k ∈ turns → k < n) :
    ∑ k ∈ Finset.range n, arrivals h k = if p = .arrived then 1 else 0 := by
  cases hwalked with
  | completed hturns hquiet => simp [arrivals_of_quiet hquiet]
  | @arrived front k m rest hbeats hturns hquiet harrives =>
    have hk : k < n := hn k (by simp [hturns])
    simp only [hbeats, arrivals_of_arrives hquiet harrives, Finset.sum_ite_eq, Finset.mem_range,
      if_pos hk, if_true]
  | brokeDown => contradiction

omit [Cpu C] in
theorem lt_of_mem_schedule {sys : System C} {n k : Nat} (h : .processor k ∈ sys.schedule n) :
    k < sys.processors.size := by
  obtain ⟨turns, hturns, hk⟩ := List.mem_flatten.mp h
  rw [List.eq_of_mem_replicate hturns] at hk
  simpa [System.round] using hk

/-- How many breakpoints have stopped the machine, going by what it has made known. -/
def stops (m : Machine C) : Nat := m.events.toList.count (.status .stopped)

omit [Cpu C] in
theorem Rests.stops {m m' : Machine C} (h : m.Rests m') : m'.stops = m.stops := by
  obtain ⟨told, hevents, htold⟩ := h.events
  have hnone : told.count (.status .stopped) = 0 :=
    List.count_eq_zero.mpr fun hmem => (htold _ hmem).2 rfl
  rw [Machine.stops, hevents, List.count_append, hnone, Nat.add_zero, Machine.stops]

theorem Advances.stops {m m' : Machine C} {turns : List System.Turn} (h : m.Advances m' turns) :
    m'.stops = m.stops := by
  obtain ⟨traces, hevents, htraces⟩ := h.traces
  have hnone : traces.count (.status .stopped) = 0 :=
    List.count_eq_zero.mpr fun hmem => htraces _ hmem
  rw [Machine.stops, hevents, List.count_append, hnone, Nat.add_zero, Machine.stops]

omit [Cpu C] in
theorem stops_conclude (p : Progress) (m : Machine C) :
    (conclude (p, m)).stops = m.stops + if p = .arrived then 1 else 0 := by
  cases p <;> simp [conclude, stops, setStatus, record, publish]

theorem stops_act {m : Machine C} {a : Act C} (hsound : (m.act a).poisoned = false) :
    (m.act a).stops =
      m.stops + ∑ k ∈ Finset.range m.system.processors.size, arrivals (m.beatsOf a) k := by
  have hprepare := m.prepare_rests a
  rcases m.act_cases a with ⟨hbeats, hact⟩ | ⟨-, hbeats, hact⟩
  · rw [hbeats, hact, hprepare.stops]
    simp [arrivals]
  · rw [hact] at hsound ⊢
    have hwalked := (m.prepare a).walked ((m.prepare a).system.schedule m.rounds)
    obtain ⟨done, hadvances⟩ := (m.prepare a).walk_advances ((m.prepare a).system.schedule m.rounds)
    rw [hbeats, arrivals_total hwalked (ne_brokeDown_of_conclude hsound), stops_conclude,
      hadvances.stops, hprepare.stops]
    intro k hk
    rw [← hprepare.parts.processors]
    exact lt_of_mem_schedule hk

theorem stops_live (m : Machine C) (acts : List (Act C)) (hsound : (m.live acts).poisoned = false) :
    (m.live acts).stops =
      m.stops + ∑ k ∈ Finset.range m.system.processors.size, arrivals (m.history acts) k := by
  induction acts generalizing m with
  | nil => simp [live, history, arrivals]
  | cons a acts ih =>
    have hnext : ((m.act a).live acts).poisoned = false := hsound
    have hrest := ih (m.act a) hnext
    rw [(m.act_sameParts a).processors, stops_act (sound_of_live hnext)] at hrest
    simp only [history, arrivals_append, Finset.sum_add_distrib]
    exact hrest.trans (Nat.add_assoc _ _ _)

def Clear (m : Machine C) : Prop := ∀ i, m.breakpointsOf i = []

theorem clear_prepare {m : Machine C} (h : m.Clear) {a : Act C}
    (ha : ∀ name location, a ≠ .setBreakpoint name location) : (m.prepare a).Clear := by
  intro i
  cases a with
  | send c => exact h i
  | quantum =>
    rw [prepare]
    split
    · exact h i
    · exact (m.drain_heeds.breakpoints i).trans (h i)
  | perform c => exact ((m.perform_outcome c).heeds.breakpoints i).trans (h i)
  | setBreakpoint name location => exact absurd rfl (ha name location)
  | clearBreakpoint name location =>
    have hi : (m.watch i).breakpoints = [] := h i
    rcases m.prepare_clearBreakpoint name location with hprepare | ⟨k, hprepare⟩ <;> rw [hprepare]
    · exact hi
    · rcases m.watch_updateWatch_cases k
        (fun w => { w with breakpoints := w.breakpoints.erase location }) i with hw | hw
      · rw [breakpointsOf, hw, hi, List.erase_nil]
      · rw [breakpointsOf, hw, hi]
  | edit k f => exact h i

theorem walk_ne_arrived {m : Machine C} (h : m.Clear) (turns : List System.Turn) :
    (m.walk turns).1 ≠ .arrived := by
  intro harrived
  obtain ⟨done, hcourse, -⟩ := m.walk_follows turns
  obtain ⟨before, turn, rest, -, -, -, harrives⟩ := hcourse.arrived_iff.mp harrived
  cases turn with
  | processor i =>
    obtain ⟨-, hmem⟩ := harrives
    rw [h i] at hmem
    exact List.not_mem_nil hmem
  | ticker j => exact harrives

omit [Cpu C] in
theorem clear_conclude {r : Progress × Machine C} (h : r.2.Clear) : (conclude r).Clear := by
  rcases r with ⟨_ | _ | _, m⟩ <;> exact h

theorem clear_act {m : Machine C} (h : m.Clear) {a : Act C}
    (ha : ∀ name location, a ≠ .setBreakpoint name location) : (m.act a).Clear := by
  have hprepare := clear_prepare h ha
  rcases m.act_cases a with ⟨-, hact⟩ | ⟨-, -, hact⟩
  · rwa [hact]
  · obtain ⟨done, hadvances⟩ := (m.prepare a).walk_advances ((m.prepare a).system.schedule m.rounds)
    rw [hact]
    exact clear_conclude fun i => (hadvances.breakpoints i).trans (hprepare i)

/-- Without breakpoints the machine does not stop. -/
theorem stops_live_of_clear {m : Machine C} (h : m.Clear) {acts : List (Act C)}
    (hacts : ∀ name location, .setBreakpoint name location ∉ acts) :
    (m.live acts).stops = m.stops := by
  induction acts generalizing m with
  | nil => rfl
  | cons a acts ih =>
    have ha (name : String) (location : Nat) : a ≠ .setBreakpoint name location := by
      rintro rfl
      exact hacts name location List.mem_cons_self
    have hrest := ih (clear_act h ha) fun name location hmem =>
      hacts name location (List.mem_cons_of_mem a hmem)
    refine hrest.trans ?_
    rcases m.act_cases a with ⟨-, hact⟩ | ⟨-, -, hact⟩
    · rw [hact, (m.prepare_rests a).stops]
    · obtain ⟨done, hadvances⟩ :=
        (m.prepare a).walk_advances ((m.prepare a).system.schedule m.rounds)
      rw [hact, stops_conclude, if_neg (walk_ne_arrived (clear_prepare h ha) _), hadvances.stops,
        (m.prepare_rests a).stops, Nat.add_zero]

/-- In a run in which nothing breaks down, a processor is ahead of a later one by the arrivals of
those from the one up to the other, and the last processor is ahead of every ticker by its own. An
arrival is what stops the machine; where there are no breakpoints, there is no drift. -/
theorem lockstep_drift (m : Machine C) (acts : List (Act C))
    (hprocessors : 0 < m.system.processors.size) (hsound : (m.live acts).poisoned = false) :
    let n := m.system.processors.size
    let h := m.history acts
    (∀ i j, i < j → j < n →
      (turnsOf h (.processor i) : ℤ) - turnsOf h (.processor j) =
        ∑ k ∈ Finset.Ico i j, (arrivals h k : ℤ)) ∧
    (∀ t < m.system.tickers.length,
      (turnsOf h (.ticker t) : ℤ) = turnsOf h (.processor (n - 1)) - arrivals h (n - 1)) ∧
    (m.live acts).stops = m.stops + ∑ k ∈ Finset.range n, arrivals h k ∧
    ((∀ i, m.breakpointsOf i = []) →
      (∀ name location, .setBreakpoint name location ∉ acts) →
      ∀ i < n, (∀ j < n, turnsOf h (.processor i) = turnsOf h (.processor j)) ∧
        ∀ t < m.system.tickers.length, turnsOf h (.processor i) = turnsOf h (.ticker t)) := by
  intro n h
  have hbalanced : Balanced m.system h := m.balanced_history acts hsound
  have hstops : (m.live acts).stops = m.stops + ∑ k ∈ Finset.range n, arrivals h k :=
    m.stops_live acts hsound
  refine ⟨?_, ?_, hstops, ?_⟩
  · intro i j hij hj
    rw [hbalanced.drift hij.le hj]
    push_cast
    rw [add_sub_cancel_left]
  · intro t ht
    rw [hbalanced.tickers (n - 1) t (by omega) ht]
    push_cast
    rw [add_sub_cancel_right]
  · intro hclear hacts i hi
    -- Nothing stops the machine, and every arrival would have.
    have hnone : ∀ k < n, arrivals h k = 0 := by
      rw [stops_live_of_clear hclear hacts] at hstops
      simpa using hstops
    have hsame (i j : Nat) (hij : i ≤ j) (hj : j < n) :
        turnsOf h (.processor i) = turnsOf h (.processor j) := by
      rw [hbalanced.drift hij hj, Finset.sum_eq_zero, Nat.add_zero]
      intro k hk
      exact hnone k ((Finset.mem_Ico.mp hk).2.trans hj)
    constructor
    · intro j hj
      rcases Nat.le_total i j with hij | hji
      · exact hsame i j hij hj
      · exact (hsame j i hji hi).symm
    · intro t ht
      rw [hsame i (n - 1) (by omega) (by omega), hbalanced.tickers (n - 1) t (by omega) ht,
        hnone (n - 1) (by omega), Nat.add_zero]

/-- The first processor stops the machine in its second round. The machine is started again, and
meets nothing more. -/
def restarted : List Act := [.quantum, .send .start, .quantum]

theorem lockstep_drift_restarted :
    0 < watched.system.processors.size ∧ (watched.live restarted).poisoned = false ∧
      turnsOf (watched.history restarted) (.processor 0) = 5 ∧
      arrivals (watched.history restarted) 0 = 1 ∧ arrivals (watched.history restarted) 1 = 0 ∧
      turnsOf (watched.history restarted) (.processor 1) = 4 ∧
      turnsOf (watched.history restarted) (.ticker 0) = 4 := by
  obtain ⟨hdrift, htickers, -, -⟩ := lockstep_drift watched restarted (by decide) rfl
  have hfirst : turnsOf (watched.history restarted) (.processor 0) = 5 := by decide
  have harrives : arrivals (watched.history restarted) 0 = 1 := by decide
  have hsits : arrivals (watched.history restarted) 1 = 0 := by decide
  have hsecond := hdrift 0 1 (by decide) (by decide)
  have hticker : (turnsOf (watched.history restarted) (.ticker 0) : ℤ) =
      turnsOf (watched.history restarted) (.processor 1) - arrivals (watched.history restarted) 1 :=
    htickers 0 (by decide)
  simp only [Nat.Ico_zero_eq_range, Finset.sum_range_one, hfirst, harrives] at hsecond
  refine ⟨by decide, rfl, hfirst, harrives, hsits, ?_, ?_⟩ <;> omega

end Machine

end EightBit
