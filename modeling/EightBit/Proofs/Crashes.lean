import EightBit.Proofs.History

/-!
What is logged when a processor breaks down.

The machine notes which processor steps and where the step begins, and drops the note when a quantum
ends. So a report names the processor that broke down in the middle of a quantum, and between quanta
it names none.
-/

namespace EightBit

open Machine (logPart)

variable {C : Type} [Cpu C]

/-- The record that names the processor that broke down and the location where its step began. -/
def culprit (name : String) (location : Nat) : LogRecord :=
  ⟨.error, logPart,
    "[panic while executing " ++ name ++ " at " ++ Numeral.hex 4 location ++ "]"⟩

def Cpu.crashRecords (name : String) (c : C) : List LogRecord :=
  [⟨.error, logPart, "[panic: " ++ name ++ "]\n" ++ Cpu.display c⟩,
    ⟨.error, logPart, "bank: " ++ String.ofList (Numeral.digits 16 2 (Cpu.mem c).bank)⟩]

def System.crashRecords (sys : System C) : List LogRecord :=
  sys.processors.toList.flatMap fun p => Cpu.crashRecords p.name (Cpu.connect sys.latches p.core)

namespace Machine

def logged (m : Machine C) (records : List LogRecord) : Machine C :=
  { m with log := m.log ++ records }

/-- The machine once the step of the processor `i` has broken down and left the system as `sys`. -/
def crash (m : Machine C) (i : Nat) (sys : System C) : Machine C :=
  { m.begun i with system := sys, poisoned := true }

section Reports

variable (m : Machine C)

omit [Cpu C] in
theorem logged_logged (xs ys : List LogRecord) :
    (m.logged xs).logged ys = m.logged (xs ++ ys) := by
  have hlog : m.log ++ xs ++ ys = m.log ++ (xs ++ ys) := by
    apply Array.toList_inj.mp
    simp only [Array.toList_appendList, List.append_assoc]
  rw [logged, logged, logged, hlog]

omit [Cpu C] in
theorem record_eq (level : LogLevel) (text : String) :
    m.record level text = m.logged [⟨level, logPart, text⟩] := by
  rw [record, logged]
  rfl

def crashRecordsOf (l : Latches) (p : Option (Processor C)) : List LogRecord :=
  (p.map fun p => Cpu.crashRecords p.name (Cpu.connect l p.core)).getD []

/-- Going through the numbers of the processors is going through the processors. -/
theorem flatMap_crashRecordsOf (sys : System C) :
    ((List.range sys.processors.size).flatMap fun i =>
      crashRecordsOf sys.latches sys.processors[i]?) = sys.crashRecords := by
  have hall : (List.range sys.processors.size).map (sys.processors[·]?) =
      sys.processors.toList.map some := by
    apply List.ext_getElem
    · simp
    · intro i h h'
      simp
  have hmap := congrArg (List.flatMap (crashRecordsOf sys.latches)) hall
  rw [List.flatMap_map, List.flatMap_map] at hmap
  exact hmap

def reportCore (m : Machine C) (i : Nat) : Machine C :=
  match m.system.core? i with
  | some c =>
    (m.record .error ("[panic: " ++ m.processorName i ++ "]\n" ++ Cpu.display c)).record .error
      ("bank: " ++ String.ofList (Numeral.digits 16 2 (Cpu.mem c).bank))
  | none => m

theorem reportCore_eq (i : Nat) :
    m.reportCore i = m.logged (crashRecordsOf m.system.latches m.system.processors[i]?) := by
  simp only [reportCore, System.core?, processorName, crashRecordsOf]
  cases m.system.processors[i]? with
  | none => rfl
  | some p =>
    simp only [Option.map_some, record_eq, logged_logged]
    rfl

theorem foldl_reportCore (is : List Nat) :
    is.foldl reportCore m =
      m.logged (is.flatMap fun i => crashRecordsOf m.system.latches m.system.processors[i]?) := by
  induction is generalizing m with
  | nil => rfl
  | cons i is ih =>
    rw [List.foldl_cons, ih, reportCore_eq, logged_logged]
    rfl

/-- Without a note, a report is about the processors only. -/
theorem reportCrash_of_none (h : m.executing = none) :
    m.reportCrash = m.logged m.system.crashRecords := by
  have hreport : m.reportCrash = (List.range m.system.processors.size).foldl reportCore m := by
    rw [reportCrash, h]
    rfl
  rw [hreport, foldl_reportCore, flatMap_crashRecordsOf]

/-- With one, the processor of the note comes first. -/
theorem reportCrash_of_some {i start : Nat} (h : m.executing = some (i, start)) :
    m.reportCrash = m.logged (culprit (m.processorName i) start :: m.system.crashRecords) := by
  have hreport : m.reportCrash = (List.range m.system.processors.size).foldl reportCore
      (m.logged [culprit (m.processorName i) start]) := by
    rw [reportCrash, h]
    rfl
  have hsystem : (m.logged [culprit (m.processorName i) start]).system = m.system := rfl
  rw [hreport, foldl_reportCore, hsystem, flatMap_crashRecordsOf, logged_logged,
    List.singleton_append]

omit [Cpu C] in
theorem processorName_eq (i : Nat) : m.processorName i = m.system.names[i]?.getD "" := by
  rw [processorName, System.names, List.getElem?_map, Array.getElem?_toList]
  cases m.system.processors[i]? with
  | none => rfl
  | some p => rfl

/-- Whatever the step has done to the system before it broke down, the report names the processor
and where its step began, and then shows all processors as they are. -/
theorem reportCrash_crash (i : Nat) {sys : System C} (hnames : sys.names = m.system.names) :
    (m.crash i sys).reportCrash = (m.crash i sys).logged
      (culprit (m.processorName i) (m.location i) :: sys.crashRecords) := by
  have hname : (m.crash i sys).processorName i = m.processorName i := by
    rw [processorName_eq, processorName_eq, ← hnames]
    rfl
  have hnote : (m.crash i sys).executing = some (i, m.location i) := rfl
  rw [reportCrash_of_some _ hnote, hname]
  rfl

end Reports

section Note

variable {m : Machine C}

omit [Cpu C] in
theorem Outcome.executing {m' : Machine C} {c : Command} {result : Except MachineError Unit}
    (h : m.Outcome c m' result) : m'.executing = m.executing := by
  cases h <;> rfl

theorem executing_handle (m : Machine C) (c : Command) : (m.handle c).executing = m.executing := by
  have houtcome := (m.record .debug ("command: " ++ c.describe)).perform_outcome c
  rcases m.handle_cases c with ⟨-, hhandle⟩ | ⟨e, -, hhandle⟩
  · rw [hhandle]
    exact houtcome.executing
  · rw [hhandle]
    exact houtcome.executing

theorem executing_foldl_handle (m : Machine C) (cs : List Command) :
    (cs.foldl handle m).executing = m.executing := by
  induction cs generalizing m with
  | nil => rfl
  | cons c cs ih => rw [List.foldl_cons, ih, executing_handle]

/-- Nothing but a step makes a note. -/
theorem executing_prepare (m : Machine C) (a : Act C) : (m.prepare a).executing = m.executing := by
  cases a with
  | send c => rfl
  | quantum =>
    rw [prepare]
    split
    · rfl
    · exact executing_foldl_handle _ m.queue
  | perform c => exact (m.perform_outcome c).executing
  | setBreakpoint name location =>
    rcases m.prepare_setBreakpoint name location with h | ⟨i, h⟩
    · rw [h]
    · rw [h]
      rfl
  | clearBreakpoint name location =>
    rcases m.prepare_clearBreakpoint name location with h | ⟨i, h⟩
    · rw [h]
    · rw [h]
      rfl
  | edit i f => rfl

omit [Cpu C] in
/-- However a quantum ends, short of a breakdown, the note is dropped. -/
theorem executing_conclude {r : Progress × Machine C} (h : (conclude r).poisoned = false) :
    (conclude r).executing = none := by
  obtain ⟨p, m⟩ := r
  cases p with
  | completed => rfl
  | arrived => rfl
  | brokeDown => cases h

theorem executing_act (hm : m.executing = none) {a : Act C} (h : (m.act a).poisoned = false) :
    (m.act a).executing = none := by
  rcases m.act_cases a with ⟨-, hact⟩ | ⟨-, -, hact⟩
  · rw [hact, executing_prepare, hm]
  · rw [hact] at h ⊢
    exact executing_conclude h

theorem executing_live (hm : m.executing = none) {acts : List (Act C)}
    (h : (m.live acts).poisoned = false) : (m.live acts).executing = none := by
  induction acts generalizing m with
  | nil => exact hm
  | cons a acts ih =>
    have hsound : (m.act a).poisoned = false := sound_of_live h
    exact ih (executing_act hm hsound) h

end Note

section Breakdowns

variable {m : Machine C}

/-- A walk that breaks down has the turn of the broken processor on record as its last one. -/
theorem beats_of_brokeDown {turns : List System.Turn} (h : (m.walk turns).1 = .brokeDown) :
    ∃ front b i, m.beats turns = front ++ [b] ∧ b.turn = .processor i ∧
      b.machine.breaksDown i = true ∧ (m.walk turns).2 = b.machine.begun i := by
  induction turns generalizing m with
  | nil => cases h
  | cons turn turns ih =>
    rw [walk] at h ⊢
    rw [beats]
    rcases hresult : m.take turn with ⟨_ | _ | _, m'⟩
    · rw [hresult] at h
      obtain ⟨front, b, i, hbeats, hturn⟩ := ih h
      exact ⟨⟨turn, m⟩ :: front, b, i, congrArg (_ :: ·) hbeats, hturn⟩
    · rw [hresult] at h
      cases h
    · cases turn with
      | ticker j => cases hresult
      | processor i =>
        rw [take, stepProcessor_eq] at hresult
        by_cases hbreaks : m.breaksDown i = true
        · rw [if_pos hbreaks] at hresult
          cases hresult
          exact ⟨[], ⟨.processor i, m⟩, i, rfl, rfl, hbreaks, rfl⟩
        · rw [if_neg hbreaks] at hresult
          split at hresult <;> cases hresult

omit [Cpu C] in
theorem brokeDown_of_conclude {r : Progress × Machine C} (hr : r.2.poisoned = false)
    (h : (conclude r).poisoned = true) : r.1 = .brokeDown := by
  obtain ⟨p, m'⟩ := r
  cases p with
  | completed => exact absurd (hr.symm.trans h) Bool.false_ne_true
  | arrived => exact absurd (hr.symm.trans h) Bool.false_ne_true
  | brokeDown => rfl

/-- A step that breaks down at once leaves the system as it was. -/
theorem conclude_begun (m : Machine C) (i : Nat) :
    conclude (.brokeDown, m.begun i) = m.crash i m.system := by
  rw [conclude, crash, begun_eq]

/-- Only the step of a processor leaves a machine unusable, and that processor is noted. -/
theorem crash_of_act (hm : m.poisoned = false) {a : Act C} (h : (m.act a).poisoned = true) :
    ∃ front b i, m.beatsOf a = front ++ [b] ∧ b.turn = .processor i ∧
      b.machine.breaksDown i = true ∧ m.act a = b.machine.crash i b.machine.system := by
  have hprepare : (m.prepare a).poisoned = false := by rw [(m.prepare_rests a).poisoned, hm]
  rcases m.act_cases a with ⟨-, hact⟩ | ⟨-, hbeats, hact⟩
  · rw [hact, hprepare] at h
    cases h
  · have hspares := (m.prepare a).walk_spares ((m.prepare a).system.schedule m.rounds)
    rw [hact] at h
    have hdown := brokeDown_of_conclude (hspares.poisoned.trans hprepare) h
    obtain ⟨front, b, i, hrecord, hturn, hbreaks, hend⟩ := beats_of_brokeDown hdown
    refine ⟨front, b, i, hbeats.trans hrecord, hturn, hbreaks, ?_⟩
    rw [hact, ← conclude_begun, ← hend, ← hdown]

theorem act_quantum (hm : m.poisoned = false) : m.act .quantum = m.quantum.2 := by
  rw [act, hm]
  rfl

/-- A run whose next quantum breaks down ends there, with a report. -/
theorem run_of_act (hm : m.poisoned = false) (h : (m.act .quantum).poisoned = true) (n : Nat) :
    m.run (n + 1) = (.crashed, (m.act .quantum).reportCrash) := by
  have hact := act_quantum hm
  have hdrain : m.drain.poisoned = false := m.drain_heeds.poisoned.trans hm
  have hflow : m.quantum.1 = .goOn := by
    rw [hact] at h
    simp only [quantum] at h ⊢
    split
    · next hquit =>
      rw [if_pos hquit, hdrain] at h
      cases h
    · split <;> rfl
  rw [run, hm, hact]
  rw [hact] at h
  rcases hquantum : m.quantum with ⟨flow, m'⟩
  rw [hquantum] at h hflow
  obtain rfl : flow = .goOn := hflow
  have hbroken : m'.poisoned = true := h
  simp only [Bool.false_eq_true, ↓reduceIte, hbroken]

/-- A run that crashes reports the quantum in which a processor broke down. -/
theorem run_crashed {n : Nat} (h : (m.run n).1 = .crashed) :
    ∃ k < n, (m.live (List.replicate k .quantum)).poisoned = false ∧
      ((m.live (List.replicate k .quantum)).act .quantum).poisoned = true ∧
      (m.run n).2 = ((m.live (List.replicate k .quantum)).act .quantum).reportCrash := by
  induction n generalizing m with
  | zero => cases h
  | succ n ih =>
    rw [run] at h ⊢
    cases hm : m.poisoned with
    | true =>
      rw [hm] at h
      cases h
    | false =>
      have hact := act_quantum hm
      rw [hm] at h
      rcases hquantum : m.quantum with ⟨_ | _, m'⟩
      · rw [hquantum] at h hact
        simp only [Bool.false_eq_true, ↓reduceIte] at h ⊢
        -- Either the first quantum broke down, or the run of the others ends with the report.
        cases hm' : m'.poisoned with
        | true =>
          have hlive : m.live (List.replicate 0 .quantum) = m := rfl
          refine ⟨0, Nat.zero_lt_succ n, hlive.symm ▸ hm, ?_, ?_⟩
          · rw [hlive, hact, hm']
          · rw [hlive, hact]
            rfl
        | false =>
          rw [hm'] at h
          obtain ⟨k, hk, hbefore, hcrash, hend⟩ := ih h
          have hlive : m.live (List.replicate (k + 1) .quantum) =
              m'.live (List.replicate k .quantum) := by
            rw [live, List.replicate_succ, List.foldl_cons, hact]
            rfl
          exact ⟨k + 1, Nat.succ_lt_succ hk, hlive ▸ hbefore, hlive ▸ hcrash, hlive ▸ hend⟩
      · rw [hquantum] at h
        cases h

end Breakdowns

/-- A report on a machine whose processors may break down names the processor that did. Whichever
step of its history breaks down, and whatever it has done by then, the report first names the
processor and the location where the step began, and then shows all processors as they are.
Only the step of a processor leaves the machine unusable; then the run ends with the report on the
quantum of that step, and no run crashes but by such a step. As long as there has been none, however
the last quantum ended, a report names no processor. -/
theorem crash_reports_name_culprit (m : Machine C) (hnote : m.executing = none)
    (acts : List (Act C)) :
    let now := m.live acts
    (∀ b ∈ m.history acts, ∀ i, b.turn = .processor i → ∀ sys : System C,
      sys.names = b.machine.system.names →
        (b.machine.crash i sys).reportCrash = (b.machine.crash i sys).logged
          (culprit (b.machine.processorName i) (b.machine.location i) :: sys.crashRecords)) ∧
      (now.poisoned = false →
        now.reportCrash = now.logged now.system.crashRecords ∧
        (∀ a, (now.act a).poisoned = true →
          ∃ front b i, now.beatsOf a = front ++ [b] ∧ b.turn = .processor i ∧
            b.machine.breaksDown i = true ∧ now.act a = b.machine.crash i b.machine.system ∧
            (now.act a).reportCrash = (now.act a).logged
              (culprit (b.machine.processorName i) (b.machine.location i) ::
                (now.act a).system.crashRecords)) ∧
        (∀ n, (now.act .quantum).poisoned = true →
          now.run (n + 1) = (.crashed, (now.act .quantum).reportCrash)) ∧
        ∀ n, (now.run n).1 = .crashed →
          ∃ k < n, (now.live (List.replicate k .quantum)).poisoned = false ∧
            ((now.live (List.replicate k .quantum)).act .quantum).poisoned = true ∧
            (now.run n).2 = ((now.live (List.replicate k .quantum)).act .quantum).reportCrash) := by
  intro now
  constructor
  · intro b _ i _ sys hnames
    exact b.machine.reportCrash_crash i hnames
  · intro hsound
    refine ⟨now.reportCrash_of_none (executing_live hnote hsound), ?_,
      fun n hbroken => run_of_act hsound hbroken n, fun n => run_crashed⟩
    intro a ha
    obtain ⟨front, b, i, hbeats, hturn, hbreaks, hact⟩ := crash_of_act hsound ha
    refine ⟨front, b, i, hbeats, hturn, hbreaks, hact, ?_⟩
    rw [hact]
    exact b.machine.reportCrash_crash i rfl

/-- The second of two processors breaks down in its second step, at the address 9. -/
theorem crash_reports_name_culprit_of_doomed :
    let m := assemble (fun _ => .ok []) (counters (some 9)) 1
    let now := m.live [.send .start, .quantum]
    m.executing = none ∧ now.poisoned = false ∧
      now.reportCrash = now.logged now.system.crashRecords ∧
      (now.act .quantum).poisoned = true ∧
      (now.act .quantum).reportCrash =
        (now.act .quantum).logged (culprit "b" 9 :: (now.act .quantum).system.crashRecords) := by
  intro m now
  have hsound : now.poisoned = false := by decide +kernel
  have hbroken : (now.act .quantum).poisoned = true := by decide +kernel
  obtain ⟨-, hreports⟩ := crash_reports_name_culprit m rfl [.send .start, .quantum]
  obtain ⟨hnone, hcrash, -⟩ := hreports hsound
  obtain ⟨front, b, i, hbeats, hturn, -, -, hreport⟩ := hcrash .quantum hbroken
  have hlast : (now.beatsOf .quantum).getLast? = some b := by
    rw [hbeats, List.getLast?_concat]
  have hturns : (now.beatsOf .quantum).getLast?.map
      (fun b => (b.turn, b.machine.processorName 1, b.machine.location 1)) =
        some (.processor 1, "b", 9) := by
    decide +kernel
  rw [hlast, Option.map_some, Option.some_inj, Prod.mk.injEq, Prod.mk.injEq] at hturns
  obtain ⟨hsecond, hname, hlocation⟩ := hturns
  obtain rfl := System.Turn.processor.inj (hturn.symm.trans hsecond)
  rw [hname, hlocation] at hreport
  exact ⟨rfl, hsound, hnone, hbroken, hreport⟩

end Machine

end EightBit
