import EightBit.System

/-!
The steps of processors and tickers as a language of their own: a list of turns is a program that
runs on a system.
-/

namespace EightBit

namespace System

inductive Turn where
  | processor (i : Nat)
  | ticker (j : Nat)
  deriving DecidableEq

variable {C : Type}

/-- One round: every processor in order, then every ticker in order. -/
def round (sys : System C) : List Turn :=
  (List.range sys.processors.size).map .processor ++ (List.range sys.tickers.length).map .ticker

def schedule (sys : System C) (rounds : Nat) : List Turn :=
  (List.replicate rounds sys.round).flatten

theorem schedule_succ (sys : System C) (n : Nat) :
    sys.schedule (n + 1) = sys.round ++ sys.schedule n := by
  simp [schedule, List.replicate_succ]

variable [Cpu C]

/-- The component takes its turn; one that does not exist does nothing. -/
def perform (sys : System C) : Turn → System C
  | .processor i => sys.update i Cpu.step
  | .ticker j =>
    match sys.tickers[j]? with
    | some t => { sys with latches := sys.latches.increment t.latch }
    | none => sys

def run (sys : System C) (turns : List Turn) : System C := turns.foldl perform sys

@[simp] theorem run_nil (sys : System C) : sys.run [] = sys := rfl

@[simp] theorem run_cons (sys : System C) (turn : Turn) (turns : List Turn) :
    sys.run (turn :: turns) = (sys.perform turn).run turns := rfl

@[simp] theorem run_append (sys : System C) (front back : List Turn) :
    sys.run (front ++ back) = (sys.run front).run back := List.foldl_append

theorem processors_update (sys : System C) (i : Nat) (f : C → C) :
    (sys.update i f).processors.toList =
      sys.processors.toList.modify i fun p =>
        { p with core := Cpu.connect {} (f (Cpu.connect sys.latches p.core)) } := by
  apply List.ext_getElem?
  intro k
  simp only [update, Array.toList_modify, List.getElem?_modify]
  split <;> cases sys.processors.toList[k]? <;> rfl

theorem latches_update (sys : System C) (i : Nat) (f : C → C) :
    (sys.update i f).latches =
      match sys.processors[i]? with
      | some p => Cpu.latches (f (Cpu.connect sys.latches p.core))
      | none => sys.latches := by
  simp only [update, Array.getElem?_modify, if_pos]
  cases sys.processors[i]? <;> rfl

@[simp] theorem tickers_perform (sys : System C) (turn : Turn) :
    (sys.perform turn).tickers = sys.tickers := by
  cases turn with
  | processor i => rfl
  | ticker j =>
    simp only [perform]
    split <;> rfl

@[simp] theorem catalog_perform (sys : System C) (turn : Turn) :
    (sys.perform turn).catalog = sys.catalog := by
  cases turn with
  | processor i => rfl
  | ticker j =>
    simp only [perform]
    split <;> rfl

@[simp] theorem size_processors_perform (sys : System C) (turn : Turn) :
    (sys.perform turn).processors.size = sys.processors.size := by
  cases turn with
  | processor i => simp [perform, update]
  | ticker j =>
    simp only [perform]
    split <;> rfl

@[simp] theorem round_perform (sys : System C) (turn : Turn) :
    (sys.perform turn).round = sys.round := by
  simp [round]

@[simp] theorem round_run (sys : System C) (turns : List Turn) :
    (sys.run turns).round = sys.round := by
  induction turns generalizing sys with
  | nil => rfl
  | cons turn turns ih => rw [run_cons, ih, round_perform]

@[simp] theorem tickers_run (sys : System C) (turns : List Turn) :
    (sys.run turns).tickers = sys.tickers := by
  induction turns generalizing sys with
  | nil => rfl
  | cons turn turns ih => rw [run_cons, ih, tickers_perform]

@[simp] theorem schedule_run (sys : System C) (turns : List Turn) (rounds : Nat) :
    (sys.run turns).schedule rounds = sys.schedule rounds := by
  rw [schedule, round_run, schedule]

/-- When all tickers have had their turn, the system has ticked. -/
theorem run_tickers (sys : System C) :
    sys.run ((List.range sys.tickers.length).map .ticker) = sys.tick := by
  have h (k : Nat) (hk : k ≤ sys.tickers.length) :
      sys.run ((List.range k).map .ticker) =
        { sys with
          latches := (sys.tickers.take k).foldl (fun l t => l.increment t.latch) sys.latches } := by
    induction k with
    | zero => rfl
    | succ k ih =>
      have hget : sys.tickers[k]? = some sys.tickers[k] := List.getElem?_eq_getElem hk
      have htake : sys.tickers.take (k + 1) = sys.tickers.take k ++ [sys.tickers[k]] :=
        (List.take_append_getElem hk).symm
      rw [List.range_succ, List.map_append, run_append, ih (by omega), htake, List.foldl_append]
      simp only [List.map_cons, List.map_nil, run_cons, run_nil, perform, hget, List.foldl_cons,
        List.foldl_nil]
  rw [h _ (Nat.le_refl _), List.take_length]
  rfl

end System

end EightBit
