import EightBit.Proofs.Quantum

/-!
What commands can do to a machine, and what they leave alone.
-/

namespace EightBit

variable {C : Type}

/-- A system after a snapshot was loaded into it, complete or not: its parts are the same. -/
structure System.SameParts (sys sys' : System C) : Prop where
  processors : sys'.processors.size = sys.processors.size
  tickers : sys'.tickers = sys.tickers
  catalog : sys'.catalog = sys.catalog

theorem System.SameParts.refl (sys : System C) : sys.SameParts sys := ⟨rfl, rfl, rfl⟩

theorem System.SameParts.trans {a b c : System C} (h : a.SameParts b) (h' : b.SameParts c) :
    a.SameParts c :=
  ⟨h'.processors.trans h.processors, h'.tickers.trans h.tickers, h'.catalog.trans h.catalog⟩

theorem System.SameParts.schedule {sys sys' : System C} (h : sys.SameParts sys') (n : Nat) :
    sys'.schedule n = sys.schedule n := by
  simp only [System.schedule, System.round, h.processors, h.tickers]

namespace Machine

inductive Outcome (m : Machine C) : Command → Machine C → Except MachineError Unit → Prop
  | failed (c : Command) (e : MachineError) : Outcome m c m (.error e)
  | filed {c : Command} (directory : Directory) (result : Except MachineError Unit) :
      Outcome m c { m with directory } result
  /-- The file cannot be read to its end. -/
  | incomplete {path : String} {system : System C} (e : StreamError)
      (hparts : m.system.SameParts system) :
      Outcome m (.restore path) { m with system } (.error (.stream e))
  | restored {path : String} {system : System C} (hparts : m.system.SameParts system) :
      Outcome m (.restore path) { m with system, watches := m.watches.map Watch.release } (.ok ())
  | started : Outcome m .start (m.setStatus .run) (.ok ())
  | paused : Outcome m .pause (m.setStatus .pause) (.ok ())
  | traced {name : String} {on : Option Bool} (i : Nat) (now : Bool) (log : Array LogRecord) :
      Outcome m (.trace name on) { m.updateWatch i (Watch.trace now) with log } (.ok ())
  | tracedAll (on : Bool) (log : Array LogRecord) :
      Outcome m (.traceAll on) { m with watches := m.watches.map (Watch.trace on), log } (.ok ())
  | quit : Outcome m .quit { m with quitting := true } (.ok ())

theorem writeFile_ok {m m' : Machine C} {action : FileAction} {path : String} {bytes : List UInt8}
    (h : m.writeFile action path bytes = .ok m') : ∃ directory, m' = { m with directory } := by
  simp only [writeFile] at h
  split at h
  · next directory _ => exact ⟨directory, (Except.ok.inj h).symm⟩
  · contradiction

/-- A machine before and after something in which nothing steps. -/
structure Rests (m m' : Machine C) : Prop where
  parts : m.system.SameParts m'.system
  poisoned : m'.poisoned = m.poisoned
  /-- Processors are released but not tied down. -/
  stuck : ∀ i, (m'.watch i).stuck = true → (m.watch i).stuck = true
  /-- Neither a step nor a breakpoint is made known. -/
  events : ∃ told, m'.events.toList = m.events.toList ++ told ∧
    ∀ e ∈ told, ¬ e.IsTrace ∧ e ≠ .status .stopped

/-- What commands leave alone of a machine, whichever they are. -/
structure Heeds (m m' : Machine C) : Prop extends Rests m m' where
  rounds : m'.rounds = m.rounds
  queue : m'.queue = m.queue
  onStop : m'.onStop = m.onStop
  breakpoints : ∀ i, m'.breakpointsOf i = m.breakpointsOf i

theorem Rests.refl (m : Machine C) : m.Rests m :=
  ⟨.refl m.system, rfl, fun _ => id, [], by simp, by simp⟩

theorem Rests.trans {m m' m'' : Machine C} (h : m.Rests m') (h' : m'.Rests m'') : m.Rests m'' := by
  obtain ⟨told, hevents, htold⟩ := h.events
  obtain ⟨told', hevents', htold'⟩ := h'.events
  refine ⟨h.parts.trans h'.parts, h'.poisoned.trans h.poisoned,
    fun i hi => h.stuck i (h'.stuck i hi), told ++ told', ?_, ?_⟩
  · rw [hevents', hevents, List.append_assoc]
  · intro e he
    exact (List.mem_append.mp he).elim (htold e) (htold' e)

theorem Heeds.refl (m : Machine C) : m.Heeds m := ⟨.refl m, rfl, rfl, rfl, fun _ => rfl⟩

theorem Heeds.trans {m m' m'' : Machine C} (h : m.Heeds m') (h' : m'.Heeds m'') : m.Heeds m'' where
  toRests := h.toRests.trans h'.toRests
  rounds := h'.rounds.trans h.rounds
  queue := h'.queue.trans h.queue
  onStop := h'.onStop.trans h.onStop
  breakpoints i := (h'.breakpoints i).trans (h.breakpoints i)

theorem Rests.of_same {m m' : Machine C} (hparts : m.system.SameParts m'.system)
    (hstuck : ∀ i, (m'.watch i).stuck = true → (m.watch i).stuck = true)
    (hpoisoned : m'.poisoned = m.poisoned) (hevents : m'.events = m.events) : m.Rests m' :=
  ⟨hparts, hpoisoned, hstuck, [], by simp [hevents], by simp⟩

theorem heeds_publish (m : Machine C) {e : Event} (he : ¬ e.IsTrace ∧ e ≠ .status .stopped) :
    m.Heeds (m.publish e) := by
  refine ⟨⟨.refl _, rfl, fun _ => id, [e], Array.toList_push, ?_⟩, rfl, rfl, rfl, fun _ => rfl⟩
  intro e' he'
  exact List.mem_singleton.mp he' ▸ he

theorem setStatus_heeds (m : Machine C) {s : Status} (hs : s ≠ .stopped) :
    m.Heeds (m.setStatus s) := by
  have hstatus : m.Heeds ({ m with status := s }.record .info ("status: " ++ s.name)) :=
    ⟨.of_same (.refl _) (fun _ => id) rfl rfl, rfl, rfl, rfl, fun _ => rfl⟩
  exact hstatus.trans (heeds_publish _ ⟨id, by simpa using hs⟩)

theorem getD_map_cases (ws : Array Watch) (f : Watch → Watch) (i : Nat) :
    (ws.map f).getD i {} = f (ws.getD i {}) ∨ (ws.map f).getD i {} = ws.getD i {} := by
  simp only [Array.getD_eq_getD_getElem?, Array.getElem?_map]
  cases ws[i]? with
  | none => exact .inr rfl
  | some w => exact .inl rfl

theorem watch_updateWatch_eq (m : Machine C) (k : Nat) (f : Watch → Watch) (i : Nat) :
    (m.updateWatch k f).watch i =
      if k = i ∧ i < m.watches.size then f (m.watch i) else m.watch i := by
  simp only [updateWatch, watch, Array.getD_eq_getD_getElem?, Array.getElem?_modify]
  by_cases hi : i < m.watches.size
  · by_cases hk : k = i <;> simp [hi, hk]
  · simp [hi]

theorem watch_updateWatch_cases (m : Machine C) (k : Nat) (f : Watch → Watch) (i : Nat) :
    (m.updateWatch k f).watch i = f (m.watch i) ∨ (m.updateWatch k f).watch i = m.watch i := by
  rw [watch_updateWatch_eq]
  split
  · exact .inl rfl
  · exact .inr rfl

theorem stuck_of_cases {f : Watch → Watch} {w w' : Watch} (h : w' = f w ∨ w' = w)
    (hf : ∀ w, (f w).stuck = true → w.stuck = true) (hw : w'.stuck = true) : w.stuck = true := by
  rcases h with rfl | rfl
  · exact hf w hw
  · exact hw

theorem breakpoints_of_cases {f : Watch → Watch} {w w' : Watch} (h : w' = f w ∨ w' = w)
    (hf : ∀ w, (f w).breakpoints = w.breakpoints) : w'.breakpoints = w.breakpoints := by
  rcases h with rfl | rfl
  · exact hf w
  · rfl

theorem Outcome.heeds {m m' : Machine C} {c : Command} {result : Except MachineError Unit}
    (h : m.Outcome c m' result) : m.Heeds m' := by
  cases h with
  | failed => exact .refl m
  | filed directory =>
    exact ⟨.of_same (.refl _) (fun _ => id) rfl rfl, rfl, rfl, rfl, fun _ => rfl⟩
  | incomplete e hparts =>
    exact ⟨.of_same hparts (fun _ => id) rfl rfl, rfl, rfl, rfl, fun _ => rfl⟩
  | restored hparts =>
    have hcases := getD_map_cases m.watches Watch.release
    exact ⟨.of_same hparts (fun i => stuck_of_cases (hcases i) (by simp [Watch.release])) rfl rfl,
      rfl, rfl, rfl, fun i => breakpoints_of_cases (hcases i) fun _ => rfl⟩
  | started => exact setStatus_heeds m (by decide)
  | paused => exact setStatus_heeds m (by decide)
  | traced i now log =>
    have hcases := m.watch_updateWatch_cases i (Watch.trace now)
    exact ⟨.of_same (.refl _) (fun k => stuck_of_cases (hcases k) fun _ => id) rfl rfl, rfl, rfl,
      rfl, fun k => breakpoints_of_cases (hcases k) fun _ => rfl⟩
  | tracedAll on log =>
    have hcases := getD_map_cases m.watches (Watch.trace on)
    exact ⟨.of_same (.refl _) (fun i => stuck_of_cases (hcases i) fun _ => id) rfl rfl, rfl, rfl,
      rfl, fun i => breakpoints_of_cases (hcases i) fun _ => rfl⟩
  | quit => exact ⟨.of_same (.refl _) (fun _ => id) rfl rfl, rfl, rfl, rfl, fun _ => rfl⟩

theorem Outcome.of_error {m m' : Machine C} {c : Command} {e : MachineError}
    (h : m.Outcome c m' (.error e)) :
    m'.events = m.events ∧ m'.status = m.status ∧ m'.watches = m.watches := by
  cases h <;> exact ⟨rfl, rfl, rfl⟩

theorem Outcome.quitting {m m' : Machine C} {c : Command} {result : Except MachineError Unit}
    (h : m.Outcome c m' result) (hc : c ≠ .quit) : m'.quitting = m.quitting := by
  cases h with
  | quit => contradiction
  | _ => rfl

end Machine

variable [Cpu C]

/-- A snapshot changes the state of the processors but not how many there are. -/
theorem System.length_loadProcessors (ps : List (Processor C)) (r : Reader) :
    (System.loadProcessors ps r).1.length = ps.length := by
  induction ps generalizing r with
  | nil => rfl
  | cons p ps ih => simp only [System.loadProcessors, List.length_cons, ih]

theorem System.sameParts_load {sys sys' : System C} {r r' : Reader}
    (h : sys.load? r = some (sys', r')) : sys.SameParts sys' := by
  simp only [System.load?, Option.map_eq_some_iff] at h
  obtain ⟨saved, -, heq⟩ := h
  obtain ⟨rfl, -⟩ := Prod.mk.inj heq
  exact ⟨by simp [System.length_loadProcessors], rfl, rfl⟩

theorem System.sameParts_perform (sys : System C) (turn : Turn) :
    sys.SameParts (sys.perform turn) :=
  ⟨size_processors_perform sys turn, tickers_perform sys turn, catalog_perform sys turn⟩

theorem System.sameParts_run (sys : System C) (turns : List Turn) :
    sys.SameParts (sys.run turns) := by
  induction turns generalizing sys with
  | nil => exact .refl sys
  | cons turn turns ih => exact (sys.sameParts_perform turn).trans (ih (sys.perform turn))

namespace Machine

theorem Follows.sameParts {m : Machine C} {turns : List System.Turn} {r : Progress × Machine C}
    (h : m.Follows turns r) : m.system.SameParts r.2.system := by
  obtain ⟨done, -, hadvances⟩ := h
  rw [hadvances.system]
  exact m.system.sameParts_run done

theorem perform_outcome (m : Machine C) (c : Command) :
    m.Outcome c (m.perform c).1 (m.perform c).2 := by
  cases c with
  | save path =>
    simp only [perform, save]
    split
    · exact .failed _ _
    · next fields _ =>
      cases h : m.writeFile .save path (({} : Writer).putAll fields).sink.bytes.toList with
      | error e => exact .failed _ _
      | ok m' =>
        obtain ⟨directory, rfl⟩ := writeFile_ok h
        exact .filed directory _
  | restore path =>
    simp only [perform, restore]
    split
    · exact .failed _ _
    · split
      · exact .failed _ _
      · split
        · exact .failed _ _
        · next hload =>
          split
          · exact .incomplete _ (System.sameParts_load hload)
          · exact .restored (System.sameParts_load hload)
  | capture path =>
    simp only [perform, capture]
    split
    · exact .failed _ _
    · split
      · exact .failed _ _
      · next created hcreated =>
        obtain ⟨directory, rfl⟩ := writeFile_ok hcreated
        split
        · exact .filed directory _
        · split
          · exact .filed directory _
          · next written hwritten =>
            obtain ⟨directory', rfl⟩ := writeFile_ok hwritten
            exact .filed directory' _
  | start => exact .started
  | pause => exact .paused
  | trace name on =>
    simp only [perform, trace]
    cases m.indexOf name with
    | error e => exact .failed _ _
    | ok i => exact .traced i _ _
  | traceAll on => exact .tracedAll on _
  | quit => exact .quit

/-- No command asks how long a quantum is, what is queued behind it, or what has been logged. -/
theorem perform_update_log (m : Machine C) (n : Nat) (q : List Command) (log : Array LogRecord)
    (c : Command) :
    ∃ log', { m with rounds := n, queue := q, log }.perform c =
        ({ (m.perform c).1 with rounds := n, queue := q, log := log' }, (m.perform c).2) ∧
      (log = m.log → log' = (m.perform c).1.log) := by
  cases c with
  | save path =>
    simp only [perform, save]
    cases m.system.fields? with
    | none => exact ⟨_, rfl, id⟩
    | some fields =>
      simp only [writeFile]
      cases m.directory.writeFile path (({} : Writer).putAll fields).sink.bytes.toList <;>
        exact ⟨_, rfl, id⟩
  | restore path =>
    simp only [perform, restore]
    cases m.system.saved with
    | none => exact ⟨_, rfl, id⟩
    | some saved =>
      simp only
      cases m.directory.openFile path with
      | error e => exact ⟨_, rfl, id⟩
      | ok source =>
        simp only
        cases m.system.load? (readerOf source) with
        | none => exact ⟨_, rfl, id⟩
        | some result =>
          obtain ⟨system, r⟩ := result
          simp only
          cases r.error <;> exact ⟨_, rfl, id⟩
  | capture path =>
    simp only [perform, capture]
    cases m.system.picture? with
    | none => exact ⟨_, rfl, id⟩
    | some picture =>
      simp only [writeFile]
      cases m.directory.writeFile path [] with
      | error e => exact ⟨_, rfl, id⟩
      | ok created =>
        simp only
        cases m.encode picture with
        | error e => exact ⟨_, rfl, id⟩
        | ok bytes =>
          simp only
          cases created.writeFile path bytes <;> exact ⟨_, rfl, id⟩
  | trace name on =>
    simp only [perform, trace, indexOf]
    cases m.system.names.findIdx? (· == name) with
    | none => exact ⟨_, rfl, id⟩
    | some i => exact ⟨_, rfl, fun h => h ▸ rfl⟩
  | _ => exact ⟨_, rfl, fun h => h ▸ rfl⟩

theorem perform_update (m : Machine C) (n : Nat) (q : List Command) (c : Command) :
    { m with rounds := n, queue := q }.perform c =
      ({ (m.perform c).1 with rounds := n, queue := q }, (m.perform c).2) := by
  obtain ⟨log, hperform, hlog⟩ := m.perform_update_log n q m.log c
  obtain rfl := hlog rfl
  exact hperform

theorem perform_record (m : Machine C) (level : LogLevel) (text : String) (c : Command) :
    ((m.record level text).perform c).2 = (m.perform c).2 := by
  obtain ⟨log, hperform, -⟩ := m.perform_update_log m.rounds m.queue (m.record level text).log c
  have hresult := congrArg Prod.snd hperform
  exact hresult

/-- Behind what a command does, only its failure is made known. -/
theorem handle_cases (m : Machine C) (c : Command) :
    (m.perform c).2 = .ok () ∧
        m.handle c = ((m.record .debug ("command: " ++ c.describe)).perform c).1 ∨
      ∃ e, (m.perform c).2 = .error e ∧
        m.handle c = (((m.record .debug ("command: " ++ c.describe)).perform c).1.record .warn
          e.message).publish (.error e.message) := by
  rw [← m.perform_record .debug ("command: " ++ c.describe)]
  simp only [handle]
  rcases (m.record .debug ("command: " ++ c.describe)).perform c with ⟨m', _ | _⟩
  · exact .inr ⟨_, rfl, rfl⟩
  · exact .inl ⟨rfl, rfl⟩

theorem handle_heeds (m : Machine C) (c : Command) : m.Heeds (m.handle c) := by
  have hlog (m : Machine C) (level : LogLevel) (text : String) : m.Heeds (m.record level text) :=
    ⟨.of_same (.refl _) (fun _ => id) rfl rfl, rfl, rfl, rfl, fun _ => rfl⟩
  have hperform := (hlog m .debug ("command: " ++ c.describe)).trans
    ((m.record .debug ("command: " ++ c.describe)).perform_outcome c).heeds
  rcases m.handle_cases c with ⟨-, hhandle⟩ | ⟨e, -, hhandle⟩ <;> rw [hhandle]
  · exact hperform
  · have herror : ¬ (Event.error e.message).IsTrace ∧ Event.error e.message ≠ .status .stopped := by
      simp [Event.IsTrace]
    exact hperform.trans ((hlog _ .warn e.message).trans (heeds_publish _ herror))

theorem foldl_handle_heeds (m : Machine C) (cs : List Command) : m.Heeds (cs.foldl handle m) := by
  induction cs generalizing m with
  | nil => exact .refl m
  | cons c cs ih => exact (m.handle_heeds c).trans (ih (m.handle c))

theorem handle_update (m : Machine C) (n : Nat) (q : List Command) (c : Command) :
    { m with rounds := n, queue := q }.handle c = { m.handle c with rounds := n, queue := q } := by
  have hperform := (m.record .debug ("command: " ++ c.describe)).perform_update n q c
  have hlog : ({ m with rounds := n, queue := q } : Machine C).record .debug
        ("command: " ++ c.describe) =
      { m.record .debug ("command: " ++ c.describe) with rounds := n, queue := q } := rfl
  simp only [handle, hlog, hperform]
  cases (m.record .debug ("command: " ++ c.describe)).perform c with
  | mk m' result => cases result <;> rfl

theorem foldl_handle_update (m : Machine C) (n : Nat) (q cs : List Command) :
    cs.foldl handle { m with rounds := n, queue := q } =
      { cs.foldl handle m with rounds := n, queue := q } := by
  induction cs generalizing m with
  | nil => rfl
  | cons c cs ih => rw [List.foldl_cons, List.foldl_cons, handle_update, ih]

theorem drain_heeds (m : Machine C) : ({ m with queue := [] } : Machine C).Heeds m.drain :=
  foldl_handle_heeds _ m.queue

theorem drain_rounds (m : Machine C) (n : Nat) :
    { m with rounds := n }.drain = { m.drain with rounds := n } := by
  have hfold := foldl_handle_update { m with queue := [] } n [] m.queue
  have hqueue : m.drain.queue = [] := m.drain_heeds.queue
  exact hfold.trans (congrArg (fun q => { m.drain with rounds := n, queue := q }) hqueue.symm)

/-- The commands behind the first one are still queued while it is carried out. -/
theorem drain_cons {m : Machine C} {c : Command} {cs : List Command} (h : m.queue = c :: cs) :
    m.drain = ({ m with queue := cs }.handle c).drain := by
  have hhandle (q : List Command) : { m with queue := q }.handle c =
      { m.handle c with rounds := m.rounds, queue := q } := m.handle_update m.rounds q c
  rw [drain, h, List.foldl_cons, hhandle [], hhandle cs]
  rfl

/-- A command that fails makes its failure known, once, and leaves the machine as it runs. -/
theorem handle_of_error {m : Machine C} {c : Command} {e : MachineError}
    (h : (m.perform c).2 = .error e) :
    (m.handle c).events = m.events.push (.error e.message) ∧ (m.handle c).status = m.status ∧
      (m.handle c).watches = m.watches := by
  have houtcome := (m.record .debug ("command: " ++ c.describe)).perform_outcome c
  rw [perform_record, h] at houtcome
  obtain ⟨hevents, hstatus, hwatches⟩ := houtcome.of_error
  rcases m.handle_cases c with ⟨hok, -⟩ | ⟨e', herror, hhandle⟩
  · rw [h] at hok
    contradiction
  · obtain rfl := Except.error.inj (h.symm.trans herror)
    rw [hhandle]
    exact ⟨congrArg (fun events => events.push (Event.error e.message)) hevents, hstatus, hwatches⟩

theorem quitting_handle (m : Machine C) (c : Command) :
    (m.handle c).quitting = true ↔ m.quitting = true ∨ c = .quit := by
  by_cases hc : c = .quit
  · subst hc
    exact ⟨fun _ => .inr rfl, fun _ => rfl⟩
  · have houtcome := (m.record .debug ("command: " ++ c.describe)).perform_outcome c
    have hquitting : (m.handle c).quitting = m.quitting := by
      rcases m.handle_cases c with ⟨-, hhandle⟩ | ⟨e, -, hhandle⟩ <;> rw [hhandle] <;>
        exact houtcome.quitting hc
    rw [hquitting]
    exact ⟨.inl, fun h => h.resolve_right hc⟩

end Machine

end EightBit
