import EightBit.Proofs.Selections

/-!
When a character set is missing.

A dump shows characters in the selected set, and that one is never missing: the only command that
can fail for want of a character set is the one that selects another.
-/

namespace EightBit.Monitor

/-- It does not fail for want of a character set. -/
def FindsSet {α : Type} (x : Except MonitorError α) : Prop :=
  ∀ name, x ≠ .error (.noSuchEncoding name)

section Except

variable {δ α β : Type}

theorem findsSet_ok (a : α) : FindsSet (.ok a) := fun _ => nofun

theorem FindsSet.of_bind {x : Except MonitorError α} (hx : FindsSet x)
    {f : α → Except MonitorError β} {name : String}
    (h : (x >>= f) = .error (.noSuchEncoding name)) :
    ∃ a, x = .ok a ∧ f a = .error (.noSuchEncoding name) := by
  cases x with
  | error e => exact absurd (congrArg Except.error (Except.error.inj h)) (hx name)
  | ok a => exact ⟨a, rfl, h⟩

theorem FindsSet.bind {x : Except MonitorError α} {f : α → Except MonitorError β}
    (hx : FindsSet x) (hf : ∀ a, x = .ok a → FindsSet (f a)) : FindsSet (x >>= f) := by
  intro name h
  obtain ⟨a, ha, h⟩ := hx.of_bind h
  exact hf a ha name h

theorem FindsSet.map {x : Except MonitorError α} (hx : FindsSet x) (f : α → β) :
    FindsSet (x.map f) := by
  cases x with
  | error e => exact fun name h => hx name (congrArg Except.error (Except.error.inj h))
  | ok a => exact findsSet_ok (f a)

theorem findsSet_mapError {f : δ → MonitorError} (hf : ∀ e name, f e ≠ .noSuchEncoding name)
    (x : Except δ α) : FindsSet (x.mapError f) := by
  cases x with
  | error e => exact fun name h => hf e name (Except.error.inj h)
  | ok a => exact findsSet_ok a

theorem findsSet_numeral (x : Except NumeralError α) : FindsSet (x.mapError .numeral) :=
  findsSet_mapError (fun _ _ h => by cases h) x

theorem findsSet_edit (x : Except EditError α) : FindsSet (x.mapError .edit) :=
  findsSet_mapError (fun _ _ h => by cases h) x

theorem findsSet_machine (x : Except MachineError α) : FindsSet (x.mapError .machine) :=
  findsSet_mapError (fun _ _ h => by cases h) x

end Except

theorem findsSet_checkCount (args : List String) (least most : Nat) :
    FindsSet (checkCount args least most) := by
  rw [checkCount]
  split
  · exact fun _ => nofun
  · split
    · exact fun _ => nofun
    · exact findsSet_ok ()

theorem findsSet_lineCount (text : String) : FindsSet (lineCount text) := by
  refine (findsSet_numeral _).bind fun n _ => ?_
  split
  · exact fun _ => nofun
  · exact findsSet_ok _

section Arguments

variable {α : Type} {read : String → Except MonitorError α}

theorem findsSet_optional (h : ∀ text, FindsSet (read text)) (text : Option String) :
    FindsSet (optional read text) := by
  cases text with
  | none => exact findsSet_ok none
  | some text => exact (h text).map some

theorem findsSet_each (h : ∀ text, FindsSet (read text)) (texts : List String) :
    FindsSet (each read texts) := by
  induction texts with
  | nil => exact findsSet_ok []
  | cons text texts ih => exact (h text).bind fun v _ => ih.bind fun vs _ => findsSet_ok (v :: vs)

end Arguments

theorem findsSet_valueLike (text : String) (old : Value) : FindsSet (valueLike text old) := by
  cases old with
  | u8 _ => exact (findsSet_numeral _).map Value.u8
  | u16 _ => exact (findsSet_numeral _).map Value.u16
  | bool _ => exact (findsSet_numeral _).map Value.bool

variable (mon : Monitor) (m : Machine) (args : List String)

theorem findsSet_selected : FindsSet (mon.selected m) := by
  refine (findsSet_machine _).bind fun m' _ => ?_
  split
  · exact findsSet_ok _
  · exact fun _ => nofun

theorem findsSet_selectedName : FindsSet (mon.selectedName m) := (findsSet_machine _).map _

theorem findsSet_control (c : Command) : FindsSet (mon.control m args c) :=
  (findsSet_checkCount _ _ _).bind fun _ _ => findsSet_ok _

theorem findsSet_fileCommand (c : String → Command) : FindsSet (mon.fileCommand m args c) :=
  (findsSet_checkCount _ _ _).bind fun _ _ => findsSet_ok _

theorem findsSet_breakpoint : FindsSet (mon.breakpoint m args) := by
  refine (findsSet_checkCount _ _ _).bind fun _ _ => ?_
  refine (findsSet_selectedName mon m).bind fun name _ => ?_
  have hset (text : String) : FindsSet (do
      let location ← address text
      let m ← (m.setBreakpoint name location).mapError .machine
      .ok ⟨[], mon, m⟩ : Except MonitorError Reply) :=
    (findsSet_numeral _).bind fun _ _ => (findsSet_machine _).bind fun _ _ => findsSet_ok _
  dsimp only
  split
  · exact (findsSet_machine _).bind fun _ _ => findsSet_ok _
  · exact hset _
  · exact hset _
  · exact (findsSet_numeral _).bind fun _ _ => (findsSet_machine _).bind fun _ _ => findsSet_ok _
  · exact fun _ => nofun

theorem findsSet_selectCore : FindsSet (mon.selectCore m args) := by
  refine (findsSet_checkCount _ _ _).bind fun _ _ => ?_
  split
  · exact (findsSet_selectedName mon m).bind fun _ _ => findsSet_ok _
  · refine (findsSet_numeral _).bind fun n _ => ?_
    split
    · exact fun _ => nofun
    · exact findsSet_ok _

theorem findsSet_registers (k : RegisterClass) : FindsSet (mon.registers m k args) := by
  refine (findsSet_checkCount _ _ _).bind fun _ _ => (findsSet_selected mon m).bind fun c _ => ?_
  split
  · exact (findsSet_edit _).bind fun _ _ => findsSet_ok _
  · exact (findsSet_edit _).bind fun _ _ => findsSet_ok _
  · exact (findsSet_edit _).bind fun old _ => (findsSet_valueLike _ old).bind fun _ _ =>
      (findsSet_edit _).bind fun _ _ => findsSet_ok _

theorem findsSet_processor : FindsSet (mon.processor m args) := by
  fun_cases processor mon m args with
  | case1 => exact (findsSet_selected mon m).bind fun _ _ => findsSet_ok _
  | case2 args => exact findsSet_registers mon m args .register
  | case3 args => exact findsSet_registers mon m args .flag
  | case4 other rest => exact fun _ => nofun

theorem findsSet_list : FindsSet (mon.list m args) := by
  refine (findsSet_checkCount _ _ _).bind fun _ _ => ?_
  refine (findsSet_optional (fun _ => findsSet_numeral _) _).bind fun first _ => ?_
  refine (findsSet_optional (fun _ => findsSet_numeral _) _).bind fun last _ => ?_
  refine (findsSet_selected mon m).bind fun c _ => ?_
  split
  · exact fun _ => nofun
  · exact findsSet_ok _

theorem findsSet_disassemble : FindsSet (mon.disassemble m args) := by
  rw [disassemble.eq_def]
  split
  · exact findsSet_list mon m _
  · refine (findsSet_checkCount _ _ _).bind fun _ _ => ?_
    split
    · exact findsSet_ok _
    · exact (findsSet_lineCount _).bind fun _ _ => findsSet_ok _
  · exact findsSet_list mon m _

theorem findsSet_poke : FindsSet (mon.poke m args) :=
  (findsSet_checkCount _ _ _).bind fun _ _ => (findsSet_numeral _).bind fun _ _ =>
    (findsSet_each (fun _ => findsSet_numeral _) _).bind fun _ _ =>
      (findsSet_selected mon m).bind fun _ _ => findsSet_ok _

theorem findsSet_trace : FindsSet (mon.trace m args) :=
  (findsSet_checkCount _ _ _).bind fun _ _ =>
    (findsSet_optional (fun _ => findsSet_numeral _) _).bind fun _ _ =>
      (findsSet_selectedName mon m).bind fun _ _ => findsSet_ok _

theorem findsSet_traceAll : FindsSet (mon.traceAll m args) :=
  (findsSet_checkCount _ _ _).bind fun _ _ => (findsSet_numeral _).bind fun _ _ => findsSet_ok _

variable {mon m args}

/-- The set that a dump shows characters in has been selected before, or it is the default. -/
theorem Valid.findsSet_dump (h : mon.Valid m) : FindsSet (mon.dump m args) := by
  refine (findsSet_checkCount _ _ _).bind fun _ _ => ?_
  refine (findsSet_optional (fun _ => findsSet_numeral _) _).bind fun first _ => ?_
  refine (findsSet_optional (fun _ => findsSet_numeral _) _).bind fun last _ => ?_
  refine (findsSet_machine _).bind fun m' hm => ?_
  obtain rfl := sound_ok hm
  split
  · next hnone =>
    have hset := (m'.system.catalog.find?_isSome mon.encoding).mpr h.encoding
    rw [hnone] at hset
    cases hset
  · exact (findsSet_selected mon m').bind fun _ _ => findsSet_ok _

theorem selectEncoding_noSuchEncoding {name : String}
    (h : mon.selectEncoding m args = .error (.noSuchEncoding name)) :
    args = [name] ∧ name ∉ m.system.catalog.names := by
  obtain ⟨_, hcount, h⟩ := (findsSet_checkCount args 0 1).of_bind h
  obtain ⟨m', hm, h⟩ := (findsSet_machine m.sound).of_bind h
  obtain rfl := sound_ok hm
  cases args with
  | nil => cases h
  | cons text rest =>
    -- Anything behind the name would have been refused before.
    have hrest : rest = [] := by
      rw [checkCount, if_neg (Nat.not_lt_zero _)] at hcount
      simpa using hcount
    dsimp only at h
    split at h
    · cases h
    · next htext =>
      cases h
      exact ⟨by rw [hrest], fun hmem => htext (List.contains_iff_mem.mpr hmem)⟩

theorem Valid.memory_noSuchEncoding (hvalid : mon.Valid m) {name : String}
    (h : mon.memory m args = .error (.noSuchEncoding name)) :
    args = ["encoding", name] ∧ name ∉ m.system.catalog.names := by
  rw [memory.eq_def] at h
  split at h
  · exact absurd h (hvalid.findsSet_dump name)
  · obtain ⟨rfl, hname⟩ := selectEncoding_noSuchEncoding h
    exact ⟨rfl, hname⟩
  · refine absurd h ((findsSet_checkCount _ _ _).bind (fun _ _ => ?_) name)
    split
    · exact findsSet_ok _
    · exact (findsSet_lineCount _).bind fun _ _ => findsSet_ok _
  · exact absurd h (hvalid.findsSet_dump name)

theorem Valid.respond_noSuchEncoding (hvalid : mon.Valid m) {command name : String}
    (h : mon.respond m command args = .error (.noSuchEncoding name)) :
    command = "mem" ∧ args = ["encoding", name] ∧ name ∉ m.system.catalog.names := by
  rw [respond.eq_def] at h
  split at h
  · exact absurd h (findsSet_breakpoint mon m _ name)
  · exact absurd h (findsSet_breakpoint mon m _ name)
  · exact absurd h (findsSet_selectCore mon m _ name)
  · exact absurd h (findsSet_processor mon m _ name)
  · exact absurd h (findsSet_list mon m _ name)
  · exact absurd h (findsSet_disassemble mon m _ name)
  · exact absurd h (findsSet_fileCommand mon m _ _ name)
  · exact absurd h (findsSet_control mon m _ _ name)
  · exact absurd h (findsSet_control mon m _ _ name)
  · exact absurd h (findsSet_fileCommand mon m _ _ name)
  · exact absurd h (hvalid.findsSet_dump name)
  · exact ⟨rfl, hvalid.memory_noSuchEncoding h⟩
  · exact absurd h (findsSet_control mon m _ _ name)
  · exact absurd h (findsSet_control mon m _ _ name)
  · exact absurd h (findsSet_poke mon m _ name)
  · exact absurd h ((findsSet_control mon m _ _).map _ name)
  · exact absurd h ((findsSet_control mon m _ _).map _ name)
  · exact absurd h ((findsSet_checkCount _ _ _).bind (fun _ _ => findsSet_processor mon m _) name)
  · exact absurd h (findsSet_fileCommand mon m _ _ name)
  · exact absurd h (findsSet_trace mon m _ name)
  · exact absurd h (findsSet_trace mon m _ name)
  · exact absurd h (findsSet_traceAll mon m _ name)
  · cases h

theorem Valid.findsSet_respondAgain (h : mon.Valid m) : FindsSet (mon.respondAgain m) := by
  rw [respondAgain]
  split
  · exact findsSet_list mon m _
  · exact h.findsSet_dump
  · exact findsSet_ok _

/-- Only a line that selects a character set fails for want of it. -/
theorem Valid.eval_noSuchEncoding (hvalid : mon.Valid m) {line name : String}
    (h : (mon.eval m line).2.2 = .error (.noSuchEncoding name)) :
    Text.words line = ["mem", "encoding", name] ∧ name ∉ m.system.catalog.names := by
  cases hwords : Text.words line with
  | nil =>
    rw [eval_of_words_nil mon m hwords] at h
    exact absurd (reply_of_settle h fun _ => nofun) (hvalid.findsSet_respondAgain name)
  | cons command args =>
    have hnoted : mon.forget.Valid (noted m line) := { hvalid with }
    rw [eval_of_words_cons mon m hwords] at h
    obtain ⟨rfl, rfl, hname⟩ := hnoted.respond_noSuchEncoding (reply_of_settle h fun _ => nofun)
    exact ⟨rfl, hname⟩

end EightBit.Monitor
