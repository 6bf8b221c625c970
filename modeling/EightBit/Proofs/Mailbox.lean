import EightBit.Proofs.Mos6502.Footprint
import EightBit.Proofs.Snapshot
import EightBit.Proofs.Trajectory
import EightBit.Proofs.Z80.Footprint

/-!
Processors of one system interact only through the registers that they share.

A step that does not meet those registers can change places with a step of another processor. In the
dual system the shared register is the mailbox, so that is any step of the 6502 that keeps away from
the mailbox's address and any step of the Z80 that keeps away from its port.
-/

namespace EightBit

variable {C : Type} [Cpu C]

/-- The next step neither depends on the registers behind the ports nor changes them. -/
def Cpu.Detached (c : C) : Prop := ∀ l, Cpu.step (Cpu.connect l c) = Cpu.connect l (Cpu.step c)

theorem Cpu.Detached.latches_step {c : C} (h : Detached c) : latches (step c) = latches c := by
  have hstep := h (latches c)
  rw [connect_latches] at hstep
  rw [hstep, latches_connect]

namespace Core

theorem InstanceOf.eq_mos6502 {c : Core} {base : Mos6502} (h : c.InstanceOf (.mos6502 base)) :
    ∃ s, c = .mos6502 s ∧ s.mem.InstanceOf base.mem := by
  cases h with
  | mos6502 hmem => exact ⟨_, rfl, hmem⟩

theorem InstanceOf.eq_z80 {c : Core} {base : Z80} (h : c.InstanceOf (.z80 base)) :
    ∃ s, c = .z80 s ∧ s.mem.InstanceOf base.mem ∧ s.ports.InstanceOf base.ports := by
  cases h with
  | z80 hmem hports => exact ⟨_, rfl, hmem, hports⟩

theorem detached_mos6502 {s : Mos6502} (h : s.Stores s.accesses) : Cpu.Detached (mos6502 s) :=
  fun l => congrArg mos6502 (Mos6502.step_connect l h)

theorem detached_z80 {s : Z80} (h : s.Portless)
    (hport : ∀ port ∈ s.port?, ¬ s.ports.IsPort port.toNat) : Cpu.Detached (z80 s) :=
  fun l => congrArg z80 (Z80.step_connect l h hport)

end Core

namespace System

theorem getElem?_perform (sys : System C) (i k : Nat) :
    (sys.perform (.processor i)).processors[k]? =
      sys.processors[k]?.map fun p =>
        if i = k then
          { p with core := Cpu.connect {} (Cpu.step (Cpu.connect sys.latches p.core)) }
        else p := by
  rw [← Array.getElem?_toList, perform, processors_update, List.getElem?_modify,
    Array.getElem?_toList]
  cases sys.processors[k]? with
  | none => rfl
  | some p => by_cases hk : i = k <;> simp [hk]

theorem latches_perform (sys : System C) (i : Nat) :
    (sys.perform (.processor i)).latches =
      match sys.processors[i]? with
      | some p => Cpu.latches (Cpu.step (Cpu.connect sys.latches p.core))
      | none => sys.latches := latches_update sys i Cpu.step

/-- Turns change nothing of a system but its processors and registers. -/
theorem run_same (sys : System C) (turns : List Turn) :
    sys.run turns = { sys with
      processors := (sys.run turns).processors, latches := (sys.run turns).latches } := by
  induction turns generalizing sys with
  | nil => rfl
  | cons turn turns ih =>
    have hturn : sys.perform turn = { sys with
        processors := (sys.perform turn).processors, latches := (sys.perform turn).latches } := by
      cases turn with
      | processor i => rfl
      | ticker j =>
        unfold perform
        dsimp only
        split <;> rfl
    rw [run_cons, ih (sys.perform turn), hturn]

/-- A detached step and the step of another processor can change places. -/
theorem run_comm {sys : System C} {i j : Nat} (hij : i ≠ j) {c : C} (hcore : sys.core? i = some c)
    (h : Cpu.Detached c) :
    sys.run [.processor i, .processor j] = sys.run [.processor j, .processor i] := by
  obtain ⟨p, hp, rfl⟩ : ∃ p, sys.processors[i]? = some p ∧ Cpu.connect sys.latches p.core = c :=
    Option.map_eq_some_iff.mp hcore
  have hstep (l : Latches) : Cpu.step (Cpu.connect l p.core) =
      Cpu.connect l (Cpu.step (Cpu.connect sys.latches p.core)) := by
    rw [← h l, Cpu.connect_connect]
  have hkeep : (sys.perform (.processor i)).latches = sys.latches := by
    simp only [latches_perform, hp]
    rw [h.latches_step, Cpu.latches_connect]
  have hprocessors : (sys.run [.processor i, .processor j]).processors =
      (sys.run [.processor j, .processor i]).processors := by
    apply Array.ext_getElem?
    intro k
    simp only [run_cons, run_nil, getElem?_perform, hkeep]
    by_cases hik : i = k
    · subst hik
      simp [hp, hij.symm, hstep (sys.perform (.processor j)).latches]
    · cases sys.processors[k]? <;> simp [hik]
  have hlatches : (sys.run [.processor i, .processor j]).latches =
      (sys.run [.processor j, .processor i]).latches := by
    have hfirst : (sys.run [.processor i, .processor j]).latches =
        (sys.perform (.processor j)).latches := by
      simp only [run_cons, run_nil, latches_perform _ j, getElem?_perform, hij, hkeep]
      cases sys.processors[j]? <;> rfl
    have hlast : (sys.run [.processor j, .processor i]).latches =
        (sys.perform (.processor j)).latches := by
      simp only [run_cons, run_nil, latches_perform _ i, getElem?_perform, hp, hij.symm, ↓reduceIte,
        Option.map_some, hstep (sys.perform (.processor j)).latches, Cpu.latches_connect]
    rw [hfirst, hlast]
  rw [run_same sys [.processor i, .processor j], hprocessors, hlatches, ← run_same]

/-- The processors of the dual system, whatever their state. -/
theorem InstanceOf.cores_dual {sys : System} (h : sys.InstanceOf dual) :
    ∃ s z, sys.core? 0 = some (.mos6502 s) ∧ sys.core? 1 = some (.z80 z) ∧
      s.mem.InstanceOf ((Memory.ram addressSpace).mapPort mailboxAddress 0) ∧
      z.mem.InstanceOf (Memory.ram addressSpace) ∧
      z.ports.InstanceOf ((Memory.ram Z80.portSpace).mapPort mailboxPort 0) := by
  obtain ⟨p, ps, hp, hps, hlist⟩ := List.forall₂_cons_right_iff.mp h.processors
  obtain ⟨q, qs, hq, hqs, rfl⟩ := List.forall₂_cons_right_iff.mp hps
  have hget (k : Nat) : sys.core? k = (p :: q :: qs)[k]?.map (·.core.connect sys.latches) := by
    rw [core?, ← Array.getElem?_toList, hlist]
    rfl
  obtain ⟨s, hs, hmem⟩ := hp.core.eq_mos6502
  obtain ⟨z, hz, hzmem, hports⟩ := hq.core.eq_z80
  refine ⟨{ s with latches := sys.latches }, { z with latches := sys.latches }, ?_, ?_, hmem, hzmem,
    hports⟩
  · rw [hget, List.getElem?_cons_zero, Option.map_some, hs]
    rfl
  · rw [hget, List.getElem?_cons_succ, List.getElem?_cons_zero, Option.map_some, hz]
    rfl

/-- If the next step of the 6502 does not access the mailbox, or that of the Z80 does not, the order
in which the two step does not matter. -/
theorem dual_run_comm {sys : System} (h : sys.InstanceOf dual) :
    ∃ s z, sys.core? 0 = some (.mos6502 s) ∧ sys.core? 1 = some (.z80 z) ∧
      ((∀ addr ∈ s.accesses, addr.toNat ≠ mailboxAddress) ∨
        (∀ port ∈ z.port?, port.toNat ≠ mailboxPort) →
        sys.run [.processor 0, .processor 1] = sys.run [.processor 1, .processor 0]) := by
  obtain ⟨s, z, hs, hz, hmem, hzmem, hports⟩ := h.cores_dual
  refine ⟨s, z, hs, hz, ?_⟩
  rintro (hapart | hapart)
  · have hdetached : Cpu.Detached (Core.mos6502 s) := Core.detached_mos6502 fun addr haddr hport =>
      hapart addr haddr (hmem.isPort_mapPort hport)
    exact run_comm (by decide) hs hdetached
  · have hdetached : Cpu.Detached (Core.z80 z) := Core.detached_z80 hzmem.not_isPort_ram
      fun port hport hmailbox => hapart port hport (hports.isPort_mapPort hmailbox)
    exact (run_comm (by decide) hz hdetached).symm

/-- A dual system whose Z80 runs from another memory. -/
def dualWith (mem : Memory) : System :=
  { dual with processors := #[
    ⟨"cpu", .mos6502
      (Mos6502.powerOn ((Memory.ram addressSpace).mapPort mailboxAddress 0) {})⟩,
    ⟨"z80", .z80 (Z80.powerOn mem ((Memory.ram Z80.portSpace).mapPort mailboxPort 0) {})⟩] }

theorem instanceOf_dualWith {mem : Memory} (h : mem.InstanceOf (Memory.ram addressSpace)) :
    (dualWith mem).InstanceOf dual := by
  have hmem : ((Memory.ram addressSpace).mapPort mailboxAddress 0).InstanceOf
      ((Memory.ram addressSpace).mapPort mailboxAddress 0) :=
    Memory.instanceOf_build addressSpace 1 [.ram 0 addressSpace, .port mailboxAddress 0]
  have hports : ((Memory.ram Z80.portSpace).mapPort mailboxPort 0).InstanceOf
      ((Memory.ram Z80.portSpace).mapPort mailboxPort 0) :=
    Memory.instanceOf_build Z80.portSpace 1 [.ram 0 Z80.portSpace, .port mailboxPort 0]
  exact ⟨rfl, .cons ⟨rfl, .mos6502 hmem, rfl⟩ (.cons ⟨rfl, .z80 h hports, rfl⟩ .nil), rfl⟩

theorem cores_dualWith (mem : Memory) :
    (dualWith mem).core? 0 = some (.mos6502 (Mos6502.powerOn
        ((Memory.ram addressSpace).mapPort mailboxAddress 0) oneLatch)) ∧
      (dualWith mem).core? 1 = some (.z80 (Z80.powerOn mem
        ((Memory.ram Z80.portSpace).mapPort mailboxPort 0) oneLatch)) := ⟨rfl, rfl⟩

/-- A Z80 that writes to the mailbox can change places with a 6502 that does not use it. -/
theorem dual_run_comm_of_out :
    let sys := dualWith (Memory.holding addressSpace 0 [0xd3, 0x01])
    ∃ z, sys.core? 1 = some (.z80 z) ∧ (∃ port ∈ z.port?, port.toNat = mailboxPort) ∧
      sys.run [.processor 0, .processor 1] = sys.run [.processor 1, .processor 0] := by
  intro sys
  obtain ⟨s, z, hs, hz, hcomm⟩ :=
    dual_run_comm (instanceOf_dualWith (Memory.instanceOf_holding addressSpace 0 [0xd3, 0x01]))
  obtain ⟨hcpu, hz80⟩ := cores_dualWith (Memory.holding addressSpace 0 [0xd3, 0x01])
  obtain rfl := Core.mos6502.inj (Option.some.inj (hs.symm.trans hcpu))
  obtain rfl := Core.z80.inj (Option.some.inj (hz.symm.trans hz80))
  have hholds {k : Nat} (hk : k < [0xd3, 0x01].length) :
      (Memory.holding addressSpace 0 [0xd3, 0x01]).read oneLatch k = [0xd3, 0x01][k] := by
    have h : (Memory.holding addressSpace 0 [0xd3, 0x01]).read oneLatch (0 + k) =
      [0xd3, 0x01][k] := Memory.read_holding (by decide) oneLatch hk
    rwa [Nat.zero_add] at h
  refine ⟨_, hz, ⟨0x01, ?_, rfl⟩, hcomm (.inl ?_)⟩
  · exact Z80.port?_powerOn (hholds (by decide)) (hholds (by decide)) _
  · have hread : ((Memory.ram addressSpace).mapPort mailboxAddress 0).read oneLatch
        (0 : UInt16).toNat = 0 := Memory.read_mapPort_ram (by decide) (by decide) oneLatch
    rw [Mos6502.accesses_powerOn hread]
    simp [mailboxAddress]

end System

end EightBit
